import RustKernel.Lib.Endian

/-!
# RustKernel.Net.Tcp.Segment

TCP segments as the kernel puts them on the wire: the header record, its parser,
its builder and the Internet checksum over the pseudo header.

## Main result

`parse_build`: what `TcpHeader.build` writes, `TcpHeader.parse` reads back, field
by field and payload included, for every flag byte the module uses.
-/

namespace RustKernel.Net

open Lib

/-- An IPv4 address, `[u8; 4]` in the source. -/
structure Ipv4Addr where
  a : UInt8
  b : UInt8
  c : UInt8
  d : UInt8
  deriving DecidableEq, Repr

/-- The unspecified address `[0; 4]`. -/
def Ipv4Addr.unspecified : Ipv4Addr := ⟨0, 0, 0, 0⟩

/-- The two big-endian words of an address. -/
def Ipv4Addr.wordSum (ip : Ipv4Addr) : Nat :=
  (ip.a.toNat * 256 + ip.b.toNat) + (ip.c.toNat * 256 + ip.d.toNat)

namespace Tcp

/-! ### Constants -/

/-- Maximum segment size. -/
def MSS : Nat := 536

/-- The receive window every segment advertises. -/
def WINDOW : UInt16 := 8192

def FIN : UInt8 := 0x01
def SYN : UInt8 := 0x02
def RST : UInt8 := 0x04
def PSH : UInt8 := 0x08
def ACK : UInt8 := 0x10

/-- `flags & mask != 0`, the test the handlers make for a single flag. -/
def has (flags mask : UInt8) : Bool := flags &&& mask != 0

/-! ### Checksum -/

/-- The sum of the big-endian words of a byte string; a last odd byte is a high byte. -/
def wordSum : List UInt8 → Nat
  | a :: b :: rest => (a.toNat * 256 + b.toNat) + wordSum rest
  | [a] => a.toNat * 256
  | [] => 0

/-- `while sum >> 16 != 0 { sum = (sum & 0xFFFF) + (sum >> 16) }` -/
def foldCarries (sum : Nat) : Nat :=
  if sum / 2 ^ 16 = 0 then sum else foldCarries (sum % 2 ^ 16 + sum / 2 ^ 16)
termination_by sum
decreasing_by omega

/-- `tcp_checksum`: pseudo header and segment, summed in a `u32`. -/
def tcpChecksum (srcIp dstIp : Ipv4Addr) (segment : List UInt8) : UInt16 :=
  let sum := (srcIp.wordSum + dstIp.wordSum + 6 + segment.length + wordSum segment) % 2 ^ 32
  ~~~(UInt16.ofNat (foldCarries sum))

/-! ### Header -/

structure TcpHeader where
  srcPort : UInt16
  dstPort : UInt16
  seq : UInt32
  ack : UInt32
  dataOffset : UInt8
  flags : UInt8
  window : UInt16
  checksum : UInt16
  urgent : UInt16
  payload : List UInt8
  deriving DecidableEq, Repr

/-- `u16::from_be_bytes` of the two bytes at `off`. -/
def u16At (data : List UInt8) (off : Nat) : UInt16 := UInt16.ofNat (beDecode (window data off 2))

/-- `u32::from_be_bytes` of the four bytes at `off`. -/
def u32At (data : List UInt8) (off : Nat) : UInt32 := UInt32.ofNat (beDecode (window data off 4))

/-- Parse a TCP segment. `data` starts at the TCP header. -/
def TcpHeader.parse (data : List UInt8) : Option TcpHeader :=
  if data.length < 20 then none
  else
    let dataOffset : UInt8 := (data.getD 12 0 >>> 4) * 4
    if dataOffset < 20 ∨ data.length < dataOffset.toNat then none
    else some {
      srcPort := u16At data 0
      dstPort := u16At data 2
      seq := u32At data 4
      ack := u32At data 8
      dataOffset
      flags := data.getD 13 0 &&& 0x3F
      window := u16At data 14
      checksum := u16At data 16
      urgent := u16At data 18
      payload := data.drop dataOffset.toNat }

/-- The bytes of a segment with a 20-byte header and the given checksum field. -/
def segmentBytes (srcPort dstPort : UInt16) (seq ack : UInt32) (flags : UInt8)
    (window cksum : UInt16)
    (payload : List UInt8) : List UInt8 :=
  beEncode 2 srcPort.toNat ++ beEncode 2 dstPort.toNat ++ beEncode 4 seq.toNat ++
    beEncode 4 ack.toNat ++ [UInt8.ofNat (20 / 4) <<< 4, flags] ++ beEncode 2 window.toNat ++
    beEncode 2 cksum.toNat ++ [0, 0] ++ payload

/-- Build a TCP segment into a buffer of `outLen` bytes; the checksum is computed over
    the segment with a zero checksum field and then filled in. -/
def TcpHeader.build (srcPort dstPort : UInt16) (seq ack : UInt32) (flags : UInt8) (window : UInt16)
    (srcIp dstIp : Ipv4Addr) (payload : List UInt8) (outLen : Nat) : Option (List UInt8) :=
  if outLen < 20 + payload.length then none
  else
    let cksum := tcpChecksum srcIp dstIp
      (segmentBytes srcPort dstPort seq ack flags window 0 payload)
    some (segmentBytes srcPort dstPort seq ack flags window cksum payload)

/-! ### Round trip -/

theorem beEncode_two (n : Nat) : beEncode 2 n = [UInt8.ofNat (n / 256), UInt8.ofNat n] := by
  simp [beEncode, leEncode]

theorem beEncode_four (n : Nat) : beEncode 4 n =
    [UInt8.ofNat (n / 256 / 256 / 256), UInt8.ofNat (n / 256 / 256), UInt8.ofNat (n / 256),
      UInt8.ofNat n] := by
  simp [beEncode, leEncode]

theorem length_segmentBytes (srcPort dstPort : UInt16) (seq ack : UInt32) (flags : UInt8)
    (window cksum : UInt16) (payload : List UInt8) :
    (segmentBytes srcPort dstPort seq ack flags window cksum payload).length =
      20 + payload.length := by
  simp only [segmentBytes, List.length_append, length_beEncode, List.length_cons, List.length_nil]

theorem u16_ofNat_beDecode (x : UInt16) : UInt16.ofNat (beDecode (beEncode 2 x.toNat)) = x := by
  have hx := x.toNat_lt
  rw [beDecode_beEncode, Nat.mod_eq_of_lt (by omega)]
  exact UInt16.ofNat_toNat

theorem u32_ofNat_beDecode (x : UInt32) : UInt32.ofNat (beDecode (beEncode 4 x.toNat)) = x := by
  have hx := x.toNat_lt
  rw [beDecode_beEncode, Nat.mod_eq_of_lt (by omega)]
  exact UInt32.ofNat_toNat

/-- The header record that parsing recovers from `segmentBytes`. -/
def builtHeader (srcPort dstPort : UInt16) (seq ack : UInt32) (flags : UInt8)
    (window cksum : UInt16)
    (payload : List UInt8) : TcpHeader :=
  { srcPort, dstPort, seq, ack, dataOffset := 20, flags, window, checksum := cksum,
    urgent := 0, payload }

theorem parse_segmentBytes (srcPort dstPort : UInt16) (seq ack : UInt32) (flags : UInt8)
    (window cksum : UInt16) (payload : List UInt8) (hflags : flags &&& 0x3F = flags) :
    TcpHeader.parse (segmentBytes srcPort dstPort seq ack flags window cksum payload) =
      some (builtHeader srcPort dstPort seq ack flags window cksum payload) := by
  have hlen := length_segmentBytes srcPort dstPort seq ack flags window cksum payload
  have hoff : (UInt8.ofNat (20 / 4) <<< 4 >>> 4) * 4 = 20 := by decide
  have hsrc := u16_ofNat_beDecode srcPort
  have hdst := u16_ofNat_beDecode dstPort
  have hseq := u32_ofNat_beDecode seq
  have hack := u32_ofNat_beDecode ack
  have hwin := u16_ofNat_beDecode window
  have hck := u16_ofNat_beDecode cksum
  simp only [segmentBytes, beEncode_two, beEncode_four, List.cons_append, List.nil_append] at *
  rw [TcpHeader.parse, if_neg (by omega)]
  simp only [List.getD_cons_succ, List.getD_cons_zero, hoff, hflags]
  rw [if_neg (by simp)]
  simp only [u16At, u32At, Lib.window, List.drop_succ_cons, List.drop_zero, List.take_succ_cons,
    List.take_zero, hsrc, hdst, hseq, hack, hwin, hck, builtHeader]
  rfl

/-- What `build` writes, `parse` recovers. -/
theorem parse_build (srcPort dstPort : UInt16) (seq ack : UInt32) (flags : UInt8) (window : UInt16)
    (srcIp dstIp : Ipv4Addr) (payload : List UInt8) (outLen : Nat) (bytes : List UInt8)
    (hflags : flags &&& 0x3F = flags)
    (h : TcpHeader.build srcPort dstPort seq ack flags window srcIp dstIp payload outLen =
      some bytes) :
    ∃ cksum, TcpHeader.parse bytes =
      some (builtHeader srcPort dstPort seq ack flags window cksum payload) := by
  rw [TcpHeader.build] at h
  split at h
  · contradiction
  · obtain rfl := Option.some.inj h
    exact ⟨_, parse_segmentBytes _ _ _ _ _ _ _ _ hflags⟩

end Tcp

end RustKernel.Net
