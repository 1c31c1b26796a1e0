import RustKernel.Net.Tcp.Segment

/-!
# RustKernel.Net.Ipv4

IPv4 packets. The parser reads the total length but takes everything behind the header as payload;
the builder writes a header without options.
-/

namespace RustKernel.Net

open Tcp
open Lib (beEncode length_beEncode)

structure Ipv4Packet where
  version : UInt8
  headerLen : UInt8
  totalLen : UInt16
  protocol : UInt8
  src : Ipv4Addr
  dst : Ipv4Addr
  payload : List UInt8
  deriving DecidableEq, Repr

/-- `checksum` of the header. -/
def ipChecksum (data : List UInt8) : UInt16 :=
  ~~~(UInt16.ofNat (foldCarries (wordSum data % 2 ^ 32)))

/-- The four bytes at `off`. -/
def ipAt (data : List UInt8) (off : Nat) : Ipv4Addr :=
  ⟨data.getD off 0, data.getD (off + 1) 0, data.getD (off + 2) 0, data.getD (off + 3) 0⟩

def Ipv4Packet.parse (data : List UInt8) : Option Ipv4Packet :=
  if data.length < 20 then none
  else
    let versionIhl := data.getD 0 0
    let headerLen := (versionIhl &&& 0x0F) * 4
    if data.length < headerLen.toNat then none
    else some {
      version := versionIhl >>> 4
      headerLen
      totalLen := u16At data 2
      protocol := data.getD 9 0
      src := ipAt data 12
      dst := ipAt data 16
      payload := data.drop headerLen.toNat }

/-- The bytes of a header, with the given checksum field. -/
def headerBytes (src dst : Ipv4Addr) (protocol : UInt8) (totalLen cksum : UInt16) : List UInt8 :=
  [0x45, 0] ++ beEncode 2 totalLen.toNat ++ [0, 0, 0, 0, 64, protocol] ++ beEncode 2 cksum.toNat ++
    [src.a, src.b, src.c, src.d, dst.a, dst.b, dst.c, dst.d]

/-- Build a header into a buffer of `outLen` bytes, with the checksum over the header filled in. -/
def Ipv4Packet.build (src dst : Ipv4Addr) (protocol : UInt8) (payloadLen : UInt16) (outLen : Nat) :
    Option (List UInt8) :=
  if outLen < 20 then none
  else
    let totalLen := 20 + payloadLen
    let cksum := ipChecksum (headerBytes src dst protocol totalLen 0)
    some (headerBytes src dst protocol totalLen cksum)

theorem length_headerBytes (src dst : Ipv4Addr) (protocol : UInt8) (totalLen cksum : UInt16) :
    (headerBytes src dst protocol totalLen cksum).length = 20 := by
  simp only [headerBytes, List.length_append, List.length_cons, List.length_nil, length_beEncode]

/-- All that follows the header is taken as payload. -/
theorem parse_headerBytes (src dst : Ipv4Addr) (protocol : UInt8) (totalLen cksum : UInt16)
    (rest : List UInt8) :
    Ipv4Packet.parse (headerBytes src dst protocol totalLen cksum ++ rest) =
      some ⟨4, 20, totalLen, protocol, src, dst, rest⟩ := by
  have hlen := length_headerBytes src dst protocol totalLen cksum
  have htotal := u16_ofNat_beDecode totalLen
  rw [Ipv4Packet.parse, if_neg (by rw [List.length_append]; omega)]
  simp only [headerBytes, u16At, ipAt, Lib.window, beEncode_two, List.cons_append,
    List.nil_append, List.getD_cons_succ, List.getD_cons_zero, List.drop_succ_cons, List.drop_zero,
    List.take_succ_cons, List.take_zero] at htotal ⊢
  rw [htotal]
  rfl

end RustKernel.Net
