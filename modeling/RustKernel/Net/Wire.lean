import RustKernel.Net.Encapsulation

/-!
# RustKernel.Net.Wire

Packets of a peer, with any header fields and options. `buildFrame` of `Encapsulation` makes the
packets of this kernel only, whose headers have no options.

## Main result

`IpFields.parse_bytes` and `TcpFields.parse_bytes`: both parsers read such a packet back, and take
the padding of the frame for data.
-/

namespace RustKernel.Net

open Tcp
open Lib (beEncode length_beEncode)

/-- The fields of an IPv4 header but the protocol, and its options. -/
structure IpFields where
  tos : UInt8
  totalLen : UInt16
  ident : UInt16
  fragment : UInt16
  ttl : UInt8
  cksum : UInt16
  src : Ipv4Addr
  dst : Ipv4Addr
  options : List UInt8
  words : 4 ∣ options.length ∧ options.length ≤ 40

/-- The fields of a TCP header, its options and its data. -/
structure TcpFields where
  srcPort : UInt16
  dstPort : UInt16
  seq : UInt32
  ack : UInt32
  flags : UInt8
  window : UInt16
  cksum : UInt16
  urgent : UInt16
  options : List UInt8
  payload : List UInt8
  words : 4 ∣ options.length ∧ options.length ≤ 40

/-- The length field of a header, in words of four bytes. -/
def headerWords (options : List UInt8) : UInt8 := UInt8.ofNat (5 + options.length / 4)

def IpFields.bytes (f : IpFields) (protocol : UInt8) : List UInt8 :=
  [0x40 ||| headerWords f.options, f.tos] ++ beEncode 2 f.totalLen.toNat ++
    beEncode 2 f.ident.toNat ++ beEncode 2 f.fragment.toNat ++ [f.ttl, protocol] ++
    beEncode 2 f.cksum.toNat ++
    [f.src.a, f.src.b, f.src.c, f.src.d, f.dst.a, f.dst.b, f.dst.c, f.dst.d] ++ f.options

def TcpFields.bytes (f : TcpFields) : List UInt8 :=
  beEncode 2 f.srcPort.toNat ++ beEncode 2 f.dstPort.toNat ++ beEncode 4 f.seq.toNat ++
    beEncode 4 f.ack.toNat ++ [headerWords f.options <<< 4, f.flags] ++
    beEncode 2 f.window.toNat ++ beEncode 2 f.cksum.toNat ++ beEncode 2 f.urgent.toNat ++
    f.options ++ f.payload

/-- The parsers read the length of the header in bytes from it. -/
private theorem headerWords_spec {options : List UInt8}
    (h : 4 ∣ options.length ∧ options.length ≤ 40) :
    (((0x40 ||| headerWords options) &&& 0x0F) * 4).toNat = 20 + options.length ∧
      ((headerWords options <<< 4 >>> 4) * 4).toNat = 20 + options.length := by
  obtain ⟨⟨k, hk⟩, hle⟩ := h
  have hall : ∀ k : Fin 11, (((0x40 ||| UInt8.ofNat (5 + k)) &&& 0x0F) * 4).toNat = 20 + 4 * k ∧
      ((UInt8.ofNat (5 + k) <<< 4 >>> 4) * 4).toNat = 20 + 4 * k := by decide
  have hdiv : options.length / 4 = k := by omega
  rw [headerWords, hdiv, hk]
  exact hall ⟨k, by omega⟩

theorem IpFields.length_bytes (f : IpFields) (protocol : UInt8) :
    (f.bytes protocol).length = 20 + f.options.length := by
  simp only [IpFields.bytes, List.length_append, List.length_cons, List.length_nil, length_beEncode]

theorem IpFields.parse_bytes (f : IpFields) (protocol : UInt8) (rest : List UInt8) :
    ∃ ip, Ipv4Packet.parse (f.bytes protocol ++ rest) = some ip ∧ ip.protocol = protocol ∧
      ip.src = f.src ∧ ip.dst = f.dst ∧ ip.payload = rest := by
  have hlen := f.length_bytes protocol
  have hwords : (((f.bytes protocol ++ rest).getD 0 0 &&& 0x0F) * 4).toNat =
      (f.bytes protocol).length := by
    rw [hlen]
    exact (headerWords_spec f.words).1
  rw [Ipv4Packet.parse, if_neg (by rw [List.length_append]; omega)]
  dsimp only
  rw [hwords, if_neg (by rw [List.length_append]; omega)]
  refine ⟨_, rfl, ?_, ?_, ?_, List.drop_left' rfl⟩
  · simp [IpFields.bytes, beEncode_two]
  · simp [IpFields.bytes, beEncode_two, ipAt]
  · simp [IpFields.bytes, beEncode_two, ipAt]

/-- What the receiver gets for the segment, with padding behind its data. -/
def TcpFields.header (f : TcpFields) (pad : List UInt8) : TcpHeader where
  srcPort := f.srcPort
  dstPort := f.dstPort
  seq := f.seq
  ack := f.ack
  dataOffset := (headerWords f.options <<< 4 >>> 4) * 4
  flags := f.flags &&& 0x3F
  window := f.window
  checksum := f.cksum
  urgent := f.urgent
  payload := f.payload ++ pad

theorem TcpFields.length_bytes (f : TcpFields) :
    f.bytes.length = 20 + f.options.length + f.payload.length := by
  simp only [TcpFields.bytes, List.length_append, List.length_cons, List.length_nil,
    length_beEncode]

theorem TcpFields.parse_bytes (f : TcpFields) (pad : List UInt8) :
    TcpHeader.parse (f.bytes ++ pad) = some (f.header pad) := by
  have hlen := f.length_bytes
  have hwords := (headerWords_spec f.words).2
  have hsrc := u16_ofNat_beDecode f.srcPort
  have hdst := u16_ofNat_beDecode f.dstPort
  have hseq := u32_ofNat_beDecode f.seq
  have hack := u32_ofNat_beDecode f.ack
  have hwin := u16_ofNat_beDecode f.window
  have hck := u16_ofNat_beDecode f.cksum
  have hurg := u16_ofNat_beDecode f.urgent
  have hdrop : (f.bytes ++ pad).drop ((headerWords f.options <<< 4 >>> 4) * 4).toNat =
      f.payload ++ pad := by
    rw [hwords, TcpFields.bytes, List.append_assoc]
    apply List.drop_left'
    simp only [List.length_append, List.length_cons, List.length_nil, length_beEncode]
  have hoff : (f.bytes ++ pad).getD 12 0 = headerWords f.options <<< 4 := by
    simp [TcpFields.bytes, beEncode_two, beEncode_four]
  -- a header ends behind its fixed part and within the segment
  have hwhole : ¬((headerWords f.options <<< 4 >>> 4) * 4 < 20 ∨
      (f.bytes ++ pad).length < ((headerWords f.options <<< 4 >>> 4) * 4).toNat) := by
    rw [UInt8.lt_iff_toNat_lt, hwords, List.length_append]
    simp
    omega
  rw [TcpHeader.parse, if_neg (by rw [List.length_append]; omega)]
  dsimp only
  rw [hoff, hdrop, if_neg hwhole]
  simp only [TcpFields.bytes, u16At, u32At, Lib.window, beEncode_two, beEncode_four,
    List.cons_append, List.nil_append, List.getD_cons_succ, List.getD_cons_zero,
    List.drop_succ_cons, List.drop_zero, List.take_succ_cons, List.take_zero]
    at hsrc hdst hseq hack hwin hck hurg ⊢
  rw [hsrc, hdst, hseq, hack, hwin, hck, hurg]
  rfl

end RustKernel.Net
