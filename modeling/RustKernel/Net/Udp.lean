import RustKernel.Net.Tcp.Segment

/-!
# RustKernel.Net.Udp

UDP datagrams: the parser reads the length but takes everything behind the header as payload, and
the builder writes no checksum.
-/

namespace RustKernel.Net

open Tcp
open Lib (beEncode length_beEncode)

structure UdpHeader where
  srcPort : UInt16
  dstPort : UInt16
  length : UInt16
  payload : List UInt8
  deriving DecidableEq, Repr

def UdpHeader.parse (data : List UInt8) : Option UdpHeader :=
  if data.length < 8 then none
  else some {
    srcPort := u16At data 0
    dstPort := u16At data 2
    length := u16At data 4
    payload := data.drop 8 }

/-- The bytes of a datagram. -/
def datagramBytes (srcPort dstPort : UInt16) (payload : List UInt8) : List UInt8 :=
  beEncode 2 srcPort.toNat ++ beEncode 2 dstPort.toNat ++
    beEncode 2 (UInt16.ofNat (8 + payload.length)).toNat ++ [0, 0] ++ payload

/-- Build a datagram into a buffer of `outLen` bytes. -/
def UdpHeader.build (srcPort dstPort : UInt16) (payload : List UInt8) (outLen : Nat) :
    Option (List UInt8) :=
  if outLen < 8 + payload.length then none else some (datagramBytes srcPort dstPort payload)

theorem length_datagramBytes (srcPort dstPort : UInt16) (payload : List UInt8) :
    (datagramBytes srcPort dstPort payload).length = 8 + payload.length := by
  simp only [datagramBytes, List.length_append, length_beEncode, List.length_cons, List.length_nil]

/-- What was built is recovered. -/
theorem parse_datagramBytes (srcPort dstPort : UInt16) (payload : List UInt8) :
    UdpHeader.parse (datagramBytes srcPort dstPort payload) =
      some ⟨srcPort, dstPort, UInt16.ofNat (8 + payload.length), payload⟩ := by
  have hlen := length_datagramBytes srcPort dstPort payload
  have hsrc := u16_ofNat_beDecode srcPort
  have hdst := u16_ofNat_beDecode dstPort
  have hlength := u16_ofNat_beDecode (UInt16.ofNat (8 + payload.length))
  rw [UdpHeader.parse, if_neg (by omega)]
  simp only [datagramBytes, u16At, Lib.window, beEncode_two, List.cons_append, List.nil_append,
    List.drop_succ_cons, List.drop_zero, List.take_succ_cons, List.take_zero] at hsrc hdst hlength ⊢
  rw [hsrc, hdst, hlength]

end RustKernel.Net
