import RustKernel.Net.Tcp.Segment

/-!
# RustKernel.Net.Ethernet

Ethernet frames: the parser, which accepts frames of at least 60 bytes, and the builder, which does
not pad.
-/

namespace RustKernel.Net

open Tcp
open Lib (beEncode length_beEncode)

/-- A hardware address, `[u8; 6]` in the source. -/
structure MacAddr where
  a : UInt8
  b : UInt8
  c : UInt8
  d : UInt8
  e : UInt8
  f : UInt8
  deriving DecidableEq, Repr

def MacAddr.bytes (mac : MacAddr) : List UInt8 := [mac.a, mac.b, mac.c, mac.d, mac.e, mac.f]

def ETHERTYPE_IPV4 : UInt16 := 0x0800
def ETHERTYPE_ARP : UInt16 := 0x0806

structure EthernetFrame where
  dst : MacAddr
  src : MacAddr
  ethertype : UInt16
  payload : List UInt8
  deriving DecidableEq, Repr

/-- The six bytes at `off`. -/
def macAt (data : List UInt8) (off : Nat) : MacAddr :=
  ⟨data.getD off 0, data.getD (off + 1) 0, data.getD (off + 2) 0, data.getD (off + 3) 0,
    data.getD (off + 4) 0, data.getD (off + 5) 0⟩

def EthernetFrame.parse (data : List UInt8) : Option EthernetFrame :=
  if data.length < 60 then none
  else some {
    dst := macAt data 0
    src := macAt data 6
    ethertype := u16At data 12
    payload := data.drop 14 }

/-- The bytes of a frame. -/
def frameBytes (dst src : MacAddr) (ethertype : UInt16) (payload : List UInt8) : List UInt8 :=
  dst.bytes ++ src.bytes ++ beEncode 2 ethertype.toNat ++ payload

/-- Build a frame into a buffer of `outLen` bytes. -/
def EthernetFrame.build (dst src : MacAddr) (ethertype : UInt16) (payload : List UInt8)
    (outLen : Nat) : Option (List UInt8) :=
  if outLen < 14 + payload.length then none else some (frameBytes dst src ethertype payload)

theorem length_frameBytes (dst src : MacAddr) (ethertype : UInt16) (payload : List UInt8) :
    (frameBytes dst src ethertype payload).length = 14 + payload.length := by
  simp only [frameBytes, MacAddr.bytes, List.length_append, List.length_cons, List.length_nil,
    length_beEncode]

/-- A frame that is long enough is recovered. -/
theorem parse_frameBytes (dst src : MacAddr) (ethertype : UInt16) (payload : List UInt8)
    (h : 46 ≤ payload.length) :
    EthernetFrame.parse (frameBytes dst src ethertype payload) =
      some ⟨dst, src, ethertype, payload⟩ := by
  have hlen := length_frameBytes dst src ethertype payload
  have htype := u16_ofNat_beDecode ethertype
  rw [EthernetFrame.parse, if_neg (by omega)]
  simp only [frameBytes, MacAddr.bytes, macAt, u16At, Lib.window, beEncode_two, List.cons_append,
    List.nil_append, List.getD_cons_succ, List.getD_cons_zero, List.drop_succ_cons, List.drop_zero,
    List.take_succ_cons, List.take_zero] at htype ⊢
  rw [htype]

end RustKernel.Net
