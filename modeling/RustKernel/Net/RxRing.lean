import RustKernel.Lib.Endian
import RustKernel.Lib.Ring
import RustKernel.Lib.Run

/-!
# RustKernel.Net.RxRing

The receive ring of the network card: the card appends packets behind its write offset `CBR`, and
`poll_rx` takes them from its read offset `CAPR` on.

## Main result

`rx_in_order`: as long as no packet that `poll_rx` takes reaches beyond the end of the ring, the
frames returned are the first ones appended, in order and unaltered, and `CAPR = CBR` when all have
been returned. A packet that ends at the end of the ring is in order too.

`poll_rx` follows a packet across the end of the ring, but then it goes on at offset 0 and not
behind the packet (`wrap_desynchronises`).

## Proof strategy

`Rx.Inv` keeps the bytes of the unread packets one after the other from `CAPR` on, modulo the size
of the ring. `Rx.Inv.poll` says what a poll does to such a ring, whether or not the packet wraps.
-/

namespace RustKernel.Net.RxRing

open Lib

def RX_BUF_SIZE : Nat := 8192 + 16

/-- Rounded up to a multiple of 4: `(n + 3) & !3`. -/
def align4 (n : Nat) : Nat := (n + 3) / 4 * 4

/-! ### `poll_rx` -/

/-- `rx_volatile_u16`, at an offset into the ring. -/
def rxVolatileU16 (buf : Nat → UInt8) (off : Nat) : Nat :=
  if off + 1 ≥ RX_BUF_SIZE then 0 else leDecode [buf off, buf (off + 1)]

/-- The copy loops of `poll_rx`. -/
def copyData (buf : Nat → UInt8) (dataStart actualSize : Nat) : List UInt8 :=
  if dataStart + actualSize ≤ RX_BUF_SIZE then
    (List.range actualSize).map fun i => buf (dataStart + i)
  else
    let first := RX_BUF_SIZE - dataStart
    (List.range first).map (fun i => buf (dataStart + i)) ++ (List.range (actualSize - first)).map buf

/-- `poll_rx`: the frame, and the new `CAPR`. -/
def pollRx (buf : Nat → UInt8) (capr cbr : Nat) : Option (List UInt8) × Nat :=
  if capr = cbr then (none, capr)
  else
    let pktSize := rxVolatileU16 buf (capr + 2)
    if pktSize < 4 ∨ 1518 + 4 < pktSize then (none, cbr)
    else
      let data := copyData buf (capr + 4) (pktSize - 4)
      let next := align4 (capr + 4 + pktSize)
      (some data, if next ≥ RX_BUF_SIZE then 0 else next)

/-! ### The card -/

structure Packet where
  status : UInt16
  frame : List UInt8
  crc : UInt32
  length_le : frame.length ≤ 1518

/-- What the card writes: a header of status and size, the frame, the checksum. -/
def Packet.bytes (p : Packet) : List UInt8 :=
  leEncode 2 p.status.toNat ++ leEncode 2 (p.frame.length + 4) ++ p.frame ++ leEncode 4 p.crc.toNat

/-- What the packet occupies in the ring. -/
def Packet.size (p : Packet) : Nat := align4 (p.frame.length + 8)

/-- The ring, both offsets, the packets appended and the frames returned so far. -/
structure Rx where
  buf : Nat → UInt8
  capr : Nat
  cbr : Nat
  appended : List Packet
  returned : List (List UInt8)

def Rx.start (buf : Nat → UInt8) : Rx := ⟨buf, 0, 0, [], []⟩

def Rx.unread (s : Rx) : List Packet := s.appended.drop s.returned.length

/-- The card stores a packet, unless it would overrun unread data. -/
def Rx.append (s : Rx) (p : Packet) : Rx :=
  if (s.unread.map Packet.size).sum + p.size ≤ RX_BUF_SIZE then
    { s with
      buf := ringWrite s.buf RX_BUF_SIZE s.cbr p.bytes
      cbr := align4 (s.cbr + p.bytes.length) % RX_BUF_SIZE
      appended := s.appended ++ [p] }
  else s

def Rx.poll (s : Rx) : Rx :=
  let (data, capr) := pollRx s.buf s.capr s.cbr
  { s with capr := capr, returned := s.returned ++ data.toList }

inductive Event where
  | append (p : Packet)
  | poll

def Rx.step (s : Rx) : Event → Rx
  | .append p => s.append p
  | .poll => s.poll

/-- The frames returned are the first ones appended, and the offsets agree when these are all. -/
def Rx.InOrder (s : Rx) : Prop :=
  s.returned <+: s.appended.map Packet.frame ∧
    (s.returned.length = s.appended.length → s.capr = s.cbr)

/-- The packet that a poll takes ends within the ring. -/
def WithinRing (s : Rx) : Event → Prop
  | .append _ => True
  | .poll => s.capr ≠ s.cbr → ∀ p ∈ s.unread.head?, s.capr + p.size ≤ RX_BUF_SIZE

/-! ### Packets in the ring -/

/-- The bytes of the packets, one packet after the other from `off` on. -/
def Stored (buf : Nat → UInt8) : Nat → List Packet → Prop
  | _, [] => True
  | off, p :: ps =>
    ringRead buf RX_BUF_SIZE off p.bytes.length = p.bytes ∧ Stored buf (off + p.size) ps

variable {buf : Nat → UInt8} {off : Nat} {p : Packet} {ps : List Packet}

theorem Packet.length_bytes (p : Packet) : p.bytes.length = p.frame.length + 8 := by
  simp only [Packet.bytes, List.length_append, length_leEncode]
  omega

private theorem Packet.length_bytes_le (p : Packet) : p.bytes.length ≤ p.size := by
  rw [p.length_bytes, Packet.size, align4]
  omega

/-- Only the offset modulo the size of the ring matters. -/
theorem Stored.congr {off' : Nat} (h : Stored buf off ps)
    (hoff : off % RX_BUF_SIZE = off' % RX_BUF_SIZE) : Stored buf off' ps := by
  induction ps generalizing off off' with
  | nil => trivial
  | cons p ps ih =>
    constructor
    · rw [← ringRead_mod, ← hoff, ringRead_mod]
      exact h.1
    · apply ih h.2
      rw [Nat.add_mod, hoff, ← Nat.add_mod]

/-- A packet is stored behind the others. -/
theorem Stored.append (h : Stored buf off ps)
    (hroom : (ps.map Packet.size).sum + p.size ≤ RX_BUF_SIZE) :
    Stored (ringWrite buf RX_BUF_SIZE (off + (ps.map Packet.size).sum) p.bytes) off (ps ++ [p]) := by
  have hp := p.length_bytes_le
  induction ps generalizing off with
  | nil =>
    constructor
    · exact ringRead_write _ (by simp at hroom; omega)
    · trivial
  | cons q qs ih =>
    simp only [List.map_cons, List.sum_cons] at hroom ⊢
    have hq := q.length_bytes_le
    constructor
    · rw [ringRead_write_apart _ _ (by omega) (by omega)]
      exact h.1
    · have hrest := ih h.2 (by omega)
      rwa [Nat.add_assoc] at hrest

/-- The size field of a stored packet. -/
private theorem rxVolatileU16_of_stored (h : ringRead buf RX_BUF_SIZE off p.bytes.length = p.bytes)
    (hoff : off + 4 ≤ RX_BUF_SIZE) : rxVolatileU16 buf (off + 2) = p.frame.length + 4 := by
  have hread : ringRead buf RX_BUF_SIZE (off + 2) 2 = leEncode 2 (p.frame.length + 4) := by
    rw [ringRead_part h (by rw [p.length_bytes]; omega), Packet.bytes]
    simp [List.append_assoc]
  rw [ringRead_linear (by omega)] at hread
  have hlen := p.length_le
  rw [rxVolatileU16, if_neg (by omega)]
  rw [show [buf (off + 2), buf (off + 2 + 1)] = (List.range 2).map fun i => buf (off + 2 + i) from
    rfl, hread, leDecode_leEncode, Nat.mod_eq_of_lt]
  omega

/-- The copy loops read a frame across the end of the ring. -/
private theorem copyData_eq {len : Nat} (hoff : off ≤ RX_BUF_SIZE) (hlen : len ≤ RX_BUF_SIZE) :
    copyData buf off len = ringRead buf RX_BUF_SIZE off len := by
  rw [copyData]
  split
  case isTrue h => exact (ringRead_linear h).symm
  case isFalse h =>
    have hsplit : len = (RX_BUF_SIZE - off) + (len - (RX_BUF_SIZE - off)) := by omega
    have hend : ringRead buf RX_BUF_SIZE (off + (RX_BUF_SIZE - off)) (len - (RX_BUF_SIZE - off)) =
        (List.range (len - (RX_BUF_SIZE - off))).map buf := by
      rw [← ringRead_mod, show off + (RX_BUF_SIZE - off) = RX_BUF_SIZE by omega, Nat.mod_self,
        ringRead_linear (by omega)]
      simp only [Nat.zero_add]
    rw [show ringRead buf RX_BUF_SIZE off len =
      ringRead buf RX_BUF_SIZE off ((RX_BUF_SIZE - off) + (len - (RX_BUF_SIZE - off))) by
        rw [← hsplit], ringRead_add, ringRead_linear (by omega), hend]

/-- The frame of a stored packet. -/
private theorem ringRead_frame (h : ringRead buf RX_BUF_SIZE off p.bytes.length = p.bytes) :
    ringRead buf RX_BUF_SIZE (off + 4) p.frame.length = p.frame := by
  rw [ringRead_part h (by rw [p.length_bytes]; omega), Packet.bytes]
  simp [List.append_assoc, List.drop_append, List.take_append]

/-! ### The invariant -/

structure Rx.Inv (s : Rx) : Prop where
  capr_lt : s.capr < RX_BUF_SIZE
  capr_aligned : s.capr % 4 = 0
  cbr_eq : s.cbr = (s.capr + (s.unread.map Packet.size).sum) % RX_BUF_SIZE
  returned_eq : s.returned = (s.appended.take s.returned.length).map Packet.frame
  stored : Stored s.buf s.capr s.unread

variable {s : Rx}

private theorem Packet.size_aligned (p : Packet) : p.size % 4 = 0 := by
  rw [Packet.size, align4]
  omega

private theorem sum_size_aligned (ps : List Packet) : (ps.map Packet.size).sum % 4 = 0 := by
  induction ps with
  | nil => rfl
  | cons p ps ih =>
    have hp := p.size_aligned
    rw [List.map_cons, List.sum_cons]
    omega

private theorem align4_add {off n : Nat} (h : off % 4 = 0) : align4 (off + n) = off + align4 n := by
  rw [align4, align4]
  omega

theorem Rx.Inv.start (buf : Nat → UInt8) : (Rx.start buf).Inv where
  capr_lt := show 0 < RX_BUF_SIZE by decide
  capr_aligned := rfl
  cbr_eq := rfl
  returned_eq := rfl
  stored := trivial

theorem Rx.Inv.returned_le (h : s.Inv) : s.returned.length ≤ s.appended.length := by
  have hlen := congrArg List.length h.returned_eq
  rw [List.length_map, List.length_take] at hlen
  omega

private theorem Rx.Inv.inOrder (h : s.Inv) : s.InOrder := by
  constructor
  · rw [h.returned_eq, List.map_take]
    exact List.take_prefix _ _
  · intro hall
    have hnone : s.unread = [] := by
      rw [Rx.unread, hall, List.drop_length]
    rw [h.cbr_eq, hnone]
    exact (Nat.mod_eq_of_lt h.capr_lt).symm

theorem Rx.Inv.append (h : s.Inv) (p : Packet) : (s.append p).Inv := by
  rw [Rx.append]
  split
  case isFalse => exact h
  case isTrue hroom =>
    have hunread : (s.appended ++ [p]).drop s.returned.length = s.unread ++ [p] :=
      List.drop_append_of_le_length h.returned_le
    refine
      { capr_lt := h.capr_lt, capr_aligned := h.capr_aligned, cbr_eq := ?_, returned_eq := ?_
        stored := ?_ }
    · -- the write position stays aligned, as all sizes are
      have hcbr : s.cbr % 4 = 0 := by
        have hsum := sum_size_aligned s.unread
        have hcapr := h.capr_aligned
        rw [h.cbr_eq, RX_BUF_SIZE]
        omega
      show align4 (s.cbr + p.bytes.length) % RX_BUF_SIZE = (s.capr +
        (((s.appended ++ [p]).drop s.returned.length).map Packet.size).sum) % RX_BUF_SIZE
      rw [hunread, align4_add hcbr, p.length_bytes, List.map_append, List.sum_append,
        ← Nat.add_assoc, h.cbr_eq, Nat.mod_add_mod, List.map_singleton, List.sum_singleton]
      rfl
    · show s.returned = _
      rw [List.take_append_of_le_length h.returned_le]
      exact h.returned_eq
    · show Stored (ringWrite s.buf RX_BUF_SIZE s.cbr p.bytes) s.capr
        ((s.appended ++ [p]).drop s.returned.length)
      -- the new packet is stored behind the unread ones
      rw [hunread, h.cbr_eq, ringWrite_mod]
      exact h.stored.append hroom

/-- A poll of a ring with unread packets, across the end of the ring too. -/
theorem Rx.Inv.poll_eq (h : s.Inv) (hne : s.capr ≠ s.cbr) {ps : List Packet}
    (hunread : s.unread = p :: ps) :
    s.poll = { s with
      capr := if s.capr + p.size ≥ RX_BUF_SIZE then 0 else s.capr + p.size
      returned := s.returned ++ [p.frame] } := by
  obtain ⟨hcapr, haligned⟩ := And.intro h.capr_lt h.capr_aligned
  have hoff : s.capr + 4 ≤ RX_BUF_SIZE := by
    rw [RX_BUF_SIZE] at hcapr ⊢
    omega
  have hstored := h.stored
  rw [hunread] at hstored
  have hlen := p.length_le
  have hsize := rxVolatileU16_of_stored hstored.1 hoff
  have hdata : copyData s.buf (s.capr + 4) p.frame.length = p.frame := by
    rw [copyData_eq hoff (by rw [RX_BUF_SIZE]; omega), ringRead_frame hstored.1]
  have hnext : align4 (s.capr + 4 + (p.frame.length + 4)) = s.capr + p.size := by
    rw [show s.capr + 4 + (p.frame.length + 4) = s.capr + (p.frame.length + 8) by omega,
      align4_add haligned]
    rfl
  rw [Rx.poll, pollRx, if_neg hne, hsize, if_neg (by omega)]
  simp only [Nat.add_sub_cancel, hdata, hnext, Option.toList_some]

theorem Rx.Inv.poll (h : s.Inv) (hguard : WithinRing s .poll) : s.poll.Inv := by
  by_cases hne : s.capr = s.cbr
  · have hpoll : s.poll = s := by
      simp only [Rx.poll, pollRx, if_pos hne, Option.toList_none, List.append_nil]
    rw [hpoll]
    exact h
  · cases hunread : s.unread with
    | nil =>
      -- without unread packets the offsets agree
      have hcbr := h.cbr_eq
      rw [hunread, List.map_nil, List.sum_nil, Nat.add_zero, Nat.mod_eq_of_lt h.capr_lt] at hcbr
      exact absurd hcbr.symm hne
    | cons p ps =>
      have hend : s.capr + p.size ≤ RX_BUF_SIZE :=
        hguard hne p (by rw [hunread]; exact rfl)
      have hwrap : (if s.capr + p.size ≥ RX_BUF_SIZE then 0 else s.capr + p.size) =
          (s.capr + p.size) % RX_BUF_SIZE := by
        split
        case isTrue hge => rw [show s.capr + p.size = RX_BUF_SIZE by omega, Nat.mod_self]
        case isFalse hlt => exact (Nat.mod_eq_of_lt (by omega)).symm
      have hget : s.appended[s.returned.length]? = some p := by
        rw [← List.head?_drop, ← Rx.unread, hunread, List.head?_cons]
      have hrest : s.appended.drop (s.returned.length + 1) = ps := by
        rw [← List.tail_drop, ← Rx.unread, hunread, List.tail_cons]
      have hstored := h.stored
      rw [hunread] at hstored
      rw [h.poll_eq hne hunread, hwrap]
      refine
        { capr_lt := Nat.mod_lt _ (by decide), capr_aligned := ?_, cbr_eq := ?_
          returned_eq := ?_, stored := ?_ }
      · have hp := p.size_aligned
        have hcapr := h.capr_aligned
        show (s.capr + p.size) % RX_BUF_SIZE % 4 = 0
        rw [RX_BUF_SIZE]
        omega
      · show s.cbr = ((s.capr + p.size) % RX_BUF_SIZE +
          ((s.appended.drop (s.returned ++ [p.frame]).length).map Packet.size).sum) % RX_BUF_SIZE
        rw [List.length_append, List.length_singleton, hrest, h.cbr_eq, hunread, List.map_cons,
          List.sum_cons, Nat.mod_add_mod, Nat.add_assoc]
      · show s.returned ++ [p.frame] = _
        rw [List.length_append, List.length_singleton, List.take_add_one, hget,
          Option.toList_some, List.map_append, ← h.returned_eq]
        rfl
      · show Stored s.buf ((s.capr + p.size) % RX_BUF_SIZE)
          (s.appended.drop (s.returned ++ [p.frame]).length)
        rw [List.length_append, List.length_singleton, hrest]
        exact hstored.2.congr (Nat.mod_mod _ _).symm

/-! ### Frames in order -/

theorem rx_in_order (buf : Nat → UInt8) (es : List Event)
    (hguard : ∀ q ∈ steps Rx.step (.start buf) es, WithinRing q.1 q.2) :
    ∀ s ∈ states Rx.step (.start buf) es, s.InOrder := by
  intro s hs
  refine (invariant_states Rx.step Rx.Inv WithinRing ?_ _ es (.start buf) hguard s hs).inOrder
  intro s e h hwithin
  cases e with
  | append p => exact h.append p
  | poll => exact h.poll hwithin

/-- A small packet arrives and is returned. -/
theorem rx_in_order_one_packet :
    (∀ q ∈ steps Rx.step (.start fun _ => 0) [.append ⟨1, [7, 8, 9], 0, by decide⟩, .poll],
        WithinRing q.1 q.2) ∧
      ∀ s ∈ states Rx.step (.start fun _ => 0) [.append ⟨1, [7, 8, 9], 0, by decide⟩, .poll],
        s.InOrder := by
  have hguard : ∀ q ∈ steps Rx.step (.start fun _ => 0)
      [.append ⟨1, [7, 8, 9], 0, by decide⟩, .poll], WithinRing q.1 q.2 := by
    intro q hq
    rcases List.mem_cons.mp hq with rfl | hq
    · trivial
    · obtain rfl := List.mem_singleton.mp hq
      intro _ p hp
      obtain rfl : p = ⟨1, [7, 8, 9], 0, by decide⟩ := (Option.some.inj hp).symm
      show 0 + Packet.size _ ≤ RX_BUF_SIZE
      decide
  exact ⟨hguard, rx_in_order _ _ hguard⟩

/-! ### A packet across the end of the ring -/

/-- All packets were returned, `n` of them, and the read offset is `c`. -/
structure Rx.Drained (s : Rx) (c n : Nat) : Prop where
  inv : s.Inv
  capr_eq : s.capr = c
  appended_eq : s.appended.length = n
  returned_eq : s.returned.length = n

theorem Rx.Drained.append {c n : Nat} (h : s.Drained c n) (p : Packet) :
    (s.append p).unread = [p] ∧ (s.append p).capr = c ∧
      (s.append p).cbr = (c + p.size) % RX_BUF_SIZE ∧
      (s.append p).appended.length = n + 1 ∧ (s.append p).returned.length = n := by
  have hlen := p.length_le
  have hnone : s.unread = [] := by
    rw [Rx.unread, h.returned_eq, ← h.appended_eq, List.drop_length]
  have hroom : (s.unread.map Packet.size).sum + p.size ≤ RX_BUF_SIZE := by
    rw [hnone, List.map_nil, List.sum_nil, Packet.size, align4, RX_BUF_SIZE]
    omega
  have happend : (s.append p).appended = s.appended ++ [p] ∧
      (s.append p).returned = s.returned ∧ (s.append p).capr = s.capr := by
    rw [Rx.append, if_pos hroom]
    exact ⟨rfl, rfl, rfl⟩
  obtain ⟨happended, hreturned, hcapr⟩ := happend
  have hunread : (s.append p).unread = [p] := by
    rw [Rx.unread, happended, hreturned, List.drop_append_of_le_length h.inv.returned_le,
      ← Rx.unread, hnone, List.nil_append]
  refine ⟨hunread, hcapr.trans h.capr_eq, ?_, ?_, ?_⟩
  · rw [(h.inv.append p).cbr_eq, hunread, hcapr, h.capr_eq, List.map_singleton,
      List.sum_singleton]
  · rw [happended, List.length_append, h.appended_eq, List.length_singleton]
  · rw [hreturned, h.returned_eq]

/-- The packet is returned, wherever it lies. -/
private theorem Rx.Drained.exchange {c n : Nat} (h : s.Drained c n) (p : Packet) :
    (s.append p).poll.capr = (if c + p.size ≥ RX_BUF_SIZE then 0 else c + p.size) ∧
      (s.append p).poll.cbr = (c + p.size) % RX_BUF_SIZE ∧
      (s.append p).poll.appended.length = n + 1 ∧ (s.append p).poll.returned.length = n + 1 := by
  obtain ⟨hunread, hcapr, hcbr, happended, hreturned⟩ := h.append p
  have hlen := p.length_le
  have hne : (s.append p).capr ≠ (s.append p).cbr := by
    have hlt := h.inv.capr_lt
    rw [h.capr_eq] at hlt
    rw [hcapr, hcbr, Packet.size, align4]
    rw [RX_BUF_SIZE] at hlt ⊢
    omega
  rw [(h.inv.append p).poll_eq hne hunread]
  refine ⟨?_, hcbr, happended, ?_⟩
  · rw [hcapr]
  · rw [List.length_append, hreturned, List.length_singleton]

theorem Rx.Drained.next {c n : Nat} (h : s.Drained c n) (p : Packet)
    (hend : c + p.size < RX_BUF_SIZE) : (s.append p).poll.Drained (c + p.size) (n + 1) := by
  obtain ⟨hcapr, -, happended, hreturned⟩ := h.exchange p
  rw [if_neg (by omega)] at hcapr
  refine ⟨(h.inv.append p).poll ?_, hcapr, happended, hreturned⟩
  obtain ⟨hunread, hoff, -⟩ := h.append p
  intro _ q hq
  rw [hunread, List.head?_cons, Option.mem_some_iff] at hq
  rw [hoff, ← hq]
  omega

def Packet.largest : Packet := ⟨1, List.replicate 1518 0, 0, List.length_replicate.le⟩

/-- Six packets of the largest size, each polled at once: after the sixth the offsets differ. -/
theorem wrap_desynchronises : ¬∀ (buf : Nat → UInt8) (es : List Event),
    ∀ s ∈ states Rx.step (.start buf) es, s.InOrder := by
  intro hall
  have hstart : (Rx.start fun _ => 0).Drained 0 0 := ⟨.start _, rfl, rfl, rfl⟩
  have hsize : Packet.largest.size = 1528 := by
    rw [Packet.size, Packet.largest, List.length_replicate]
    rfl
  have hnext : ∀ {s c n}, Rx.Drained s c n → c + 1528 < RX_BUF_SIZE →
      (s.append .largest).poll.Drained (c + 1528) (n + 1) := by
    intro s c n h hend
    rw [← hsize] at hend ⊢
    exact h.next .largest hend
  -- five of the largest packets, each read as soon as it is there
  have h₁ := hnext hstart (by decide)
  have h₂ := hnext h₁ (by decide)
  have h₃ := hnext h₂ (by decide)
  have h₄ := hnext h₃ (by decide)
  have h₅ := hnext h₄ (by decide)
  -- the sixth one crosses the end of the ring
  obtain ⟨hcapr, hcbr, happended, hreturned⟩ := h₅.exchange .largest
  rw [hsize] at hcapr hcbr
  have hlast := hall (fun _ => 0) [.append .largest, .poll, .append .largest, .poll,
    .append .largest, .poll, .append .largest, .poll, .append .largest, .poll,
    .append .largest, .poll] _ (foldl_mem_states _ _ _)
  simp only [List.foldl_cons, List.foldl_nil, Rx.step] at hlast
  have hdiff := hcapr.symm.trans ((hlast.2 (hreturned.trans happended.symm)).trans hcbr)
  revert hdiff
  decide

end RustKernel.Net.RxRing
