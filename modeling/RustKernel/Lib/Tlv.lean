import Mathlib.Data.List.Basic
import Mathlib.Tactic

/-!
# RustKernel.Lib.Tlv

Byte strings of records in the form tag, length, value, with pad bytes between the records and a
stop byte behind the last one. `records` reads them, up to the stop byte or to the first record that
the bytes do not hold in full, and `records_encoded` says that it reads what was written, whatever
follows the stop byte.

`foldl_last` is for readers that keep, for each kind of record, the last one.
-/

namespace RustKernel.Lib.Tlv

/-- A tag and the bytes of the value. -/
abbrev Record := UInt8 × List UInt8

variable (pad stop : UInt8)

/-- The records of a byte string. -/
def records (bytes : List UInt8) : List Record :=
  match bytes with
  | [] => []
  | tag :: rest =>
    if tag = pad then records rest
    else if tag = stop then []
    else match rest with
      | [] => []
      | n :: body =>
        if body.length < n.toNat then []
        else (tag, body.take n.toNat) :: records (body.drop n.toNat)
termination_by bytes.length
decreasing_by
  · simp
  · simp only [List.length_cons, List.length_drop]
    omega

/-- A record that can be written. -/
structure Field where
  tag : UInt8
  value : List UInt8
  tag_ne : tag ≠ pad ∧ tag ≠ stop
  length_le : value.length ≤ 255

namespace Field

variable {pad stop} (field : Field pad stop)

def record : Record := (field.tag, field.value)

def encode : List UInt8 := field.tag :: UInt8.ofNat field.value.length :: field.value

end Field

/-- Fields with numbers of pad bytes before each of them and behind the last one, the stop byte and
    further bytes. -/
def encoded (fields : List (Nat × Field pad stop)) (pads : Nat) (tail : List UInt8) : List UInt8 :=
  (fields.flatMap fun (n, field) => List.replicate n pad ++ field.encode) ++
    (List.replicate pads pad ++ stop :: tail)

variable {pad stop}

/-- Reading goes by the first byte. -/
theorem records_cons (tag : UInt8) (rest : List UInt8) :
    records pad stop (tag :: rest) =
      if tag = pad then records pad stop rest
      else if tag = stop then []
      else match rest with
        | [] => []
        | n :: body =>
          if body.length < n.toNat then []
          else (tag, body.take n.toNat) :: records pad stop (body.drop n.toNat) := by
  rw [records.eq_def]

theorem records_pads (n : Nat) (bytes : List UInt8) :
    records pad stop (List.replicate n pad ++ bytes) = records pad stop bytes := by
  induction n with
  | zero => rfl
  | succ n ih => rw [List.replicate_succ, List.cons_append, records_cons, if_pos rfl, ih]

theorem records_field (field : Field pad stop) (bytes : List UInt8) :
    records pad stop (field.encode ++ bytes) = field.record :: records pad stop bytes := by
  have hlen : (UInt8.ofNat field.value.length).toNat = field.value.length := by
    have hle := field.length_le
    rw [UInt8.toNat_ofNat', Nat.mod_eq_of_lt (by omega)]
  rw [Field.encode, List.cons_append, List.cons_append, records_cons, if_neg field.tag_ne.1,
    if_neg field.tag_ne.2]
  simp only [hlen]
  -- the value is there in full, and what follows it is left
  rw [if_neg (by rw [List.length_append]; omega), List.take_left, List.drop_left]
  rfl

/-- What was written is read. -/
theorem records_encoded (hne : stop ≠ pad) (fields : List (Nat × Field pad stop)) (pads : Nat)
    (tail : List UInt8) :
    records pad stop (encoded pad stop fields pads tail) =
      fields.map fun (_, field) => field.record := by
  induction fields with
  | nil =>
    rw [encoded, List.flatMap_nil, List.nil_append, records_pads, records_cons, if_neg hne,
      if_pos rfl]
    rfl
  | cons first fields ih =>
    obtain ⟨n, field⟩ := first
    rw [encoded, List.flatMap_cons, List.append_assoc, List.append_assoc, records_pads,
      records_field, ← encoded, ih]
    rfl

/-- A component that each step sets from a record of its kind, and else keeps, is set from the last
    such record. -/
theorem foldl_last {σ α β γ : Type} {step : σ → α → σ} {π : σ → γ} {kind : α → Option β}
    {set : β → γ} (h : ∀ s a, π (step s a) = (kind a).elim (π s) set) (l : List α) (s : σ) :
    π (l.foldl step s) = ((l.filterMap kind).getLast?).elim (π s) set := by
  induction l generalizing s with
  | nil => rfl
  | cons a l ih =>
    rw [List.foldl_cons, ih, h, List.filterMap_cons]
    -- a record of the kind counts unless a later one does
    cases kind a with
    | none => rfl
    | some b =>
      rw [List.getLast?_cons]
      cases (l.filterMap kind).getLast? with
      | none => rfl
      | some c => rfl

end RustKernel.Lib.Tlv
