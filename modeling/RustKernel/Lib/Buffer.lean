import Mathlib.Data.List.Basic
import Mathlib.Tactic

/-!
# RustKernel.Lib.Buffer

Fixed-size buffers with the run-time checks of their operations: an operation out of range traps.

A buffer is used together with the length of its live front. `Buffer.front` is that front, and the
rules say what the operations do to it: `returns_append` for a copy behind the front,
`returns_shift` for moving the rest of the front down.

`Returns x P` says that a computation passes all its checks and ends with a result in `P`, and
`runLoop_eq` is the rule of a loop of checked turns: it ends, and passes all its checks.
-/

namespace RustKernel.Lib

variable {α β : Type}

/-- The checks that can fail. -/
inductive Trap where
  | index
  | range
  | copyLength
  | underflow
  deriving DecidableEq, Repr

/-- A computation whose operations are checked. -/
abbrev Checked := Except Trap

/-! ### Computations that pass their checks -/

/-- All checks pass, and the result is in `P`. -/
def Returns (x : Checked α) (P : α → Prop) : Prop := ∃ a, x = .ok a ∧ P a

theorem Returns.ok {a : α} {P : α → Prop} (h : P a) : Returns (.ok a) P := ⟨a, rfl, h⟩

theorem Returns.pure {a : α} {P : α → Prop} (h : P a) : Returns (Pure.pure a) P := ⟨a, rfl, h⟩

theorem Returns.bind {x : Checked α} {f : α → Checked β} {P : α → Prop} {Q : β → Prop}
    (hx : Returns x P) (hf : ∀ a, P a → Returns (f a) Q) : Returns (x >>= f) Q := by
  obtain ⟨a, rfl, ha⟩ := hx
  exact hf a ha

theorem Returns.mono {x : Checked α} {P Q : α → Prop} (hx : Returns x P) (h : ∀ a, P a → Q a) :
    Returns x Q := by
  obtain ⟨a, hx, ha⟩ := hx
  exact ⟨a, hx, h a ha⟩

@[simp] theorem ok_bind (a : α) (f : α → Checked β) : ((.ok a : Checked α) >>= f) = f a := rfl

/-- Turn by turn along a list: what holds of each result, and what the results look like. -/
theorem Returns.mapM {γ : Type} {f : α → Checked β} {P : β → Prop} {g : β → γ} {look : α → γ}
    {l : List α} (h : ∀ a ∈ l, Returns (f a) fun b => P b ∧ g b = look a) :
    Returns (l.mapM f) fun bs => (∀ b ∈ bs, P b) ∧ bs.map g = l.map look := by
  induction l with
  | nil => exact .pure ⟨List.forall_mem_nil P, rfl⟩
  | cons a l ih =>
    rw [List.mapM_cons]
    refine (h a List.mem_cons_self).bind fun b hb => ?_
    refine (ih fun a ha => h a (List.mem_cons_of_mem _ ha)).bind fun bs hbs => ?_
    refine .pure ⟨List.forall_mem_cons.mpr ⟨hb.1, hbs.1⟩, ?_⟩
    rw [List.map_cons, List.map_cons, hb.2, hbs.2]

/-! ### Loops -/

/-- What a turn of a loop ends with: the state of the next turn, or the result of the loop. -/
inductive Turn (σ ρ : Type)
  | next (s : σ)
  | done (r : ρ)

/-- At most `fuel` turns of a loop of checked turns; none if it needs more. -/
def runLoop {σ ρ : Type} (turn : σ → Checked (Turn σ ρ)) : Nat → σ → Option (Checked ρ)
  | 0, _ => none
  | fuel + 1, s =>
    match turn s with
    | .error e => some (.error e)
    | .ok (.done r) => some (.ok r)
    | .ok (.next s) => runLoop turn fuel s

/-- A loop whose turns pass their checks under an invariant and go down in a measure ends, with the
    result that every turn carries on. -/
theorem runLoop_eq {σ ρ : Type} {turn : σ → Checked (Turn σ ρ)} (I : σ → Prop) (m : σ → Nat)
    (result : σ → ρ)
    (h : ∀ s, I s → turn s = .ok (.done (result s)) ∨
      ∃ t, turn s = .ok (.next t) ∧ I t ∧ m t < m s ∧ result t = result s)
    {fuel : Nat} {s : σ} (hs : I s) (hfuel : m s < fuel) :
    runLoop turn fuel s = some (.ok (result s)) := by
  induction fuel generalizing s with
  | zero => exact absurd hfuel (Nat.not_lt_zero _)
  | succ fuel ih =>
    unfold runLoop
    rcases h s hs with hdone | ⟨t, hnext, ht, hlt, hresult⟩
    · rw [hdone]
    · rw [hnext]
      exact hresult ▸ ih ht (by omega)

/-! ### Checked operations -/

/-- `a - b` of unsigned numbers. -/
def subtract (a b : Nat) : Checked Nat := if b ≤ a then .ok (a - b) else .error .underflow

/-- `xs[i]` -/
def index (xs : List α) (i : Nat) : Checked α :=
  match xs[i]? with
  | some x => .ok x
  | none => .error .index

/-- `&xs[lo..hi]` -/
def slice (xs : List α) (lo hi : Nat) : Checked (List α) :=
  if lo ≤ hi ∧ hi ≤ xs.length then .ok ((xs.take hi).drop lo) else .error .range

theorem subtract_ok {a b : Nat} (h : b ≤ a) : subtract a b = .ok (a - b) := if_pos h

theorem index_ok {xs : List α} {i : Nat} (h : i < xs.length) :
    index xs i = .ok (xs.get ⟨i, h⟩) := by
  rw [index, List.getElem?_eq_getElem h]
  rfl

theorem slice_front {xs : List α} {n : Nat} (h : n ≤ xs.length) : slice xs 0 n = .ok (xs.take n) :=
  if_pos ⟨Nat.zero_le n, h⟩

theorem slice_rest {xs : List α} {n : Nat} (h : n ≤ xs.length) :
    slice xs n xs.length = .ok (xs.drop n) := by
  rw [slice, if_pos ⟨h, le_rfl⟩, List.take_length]

/-! ### Buffers -/

/-- An array of `n` elements. -/
structure Buffer (α : Type) (n : Nat) where
  elems : List α
  length_eq : elems.length = n

namespace Buffer

variable {n : Nat}

/-- `[a; n]` -/
def fill (a : α) (n : Nat) : Buffer α n := ⟨List.replicate n a, List.length_replicate⟩

/-- `&buf[lo..hi]` -/
def slice (buf : Buffer α n) (lo hi : Nat) : Checked (List α) := Lib.slice buf.elems lo hi

/-- `buf[lo..hi].copy_from_slice(src)` -/
def copyFromSlice (buf : Buffer α n) (lo hi : Nat) (src : List α) : Checked (Buffer α n) :=
  if hrange : lo ≤ hi ∧ hi ≤ n then
    if hlen : hi - lo = src.length then
      .ok ⟨buf.elems.take lo ++ src ++ buf.elems.drop hi, by
        have hn := buf.length_eq
        simp only [List.length_append, List.length_take, List.length_drop]
        omega⟩
    else .error .copyLength
  else .error .range

/-- `buf.copy_within(lo..hi, dst)` -/
def copyWithin (buf : Buffer α n) (lo hi dst : Nat) : Checked (Buffer α n) :=
  if hrange : lo ≤ hi ∧ hi ≤ n ∧ dst ≤ n - (hi - lo) then
    .ok ⟨buf.elems.take dst ++ (buf.elems.take hi).drop lo ++ buf.elems.drop (dst + (hi - lo)), by
      have hn := buf.length_eq
      simp only [List.length_append, List.length_take, List.length_drop]
      omega⟩
  else .error .range

/-- The first `len` elements. -/
def front (buf : Buffer α n) (len : Nat) : List α := buf.elems.take len

@[simp] theorem front_zero (buf : Buffer α n) : buf.front 0 = [] := rfl

theorem length_front (buf : Buffer α n) {len : Nat} (h : len ≤ n) :
    (buf.front len).length = len := by
  rw [front, List.length_take, buf.length_eq, Nat.min_eq_left h]

theorem take_front (buf : Buffer α n) {k len : Nat} (h : k ≤ len) :
    (buf.front len).take k = buf.front k := by
  rw [front, List.take_take, Nat.min_eq_left h, front]

theorem slice_ok (buf : Buffer α n) {len : Nat} (h : len ≤ n) :
    buf.slice 0 len = .ok (buf.front len) :=
  slice_front (by rw [buf.length_eq]; exact h)

/-- A copy behind the front makes the front longer. -/
theorem returns_append (buf : Buffer α n) {len : Nat} (src : List α) (h : len + src.length ≤ n) :
    Returns (buf.copyFromSlice len (len + src.length) src) fun buf' =>
      buf'.front (len + src.length) = buf.front len ++ src := by
  have hlen : (buf.elems.take len ++ src).length = len + src.length := by
    rw [List.length_append, List.length_take, buf.length_eq, Nat.min_eq_left (by omega)]
  rw [copyFromSlice, dif_pos ⟨Nat.le_add_right _ _, h⟩, dif_pos (Nat.add_sub_cancel_left _ _)]
  exact .ok (List.take_left' hlen)

/-- A copy to the start. -/
theorem returns_copy (buf : Buffer α n) (src : List α) (h : src.length ≤ n) :
    Returns (buf.copyFromSlice 0 src.length src) fun buf' => buf'.front src.length = src := by
  have happend := buf.returns_append src ((Nat.zero_add _).trans_le h)
  rwa [Nat.zero_add] at happend

/-- What is left of the front moves to the start. -/
theorem returns_shift (buf : Buffer α n) {k len : Nat} (hk : k ≤ len) (hlen : len ≤ n) :
    Returns (buf.copyWithin k len 0) fun buf' =>
      buf'.front (len - k) = (buf.front len).drop k := by
  have hlength : ((buf.elems.take len).drop k).length = len - k := by
    rw [List.length_drop, List.length_take, buf.length_eq, Nat.min_eq_left hlen]
  rw [copyWithin, dif_pos ⟨hk, hlen, Nat.zero_le _⟩]
  exact .ok (List.take_left' hlength)

end Buffer

end RustKernel.Lib
