import Mathlib.Data.List.Basic
import Mathlib.Tactic

/-!
# RustKernel.Lib.Ring

Circular memory: `n` cells that are read and written from any offset on, modulo `n`.

Offsets are not reduced, so an offset can count all the cells ever written. `ringRead_append_write`
is the law of a queue in such a memory: writing behind what is stored appends to it, as long as it
all fits. `Keeps.push` is the law of a log that overwrites its oldest entry.
-/

namespace RustKernel.Lib

variable {α : Type} {mem mem' : Nat → α} {n off len : Nat}

/-- The `len` cells from `off` on. -/
def ringRead (mem : Nat → α) (n off len : Nat) : List α :=
  (List.range len).map fun i => mem ((off + i) % n)

/-- The memory with `xs` written from `off` on. -/
def ringWrite (mem : Nat → α) (n off : Nat) (xs : List α) : Nat → α := fun c =>
  (xs[(c + n - off % n) % n]?).getD (mem c)

@[simp] theorem length_ringRead : (ringRead mem n off len).length = len := by
  simp [ringRead]

@[simp] theorem ringRead_zero : ringRead mem n off 0 = [] := rfl

theorem getElem?_ringRead (i : Nat) :
    (ringRead mem n off len)[i]? = if i < len then some (mem ((off + i) % n)) else none := by
  rw [ringRead, List.getElem?_map]
  by_cases hi : i < len
  · rw [if_pos hi, List.getElem?_range hi]
    rfl
  · rw [if_neg hi, List.getElem?_eq_none (by simpa using hi)]
    rfl

/-- A number below `2 n`, modulo `n`. -/
theorem mod_of_lt_two_mul {a : Nat} (h : a < 2 * n) : a % n = if a < n then a else a - n := by
  split
  case isTrue hlt => exact Nat.mod_eq_of_lt hlt
  case isFalse hge =>
    rw [Nat.mod_eq_sub_mod (by omega)]
    exact Nat.mod_eq_of_lt (by omega)

/-- The cell `i` places after an offset is `i` places after it. -/
theorem mod_distance (off : Nat) {i : Nat} (hi : i < n) :
    ((off + i) % n + n - off % n) % n = i := by
  have hoff : off % n < n := Nat.mod_lt _ (by omega)
  rw [Nat.add_mod, Nat.mod_eq_of_lt hi]
  generalize off % n = o at hoff
  have hcell := mod_of_lt_two_mul (show o + i < 2 * n by omega)
  rw [hcell, mod_of_lt_two_mul (by split <;> omega)]
  split <;> split <;> omega

/-- Only the cells below `n` are read. -/
theorem ringRead_congr (hn : 0 < n) (h : ∀ c < n, mem' c = mem c) :
    ringRead mem' n off len = ringRead mem n off len :=
  List.map_congr_left fun _ _ => h _ (Nat.mod_lt _ hn)

theorem ringRead_mod : ringRead mem n (off % n) len = ringRead mem n off len := by
  apply List.map_congr_left
  intro i _
  rw [Nat.mod_add_mod]

/-- Reading in two parts. -/
theorem ringRead_add (k : Nat) :
    ringRead mem n off (k + len) = ringRead mem n off k ++ ringRead mem n (off + k) len := by
  apply List.ext_getElem?
  intro i
  rw [List.getElem?_append, length_ringRead]
  simp only [getElem?_ringRead]
  by_cases hi : i < k
  · rw [if_pos hi, if_pos hi, if_pos (by omega)]
  · rw [if_neg hi, show off + k + (i - k) = off + i by omega]
    apply if_congr _ rfl rfl
    omega

theorem ringRead_succ :
    ringRead mem n off (len + 1) = mem (off % n) :: ringRead mem n (off + 1) len := by
  rw [Nat.add_comm len 1, ringRead_add]
  rfl

/-- Reading a part. -/
theorem ringRead_part {xs : List α} (h : ringRead mem n off len = xs) {k m : Nat}
    (hpart : k + m ≤ len) : ringRead mem n (off + k) m = (xs.drop k).take m := by
  have hlen : len = k + (m + (len - k - m)) := by omega
  rw [← h, hlen, ringRead_add, ringRead_add, List.drop_left' length_ringRead,
    List.take_left' length_ringRead]

/-- A read that does not reach the end of the memory is a read of consecutive cells. -/
theorem ringRead_linear (h : off + len ≤ n) :
    ringRead mem n off len = (List.range len).map fun i => mem (off + i) := by
  apply List.map_congr_left
  intro i hi
  rw [Nat.mod_eq_of_lt]
  have := List.mem_range.mp hi
  omega

/-- What was written is read. -/
theorem ringRead_write (xs : List α) (h : xs.length ≤ n) :
    ringRead (ringWrite mem n off xs) n off xs.length = xs := by
  apply List.ext_getElem?
  intro i
  rw [getElem?_ringRead]
  by_cases hi : i < xs.length
  · have hplace := mod_distance off (show i < n by omega)
    rw [if_pos hi, ringWrite, hplace, List.getElem?_eq_getElem hi]
    rfl
  · rw [if_neg hi, List.getElem?_eq_none (by omega)]

/-- A write behind the cells that are read does not change them. -/
theorem ringRead_write_apart (xs : List α) (k : Nat) (hk : len ≤ k) (h : k + xs.length ≤ n) :
    ringRead (ringWrite mem n (off + k) xs) n off len = ringRead mem n off len := by
  apply List.map_congr_left
  intro i hi
  have hi := List.mem_range.mp hi
  by_cases hxs : xs = []
  · simp [ringWrite, hxs]
  have hpos : 0 < xs.length := List.length_pos_iff.mpr hxs
  have hplace : xs.length ≤ ((off + i) % n + n - (off + k) % n) % n := by
    have hoff : off % n < n := Nat.mod_lt _ (by omega)
    rw [Nat.add_mod off i, Nat.add_mod off k, Nat.mod_eq_of_lt (show i < n by omega),
      Nat.mod_eq_of_lt (show k < n by omega)]
    generalize off % n = o at hoff
    -- neither the cell nor the offset of the write wraps more than once
    rw [mod_of_lt_two_mul (show o + i < 2 * n by omega),
      mod_of_lt_two_mul (show o + k < 2 * n by omega),
      mod_of_lt_two_mul (by split <;> split <;> omega)]
    split <;> split <;> split <;> omega
  rw [ringWrite, List.getElem?_eq_none hplace]
  rfl

/-- Writing behind what is stored appends to it. -/
theorem ringRead_append_write (xs : List α) (h : len + xs.length ≤ n) :
    ringRead (ringWrite mem n (off + len) xs) n off (len + xs.length) =
      ringRead mem n off len ++ xs := by
  rw [ringRead_add, ringRead_write_apart xs len le_rfl h, ringRead_write xs (by omega)]

theorem ringWrite_mod (xs : List α) : ringWrite mem n (off % n) xs = ringWrite mem n off xs := by
  funext c
  rw [ringWrite, ringWrite, Nat.mod_mod]

/-- Writing one cell. -/
theorem ringWrite_singleton (x : α) {c : Nat} (hc : c < n) :
    ringWrite mem n off [x] c = if c = off % n then x else mem c := by
  have hoff : off % n < n := Nat.mod_lt _ (by omega)
  rw [ringWrite, mod_of_lt_two_mul (by omega)]
  by_cases heq : c = off % n
  · rw [if_pos heq, if_neg (by omega), show c + n - off % n - n = 0 by omega]
    rfl
  · rw [if_neg heq, List.getElem?_eq_none]
    · rfl
    · rw [List.length_singleton]
      split <;> omega

/-! ### Keeping the last entries -/

/-- The memory holds the last `n` entries of a log, each in the cell of its number. -/
def Keeps (mem : Nat → α) (n : Nat) (log : List α) : Prop :=
  ringRead mem n (log.length - n) (min log.length n) = log.drop (log.length - n)

theorem Keeps.nil (mem : Nat → α) (n : Nat) : Keeps mem n [] := by
  rw [Keeps, List.length_nil, Nat.zero_min, List.drop_nil, ringRead_zero]

/-- An entry that is not `n` entries old is in its cell. -/
theorem Keeps.getElem? {log : List α} (h : Keeps mem n log) {k : Nat} (hk : k < log.length)
    (hkept : log.length ≤ k + n) : log[k]? = some (mem (k % n)) := by
  have hcell := congrArg (·[k - (log.length - n)]?) h
  simp only [getElem?_ringRead, List.getElem?_drop] at hcell
  have hpos : log.length - n + (k - (log.length - n)) = k := by omega
  rw [if_pos (by omega), hpos] at hcell
  exact hcell.symm

/-- A new entry takes the cell of the oldest one. -/
theorem Keeps.push {log : List α} (h : Keeps mem n log) (hn : 0 < n) (x : α) :
    Keeps (ringWrite mem n log.length [x]) n (log ++ [x]) := by
  rw [Keeps] at h ⊢
  rw [List.length_append, List.length_singleton]
  by_cases hroom : log.length < n
  · -- nothing is overwritten
    rw [show log.length - n = 0 by omega, Nat.min_eq_left (by omega)] at h
    have hwrite := @ringRead_append_write _ mem n 0 log.length [x] hroom
    rw [show log.length + 1 - n = 0 by omega, Nat.min_eq_left (by omega), List.drop_zero]
    rwa [Nat.zero_add, h] at hwrite
  · obtain ⟨k, rfl⟩ : ∃ k, n = k + 1 := ⟨n - 1, by omega⟩
    rw [Nat.min_eq_right (by omega), ringRead_succ] at h
    have hrest := congrArg List.tail h
    rw [List.tail_cons, List.tail_drop] at hrest
    have hwrite := @ringRead_append_write _ mem (k + 1) (log.length - (k + 1) + 1) k [x] le_rfl
    rw [show log.length + 1 - (k + 1) = log.length - (k + 1) + 1 by omega,
      Nat.min_eq_right (by omega), List.drop_append_of_le_length (by omega)]
    rwa [hrest, show log.length - (k + 1) + 1 + k = log.length by omega] at hwrite

end RustKernel.Lib
