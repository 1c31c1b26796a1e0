import Mathlib.Data.List.Basic
import Mathlib.Tactic

/-!
# RustKernel.Lib.Chain

Null-terminated linked lists: `Chain next head nodes` says that following `next`
from `head` visits exactly the addresses `nodes` and then reaches `0`.

`Chain.congr` transports a chain to another successor function, and `Chain.splice`
replaces the tail behind a prefix, the way a list is changed through its cursor.
-/

namespace RustKernel.Lib

variable {next next' : Nat → Nat} {head : Nat}

def Chain (next : Nat → Nat) : Nat → List Nat → Prop
  | head, [] => head = 0
  | head, a :: rest => head = a ∧ a ≠ 0 ∧ Chain next (next a) rest

theorem Chain.congr {nodes : List Nat} (h : Chain next head nodes)
    (hnext : ∀ a ∈ nodes, next' a = next a) : Chain next' head nodes := by
  induction nodes generalizing head with
  | nil => exact h
  | cons a rest ih =>
    obtain ⟨hhead, hne, hrest⟩ := h
    refine ⟨hhead, hne, ?_⟩
    rw [hnext a List.mem_cons_self]
    exact ih hrest fun b hb => hnext b (List.mem_cons_of_mem a hb)

/-- The pointer to the first node of a list. -/
def headOf : List Nat → Nat
  | [] => 0
  | a :: _ => a

theorem Chain.head_eq {nodes : List Nat} (h : Chain next head nodes) : head = headOf nodes := by
  cases nodes with
  | nil => exact h
  | cons a rest => exact h.1

/-- The chain behind a prefix starts at the pointer that the prefix ends with. -/
theorem Chain.suffix {pre rest : List Nat} (h : Chain next head (pre ++ rest)) :
    Chain next (headOf rest) rest := by
  induction pre generalizing head with
  | nil => rw [List.nil_append] at h; rwa [← h.head_eq]
  | cons a pre ih => exact ih h.2.2

/-- The head pointer of a list whose prefix is kept and whose tail starts at `ptr`. -/
def spliceHead (head ptr : Nat) : List Nat → Nat
  | [] => ptr
  | _ :: _ => head

/-- Replace the tail behind a prefix: the last node of the prefix takes the new pointer,
    and the other nodes of the prefix keep theirs. -/
theorem Chain.splice {pre old new : List Nat} {ptr : Nat} (h : Chain next head (pre ++ old))
    (hnew : Chain next' ptr new) (hpre : ∀ a ∈ pre.dropLast, next' a = next a)
    (hlast : ∀ a, pre.getLast? = some a → next' a = ptr) :
    Chain next' (spliceHead head ptr pre) (pre ++ new) := by
  induction pre generalizing head with
  | nil => exact hnew
  | cons a pre ih =>
    obtain ⟨hhead, hne, hrest⟩ := h
    refine ⟨hhead, hne, ?_⟩
    cases pre with
    | nil =>
      rw [hlast a rfl]
      exact hnew
    | cons b pre =>
      rw [hpre a List.mem_cons_self]
      exact ih hrest (fun c hc => hpre c (List.mem_cons_of_mem a hc))
        (fun c hc => hlast c (by rwa [List.getLast?_cons_cons]))

/-- Replace the tail behind a prefix by a chain from the same pointer. -/
theorem Chain.replace {pre old new : List Nat} (h : Chain next head (pre ++ old))
    (hnew : Chain next' (headOf old) new) (hpre : ∀ a ∈ pre, next' a = next a) :
    Chain next' head (pre ++ new) := by
  induction pre generalizing head with
  | nil =>
    rw [List.nil_append] at h
    rw [h.head_eq]
    exact hnew
  | cons a pre ih =>
    obtain ⟨hhead, hne, hrest⟩ := h
    refine ⟨hhead, hne, ?_⟩
    rw [hpre a List.mem_cons_self]
    exact ih hrest fun b hb => hpre b (List.mem_cons_of_mem a hb)

end RustKernel.Lib
