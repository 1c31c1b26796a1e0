import Mathlib.Data.List.Basic
import Mathlib.Tactic

/-!
# RustKernel.Lib.Fallible

Computations over a state that may fail. A failure keeps the state reached so far: what was
done before it is not undone.

`Outcome x s Q E` says how `x` ends from the state `s`: with a result and a state in `Q`, or with an
error and a state in `E`. `Ends x s Q E` is the same where the error does not matter. The rules
follow the constructs of a program: `Outcome.pure`, `Outcome.bind`, `Outcome.bind_reading` for a
read, and `Outcome.foldlM` for a counted loop with its invariant.
-/

namespace RustKernel.Lib

variable {ε σ α β : Type}

/-- A computation over a state that may fail. -/
abbrev Fallible (ε σ : Type) := ExceptT ε (StateM σ)

namespace Fallible

/-- Runs the computation: its result and the state it leaves. -/
def exec (x : Fallible ε σ α) (s : σ) : Except ε α × σ := x.run.run s

/-- A read: a result, or a failure, that depends on the state and leaves it alone. -/
def reading (f : σ → Except ε α) : Fallible ε σ α := fun s => (f s, s)

/-- A change of the state that cannot fail. -/
def writing (f : σ → σ) : Fallible ε σ Unit := fun s => (.ok (), f s)

@[simp] theorem exec_pure (a : α) (s : σ) :
    (Pure.pure a : Fallible ε σ α).exec s = (.ok a, s) := rfl

@[simp] theorem exec_throw (e : ε) (s : σ) :
    (throw e : Fallible ε σ α).exec s = (.error e, s) := rfl

@[simp] theorem exec_reading (f : σ → Except ε α) (s : σ) : (reading f).exec s = (f s, s) := rfl

@[simp] theorem exec_writing (f : σ → σ) (s : σ) :
    (writing f : Fallible ε σ Unit).exec s = (.ok (), f s) := rfl

theorem exec_bind (x : Fallible ε σ α) (f : α → Fallible ε σ β) (s : σ) :
    (x >>= f).exec s =
      match x.exec s with
      | (.ok a, t) => (f a).exec t
      | (.error e, t) => (.error e, t) := by
  change (ExceptT.bindCont f (x.exec s).1).run (x.exec s).2 = _
  rcases x.exec s with ⟨a | a, t⟩ <;> rfl

/-- A computation that read something and returned. -/
theorem exec_reading_bind_ok {g : σ → Except ε α} {f : α → Fallible ε σ β} {s t : σ} {b : β}
    (h : (reading g >>= f).exec s = (.ok b, t)) :
    ∃ a, g s = .ok a ∧ (f a).exec s = (.ok b, t) := by
  rw [exec_bind, exec_reading] at h
  cases hg : g s with
  | error e =>
    rw [hg] at h
    cases h
  | ok a =>
    rw [hg] at h
    exact ⟨a, rfl, h⟩

theorem exec_eq_of_fst {x : Fallible ε σ α} {s : σ} {r : Except ε α} (h : (x.exec s).1 = r) :
    x.exec s = (r, (x.exec s).2) := by
  rw [← h]

theorem exec_adapt {ε' : Type} (g : ε → ε') (x : Fallible ε σ α) (s : σ) :
    exec (ExceptT.adapt g x : Fallible ε' σ α) s = ((x.exec s).1.mapError g, (x.exec s).2) := rfl

end Fallible

open Fallible

/-- From `s`, `x` returns in `Q` or fails in `E`, which may depend on the error. -/
def Outcome (x : Fallible ε σ α) (s : σ) (Q : α → σ → Prop) (E : ε → σ → Prop) : Prop :=
  match x.exec s with
  | (.ok a, t) => Q a t
  | (.error e, t) => E e t

/-- From `s`, `x` returns in `Q` or fails in `E`. -/
def Ends (x : Fallible ε σ α) (s : σ) (Q : α → σ → Prop) (E : σ → Prop) : Prop :=
  match x.exec s with
  | (.ok a, t) => Q a t
  | (.error _, t) => E t

section Rules

variable {x : Fallible ε σ α} {f : α → Fallible ε σ β} {s t : σ} {a : α} {e : ε}
  {Q Q' : α → σ → Prop} {R : β → σ → Prop}

/-! ### Outcomes, with their errors -/

section Outcomes

variable {E E' : ε → σ → Prop}

theorem Outcome.ok (h : Outcome x s Q E) (hx : x.exec s = (.ok a, t)) : Q a t := by
  rwa [Outcome, hx] at h

theorem Outcome.failed (h : Outcome x s Q E) (hx : x.exec s = (.error e, t)) : E e t := by
  rwa [Outcome, hx] at h

theorem Outcome.mono (h : Outcome x s Q E) (hQ : ∀ a t, Q a t → Q' a t)
    (hE : ∀ e t, E e t → E' e t) : Outcome x s Q' E' := by
  unfold Outcome at h ⊢
  rcases hx : x.exec s with ⟨a | a, t⟩ <;> rw [hx] at h
  · exact hE a t h
  · exact hQ a t h

theorem Outcome.and (h : Outcome x s Q E) (h' : Outcome x s Q' E') :
    Outcome x s (fun a t => Q a t ∧ Q' a t) (fun e t => E e t ∧ E' e t) := by
  unfold Outcome at h h' ⊢
  rcases hx : x.exec s with ⟨a | a, t⟩ <;> rw [hx] at h h' <;> exact ⟨h, h'⟩

theorem Outcome.pure (h : Q a s) : Outcome (Pure.pure a : Fallible ε σ α) s Q E := h

theorem Outcome.throw (h : E e s) : Outcome (throw e : Fallible ε σ α) s Q E := h

/-- A computation whose outcome is known. -/
theorem Outcome.of_exec (hx : x.exec s = (.ok a, t)) (h : Q a t) : Outcome x s Q E := by
  rwa [Outcome, hx]

theorem Outcome.bind (hx : Outcome x s Q E) (hf : ∀ a t, Q a t → Outcome (f a) t R E) :
    Outcome (x >>= f) s R E := by
  unfold Outcome at hx ⊢
  rw [exec_bind]
  rcases hex : x.exec s with ⟨a | a, t⟩ <;> rw [hex] at hx
  · exact hx
  · exact hf a t hx

theorem Outcome.bind_exec (hx : x.exec s = (.ok a, t)) (h : Outcome (f a) t R E) :
    Outcome (x >>= f) s R E := by
  rw [Outcome, exec_bind, hx]
  exact h

/-- A read, with either outcome. -/
theorem Outcome.bind_reading {g : σ → Except ε α} (hok : ∀ a, g s = .ok a → Outcome (f a) s R E)
    (herr : ∀ e, g s = .error e → E e s) : Outcome (Fallible.reading g >>= f) s R E := by
  rw [Outcome, exec_bind, exec_reading]
  rcases hg : g s with e | a
  · exact herr e hg
  · exact hok a hg

/-- A read whose result is known. -/
theorem Outcome.bind_read {g : σ → Except ε α} (hg : g s = .ok a) (h : Outcome (f a) s R E) :
    Outcome (Fallible.reading g >>= f) s R E :=
  Outcome.bind_exec (by rw [exec_reading, hg]) h

/-- The rule of a counted loop: `I k` holds before the turn `k`. -/
theorem Outcome.foldlM {body : β → Nat → Fallible ε σ β} (I : Nat → β → σ → Prop)
    (E : ε → σ → Prop) (n : Nat) :
    ∀ (lo : Nat) (b : β) (s : σ),
      (∀ k b s, lo ≤ k → k < lo + n → I k b s → Outcome (body b k) s (I (k + 1)) E) →
      I lo b s → Outcome ((List.range' lo n).foldlM body b) s (I (lo + n)) E := by
  induction n with
  | zero => exact fun lo b s _ hI => hI
  | succ n ih =>
    intro lo b s hbody hI
    rw [List.range'_succ, List.foldlM_cons]
    refine (hbody lo b s le_rfl (by omega) hI).bind fun b' s' hI' => ?_
    rw [show lo + (n + 1) = lo + 1 + n by omega]
    exact ih (lo + 1) b' s' (fun k b s hk hk' => hbody k b s (by omega) (by omega)) hI'

end Outcomes

/-! ### Endings, whatever the error -/

variable {E E' : σ → Prop}

theorem Outcome.ends (h : Outcome x s Q fun _ => E) : Ends x s Q E := h

theorem Ends.outcome (h : Ends x s Q E) : Outcome x s Q fun _ => E := h

theorem Ends.ok (h : Ends x s Q E) (hx : x.exec s = (.ok a, t)) : Q a t := h.outcome.ok hx

/-- What holds however the computation ends. -/
theorem Ends.final (h : Ends x s (fun _ => E) E) : E (x.exec s).2 := by
  rw [Ends] at h
  rcases hx : x.exec s with ⟨a | a, t⟩ <;> simpa [hx] using h

theorem Ends.mono (h : Ends x s Q E) (hQ : ∀ a t, Q a t → Q' a t) (hE : ∀ t, E t → E' t) :
    Ends x s Q' E' :=
  (h.outcome.mono hQ fun _ => hE).ends

theorem Ends.and (h : Ends x s Q E) (h' : Ends x s Q' E') :
    Ends x s (fun a t => Q a t ∧ Q' a t) (fun t => E t ∧ E' t) :=
  (h.outcome.and h'.outcome).ends

theorem Ends.pure (h : Q a s) : Ends (Pure.pure a : Fallible ε σ α) s Q E := h

theorem Ends.throw (h : E s) : Ends (throw e : Fallible ε σ α) s Q E := h

theorem Ends.writing {g : σ → σ} {Q : Unit → σ → Prop} (h : Q () (g s)) :
    Ends (Fallible.writing g : Fallible ε σ Unit) s Q E := h

/-- A computation whose outcome is known. -/
theorem Ends.of_exec (hx : x.exec s = (.ok a, t)) (h : Q a t) : Ends x s Q E :=
  (Outcome.of_exec hx h).ends

/-- A computation that runs as another does. -/
theorem Ends.of_exec_eq {y : Fallible ε σ α} (hxy : x.exec s = y.exec s) (h : Ends y s Q E) :
    Ends x s Q E := by
  rwa [Ends, hxy]

/-- Nothing is said about how the computation ends. -/
theorem Ends.trivial : Ends x s (fun _ _ => True) (fun _ => True) := by
  rw [Ends]
  split <;> exact True.intro

/-- A change of the error's type. -/
theorem Ends.adapt {ε' : Type} {g : ε → ε'} (h : Ends x s Q E) :
    Ends (ExceptT.adapt g x : Fallible ε' σ α) s Q E := by
  unfold Ends at h ⊢
  rw [exec_adapt]
  rcases hx : x.exec s with ⟨a | a, t⟩ <;> rw [hx] at h <;> exact h

theorem Ends.bind (hx : Ends x s Q E) (hf : ∀ a t, Q a t → Ends (f a) t R E) :
    Ends (x >>= f) s R E :=
  (hx.outcome.bind fun a t hQ => (hf a t hQ).outcome).ends

theorem Ends.bind_exec (hx : x.exec s = (.ok a, t)) (h : Ends (f a) t R E) :
    Ends (x >>= f) s R E :=
  (Outcome.bind_exec hx h.outcome).ends

/-- A read, with either outcome. -/
theorem Ends.bind_reading {g : σ → Except ε α} (hok : ∀ a, g s = .ok a → Ends (f a) s R E)
    (herr : ∀ e, g s = .error e → E s) : Ends (Fallible.reading g >>= f) s R E :=
  (Outcome.bind_reading (fun a hg => (hok a hg).outcome) herr).ends

/-- A read whose result is known. -/
theorem Ends.bind_read {g : σ → Except ε α} (hg : g s = .ok a) (h : Ends (f a) s R E) :
    Ends (Fallible.reading g >>= f) s R E :=
  Ends.bind_exec (by rw [exec_reading, hg]) h

/-- The rule of a counted loop: `I k` holds before the turn `k`. -/
theorem Ends.foldlM {body : β → Nat → Fallible ε σ β} (I : Nat → β → σ → Prop) (E : σ → Prop)
    (n lo : Nat) (b : β) (s : σ)
    (hbody : ∀ k b s, lo ≤ k → k < lo + n → I k b s → Ends (body b k) s (I (k + 1)) E)
    (hI : I lo b s) : Ends ((List.range' lo n).foldlM body b) s (I (lo + n)) E :=
  Outcome.ends (Outcome.foldlM I (fun _ => E) n lo b s
    (fun k b s hk hk' hI => (hbody k b s hk hk' hI).outcome) hI)

end Rules

/-! ### Traversals -/

/-- A traversal returns what its turns return. -/
theorem mapM_ok_iff (f : α → Except ε β) (l : List α) (ys : List β) :
    l.mapM f = .ok ys ↔ List.Forall₂ (fun x y => f x = .ok y) l ys := by
  induction l generalizing ys with
  | nil => cases ys <;> simp [pure, Except.pure]
  | cons x l ih =>
    rw [List.mapM_cons, List.forall₂_cons_left_iff]
    rcases hx : f x with e | y
    · simp [bind, Except.bind]
    · rcases hl : l.mapM f with e | zs
      · simp only [bind, Except.bind, reduceCtorEq, false_iff]
        rintro ⟨_, ys', -, hrest, -⟩
        rw [← ih, hl] at hrest
        cases hrest
      · simp only [bind, Except.bind, pure, Except.pure, Except.ok.injEq, ← ih, hl]
        constructor
        · rintro rfl
          exact ⟨y, zs, rfl, rfl, rfl⟩
        · rintro ⟨_, _, rfl, rfl, rfl⟩
          rfl

/-- A traversal in which no turn fails. -/
theorem mapM_ok (f : α → Except ε β) (g : α → β) (l : List α) (h : ∀ x ∈ l, f x = .ok (g x)) :
    l.mapM f = .ok (l.map g) :=
  (mapM_ok_iff f l _).mpr (List.forall₂_map_right_iff.mpr (List.forall₂_same.mpr h))

/-- A traversal whose turns fail with one error, where a test says so. -/
theorem mapM_test (p : α → Bool) (g : α → β) (e : ε) (l : List α) :
    l.mapM (fun x => if p x then throw e else pure (g x) : α → Except ε β) =
      if l.any p then .error e else .ok (l.map g) := by
  induction l with
  | nil => rfl
  | cons x l ih =>
    rw [List.mapM_cons, ih, List.any_cons]
    cases hx : p x
    · cases hl : l.any p <;> rfl
    · rfl

/-- If every turn gives its value or one and the same error, so does the whole loop. -/
theorem mapM_ok_or_error {f : α → Except ε β} {g : α → β} {e : ε} {l : List α}
    (h : ∀ x ∈ l, f x = .ok (g x) ∨ f x = .error e) :
    l.mapM f = .ok (l.map g) ∨ l.mapM f = .error e := by
  induction l with
  | nil => exact .inl rfl
  | cons x l ih =>
    obtain ⟨hx, hl⟩ := List.forall_mem_cons.mp h
    rw [List.mapM_cons]
    rcases hx with hx | hx
    · rcases ih hl with hok | herror
      · left
        rw [hx, hok]
        rfl
      · right
        rw [hx, herror]
        rfl
    · right
      rw [hx]
      rfl

end RustKernel.Lib
