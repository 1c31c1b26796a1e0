import Mathlib.Data.List.Basic
import Mathlib.Tactic

/-!
# RustKernel.Lib.Run

Finite runs of a deterministic system: a step function over a list of events.

`states step s es` lists every state of the run, the first one included, and
`guardedRun_iff` is the rule for a property that an invariant gives and that a
step outside its guard breaks at once: the property holds in every state of the
run exactly when every step is taken within its guard.
-/

namespace RustKernel.Lib

variable {σ ε : Type}

/-- All states a run goes through, from the first to the last. -/
def states (step : σ → ε → σ) (s : σ) : List ε → List σ
  | [] => [s]
  | e :: es => s :: states step (step s e) es

/-- The steps of a run: each event with the state it happens in. -/
def steps (step : σ → ε → σ) (s : σ) : List ε → List (σ × ε)
  | [] => []
  | e :: es => (s, e) :: steps step (step s e) es

/-- An invariant that every guarded step keeps holds in all states of a guarded run. -/
theorem invariant_states (step : σ → ε → σ) (I : σ → Prop) (G : σ → ε → Prop)
    (hkeep : ∀ s e, I s → G s e → I (step s e)) (s : σ) (es : List ε) (hs : I s)
    (hG : ∀ p ∈ steps step s es, G p.1 p.2) : ∀ t ∈ states step s es, I t := by
  induction es generalizing s with
  | nil =>
    intro t ht
    obtain rfl := List.mem_singleton.mp ht
    exact hs
  | cons e es ih =>
    intro t ht
    have hnext : I (step s e) := hkeep s e hs (hG (s, e) List.mem_cons_self)
    rcases List.mem_cons.mp ht with rfl | ht
    · exact hs
    · exact ih _ hnext (fun p hp => hG p (List.mem_cons_of_mem _ hp)) t ht

/-- An invariant that every guarded step keeps holds before every step of a guarded run. -/
theorem invariant_steps (step : σ → ε → σ) (I : σ → Prop) (G : σ → ε → Prop)
    (hkeep : ∀ s e, I s → G s e → I (step s e)) (s : σ) (es : List ε) (hs : I s)
    (hG : ∀ p ∈ steps step s es, G p.1 p.2) : ∀ p ∈ steps step s es, I p.1 := by
  induction es generalizing s with
  | nil =>
    intro p hp
    cases hp
  | cons e es ih =>
    intro p hp
    have hnext : I (step s e) := hkeep s e hs (hG (s, e) List.mem_cons_self)
    rcases List.mem_cons.mp hp with rfl | hp
    · exact hs
    · exact ih _ hnext (fun q hq => hG q (List.mem_cons_of_mem _ hq)) p hp

/-- An invariant that every step keeps holds after every run. -/
theorem invariant_after (step : σ → ε → σ) (I : σ → Prop) (hkeep : ∀ s e, I s → I (step s e))
    (s : σ) (es : List ε) (hs : I s) : I (es.foldl step s) := by
  induction es generalizing s with
  | nil => exact hs
  | cons e es ih => exact ih _ (hkeep s e hs)

/-- A run goes through its last state. -/
theorem foldl_mem_states (step : σ → ε → σ) (s : σ) (es : List ε) :
    es.foldl step s ∈ states step s es := by
  induction es generalizing s with
  | nil => exact List.mem_cons_self
  | cons e es ih => exact List.mem_cons_of_mem _ (ih _)

/-- The state that a step of a run leads to is a state of the run. -/
theorem step_mem_states {step : σ → ε → σ} {s : σ} {es : List ε} {p : σ × ε}
    (h : p ∈ steps step s es) : step p.1 p.2 ∈ states step s es := by
  induction es generalizing s with
  | nil => cases h
  | cons e es ih =>
    rcases List.mem_cons.mp h with rfl | h
    · cases es with
      | nil => exact List.mem_cons_of_mem _ List.mem_cons_self
      | cons => exact List.mem_cons_of_mem _ List.mem_cons_self
    · exact List.mem_cons_of_mem _ (ih h)

theorem mem_of_mem_steps {step : σ → ε → σ} {s : σ} {es : List ε} {p : σ × ε}
    (h : p ∈ steps step s es) : p.2 ∈ es := by
  induction es generalizing s with
  | nil => cases h
  | cons e es ih =>
    rcases List.mem_cons.mp h with rfl | h
    · exact List.mem_cons_self
    · exact List.mem_cons_of_mem _ (ih h)

/-- The last step of a run is taken in the state that the events before it lead to. -/
theorem mem_steps_concat (step : σ → ε → σ) (s : σ) (es : List ε) (e : ε) :
    (es.foldl step s, e) ∈ steps step s (es ++ [e]) := by
  induction es generalizing s with
  | nil => exact List.mem_cons_self
  | cons e' es ih => exact List.mem_cons_of_mem _ (ih _)

theorem steps_append (step : σ → ε → σ) (s : σ) (es fs : List ε) :
    steps step s (es ++ fs) = steps step s es ++ steps step (es.foldl step s) fs := by
  induction es generalizing s with
  | nil => rfl
  | cons e es ih => simp only [List.cons_append, steps, List.foldl_cons, ih]

/-- `P` follows from the invariant, and a legal step outside the guard breaks it. -/
theorem guardedRun_iff_of_legal (step : σ → ε → σ) (I P : σ → Prop) (L G : σ → ε → Prop)
    (hsound : ∀ s, I s → P s)
    (hkeep : ∀ s e, I s → L s e → G s e → I (step s e))
    (hbreak : ∀ s e, I s → L s e → ¬G s e → ¬P (step s e))
    (s : σ) (es : List ε) (hs : I s) (hL : ∀ p ∈ steps step s es, L p.1 p.2) :
    (∀ t ∈ states step s es, P t) ↔ ∀ p ∈ steps step s es, G p.1 p.2 := by
  induction es generalizing s with
  | nil => simp [states, steps, hsound s hs]
  | cons e es ih =>
    simp only [states, steps, List.mem_cons, forall_eq_or_imp] at hL ⊢
    obtain ⟨hLe, hLes⟩ := hL
    by_cases hG : G s e
    · have hrest := ih _ (hkeep s e hs hLe hG) hLes
      exact ⟨fun h => ⟨hG, hrest.mp h.2⟩, fun h => ⟨hsound s hs, hrest.mpr h.2⟩⟩
    · constructor
      · rintro ⟨-, hall⟩
        refine absurd (hall (step s e) ?_) (hbreak s e hs hLe hG)
        cases es <;> exact List.mem_cons_self
      · rintro ⟨hG', -⟩
        exact absurd hG' hG

/-- The rule when legality is a matter of the event alone. -/
theorem guardedRun_iff (step : σ → ε → σ) (I P : σ → Prop) (L : ε → Prop) (G : σ → ε → Prop)
    (hsound : ∀ s, I s → P s)
    (hkeep : ∀ s e, I s → L e → G s e → I (step s e))
    (hbreak : ∀ s e, I s → L e → ¬G s e → ¬P (step s e))
    (s : σ) (es : List ε) (hs : I s) (hL : ∀ e ∈ es, L e) :
    (∀ t ∈ states step s es, P t) ↔ ∀ p ∈ steps step s es, G p.1 p.2 :=
  guardedRun_iff_of_legal step I P (fun _ e => L e) G hsound hkeep hbreak s es hs
    fun p hp => hL p.2 (mem_of_mem_steps hp)

end RustKernel.Lib
