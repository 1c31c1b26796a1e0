import RustKernel.Shell.Lexing

/-!
# RustKernel.Shell.Expressions

The infix grammar of the calculator, and what `eval` makes of its strings and of all others.

## Main results

* `eval_phrase`: a string of the grammar gets the value of its left-associative parse, or an error
  where an operation overflows or divides by zero. What an operator means is said over the integers
  (`meaning`), and `apply_eq_meaning` says that the calculator computes it.
* `eval_rejects_iff`: a string outside the grammar gets an error unless its tokens, with the missing
  opening parentheses in front, are a tree with rows of operands that runs to one value. Such
  strings exist: nothing looks at what stands next to what, and a closing parenthesis without an
  opening one is let through.
-/

namespace RustKernel.Calc

open Lib.Precedence

inductive Level
  | expr
  | term
  | factor

def additiveOps : List UInt8 := ['+'.toUInt8, '-'.toUInt8]

def multiplicativeOps : List UInt8 := ['*'.toUInt8, '/'.toUInt8, '%'.toUInt8]

/-- The derivations of
    expr = term (('+'|'-') term)*, term = factor (('*'|'/'|'%') factor)*,
    factor = number | '(' expr ')'. -/
inductive Phrase : Level → Type
  | number (n : Int) : Phrase .factor
  | parens (e : Phrase .expr) : Phrase .factor
  | factor (f : Phrase .factor) : Phrase .term
  | multiplicative (t : Phrase .term) (o : UInt8) (ho : o ∈ multiplicativeOps)
      (f : Phrase .factor) : Phrase .term
  | term (t : Phrase .term) : Phrase .expr
  | additive (e : Phrase .expr) (o : UInt8) (ho : o ∈ additiveOps) (t : Phrase .term) :
      Phrase .expr

/-! ### What the operators mean -/

/-- The integer, where it is an `i64`. -/
def ofInt (n : Int) : Option Int :=
  if -9223372036854775808 ≤ n ∧ n ≤ 9223372036854775807 then some n else none

/-- The operation on integers, where it is defined and what it computes is an `i64`. Division
    truncates towards zero, and a remainder is that of a quotient. -/
def meaning (o : UInt8) (a b : Int) : Option Int :=
  if o = '+'.toUInt8 then ofInt (a + b)
  else if o = '-'.toUInt8 then ofInt (a - b)
  else if o = '*'.toUInt8 then ofInt (a * b)
  else if b = 0 then none
  else if o = '/'.toUInt8 then ofInt (a.tdiv b)
  else (ofInt (a.tdiv b)).map fun _ => a.tmod b

private theorem ofInt_eq_some {n m : Int} (h : ofInt n = some m) : m = n ∧ inI64 n := by
  rw [ofInt] at h
  split at h
  case isTrue hin =>
    refine ⟨(Option.some.inj h).symm, decide_eq_true ?_⟩
    omega
  case isFalse => cases h

private theorem checked_eq_ofInt (n : Int) : checked n = ofInt n := by
  have hrange : inI64 n = true ↔ -9223372036854775808 ≤ n ∧ n ≤ 9223372036854775807 := by
    rw [inI64, decide_eq_true_eq]
    omega
  rw [checked, ofInt]
  exact if_congr hrange rfl rfl

/-- Only the quotient of the least `i64` by -1 is none. -/
private theorem ofInt_tdiv {a b : Int} (ha : inI64 a) (hb : b ≠ 0) :
    ofInt (a.tdiv b) = if a = -2 ^ 63 ∧ b = -1 then none else some (a.tdiv b) := by
  have ha := of_decide_eq_true ha
  have hle := Int.natAbs_tdiv_le_natAbs a b
  rw [ofInt]
  split
  case isTrue hin =>
    rw [if_neg]
    rintro ⟨rfl, rfl⟩
    exact absurd hin (by decide)
  case isFalse hout =>
    rw [if_pos]
    -- no quotient is larger than its dividend, so the dividend is the one without a negative
    have hbig : a = -2 ^ 63 := by omega
    subst hbig
    refine ⟨rfl, ?_⟩
    have habs : (Int.tdiv (-2 ^ 63) b).natAbs = 2 ^ 63 / b.natAbs := Int.natAbs_tdiv _ _
    have hone : b.natAbs = 1 := by
      by_contra hne
      have hhalf : 2 ^ 63 / b.natAbs ≤ 2 ^ 63 / 2 := Nat.div_le_div_left (by omega) (by decide)
      omega
    rcases Int.natAbs_eq b with hpos | hneg
    · rw [hpos, hone] at hout
      exact absurd (by decide) hout
    · rw [hneg, hone]
      rfl

/-- The calculator's operations on `i64` are these. -/
theorem apply_eq_meaning {o : UInt8} (ho : o ∈ operators) {a b : Int} (ha : inI64 a) :
    apply o a b = meaning o a b := by
  have hlast : ¬o = '+'.toUInt8 → ¬o = '-'.toUInt8 → ¬o = '*'.toUInt8 → ¬o = '/'.toUInt8 →
      o = '%'.toUInt8 := by
    simpa [operators, or_iff_not_imp_left] using ho
  rw [apply, meaning, checkedAdd, checkedSub, checkedMul, checked_eq_ofInt, checked_eq_ofInt,
    checked_eq_ofInt]
  by_cases hadd : o = '+'.toUInt8
  · rw [if_pos hadd, if_pos hadd]
  by_cases hsub : o = '-'.toUInt8
  · rw [if_neg hadd, if_neg hadd, if_pos hsub, if_pos hsub]
  by_cases hmul : o = '*'.toUInt8
  · rw [if_neg hadd, if_neg hadd, if_neg hsub, if_neg hsub, if_pos hmul, if_pos hmul]
  rw [if_neg hadd, if_neg hadd, if_neg hsub, if_neg hsub, if_neg hmul, if_neg hmul]
  -- division and remainder are tested for zero and for the quotient that is too large
  by_cases hb : b = 0
  · simp [checkedDiv, checkedRem, hb]
  rw [checkedDiv, checkedRem, if_neg hb, ofInt_tdiv ha hb]
  by_cases hdiv : o = '/'.toUInt8
  · simp [hdiv, hb]
  · rw [if_neg hdiv, if_neg hdiv, if_pos (hlast hadd hsub hmul hdiv)]
    simp only [hb, false_or]
    split <;> rfl

/-- The result of an operation is an `i64`. -/
private theorem inI64_meaning {o : UInt8} {a b v : Int} (ha : inI64 a)
    (h : meaning o a b = some v) :
    inI64 v := by
  rw [meaning] at h
  split_ifs at h
  case pos => exact (ofInt_eq_some h).1 ▸ (ofInt_eq_some h).2
  case pos => exact (ofInt_eq_some h).1 ▸ (ofInt_eq_some h).2
  case pos => exact (ofInt_eq_some h).1 ▸ (ofInt_eq_some h).2
  case pos => exact (ofInt_eq_some h).1 ▸ (ofInt_eq_some h).2
  case neg =>
    -- a remainder is no larger than the dividend, and has its sign
    obtain ⟨_, -, rfl⟩ := Option.map_eq_some_iff.mp h
    have ha := of_decide_eq_true ha
    have hle : (a.tmod b).natAbs ≤ a.natAbs := Int.natAbs_tmod a b ▸ Nat.mod_le _ _
    have hpos : 0 ≤ a → 0 ≤ a.tmod b := Int.tmod_nonneg b
    have hneg : 0 ≤ -a → 0 ≤ (-a).tmod b := Int.tmod_nonneg b
    rw [Int.neg_tmod] at hneg
    exact decide_eq_true (by omega)

/-! ### Phrases -/

namespace Phrase

variable {level : Level}

def tokens : {level : Level} → Phrase level → List Tok
  | _, .number n => [.num n]
  | _, .parens e => .lparen :: (e.tokens ++ [.rparen])
  | _, .factor f => f.tokens
  | _, .multiplicative t o _ f => t.tokens ++ .op o :: f.tokens
  | _, .term t => t.tokens
  | _, .additive e o _ t => e.tokens ++ .op o :: t.tokens

/-- The value, none where an operation has none. -/
def value : {level : Level} → Phrase level → Option Int
  | _, .number n => some n
  | _, .parens e => e.value
  | _, .factor f => f.value
  | _, .multiplicative t o _ f => do meaning o (← t.value) (← f.value)
  | _, .term t => t.value
  | _, .additive e o _ t => do meaning o (← e.value) (← t.value)

end Phrase

/-- The string is in the grammar. -/
def InGrammar (s : List UInt8) : Prop := ∃ e : Phrase .expr, Spelled e.tokens s

/-! ### The tree of a phrase -/

namespace Phrase

variable {level : Level}

def tree : {level : Level} → Phrase level → Loose Int UInt8
  | _, .number n => .operand .empty n
  | _, .parens e => .group .empty e.tree
  | _, .factor f => f.tree
  | _, .multiplicative t o _ f => .node t.tree o f.tree
  | _, .term t => t.tree
  | _, .additive e o _ t => .node e.tree o t.tree

private theorem tokens_tree (p : Phrase level) : p.tree.tokens = p.tokens := by
  induction p with
  | number n => rfl
  | parens e ih => simp [tree, tokens, Loose.tokens, ih]
  | factor f ih => exact ih
  | multiplicative t o ho f iht ihf => simp [tree, tokens, Loose.tokens, iht, ihf]
  | term t ih => exact ih
  | additive e o ho t ihe iht => simp [tree, tokens, Loose.tokens, ihe, iht]

private theorem isRow_factor (f : Phrase .factor) : f.tree.IsRow := by
  cases f <;> trivial

private theorem multiplicative_mem {o : UInt8} (ho : o ∈ multiplicativeOps) : o ∈ operators :=
  List.mem_cons_of_mem _ (List.mem_cons_of_mem _ ho)

private theorem additive_mem {o : UInt8} (ho : o ∈ additiveOps) : o ∈ operators :=
  List.mem_append_left multiplicativeOps ho

private theorem prec_multiplicative {o : UInt8} (ho : o ∈ multiplicativeOps) : prec o = 2 := by
  have hall : multiplicativeOps.all fun o => decide (prec o = 2) := by decide
  exact of_decide_eq_true (List.all_eq_true.mp hall o ho)

private theorem prec_additive {o : UInt8} (ho : o ∈ additiveOps) : prec o = 1 := by
  have hall : additiveOps.all fun o => decide (prec o = 1) := by decide
  exact of_decide_eq_true (List.all_eq_true.mp hall o ho)

/-- Outside parentheses, a term has no additive operators. -/
private theorem atLeast_term (t : Phrase .term) : t.tree.AtLeast prec 2 := by
  cases t with
  | factor f => exact (isRow_factor f).atLeast 2
  | multiplicative t o ho f => exact (prec_multiplicative ho).ge

private theorem atLeast_expr (e : Phrase .expr) : e.tree.AtLeast prec 1 := by
  cases e with
  | term t => exact (atLeast_term t).mono (by omega)
  | additive e o ho t => exact (prec_additive ho).ge

theorem ranked_tree (p : Phrase level) : p.tree.Ranked prec := by
  induction p with
  | number n => exact ⟨trivial, trivial⟩
  | parens e ih => exact ⟨trivial, trivial, ih⟩
  | factor f ih => exact ih
  | multiplicative t o ho f iht ihf =>
    refine ⟨iht, ihf, ?_, (isRow_factor f).atLeast _⟩
    rw [prec_multiplicative ho]
    exact atLeast_term t
  | term t ih => exact ih
  | additive e o ho t ihe iht =>
    refine ⟨ihe, iht, ?_, ?_⟩
    · rw [prec_additive ho]
      exact atLeast_expr e
    · rw [prec_additive ho]
      exact atLeast_term t

/-- The value of a phrase of `i64` literals is an `i64`. -/
private theorem inI64_value (p : Phrase level) (hrange : ∀ n, .num n ∈ p.tokens → inI64 n) {v : Int}
    (h : p.value = some v) : inI64 v := by
  induction p generalizing v with
  | number n =>
    obtain rfl := Option.some.inj h
    exact hrange n List.mem_cons_self
  | parens e ih => exact ih (fun n hn => hrange n (by simp [tokens, hn])) h
  | factor f ih => exact ih hrange h
  | multiplicative t o ho f iht ihf =>
    obtain ⟨a, ha, b, -, hv⟩ : ∃ a, t.value = some a ∧ ∃ b, f.value = some b ∧
        meaning o a b = some v := by
      simpa [value, Option.bind_eq_some_iff] using h
    exact inI64_meaning (iht (fun n hn => hrange n (by simp [tokens, hn])) ha) hv
  | term t ih => exact ih hrange h
  | additive e o ho t ihe iht =>
    obtain ⟨a, ha, b, -, hv⟩ : ∃ a, e.value = some a ∧ ∃ b, t.value = some b ∧
        meaning o a b = some v := by
      simpa [value, Option.bind_eq_some_iff] using h
    exact inI64_meaning (ihe (fun n hn => hrange n (by simp [tokens, hn])) ha) hv

private theorem run_node (l r : Loose Int UInt8) {o : UInt8} (ho : o ∈ operators) (a b : Option Int)
    (hl : ∀ stack, l.run apply stack = a.map (· :: stack))
    (hr : ∀ stack, r.run apply stack = b.map (· :: stack)) (ha : ∀ n, a = some n → inI64 n)
    (stack : List Int) :
    (Loose.node l o r).run apply stack = (do meaning o (← a) (← b)).map (· :: stack) := by
  rw [Loose.run, hl]
  cases a with
  | none => rfl
  | some a =>
    cases b with
    | none => simp [hr]
    | some b => simp [hr, applyTop, apply_eq_meaning ho (ha a rfl)]

/-- The tree of a phrase leaves the value of the phrase on the stack. -/
private theorem run_tree (p : Phrase level) (hrange : ∀ n, .num n ∈ p.tokens → inI64 n)
    (stack : List Int) : p.tree.run apply stack = p.value.map (· :: stack) := by
  induction p generalizing stack with
  | number n => rfl
  | parens e ih =>
    have hinner := ih fun n hn => hrange n (by simp [tokens, hn])
    simp [tree, value, Loose.run, hinner]
  | factor f ih => exact ih hrange stack
  | multiplicative t o ho f iht ihf =>
    have hleft : ∀ n, .num n ∈ t.tokens → inI64 n := fun n hn => hrange n (by simp [tokens, hn])
    have hright : ∀ n, .num n ∈ f.tokens → inI64 n := fun n hn => hrange n (by simp [tokens, hn])
    exact run_node _ _ (multiplicative_mem ho) _ _ (iht hleft) (ihf hright)
      (fun _ => t.inI64_value hleft) stack
  | term t ih => exact ih hrange stack
  | additive e o ho t ihe iht =>
    have hleft : ∀ n, .num n ∈ e.tokens → inI64 n := fun n hn => hrange n (by simp [tokens, hn])
    have hright : ∀ n, .num n ∈ t.tokens → inI64 n := fun n hn => hrange n (by simp [tokens, hn])
    exact run_node _ _ (additive_mem ho) _ _ (ihe hleft) (iht hright)
      (fun _ => e.inI64_value hleft) stack

/-- The tokens of a phrase stand where an operand can, and what follows an operand can follow. -/
private theorem alternates_tokens (p : Phrase level) {last : Option Tok} {rest : List Tok}
    (hlast : signPosition last = true)
    (hrest : ∀ t, signPosition (some t) = false → Alternates (some t) rest) :
    Alternates last (p.tokens ++ rest) := by
  induction p generalizing last rest with
  | number n => exact ⟨hlast.symm, hrest _ rfl⟩
  | parens e ih =>
    rw [tokens, List.cons_append, List.append_assoc]
    exact ⟨hlast.symm, ih rfl fun t ht => ⟨ht.symm, hrest _ rfl⟩⟩
  | factor f ih => exact ih hlast hrest
  | multiplicative t o ho f iht ihf =>
    rw [tokens, List.append_assoc, List.cons_append]
    exact iht hlast fun t ht => ⟨ht.symm, ihf rfl hrest⟩
  | term t ih => exact ih hlast hrest
  | additive e o ho t ihe iht =>
    rw [tokens, List.append_assoc, List.cons_append]
    exact ihe hlast fun t ht => ⟨ht.symm, iht rfl hrest⟩

theorem lexed {p : Phrase level} {s : List UInt8} (h : Spelled p.tokens s)
    (hrange : ∀ n, .num n ∈ p.tokens → inI64 n) : Lexed none p.tokens s := by
  refine h.lexed ?_ hrange
  have halt : Alternates none (p.tokens ++ []) := alternates_tokens p rfl fun _ _ => trivial
  simpa using halt

end Phrase

/-! ### Strings of the grammar -/

private theorem eval_eq_of_phrase {e : Phrase .expr} {s : List UInt8} (h : Spelled e.tokens s)
    (hrange : ∀ n, .num n ∈ e.tokens → inI64 n) (v : Int) :
    eval s = .ok v ↔ e.value = some v := by
  have htokenize : tokenize s = .ok e.tokens := (tokenize_ok_iff s _).mpr (Phrase.lexed h hrange)
  have hconvert : convert prec e.tokens = some e.tree.postfixed :=
    (convert_eq_some_iff prec _ _).mpr ⟨0, e.tree, e.ranked_tree, e.tokens_tree, rfl⟩
  have heval : eval s = evalRpn e.tree.postfixed := by
    have hyard := shuntingYard_eq e.tokens
    rw [hconvert] at hyard
    simp only [eval, htokenize]
    exact congrArg (· >>= evalRpn) hyard
  rw [heval, evalRpn, evalRpnFrom_ok_iff, runPostfixed_postfixed,
    Phrase.run_tree _ hrange]
  simp

/-- The calculator is right on its grammar. -/
theorem eval_phrase (e : Phrase .expr) (s : List UInt8) (hs : Spelled e.tokens s)
    (hrange : ∀ n, .num n ∈ e.tokens → inI64 n) :
    (∀ v, e.value = some v → eval s = .ok v) ∧
      (e.value = none → ∃ message, eval s = .error message) := by
  constructor
  · intro v hv
    exact (eval_eq_of_phrase hs hrange v).mpr hv
  · intro hnone
    cases h : eval s with
    | error message => exact ⟨message, rfl⟩
    | ok v =>
      rw [(eval_eq_of_phrase hs hrange v).mp h] at hnone
      cases hnone

/-- `-7 / 2 * (5 + -7 % 4)` -/
def quotients : Phrase .expr :=
  .term (.multiplicative
    (.multiplicative (.factor (.number (-7))) '/'.toUInt8 (by decide) (.number 2)) '*'.toUInt8
    (by decide)
    (.parens (.additive (.term (.factor (.number 5))) '+'.toUInt8 (by decide)
      (.multiplicative (.factor (.number (-7))) '%'.toUInt8 (by decide) (.number 4)))))

/-- `-7 / 2*(5+ -7%4)` and a space -/
def quotientsText : List UInt8 :=
  ['-', '7', ' ', '/', ' ', '2', '*', '(', '5', '+', ' ', '-', '7', '%', '4', ')', ' '].map
    Char.toUInt8

private theorem spelled_quotients : Spelled quotients.tokens quotientsText := by
  have hspace : isAsciiWhitespace ' '.toUInt8 := by decide
  have hspelled := Spelled.number ⟨true, ['7'.toUInt8], by simp, by decide⟩ <| .space hspace <|
    .op (o := '/'.toUInt8) (by decide) <| .space hspace <|
    .number ⟨false, ['2'.toUInt8], by simp, by decide⟩ <| .op (o := '*'.toUInt8) (by decide) <|
    .lparen <| .number ⟨false, ['5'.toUInt8], by simp, by decide⟩ <|
    .op (o := '+'.toUInt8) (by decide) <| .space hspace <|
    .number ⟨true, ['7'.toUInt8], by simp, by decide⟩ <| .op (o := '%'.toUInt8) (by decide) <|
    .number ⟨false, ['4'.toUInt8], by simp, by decide⟩ <| .rparen <| .space hspace .done
  exact hspelled

/-- Both the quotient and the remainder are -3: they are rounded towards zero. -/
theorem eval_quotients : eval quotientsText = .ok (-6) := by
  have hrange : ∀ n, .num n ∈ quotients.tokens → inI64 n := by
    intro n hn
    simp only [quotients, Phrase.tokens, List.cons_append, List.nil_append, List.mem_cons,
      Token.num.injEq, reduceCtorEq, List.not_mem_nil, or_false, false_or] at hn
    rcases hn with rfl | rfl | rfl | rfl | rfl <;> decide
  exact (eval_phrase quotients quotientsText spelled_quotients hrange).1 (-6) (by decide +kernel)

/-! ### All other strings -/

/-- The string is given a value as a tree with rows: its tokens, with `k` opening parentheses in
    front, are the tokens of a ranked tree that leaves one value on an empty stack. -/
def RunsAsRows (s : List UInt8) : Prop :=
  ∃ (ts : List Tok) (k : Nat) (t : Loose Int UInt8) (v : Int), Lexed none ts s ∧ t.Ranked prec ∧
    t.tokens = List.replicate k .lparen ++ ts ∧ t.run apply [] = some [v]

private theorem eval_ok_iff_runsAsRows (s : List UInt8) : (∃ v, eval s = .ok v) ↔ RunsAsRows s := by
  constructor
  · rintro ⟨v, h⟩
    obtain ⟨ts, htokenize, k, t, ht, htokens, hrun⟩ := (eval_ok_iff s v).mp h
    exact ⟨ts, k, t, v, (tokenize_ok_iff s ts).mp htokenize, ht, htokens, hrun⟩
  · rintro ⟨ts, k, t, v, hlexed, ht, htokens, hrun⟩
    exact ⟨v, (eval_ok_iff s v).mpr ⟨ts, (tokenize_ok_iff s ts).mpr hlexed, k, t, ht, htokens,
      hrun⟩⟩

/-- A string outside the grammar is rejected exactly when it has no reading with rows. -/
theorem eval_rejects_iff (s : List UInt8) :
    (¬InGrammar s → ∃ message, eval s = .error message) ↔ InGrammar s ∨ ¬RunsAsRows s := by
  rw [← eval_ok_iff_runsAsRows]
  have hresult : (∃ message, eval s = .error message) ↔ ¬∃ v, eval s = .ok v := by
    cases eval s with
    | error message => simp
    | ok v => simp
  rw [hresult]
  exact Classical.or_iff_not_imp_left.symm

/-! ### Parentheses without a partner -/

theorem Literal.not_mem_bytes (l : Literal) {c : UInt8} (hc : c = '('.toUInt8 ∨ c = ')'.toUInt8) :
    c ∉ l.bytes := by
  intro hmem
  have hdigits : c ∉ l.digits := by
    intro h
    obtain ⟨-, -, hopen, hclose⟩ := isAsciiDigit_ne (List.all_eq_true.mp l.all_digits c h)
    exact hc.elim hopen hclose
  unfold Literal.bytes at hmem
  split at hmem
  · rcases List.mem_cons.mp hmem with rfl | hmem
    · rcases hc with h | h <;> exact absurd h (by decide)
    · exact hdigits hmem
  · exact hdigits hmem

/-- A text has the parentheses of its tokens. -/
theorem Spelled.count_parens {ts : List Tok} {s : List UInt8} (h : Spelled ts s) :
    s.count '('.toUInt8 = ts.count .lparen ∧ s.count ')'.toUInt8 = ts.count .rparen := by
  induction h with
  | done => exact ⟨rfl, rfl⟩
  | @space c ts s hc h ih =>
    -- white space, digits, signs and operators are no parentheses
    have hopen : c ≠ '('.toUInt8 := by
      rintro rfl
      exact absurd hc (by decide)
    have hclose : c ≠ ')'.toUInt8 := by
      rintro rfl
      exact absurd hc (by decide)
    rwa [List.count_cons_of_ne hopen, List.count_cons_of_ne hclose]
  | number l h ih =>
    rw [List.count_append, List.count_append, List.count_eq_zero.mpr (l.not_mem_bytes (.inl rfl)),
      List.count_eq_zero.mpr (l.not_mem_bytes (.inr rfl)), Nat.zero_add, Nat.zero_add]
    simpa using ih
  | @op o ts s ho h ih =>
    have hopen : o ≠ '('.toUInt8 := by
      rintro rfl
      exact absurd ho (by decide)
    have hclose : o ≠ ')'.toUInt8 := by
      rintro rfl
      exact absurd ho (by decide)
    rw [List.count_cons_of_ne hopen, List.count_cons_of_ne hclose]
    simpa using ih
  | lparen h ih =>
    rw [List.count_cons_self, List.count_cons_self, List.count_cons_of_ne (by decide)]
    simpa using ih
  | rparen h ih =>
    rw [List.count_cons_self, List.count_cons_self, List.count_cons_of_ne (by decide)]
    simpa using ih

theorem Phrase.count_parens {level : Level} (p : Phrase level) :
    p.tokens.count .lparen = p.tokens.count .rparen := by
  induction p with
  | number n => rfl
  | parens e ih => simp [tokens, ih]
  | factor f ih => exact ih
  | multiplicative t o ho f iht ihf => simp [tokens, iht, ihf]
  | term t ih => exact ih
  | additive e o ho t ihe iht => simp [tokens, ihe, iht]

private theorem InGrammar.balanced {s : List UInt8} (h : InGrammar s) :
    s.count '('.toUInt8 = s.count ')'.toUInt8 := by
  obtain ⟨e, hspelled⟩ := h
  obtain ⟨hopen, hclose⟩ := hspelled.count_parens
  rw [hopen, hclose, e.count_parens]

/-- `1)` is no expression, and has the value 1. -/
theorem eval_unopened : ¬InGrammar (['1', ')'].map Char.toUInt8) ∧
    eval (['1', ')'].map Char.toUInt8) = .ok 1 := by
  refine ⟨fun h => ?_, by decide +kernel⟩
  exact absurd h.balanced (by decide)

example : eval (['1', ' ', '2', ' ', '+'].map Char.toUInt8) = .ok 3 := by decide +kernel

end RustKernel.Calc
