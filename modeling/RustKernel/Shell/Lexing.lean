import RustKernel.Shell.Calc

/-!
# RustKernel.Shell.Lexing

What the tokenizer of the calculator reads.

`Spelled` is the plain relation between tokens and text, with ASCII whitespace anywhere between
tokens. One text can spell several token strings (`1-2` is also two numbers); `Lexed` is the reading
that the tokenizer takes, and `tokenize_ok_iff` says so. Where operands and operators alternate,
every spelling is that reading (`Spelled.lexed`).
-/

namespace RustKernel.Calc

open Lib.Precedence

/-! ### Numbers in the text -/

/-- `digits` or `'-' digits`, without anything between. -/
structure Literal where
  negative : Bool
  digits : List UInt8
  digits_ne : digits ≠ []
  all_digits : digits.all isAsciiDigit

namespace Literal

def bytes (l : Literal) : List UInt8 :=
  if l.negative then '-'.toUInt8 :: l.digits else l.digits

def value (l : Literal) : Int := if l.negative then -decimal l.digits else decimal l.digits

end Literal

/-- No digit is whitespace, a sign, an operator or a parenthesis. -/
theorem isAsciiDigit_ne {c : UInt8} (h : isAsciiDigit c) :
    isAsciiWhitespace c = false ∧ c ∉ operators ∧ c ≠ '('.toUInt8 ∧ c ≠ ')'.toUInt8 := by
  have hspaces : ([0x09, 0x0A, 0x0C, 0x0D, 0x20] : List UInt8).all (!isAsciiDigit ·) := by decide
  have hoperators : operators.all (!isAsciiDigit ·) := by decide
  refine ⟨?_, ?_, ?_, ?_⟩
  · rw [isAsciiWhitespace, decide_eq_false_iff_not]
    intro hmem
    have hc := List.all_eq_true.mp hspaces c hmem
    simp [h] at hc
  · intro hmem
    have hc := List.all_eq_true.mp hoperators c hmem
    simp [h] at hc
  · rintro rfl
    revert h
    decide
  · rintro rfl
    revert h
    decide

private theorem splitSign_digit {c : UInt8} (h : isAsciiDigit c) (ds : List UInt8) :
    splitSign (c :: ds) = (false, c :: ds) := by
  obtain ⟨-, hno, -⟩ := isAsciiDigit_ne h
  have hminus : c ≠ '-'.toUInt8 := by
    rintro rfl
    exact hno (by decide)
  have hplus : c ≠ '+'.toUInt8 := by
    rintro rfl
    exact hno (by decide)
  rw [splitSign, if_neg hminus, if_neg hplus]

private theorem splitSign_bytes (l : Literal) : splitSign l.bytes = (l.negative, l.digits) := by
  obtain ⟨negative, digits, hne, hall⟩ := l
  cases negative with
  | true => rfl
  | false =>
    obtain ⟨d, ds, rfl⟩ := List.exists_cons_of_ne_nil hne
    exact splitSign_digit (List.all_eq_true.mp hall d List.mem_cons_self) ds

private theorem parseI64_bytes (l : Literal) (h : inI64 l.value) :
    parseI64 l.bytes = some l.value := by
  have hok : l.digits ≠ [] ∧ l.digits.all isAsciiDigit = true ∧ inI64 l.value = true :=
    ⟨l.digits_ne, l.all_digits, h⟩
  rw [parseI64, splitSign_bytes]
  exact if_pos hok

/-- What parses, of the bytes that the tokenizer tries, is a literal. -/
private theorem parseI64_eq_some {c : UInt8} {ds : List UInt8} {n : Int}
    (hc : isAsciiDigit c ∨ c = '-'.toUInt8) (h : parseI64 (c :: ds) = some n) :
    ∃ l : Literal, l.bytes = c :: ds ∧ l.value = n ∧ inI64 n ∧
      (l.negative → c = '-'.toUInt8) := by
  rcases hc with hc | rfl
  · rw [parseI64, splitSign_digit hc] at h
    obtain ⟨⟨hne, hall, hrange⟩, heq⟩ := Option.ite_none_right_eq_some.mp h
    obtain rfl := Option.some.inj heq
    exact ⟨⟨false, c :: ds, hne, hall⟩, rfl, rfl, hrange, by simp⟩
  · obtain ⟨⟨hne, hall, hrange⟩, heq⟩ := Option.ite_none_right_eq_some.mp h
    obtain rfl := Option.some.inj heq
    exact ⟨⟨true, ds, hne, hall⟩, rfl, rfl, hrange, fun _ => rfl⟩

/-! ### Spellings -/

/-- The text is the tokens in order, with whitespace around and between them. -/
inductive Spelled : List Tok → List UInt8 → Prop
  | done : Spelled [] []
  | space {c : UInt8} {ts : List Tok} {s : List UInt8} (hc : isAsciiWhitespace c)
      (h : Spelled ts s) : Spelled ts (c :: s)
  | number (l : Literal) {ts : List Tok} {s : List UInt8} (h : Spelled ts s) :
      Spelled (.num l.value :: ts) (l.bytes ++ s)
  | op {o : UInt8} {ts : List Tok} {s : List UInt8} (ho : o ∈ operators) (h : Spelled ts s) :
      Spelled (.op o :: ts) (o :: s)
  | lparen {ts : List Tok} {s : List UInt8} (h : Spelled ts s) :
      Spelled (.lparen :: ts) ('('.toUInt8 :: s)
  | rparen {ts : List Tok} {s : List UInt8} (h : Spelled ts s) :
      Spelled (.rparen :: ts) (')'.toUInt8 :: s)

/-- The spelling that the tokenizer reads behind the token `last`: a number takes all the digits
    there are, it has a sign only where a sign can stand, and a minus there is no operator. -/
inductive Lexed : Option Tok → List Tok → List UInt8 → Prop
  | done {last : Option Tok} : Lexed last [] []
  | space {last : Option Tok} {c : UInt8} {ts : List Tok} {s : List UInt8}
      (hc : isAsciiWhitespace c) (h : Lexed last ts s) : Lexed last ts (c :: s)
  | number {last : Option Tok} (l : Literal) {ts : List Tok} {s : List UInt8}
      (hsign : l.negative → signPosition last) (hrange : inI64 l.value)
      (hend : ∀ c ∈ s.head?, isAsciiDigit c = false) (h : Lexed (some (.num l.value)) ts s) :
      Lexed last (.num l.value :: ts) (l.bytes ++ s)
  | op {last : Option Tok} {o : UInt8} {ts : List Tok} {s : List UInt8} (ho : o ∈ operators)
      (hminus : ¬(o = '-'.toUInt8 ∧ signPosition last)) (h : Lexed (some (.op o)) ts s) :
      Lexed last (.op o :: ts) (o :: s)
  | lparen {last : Option Tok} {ts : List Tok} {s : List UInt8} (h : Lexed (some .lparen) ts s) :
      Lexed last (.lparen :: ts) ('('.toUInt8 :: s)
  | rparen {last : Option Tok} {ts : List Tok} {s : List UInt8} (h : Lexed (some .rparen) ts s) :
      Lexed last (.rparen :: ts) (')'.toUInt8 :: s)

/-! ### The tokenizer -/

private theorem takeWhile_digits {digits s : List UInt8} (hall : digits.all isAsciiDigit)
    (hend : ∀ c ∈ s.head?, isAsciiDigit c = false) :
    (digits ++ s).takeWhile isAsciiDigit = digits ∧
      (digits ++ s).dropWhile isAsciiDigit = s := by
  have h : ∀ d ∈ digits, isAsciiDigit d = true := List.all_eq_true.mp hall
  rw [List.takeWhile_append_of_pos h, List.dropWhile_append_of_pos h]
  cases s with
  | nil => simp
  | cons c s =>
    have hc : isAsciiDigit c = false := hend c rfl
    simp [hc]

/-- At a literal that stands where it can, the tokenizer takes the literal. -/
private theorem tokenizeFrom_literal (l : Literal) (s : List UInt8) (out : List Tok)
    (hsign : l.negative → signPosition out.getLast?) (hrange : inI64 l.value)
    (hend : ∀ c ∈ s.head?, isAsciiDigit c = false) :
    tokenizeFrom (l.bytes ++ s) out = tokenizeFrom s (out ++ [.num l.value]) := by
  have hparse := parseI64_bytes l hrange
  obtain ⟨negative, digits, hne, hall⟩ := l
  cases negative with
  | true =>
    obtain ⟨htake, hdrop⟩ := takeWhile_digits hall hend
    have hspace : isAsciiWhitespace '-'.toUInt8 = false := by decide
    have hsign' : signPosition out.getLast? := hsign rfl
    simp only [Literal.bytes, if_true, List.cons_append] at hparse ⊢
    rw [tokenizeFrom, hspace, htake, hdrop, hparse]
    simp [hsign']
  | false =>
    obtain ⟨d, ds, rfl⟩ := List.exists_cons_of_ne_nil hne
    have hd : isAsciiDigit d := List.all_eq_true.mp hall d List.mem_cons_self
    have hds : ds.all isAsciiDigit :=
      List.all_eq_true.mpr fun c hc => List.all_eq_true.mp hall c (List.mem_cons_of_mem _ hc)
    obtain ⟨htake, hdrop⟩ := takeWhile_digits hds hend
    obtain ⟨hspace, -⟩ := isAsciiDigit_ne hd
    simp only [Literal.bytes, Bool.false_eq_true, if_false, List.cons_append] at hparse ⊢
    rw [tokenizeFrom, hspace, htake, hdrop, hparse]
    simp [hd]

private theorem tokenizeFrom_of_lexed {last : Option Tok} {ts : List Tok} {s : List UInt8}
    (h : Lexed last ts s) (out : List Tok) (hlast : out.getLast? = last) :
    tokenizeFrom s out = .ok (out ++ ts) := by
  induction h generalizing out with
  | done => simp [tokenizeFrom]
  -- each rule is the branch of the scanner that its first byte selects
  | space hc _ ih =>
    rw [tokenizeFrom, if_pos hc]
    exact ih out hlast
  | number l hsign hrange hend _ ih =>
    rw [tokenizeFrom_literal l _ out (hlast ▸ hsign) hrange hend, ih _ (by simp)]
    simp
  | @op last o ts s ho hminus _ ih =>
    have hplain : operators.all fun o => !isAsciiWhitespace o && !isAsciiDigit o := by decide
    obtain ⟨hspace, hdigit⟩ : isAsciiWhitespace o = false ∧ isAsciiDigit o = false := by
      simpa using List.all_eq_true.mp hplain o ho
    have hno : ¬(isAsciiDigit o = true ∨ o = '-'.toUInt8 ∧ signPosition out.getLast? = true) := by
      simpa [hdigit, hlast] using hminus
    rw [tokenizeFrom, hspace]
    simp only [Bool.false_eq_true, if_false, if_neg hno, if_pos ho]
    rw [ih _ (by simp)]
    simp
  | lparen _ ih =>
    have hno : ¬(isAsciiDigit '('.toUInt8 ∨ '('.toUInt8 = '-'.toUInt8 ∧
        signPosition out.getLast?) := by
      rintro (h | ⟨h, -⟩) <;> revert h <;> decide
    rw [tokenizeFrom, if_neg (by decide), if_neg hno, if_neg (by decide), if_pos rfl,
      ih _ (by simp)]
    simp
  | rparen _ ih =>
    have hno : ¬(isAsciiDigit ')'.toUInt8 ∨ ')'.toUInt8 = '-'.toUInt8 ∧
        signPosition out.getLast?) := by
      rintro (h | ⟨h, -⟩) <;> revert h <;> decide
    rw [tokenizeFrom, if_neg (by decide), if_neg hno, if_neg (by decide), if_neg (by decide),
      if_pos rfl, ih _ (by simp)]
    simp

/-- What the tokenizer returns, it has read as `Lexed` says. -/
private theorem lexed_of_tokenizeFrom (s : List UInt8) (out tokens : List Tok)
    (h : tokenizeFrom s out = .ok tokens) :
    ∃ ts, tokens = out ++ ts ∧ Lexed out.getLast? ts s := by
  induction hn : s.length using Nat.strong_induction_on generalizing s out with
  | _ n ih =>
    subst hn
    cases s with
    | nil =>
      rw [tokenizeFrom] at h
      obtain rfl := Except.ok.inj h
      exact ⟨[], by simp, .done⟩
    | cons c rest =>
      have hrest : rest.length < (c :: rest).length := Nat.lt_succ_self _
      -- a token of one byte, and what follows it
      have hone : ∀ t : Tok, tokenizeFrom rest (out ++ [t]) = .ok tokens →
          ∃ ts, tokens = out ++ t :: ts ∧ Lexed (some t) ts rest := by
        intro t ht
        obtain ⟨ts, rfl, hlexed⟩ := ih _ hrest rest _ ht rfl
        exact ⟨ts, by simp, by simpa using hlexed⟩
      rw [tokenizeFrom] at h
      by_cases hspace : isAsciiWhitespace c
      · rw [if_pos hspace] at h
        obtain ⟨ts, rfl, hlexed⟩ := ih _ hrest rest out h rfl
        exact ⟨ts, rfl, .space hspace hlexed⟩
      rw [if_neg hspace] at h
      -- a number, which takes all the digits that follow
      by_cases hnumber : isAsciiDigit c ∨ c = '-'.toUInt8 ∧ signPosition out.getLast?
      · rw [if_pos hnumber] at h
        cases hparse : parseI64 (c :: rest.takeWhile isAsciiDigit) with
        | none => simp [hparse] at h
        | some m =>
          simp only [hparse] at h
          obtain ⟨l, hbytes, rfl, hrange, hneg⟩ :=
            parseI64_eq_some (hnumber.imp_right And.left) hparse
          have hlt : (rest.dropWhile isAsciiDigit).length < (c :: rest).length :=
            Nat.lt_succ_of_le (List.dropWhile_sublist _).length_le
          obtain ⟨ts, rfl, hlexed⟩ := ih _ hlt _ _ h rfl
          refine ⟨.num l.value :: ts, by simp, ?_⟩
          have hsplit : c :: rest = l.bytes ++ rest.dropWhile isAsciiDigit := by
            rw [hbytes, List.cons_append, List.takeWhile_append_dropWhile]
          rw [hsplit]
          refine .number l (fun hl => ?_) hrange (fun d hd => ?_) (by simpa using hlexed)
          · -- a literal with a sign begins with the minus, which is no digit
            obtain rfl := hneg hl
            rcases hnumber with hdigit | ⟨-, hsign⟩
            · exact absurd hdigit (by decide)
            · exact hsign
          · have hhead := List.head?_dropWhile_not isAsciiDigit rest
            rw [Option.mem_def.mp hd] at hhead
            exact hhead
      · -- the tests of the source, in their order
        rw [if_neg hnumber] at h
        have hminus : ¬(c = '-'.toUInt8 ∧ signPosition out.getLast?) := fun h => hnumber (.inr h)
        split at h
        case isTrue hop =>
          obtain ⟨ts, rfl, hlexed⟩ := hone _ h
          exact ⟨_, rfl, .op hop hminus hlexed⟩
        split at h
        case isTrue hopen =>
          subst hopen
          obtain ⟨ts, rfl, hlexed⟩ := hone _ h
          exact ⟨_, rfl, .lparen hlexed⟩
        split at h
        case isTrue hclose =>
          subst hclose
          obtain ⟨ts, rfl, hlexed⟩ := hone _ h
          exact ⟨_, rfl, .rparen hlexed⟩
        case isFalse => cases h

theorem tokenize_ok_iff (s : List UInt8) (ts : List Tok) :
    tokenize s = .ok ts ↔ Lexed none ts s := by
  constructor
  · intro h
    obtain ⟨ts', rfl, hlexed⟩ := lexed_of_tokenizeFrom s [] ts h
    exact hlexed
  · intro h
    exact tokenizeFrom_of_lexed h [] rfl

/-! ### Operands and operators in turn -/

/-- The tokens an operand can begin with. -/
def startsOperand : Tok → Bool
  | .num _ => true
  | .lparen => true
  | .op _ => false
  | .rparen => false

/-- Behind each token stands one that can follow it in an infix expression: an operand begins
    exactly where a sign could stand. -/
def Alternates : Option Tok → List Tok → Prop
  | _, [] => True
  | last, t :: ts => startsOperand t = signPosition last ∧ Alternates (some t) ts

/-- Behind a number, no digit follows. -/
private theorem Spelled.head_not_digit {ts : List Tok} {s : List UInt8} (h : Spelled ts s) {n : Int}
    (halt : Alternates (some (.num n)) ts) : ∀ c ∈ s.head?, isAsciiDigit c = false := by
  intro c hc
  by_contra hdigit
  obtain ⟨hspace, hop, hopen, hclose⟩ := isAsciiDigit_ne (Bool.not_eq_false _ ▸ hdigit)
  cases h with
  | done => cases hc
  | space hwhite _ =>
    obtain rfl := Option.some.inj hc
    simp [hspace] at hwhite
  | number l _ => exact absurd halt.1 (by simp [startsOperand, signPosition])
  | op ho _ =>
    obtain rfl := Option.some.inj hc
    exact hop ho
  | lparen _ =>
    obtain rfl := Option.some.inj hc
    exact hopen rfl
  | rparen _ =>
    obtain rfl := Option.some.inj hc
    exact hclose rfl

/-- Every spelling of tokens that alternate is the one that the tokenizer reads. -/
theorem Spelled.lexed {ts : List Tok} {s : List UInt8} (h : Spelled ts s) {last : Option Tok}
    (halt : Alternates last ts) (hrange : ∀ n, .num n ∈ ts → inI64 n) : Lexed last ts s := by
  induction h generalizing last with
  | done => exact .done
  | space hc _ ih => exact .space hc (ih halt hrange)
  | number l h ih =>
    obtain ⟨hstart, hrest⟩ := halt
    have hsign : signPosition last = true := hstart.symm
    exact .number l (fun _ => hsign) (hrange _ List.mem_cons_self) (h.head_not_digit hrest)
      (ih hrest fun n hn => hrange n (List.mem_cons_of_mem _ hn))
  | op ho _ ih =>
    obtain ⟨hstart, hrest⟩ := halt
    refine .op ho ?_ (ih hrest fun n hn => hrange n (List.mem_cons_of_mem _ hn))
    rintro ⟨-, hsign⟩
    exact absurd (hstart.trans hsign) (by simp [startsOperand])
  | lparen _ ih => exact .lparen (ih halt.2 fun n hn => hrange n (List.mem_cons_of_mem _ hn))
  | rparen _ ih => exact .rparen (ih halt.2 fun n hn => hrange n (List.mem_cons_of_mem _ hn))

end RustKernel.Calc
