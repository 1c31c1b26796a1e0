import RustKernel.Lib.Precedence

/-!
# RustKernel.Shell.Calc

The calculator of the shell: `tokenize`, `shuntingYard` and `evalRpn`, on the bytes of the input.

An `i64` is an integer whose range the checked operations keep. The stacks of the source grow at the
end of a `Vec`; here the top of a stack is the head of a list.

## Main result

`eval_ok_iff`: a value is returned exactly for the strings whose tokens, with the missing opening
parentheses in front, are those of a ranked tree that runs to one value.
-/

namespace RustKernel.Calc

open Lib.Precedence

/-- `Num(i64)`, `Op(u8)`, `LParen` and `RParen`. -/
abbrev Tok := Token Int UInt8

/-! ### Tokens -/

/-- The range of `i64`. -/
def inI64 (n : Int) : Bool := decide (-2 ^ 63 ≤ n ∧ n < 2 ^ 63)

/-- `u8::is_ascii_whitespace`: tab, line feed, form feed, carriage return and space. -/
def isAsciiWhitespace (c : UInt8) : Bool :=
  decide (c ∈ ([0x09, 0x0A, 0x0C, 0x0D, 0x20] : List UInt8))

def isAsciiDigit (c : UInt8) : Bool := decide ('0'.toUInt8 ≤ c ∧ c ≤ '9'.toUInt8)

/-- The number that decimal digits write. -/
def decimal (digits : List UInt8) : Int :=
  digits.foldl (fun n d => 10 * n + ((d.toNat : Int) - 48)) 0

/-- Whether there is a minus in front, and what stands behind the sign. -/
def splitSign : List UInt8 → Bool × List UInt8
  | [] => (false, [])
  | c :: rest =>
    if c = '-'.toUInt8 then (true, rest)
    else if c = '+'.toUInt8 then (false, rest)
    else (false, c :: rest)

/-- `str::parse::<i64>` -/
def parseI64 (text : List UInt8) : Option Int :=
  let (negative, digits) := splitSign text
  let n := if negative then -decimal digits else decimal digits
  if digits ≠ [] ∧ digits.all isAsciiDigit ∧ inI64 n then some n else none

/-- A minus is a sign at the start, behind an operator and behind an opening parenthesis. -/
def signPosition : Option Tok → Bool
  | none => true
  | some (.op _) => true
  | some .lparen => true
  | some (.num _) => false
  | some .rparen => false

def operators : List UInt8 :=
  ['+'.toUInt8, '-'.toUInt8, '*'.toUInt8, '/'.toUInt8, '%'.toUInt8]

/-- The loop of `tokenize`, from the bytes that are left and the tokens so far. -/
def tokenizeFrom (bytes : List UInt8) (out : List Tok) : Except String (List Tok) :=
  match bytes with
  | [] => .ok out
  | c :: rest =>
    if isAsciiWhitespace c then tokenizeFrom rest out
    else if isAsciiDigit c ∨ (c = '-'.toUInt8 ∧ signPosition out.getLast?) then
      -- the digits behind the first byte, as many as there are
      match parseI64 (c :: rest.takeWhile isAsciiDigit) with
      | none => .error "bad number"
      | some n => tokenizeFrom (rest.dropWhile isAsciiDigit) (out ++ [.num n])
    else if c ∈ operators then tokenizeFrom rest (out ++ [.op c])
    else if c = '('.toUInt8 then tokenizeFrom rest (out ++ [.lparen])
    else if c = ')'.toUInt8 then tokenizeFrom rest (out ++ [.rparen])
    else .error "invalid token"
termination_by bytes.length
decreasing_by
  · simp
  · simpa [Nat.lt_succ_iff] using (List.dropWhile_sublist isAsciiDigit).length_le
  all_goals simp

def tokenize (s : List UInt8) : Except String (List Tok) := tokenizeFrom s []

/-! ### Shunting yard -/

def prec (op : UInt8) : Nat :=
  if op = '+'.toUInt8 ∨ op = '-'.toUInt8 then 1
  else if op = '*'.toUInt8 ∨ op = '/'.toUInt8 ∨ op = '%'.toUInt8 then 2
  else 0

/-- The loop before an operator is pushed. -/
def popOperators (o : UInt8) : List Tok → List Tok → Yard Int UInt8
  | output, .op top :: ops =>
    if prec o ≤ prec top then popOperators o (output ++ [.op top]) ops
    else ⟨output, .op top :: ops⟩
  | output, ops => ⟨output, ops⟩

/-- The loop of a closing parenthesis, which an empty stack ends too. -/
def popToParen : List Tok → List Tok → Yard Int UInt8
  | output, [] => ⟨output, []⟩
  | output, .lparen :: ops => ⟨output, ops⟩
  | output, t :: ops => popToParen (output ++ [t]) ops

def shuntingStep (y : Yard Int UInt8) : Tok → Yard Int UInt8
  | .num n => ⟨y.output ++ [.num n], y.ops⟩
  | .op o =>
    let popped := popOperators o y.output y.ops
    ⟨popped.output, .op o :: popped.ops⟩
  | .lparen => ⟨y.output, .lparen :: y.ops⟩
  | .rparen => popToParen y.output y.ops

/-- The loop behind the last token. -/
def popRest : List Tok → List Tok → Except String (List Tok)
  | output, [] => .ok output
  | _, .lparen :: _ => .error "mismatched parens"
  | _, .rparen :: _ => .error "mismatched parens"
  | output, t :: ops => popRest (output ++ [t]) ops

def shuntingYard (tokens : List Tok) : Except String (List Tok) :=
  let y := tokens.foldl shuntingStep ⟨[], []⟩
  popRest y.output y.ops

/-! ### Evaluation -/

/-- The value of an operation on `i64`, none when it overflows. -/
def checked (n : Int) : Option Int := if inI64 n then some n else none

def checkedAdd (a b : Int) : Option Int := checked (a + b)

def checkedSub (a b : Int) : Option Int := checked (a - b)

def checkedMul (a b : Int) : Option Int := checked (a * b)

/-- Division truncates. Of two numbers in range, only the quotient of `i64::MIN` by -1 is not. -/
def checkedDiv (a b : Int) : Option Int :=
  if b = 0 ∨ (a = -2 ^ 63 ∧ b = -1) then none else some (a.tdiv b)

/-- The remainder overflows where the quotient does. -/
def checkedRem (a b : Int) : Option Int :=
  if b = 0 ∨ (a = -2 ^ 63 ∧ b = -1) then none else some (a.tmod b)

def apply (op : UInt8) (a b : Int) : Option Int :=
  if op = '+'.toUInt8 then checkedAdd a b
  else if op = '-'.toUInt8 then checkedSub a b
  else if op = '*'.toUInt8 then checkedMul a b
  else if op = '/'.toUInt8 then checkedDiv a b
  else if op = '%'.toUInt8 then checkedRem a b
  else none

def evalRpnFrom : List Tok → List Int → Except String Int
  | [], [v] => .ok v
  | [], _ => .error "bad expression"
  | .num n :: tokens, stack => evalRpnFrom tokens (n :: stack)
  | .op op :: tokens, b :: a :: stack =>
    match apply op a b with
    | none => .error "overflow/div0"
    | some r => evalRpnFrom tokens (r :: stack)
  | .op _ :: _, _ => .error "stack underflow"
  | _ :: _, _ => .error "bad rpn"

def evalRpn (tokens : List Tok) : Except String Int := evalRpnFrom tokens []

def eval (input : List UInt8) : Except String Int := do
  let tokens ← tokenize input
  let rpn ← shuntingYard tokens
  evalRpn rpn

/-! ### The two passes behind the tokenizer -/

private theorem popOperators_eq (o : UInt8) (output ops : List Tok) :
    popOperators o output ops =
      ⟨output ++ ops.takeWhile (Token.outranks prec o), ops.dropWhile (Token.outranks prec o)⟩ := by
  induction ops generalizing output with
  | nil => simp [popOperators]
  | cons t ops ih =>
    cases t with
    | op top =>
      unfold popOperators
      by_cases h : prec o ≤ prec top
      · simp [h, ih, Token.outranks]
      · simp [h, Token.outranks]
    | _ => simp [popOperators, Token.outranks]

private theorem popToParen_eq (output ops : List Tok) :
    popToParen output ops = ⟨output ++ ops.takeWhile (fun t => !t.isOpening),
      (ops.dropWhile (fun t => !t.isOpening)).tail⟩ := by
  induction ops generalizing output with
  | nil => simp [popToParen]
  | cons t ops ih =>
    cases t with
    | lparen => simp [popToParen, Token.isOpening]
    | _ => simp [popToParen, Token.isOpening, ih]

private theorem shuntingStep_eq (y : Yard Int UInt8) (t : Tok) :
    shuntingStep y t = y.feed prec t := by
  cases t with
  | op o => simp [shuntingStep, Yard.feed, popOperators_eq]
  | rparen => simp [shuntingStep, Yard.feed, popToParen_eq]
  | _ => rfl

/-- No closing parenthesis is ever on the stack of operators. -/
private theorem rparen_not_mem_ops (tokens : List Tok) (y : Yard Int UInt8) (h : .rparen ∉ y.ops) :
    .rparen ∉ (tokens.foldl (Yard.feed prec) y).ops := by
  induction tokens generalizing y with
  | nil => exact h
  | cons t tokens ih =>
    apply ih
    cases t with
    | num n => exact h
    | op o =>
      intro hmem
      rcases List.mem_cons.mp hmem with heq | hmem
      · cases heq
      · exact h ((List.dropWhile_sublist _).subset hmem)
    | lparen => simpa [Yard.feed] using h
    | rparen =>
      intro hmem
      exact h ((List.dropWhile_sublist _).subset (List.mem_of_mem_tail hmem))

private theorem popRest_eq (output ops : List Tok) (h : .rparen ∉ ops) :
    popRest output ops = if ops.any Token.isOpening then .error "mismatched parens"
      else .ok (output ++ ops) := by
  induction ops generalizing output with
  | nil => simp [popRest]
  | cons t ops ih =>
    have hrest : .rparen ∉ ops := fun hmem => h (List.mem_cons_of_mem _ hmem)
    cases t with
    | rparen => exact absurd List.mem_cons_self h
    | lparen => simp [popRest, Token.isOpening]
    | _ => simp [popRest, Token.isOpening, ih _ hrest]

/-- The loops of the source are the two-stack algorithm with the ranks `prec`. -/
theorem shuntingYard_eq (tokens : List Tok) :
    shuntingYard tokens = (convert prec tokens).elim (.error "mismatched parens") .ok := by
  have hstep : shuntingStep = Yard.feed prec := funext fun y => funext (shuntingStep_eq y)
  have hmem : .rparen ∉ (tokens.foldl (Yard.feed prec) (⟨[], []⟩ : Yard Int UInt8)).ops :=
    rparen_not_mem_ops tokens _ List.not_mem_nil
  rw [shuntingYard, hstep, popRest_eq _ _ hmem, convert, Yard.start, Yard.finish]
  split <;> rfl

theorem evalRpnFrom_ok_iff (tokens : List Tok) (stack : List Int) (v : Int) :
    evalRpnFrom tokens stack = .ok v ↔ runPostfixed apply tokens stack = some [v] := by
  induction tokens generalizing stack with
  | nil =>
    rcases stack with _ | ⟨a, _ | ⟨b, stack⟩⟩ <;> simp [evalRpnFrom, runPostfixed]
  | cons t tokens ih =>
    cases t with
    | num n => exact ih (n :: stack)
    | op o =>
      rcases stack with _ | ⟨b, _ | ⟨a, stack⟩⟩
      · simp [evalRpnFrom, runPostfixed, applyTop]
      · simp [evalRpnFrom, runPostfixed, applyTop]
      · cases h : apply o a b with
        | none => simp [evalRpnFrom, runPostfixed, applyTop, h]
        | some r => simpa [evalRpnFrom, runPostfixed, applyTop, h] using ih (r :: stack)
    | _ => simp [evalRpnFrom, runPostfixed]

/-- What the calculator gives a value, and which one. -/
theorem eval_ok_iff (input : List UInt8) (v : Int) :
    eval input = .ok v ↔ ∃ tokens, tokenize input = .ok tokens ∧
      ∃ (k : Nat) (t : Loose Int UInt8), t.Ranked prec ∧
        t.tokens = List.replicate k .lparen ++ tokens ∧ t.run apply [] = some [v] := by
  have hrpn : ∀ tokens, (shuntingYard tokens >>= evalRpn) = .ok v ↔
      ∃ rpn, convert prec tokens = some rpn ∧ runPostfixed apply rpn [] = some [v] := by
    intro tokens
    rw [shuntingYard_eq]
    cases convert prec tokens with
    | none => simp [bind, Except.bind]
    | some rpn => simpa [bind, Except.bind, evalRpn] using evalRpnFrom_ok_iff rpn [] v
  have heval : eval input = tokenize input >>= fun tokens => shuntingYard tokens >>= evalRpn := rfl
  rw [heval]
  cases htok : tokenize input with
  | error e => simp [bind, Except.bind]
  | ok tokens =>
    change (shuntingYard tokens >>= evalRpn) = .ok v ↔ _
    rw [hrpn]
    constructor
    · rintro ⟨rpn, hconvert, hrun⟩
      obtain ⟨k, t, ht, htokens, rfl⟩ := (convert_eq_some_iff prec tokens rpn).mp hconvert
      rw [runPostfixed_postfixed] at hrun
      exact ⟨tokens, rfl, k, t, ht, htokens, hrun⟩
    · rintro ⟨_, ⟨rfl⟩, k, t, ht, htokens, hrun⟩
      refine ⟨t.postfixed, (convert_eq_some_iff prec _ _).mpr ⟨k, t, ht, htokens, rfl⟩, ?_⟩
      rw [runPostfixed_postfixed, hrun]

end RustKernel.Calc
