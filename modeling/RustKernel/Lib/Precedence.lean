import Mathlib.Data.List.Basic
import Mathlib.Tactic

/-!
# RustKernel.Lib.Precedence

Operator-precedence reading of a token string with two stacks, for left-associative binary
operators of any number of ranks.

The algorithm (`Yard.feed`, `convert`) keeps no record of what stands next to what, so what it
reads is wider than infix expressions: a `Loose` has, in the place of an operand, any number of
operands and groups in a row, also none. `convert_eq_some_iff` says which token strings it accepts
and what it makes of them: those that the missing opening parentheses, put in front, turn into the
tokens of a ranked tree, and the result is the postfix form of that tree.
-/

namespace RustKernel.Lib.Precedence

variable {α β : Type}

/-- A token of an expression with operands in `α` and operators in `β`. -/
inductive Token (α β : Type)
  | num (a : α)
  | op (o : β)
  | lparen
  | rparen
  deriving DecidableEq, Repr

namespace Token

def isOpening : Token α β → Bool
  | .lparen => true
  | _ => false

/-- An operator of at least the rank of `o`. -/
def outranks (rank : β → Nat) (o : β) : Token α β → Bool
  | .op p => decide (rank o ≤ rank p)
  | _ => false

end Token

/-! ### Trees -/

/-- An expression, in which a row of operands and groups stands where one operand should. -/
inductive Loose (α β : Type)
  | empty
  | operand (row : Loose α β) (a : α)
  | group (row inner : Loose α β)
  | node (l : Loose α β) (o : β) (r : Loose α β)

namespace Loose

def tokens : Loose α β → List (Token α β)
  | .empty => []
  | .operand row a => row.tokens ++ [.num a]
  | .group row inner => row.tokens ++ .lparen :: (inner.tokens ++ [.rparen])
  | .node l o r => l.tokens ++ .op o :: r.tokens

/-- Operands before their operator, and no parentheses. -/
def postfixed : Loose α β → List (Token α β)
  | .empty => []
  | .operand row a => row.postfixed ++ [.num a]
  | .group row inner => row.postfixed ++ inner.postfixed
  | .node l o r => l.postfixed ++ r.postfixed ++ [.op o]

/-- A row: no operator outside groups. -/
def IsRow : Loose α β → Prop
  | .node .. => False
  | _ => True

/-- Of the operators outside groups, the one at the root has at least rank `n`. -/
def AtLeast (rank : β → Nat) (n : Nat) : Loose α β → Prop
  | .node _ o _ => n ≤ rank o
  | _ => True

/-- Operators of a higher rank bind tighter, and those of one rank to the left. -/
def Ranked (rank : β → Nat) : Loose α β → Prop
  | .empty => True
  | .operand row _ => row.IsRow ∧ row.Ranked rank
  | .group row inner => row.IsRow ∧ row.Ranked rank ∧ inner.Ranked rank
  | .node l o r =>
    l.Ranked rank ∧ r.Ranked rank ∧ l.AtLeast rank (rank o) ∧ r.AtLeast rank (rank o + 1)

theorem IsRow.atLeast {rank : β → Nat} {t : Loose α β} (h : t.IsRow) (n : Nat) :
    t.AtLeast rank n := by
  cases t with
  | node => exact h.elim
  | _ => trivial

end Loose

/-! ### The two stacks -/

/-- What has been put out, and the stack of operators and opening parentheses, its top first. -/
structure Yard (α β : Type) where
  output : List (Token α β)
  ops : List (Token α β)

namespace Yard

def start : Yard α β := ⟨[], []⟩

/-- An operator first puts out those on the stack that bind at least as tight; a closing parenthesis
    puts out all down to the opening one, or all there are. -/
def feed (rank : β → Nat) (y : Yard α β) : Token α β → Yard α β
  | .num a => ⟨y.output ++ [.num a], y.ops⟩
  | .op o =>
    ⟨y.output ++ y.ops.takeWhile (Token.outranks rank o),
      .op o :: y.ops.dropWhile (Token.outranks rank o)⟩
  | .lparen => ⟨y.output, .lparen :: y.ops⟩
  | .rparen =>
    ⟨y.output ++ y.ops.takeWhile (fun t => !t.isOpening),
      (y.ops.dropWhile (fun t => !t.isOpening)).tail⟩

/-- At the end no opening parenthesis may be left. -/
def finish (y : Yard α β) : Option (List (Token α β)) :=
  if y.ops.any Token.isOpening then none else some (y.output ++ y.ops)

end Yard

def convert (rank : β → Nat) (ts : List (Token α β)) : Option (List (Token α β)) :=
  (ts.foldl (Yard.feed rank) Yard.start).finish

/-! ### What the stacks stand for -/

/-- One level of parentheses: the left operands that still wait for their right one, the last first,
    each with its operator, and the row behind them. -/
structure Frame (α β : Type) where
  pending : List (Loose α β × β)
  row : Loose α β

namespace Frame

def empty : Frame α β := ⟨[], .empty⟩

/-- The tree of a level that ends here. -/
def collapse : List (Loose α β × β) → Loose α β → Loose α β
  | [], row => row
  | (l, o) :: pending, row => collapse pending (.node l o row)

/-- What waits behind the operator `o`. -/
def reduce (rank : β → Nat) (o : β) : List (Loose α β × β) → Loose α β → List (Loose α β × β)
  | [], row => [(row, o)]
  | (l, p) :: pending, row =>
    if rank o ≤ rank p then reduce rank o pending (.node l p row)
    else (row, o) :: (l, p) :: pending

def tree (f : Frame α β) : Loose α β := collapse f.pending f.row

/-- The tokens of the left operands and their operators. -/
def leftTokens : List (Loose α β × β) → List (Token α β)
  | [] => []
  | (l, o) :: pending => leftTokens pending ++ (l.tokens ++ [.op o])

def leftPostfixed : List (Loose α β × β) → List (Token α β)
  | [] => []
  | (l, _) :: pending => leftPostfixed pending ++ l.postfixed

def tokens (f : Frame α β) : List (Token α β) := leftTokens f.pending ++ f.row.tokens

def output (f : Frame α β) : List (Token α β) := leftPostfixed f.pending ++ f.row.postfixed

def ops (f : Frame α β) : List (Token α β) := f.pending.map fun p => .op p.2

/-- Ranks climb towards the last operator, and each left operand fits between its neighbours. -/
def Climbs (rank : β → Nat) : List (Loose α β × β) → Prop
  | [] => True
  | (l, o) :: pending =>
    l.Ranked rank ∧ l.AtLeast rank (rank o) ∧ Climbs rank pending ∧
      ∀ p ∈ pending.head?, rank p.2 < rank o ∧ l.AtLeast rank (rank p.2 + 1)

structure Ok (rank : β → Nat) (f : Frame α β) : Prop where
  climbs : Climbs rank f.pending
  isRow : f.row.IsRow
  ranked : f.row.Ranked rank

end Frame

/-- A token string read so far: the level it ends in, the levels around it, from the inside out, and
    how many opening parentheses are missing in front. -/
structure Reading (α β : Type) where
  inner : Frame α β
  outer : List (Frame α β)
  missing : Nat

namespace Reading

def start : Reading α β := ⟨Frame.empty, [], 0⟩

/-- A closing parenthesis without an opening one closes all that was read. -/
def close (inner : Frame α β) (outer : List (Frame α β)) (missing : Nat) : Reading α β :=
  match outer with
  | [] => ⟨⟨[], .group .empty inner.tree⟩, [], missing + 1⟩
  | f :: outer => ⟨⟨f.pending, .group f.row inner.tree⟩, outer, missing⟩

def feed (rank : β → Nat) (r : Reading α β) : Token α β → Reading α β
  | .num a => ⟨⟨r.inner.pending, .operand r.inner.row a⟩, r.outer, r.missing⟩
  | .op o => ⟨⟨Frame.reduce rank o r.inner.pending r.inner.row, .empty⟩, r.outer, r.missing⟩
  | .lparen => ⟨Frame.empty, r.inner :: r.outer, r.missing⟩
  | .rparen => close r.inner r.outer r.missing

def outerTokens : List (Frame α β) → List (Token α β)
  | [] => []
  | f :: outer => outerTokens outer ++ (f.tokens ++ [.lparen])

def outerOutput : List (Frame α β) → List (Token α β)
  | [] => []
  | f :: outer => outerOutput outer ++ f.output

def outerOps : List (Frame α β) → List (Token α β)
  | [] => []
  | f :: outer => .lparen :: (f.ops ++ outerOps outer)

def tokens (r : Reading α β) : List (Token α β) := outerTokens r.outer ++ r.inner.tokens

/-- The stacks of the algorithm after the tokens of the reading. -/
def yard (r : Reading α β) : Yard α β :=
  ⟨outerOutput r.outer ++ r.inner.output, r.inner.ops ++ outerOps r.outer⟩

end Reading

/-! ### The reading follows the stacks -/

namespace Frame

theorem tokens_collapse (pending : List (Loose α β × β)) (row : Loose α β) :
    (collapse pending row).tokens = leftTokens pending ++ row.tokens := by
  induction pending generalizing row with
  | nil => rfl
  | cons p pending ih => simp [collapse, ih, leftTokens, Loose.tokens]

theorem postfixed_collapse (pending : List (Loose α β × β)) (row : Loose α β) :
    (collapse pending row).postfixed =
      leftPostfixed pending ++ row.postfixed ++ pending.map fun p => .op p.2 := by
  induction pending generalizing row with
  | nil => simp [collapse, leftPostfixed]
  | cons p pending ih => simp [collapse, ih, leftPostfixed, Loose.postfixed]

theorem leftTokens_reduce (rank : β → Nat) (o : β) (pending : List (Loose α β × β))
    (row : Loose α β) :
    leftTokens (reduce rank o pending row) = leftTokens pending ++ (row.tokens ++ [.op o]) := by
  induction pending generalizing row with
  | nil => rfl
  | cons p pending ih =>
    unfold reduce
    split
    · rw [ih]
      simp [leftTokens, Loose.tokens]
    · rfl

/-- What `reduce` joins is what the operator puts out. -/
theorem leftPostfixed_reduce (rank : β → Nat) (o : β) (pending : List (Loose α β × β))
    (row : Loose α β) :
    leftPostfixed (reduce rank o pending row) = leftPostfixed pending ++ (row.postfixed ++
      (pending.map fun p => Token.op p.2).takeWhile (Token.outranks (α := α) rank o)) := by
  induction pending generalizing row with
  | nil => simp [reduce, leftPostfixed]
  | cons p pending ih =>
    unfold reduce
    by_cases h : rank o ≤ rank p.2
    · rw [if_pos h, ih]
      simp [leftPostfixed, Loose.postfixed, Token.outranks, h]
    · simp [leftPostfixed, Token.outranks, h]

theorem ops_reduce (rank : β → Nat) (o : β) (pending : List (Loose α β × β)) (row : Loose α β) :
    ((reduce rank o pending row).map fun p => Token.op p.2) = .op o ::
      (pending.map fun p => Token.op p.2).dropWhile (Token.outranks (α := α) rank o) := by
  induction pending generalizing row with
  | nil => rfl
  | cons p pending ih =>
    unfold reduce
    by_cases h : rank o ≤ rank p.2
    · rw [if_pos h, ih]
      simp [Token.outranks, h]
    · simp [Token.outranks, h]

end Frame

private theorem takeWhile_append_stop {γ : Type} {p : γ → Bool} {xs ys : List γ}
    (h : ys.takeWhile p = []) : (xs ++ ys).takeWhile p = xs.takeWhile p := by
  induction xs with
  | nil => exact h
  | cons x xs ih => simp [List.takeWhile_cons, ih]

private theorem dropWhile_append_stop {γ : Type} {p : γ → Bool} {xs ys : List γ}
    (h : ys.dropWhile p = ys) : (xs ++ ys).dropWhile p = xs.dropWhile p ++ ys := by
  induction xs with
  | nil => exact h
  | cons x xs ih =>
    simp only [List.cons_append, List.dropWhile_cons, ih]
    split <;> rfl

namespace Reading

/-- No operator reaches over an opening parenthesis. -/
theorem takeWhile_outerOps (rank : β → Nat) (o : β) (outer : List (Frame α β)) :
    (outerOps outer).takeWhile (Token.outranks rank o) = [] ∧
      (outerOps outer).dropWhile (Token.outranks rank o) = outerOps outer := by
  cases outer <;> exact ⟨rfl, rfl⟩

/-- A closing parenthesis reaches to the innermost opening one. -/
theorem takeWhile_not_opening (f : Frame α β) (rest : List (Token α β)) :
    (f.ops ++ rest).takeWhile (fun t => !t.isOpening) =
        f.ops ++ rest.takeWhile (fun t => !t.isOpening) ∧
      (f.ops ++ rest).dropWhile (fun t => !t.isOpening) =
        rest.dropWhile (fun t => !t.isOpening) := by
  have h : ∀ t ∈ f.ops, (!t.isOpening) = true := by
    intro t ht
    obtain ⟨p, -, rfl⟩ := List.mem_map.mp ht
    rfl
  exact ⟨List.takeWhile_append_of_pos h, List.dropWhile_append_of_pos h⟩

/-- Reading one more token does to the stacks what the algorithm does. -/
theorem yard_feed (rank : β → Nat) (r : Reading α β) (t : Token α β) :
    (r.feed rank t).yard = r.yard.feed rank t := by
  cases t with
  | num a => simp [feed, yard, Yard.feed, Frame.output, Frame.ops, Loose.postfixed]
  | op o =>
    obtain ⟨htake, hdrop⟩ := takeWhile_outerOps (α := α) rank o r.outer
    simp [feed, yard, Yard.feed, Frame.output, Frame.ops, Loose.postfixed,
      Frame.leftPostfixed_reduce, Frame.ops_reduce, takeWhile_append_stop htake,
      dropWhile_append_stop hdrop]
  | lparen =>
    simp [feed, yard, Yard.feed, Frame.empty, Frame.output, Frame.ops, Loose.postfixed, outerOutput,
      outerOps, Frame.leftPostfixed]
  | rparen =>
    obtain ⟨inner, outer, missing⟩ := r
    obtain ⟨htake, hdrop⟩ := takeWhile_not_opening inner (outerOps outer)
    -- the level ends: its operators are put out behind its operands
    cases outer with
    | nil =>
      simp only [feed, close, yard, Yard.feed, htake, hdrop]
      simp [Frame.output, Frame.ops, Loose.postfixed, Frame.tree, Frame.postfixed_collapse,
        outerOutput, outerOps, Frame.leftPostfixed]
    | cons f outer =>
      simp only [feed, close, yard, Yard.feed, htake, hdrop]
      simp [Frame.output, Frame.ops, Loose.postfixed, Frame.tree, Frame.postfixed_collapse,
        outerOutput, outerOps, Token.isOpening]

/-- The reading is of the tokens fed, behind the parentheses that are missing. -/
theorem tokens_feed (rank : β → Nat) {r : Reading α β} {ts : List (Token α β)} (t : Token α β)
    (h : r.tokens = List.replicate r.missing .lparen ++ ts) :
    (r.feed rank t).tokens = List.replicate (r.feed rank t).missing .lparen ++ (ts ++ [t]) := by
  obtain ⟨inner, outer, missing⟩ := r
  simp only [tokens] at h
  rw [← List.append_assoc]
  cases t with
  | num a => simp [feed, tokens, Frame.tokens, Loose.tokens, ← h]
  | op o => simp [feed, tokens, Frame.tokens, Loose.tokens, ← h, Frame.leftTokens_reduce]
  | lparen =>
    simp [feed, tokens, Frame.empty, Frame.tokens, Frame.leftTokens, Loose.tokens, outerTokens, ← h]
  | rparen =>
    cases outer with
    | nil =>
      rw [feed, close, List.replicate_succ, List.cons_append, ← h]
      simp [tokens, Frame.tokens, Frame.leftTokens, Loose.tokens, Frame.tree,
        Frame.tokens_collapse, outerTokens]
    | cons f outer =>
      rw [feed, close, ← h]
      simp [tokens, Frame.tokens, Loose.tokens, Frame.tree, Frame.tokens_collapse, outerTokens]

end Reading

/-! ### The levels stay ranked -/

theorem Loose.AtLeast.mono {rank : β → Nat} {m n : Nat} {t : Loose α β} (h : t.AtLeast rank n)
    (hmn : m ≤ n) : t.AtLeast rank m := by
  cases t with
  | node => exact le_trans hmn h
  | _ => trivial

namespace Frame

variable {rank : β → Nat}

theorem ranked_collapse {pending : List (Loose α β × β)} {row : Loose α β}
    (hclimbs : Climbs rank pending) (hranked : row.Ranked rank)
    (hfits : ∀ p ∈ pending.head?, row.AtLeast rank (rank p.2 + 1)) :
    (collapse pending row).Ranked rank := by
  induction pending generalizing row with
  | nil => exact hranked
  | cons p pending ih =>
    obtain ⟨hl, hll, hrest, hnext⟩ := hclimbs
    -- the row is the right operand of the innermost pending operator
    have hnode : (Loose.node p.1 p.2 row).Ranked rank := ⟨hl, hranked, hll, hfits p rfl⟩
    exact ih hrest hnode fun q hq => (hnext q hq).1

theorem climbs_reduce {o : β} {pending : List (Loose α β × β)} {row : Loose α β}
    (hclimbs : Climbs rank pending) (hranked : row.Ranked rank) (ho : row.AtLeast rank (rank o))
    (hfits : ∀ p ∈ pending.head?, row.AtLeast rank (rank p.2 + 1)) :
    Climbs rank (reduce rank o pending row) := by
  induction pending generalizing row with
  | nil => exact ⟨hranked, ho, trivial, by simp⟩
  | cons p pending ih =>
    obtain ⟨hl, hll, hrest, hnext⟩ := hclimbs
    have hnode : (Loose.node p.1 p.2 row).Ranked rank := ⟨hl, hranked, hll, hfits p rfl⟩
    unfold reduce
    split
    case isTrue h =>
      -- the pending operator is applied before `o`
      exact ih hrest hnode h fun q hq => (hnext q hq).1
    case isFalse h =>
      -- it waits, and `o` is pending above it
      refine ⟨hranked, ho, ⟨hl, hll, hrest, hnext⟩, ?_⟩
      intro q hq
      obtain rfl : p = q := by simpa using hq
      exact ⟨by omega, hfits p rfl⟩

theorem Ok.ranked_tree {f : Frame α β} (h : f.Ok rank) : f.tree.Ranked rank :=
  ranked_collapse h.climbs h.ranked fun _ _ => h.isRow.atLeast _

theorem ok_empty : (Frame.empty : Frame α β).Ok rank := ⟨trivial, trivial, trivial⟩

end Frame

namespace Reading

variable {rank : β → Nat}

def Ok (rank : β → Nat) (r : Reading α β) : Prop := ∀ f ∈ r.inner :: r.outer, f.Ok rank

theorem ok_start : (start : Reading α β).Ok rank := by
  intro f hf
  obtain rfl := List.mem_singleton.mp hf
  exact Frame.ok_empty

theorem Ok.feed {r : Reading α β} (h : r.Ok rank) (t : Token α β) : (r.feed rank t).Ok rank := by
  obtain ⟨inner, outer, missing⟩ := r
  obtain ⟨hinner, houter⟩ := List.forall_mem_cons.mp h
  cases t with
  | num a => exact List.forall_mem_cons.mpr ⟨⟨hinner.climbs, trivial, hinner.isRow, hinner.ranked⟩,
      houter⟩
  | op o =>
    have hclimbs := Frame.climbs_reduce (o := o) hinner.climbs hinner.ranked
      (hinner.isRow.atLeast _) fun _ _ => hinner.isRow.atLeast _
    exact List.forall_mem_cons.mpr ⟨⟨hclimbs, trivial, trivial⟩, houter⟩
  | lparen => exact List.forall_mem_cons.mpr ⟨Frame.ok_empty, h⟩
  | rparen =>
    cases outer with
    | nil =>
      -- nothing to close: the level itself is the group
      exact List.forall_mem_cons.mpr
        ⟨⟨trivial, trivial, trivial, trivial, hinner.ranked_tree⟩, houter⟩
    | cons f outer =>
      obtain ⟨hf, houter⟩ := List.forall_mem_cons.mp houter
      exact List.forall_mem_cons.mpr
        ⟨⟨hf.climbs, trivial, hf.isRow, hf.ranked, hinner.ranked_tree⟩, houter⟩

end Reading

/-! ### The tokens of a ranked tree are read as that tree -/

namespace Loose

variable {rank : β → Nat}

/-- The left operands along the right edge, the last first, and the row at its end. -/
def spine : Loose α β → List (Loose α β × β) × Loose α β
  | .node l o r => (r.spine.1 ++ [(l, o)], r.spine.2)
  | t => ([], t)

theorem IsRow.spine {t : Loose α β} (h : t.IsRow) : t.spine = ([], t) := by
  cases t with
  | node => exact h.elim
  | _ => rfl

theorem collapse_append (pending : List (Loose α β × β)) (l : Loose α β) (o : β) (row : Loose α β) :
    Frame.collapse (pending ++ [(l, o)]) row = .node l o (Frame.collapse pending row) := by
  induction pending generalizing row with
  | nil => rfl
  | cons p pending ih => exact ih _

theorem collapse_spine (t : Loose α β) : Frame.collapse t.spine.1 t.spine.2 = t := by
  induction t with
  | node l o r _ ihr => rw [spine, collapse_append, ihr]
  | _ => rfl

/-- An operator that binds no tighter than a tree joins all of its right edge. -/
theorem reduce_spine {t : Loose α β} (ht : t.Ranked rank) {o : β} (ho : t.AtLeast rank (rank o))
    (pending : List (Loose α β × β)) :
    Frame.reduce rank o (t.spine.1 ++ pending) t.spine.2 = Frame.reduce rank o pending t := by
  induction t generalizing pending with
  | node l p r _ ihr =>
    obtain ⟨-, hr, -, hrr⟩ := ht
    have hp : rank o ≤ rank p := ho
    rw [spine, List.append_assoc, ihr hr (hrr.mono (by omega))]
    simp [Frame.reduce, hp]
  | _ => rfl

theorem reduce_of_lt {o : β} {pending : List (Loose α β × β)}
    (h : ∀ p ∈ pending.head?, rank p.2 < rank o) (t : Loose α β) :
    Frame.reduce rank o pending t = (t, o) :: pending := by
  cases pending with
  | nil => rfl
  | cons p pending =>
    have hp : rank p.2 < rank o := h p rfl
    simp [Frame.reduce, Nat.not_le.mpr hp]

theorem foldl_tokens {t : Loose α β} (ht : t.Ranked rank) {pending : List (Loose α β × β)}
    (hfits : ∀ p ∈ pending.head?, t.AtLeast rank (rank p.2 + 1)) (outer : List (Frame α β))
    (missing : Nat) :
    t.tokens.foldl (Reading.feed rank) ⟨⟨pending, .empty⟩, outer, missing⟩ =
      ⟨⟨t.spine.1 ++ pending, t.spine.2⟩, outer, missing⟩ := by
  induction t generalizing pending outer with
  | empty => rfl
  | operand row a ih =>
    obtain ⟨hrow, hranked⟩ := ht
    rw [tokens, List.foldl_append, ih hranked (fun _ _ => hrow.atLeast _), hrow.spine]
    rfl
  | group row inner ihrow ihinner =>
    obtain ⟨hrow, hranked, hinner⟩ := ht
    rw [tokens, List.foldl_append, ihrow hranked (fun _ _ => hrow.atLeast _), hrow.spine,
      List.foldl_cons, List.foldl_append]
    -- inside, a level with nothing pending
    have hnone : ∀ p ∈ ([] : List (Loose α β × β)).head?, inner.AtLeast rank (rank p.2 + 1) := by
      simp
    have hinside := ihinner hinner hnone (⟨pending, row⟩ :: outer)
    simp only [Reading.feed, Frame.empty, List.nil_append, hinside, List.append_nil]
    simp [Reading.feed, Reading.close, Frame.tree, collapse_spine, spine]
  | node l o r ihl ihr =>
    obtain ⟨hl, hr, hlo, hro⟩ := ht
    -- `o` takes all that was read since the pending operators, and waits for its right operand
    have hlt : ∀ p ∈ pending.head?, rank p.2 < rank o := hfits
    rw [tokens, List.foldl_append, ihl hl (fun p hp => hlo.mono (hlt p hp)), List.foldl_cons]
    simp only [Reading.feed, reduce_spine hl hlo, reduce_of_lt hlt]
    rw [ihr hr (by simpa using hro)]
    simp [spine]

end Loose

/-! ### What is accepted -/

namespace Reading

variable {rank : β → Nat}

/-- The same reading when `k` opening parentheses had stood in front. -/
def extend (k : Nat) (r : Reading α β) : Reading α β :=
  ⟨r.inner, r.outer ++ List.replicate (k - r.missing) Frame.empty, r.missing - k⟩

theorem extend_feed (k : Nat) (r : Reading α β) (t : Token α β) :
    (r.extend k).feed rank t = (r.feed rank t).extend k := by
  obtain ⟨inner, outer, missing⟩ := r
  cases t with
  | rparen =>
    cases outer with
    | cons f outer => rfl
    | nil =>
      -- the parenthesis meets one of those in front, or one more is missing
      rcases Nat.lt_or_ge missing k with h | h
      · obtain ⟨n, hn⟩ : ∃ n, k - missing = n + 1 := ⟨k - missing - 1, by omega⟩
        have hrest : k - (missing + 1) = n := by omega
        have hzero : missing - k = 0 ∧ missing + 1 - k = 0 := by omega
        simp [extend, feed, close, hn, hrest, hzero, List.replicate_succ, Frame.empty]
      · have hzero : k - missing = 0 ∧ k - (missing + 1) = 0 := by omega
        have hsucc : missing - k + 1 = missing + 1 - k := by omega
        simp [extend, feed, close, hzero, hsucc]
  | _ => rfl

theorem foldl_extend (k : Nat) (ts : List (Token α β)) (r : Reading α β) :
    ts.foldl (feed rank) (r.extend k) = (ts.foldl (feed rank) r).extend k := by
  induction ts generalizing r with
  | nil => rfl
  | cons t ts ih => rw [List.foldl_cons, List.foldl_cons, extend_feed, ih]

theorem foldl_replicate (k : Nat) :
    (List.replicate k Token.lparen).foldl (feed rank) (start : Reading α β) = start.extend k := by
  have h : ∀ outer : List (Frame α β), (List.replicate k Token.lparen).foldl (feed rank)
      ⟨Frame.empty, outer, 0⟩ = ⟨Frame.empty, List.replicate k Frame.empty ++ outer, 0⟩ := by
    induction k with
    | zero => intro outer; rfl
    | succ k ih =>
      intro outer
      rw [List.replicate_succ, List.foldl_cons, feed, ih, List.replicate_succ', List.append_assoc]
      rfl
  simp [start, extend, h]

theorem yard_foldl (ts : List (Token α β)) (r : Reading α β) :
    (ts.foldl (feed rank) r).yard = ts.foldl (Yard.feed rank) r.yard := by
  induction ts generalizing r with
  | nil => rfl
  | cons t ts ih => rw [List.foldl_cons, List.foldl_cons, ih, yard_feed]

theorem ok_foldl (ts : List (Token α β)) {r : Reading α β} (h : r.Ok rank) :
    (ts.foldl (feed rank) r).Ok rank := by
  induction ts generalizing r with
  | nil => exact h
  | cons t ts ih => exact ih (h.feed t)

theorem tokens_foldl (ts : List (Token α β)) :
    (ts.foldl (feed rank) start).tokens =
      List.replicate (ts.foldl (feed rank) start).missing .lparen ++ ts := by
  induction ts using List.reverseRecOn with
  | nil => rfl
  | append_singleton ts t ih =>
    rw [List.foldl_append]
    exact tokens_feed rank t ih

/-- An opening parenthesis is left exactly when the reading ends inside a level. -/
theorem finish_yard (r : Reading α β) :
    r.yard.finish = if r.outer = [] then some r.inner.tree.postfixed else none := by
  have hops : ∀ f : Frame α β, f.ops.any Token.isOpening = false := by
    intro f
    simp [Frame.ops, Token.isOpening]
  obtain ⟨inner, outer, missing⟩ := r
  cases outer with
  | nil =>
    have htree : inner.tree.postfixed = inner.output ++ inner.ops :=
      Frame.postfixed_collapse inner.pending inner.row
    simp [Yard.finish, yard, outerOps, outerOutput, hops, htree]
  | cons f outer => simp [Yard.finish, yard, outerOps, Token.isOpening]

end Reading

/-- The algorithm accepts the token strings that some opening parentheses in front turn into a
    ranked tree, and gives the postfix form of the tree. -/
theorem convert_eq_some_iff (rank : β → Nat) (ts out : List (Token α β)) :
    convert rank ts = some out ↔ ∃ (k : Nat) (t : Loose α β), t.Ranked rank ∧
      t.tokens = List.replicate k .lparen ++ ts ∧ t.postfixed = out := by
  have hconvert : convert rank ts =
      (ts.foldl (Reading.feed rank) Reading.start).yard.finish := by
    rw [Reading.yard_foldl]
    rfl
  have hstart : (Reading.start : Reading α β).Ok rank := Reading.ok_start
  have hok := Reading.ok_foldl ts hstart
  have htokens : (ts.foldl (Reading.feed rank) Reading.start).tokens = _ := Reading.tokens_foldl ts
  rw [hconvert, Reading.finish_yard]
  constructor
  · intro h
    split at h
    case isFalse => cases h
    case isTrue houter =>
      -- the one level that is left is the tree, behind the parentheses that were missing
      have hinner := hok _ List.mem_cons_self
      refine ⟨(ts.foldl (Reading.feed rank) Reading.start).missing, _, hinner.ranked_tree, ?_,
        Option.some.inj h⟩
      rw [← htokens, Reading.tokens, houter, Frame.tree, Frame.tokens_collapse]
      rfl
  · rintro ⟨k, t, ht, htree, rfl⟩
    -- the tree is read from its own tokens, so nothing is open behind the parentheses in front
    have hnone : ∀ p ∈ ([] : List (Loose α β × β)).head?, t.AtLeast rank (rank p.2 + 1) := by simp
    have hread := Loose.foldl_tokens ht hnone [] 0
    rw [htree, List.foldl_append] at hread
    have hfront : (List.replicate k Token.lparen).foldl (Reading.feed rank)
        (Reading.start : Reading α β) = Reading.start.extend k := Reading.foldl_replicate k
    rw [Reading.start, Frame.empty] at hfront
    rw [hfront] at hread
    have hext : ts.foldl (Reading.feed rank) ((Reading.start : Reading α β).extend k) = _ :=
      Reading.foldl_extend k ts Reading.start
    rw [Reading.start, Frame.empty] at hext ⊢
    rw [hext] at hread
    simp only [Reading.extend, Reading.mk.injEq, List.append_eq_nil_iff] at hread
    obtain ⟨hinner, ⟨houter, -⟩, -⟩ := hread
    rw [if_pos houter, hinner, Frame.tree]
    simp [Loose.collapse_spine]

/-! ### Evaluation on a stack -/

/-- The operator applied to the two topmost operands. -/
def applyTop (apply : β → α → α → Option α) (o : β) : List α → Option (List α)
  | b :: a :: stack => (apply o a b).map (· :: stack)
  | _ => none

/-- A postfix string run on a stack. -/
def runPostfixed (apply : β → α → α → Option α) : List (Token α β) → List α → Option (List α)
  | [], stack => some stack
  | .num a :: ts, stack => runPostfixed apply ts (a :: stack)
  | .op o :: ts, stack => (applyTop apply o stack).bind (runPostfixed apply ts)
  | _ :: _, _ => none

theorem runPostfixed_append (apply : β → α → α → Option α) (ts us : List (Token α β))
    (stack : List α) : runPostfixed apply (ts ++ us) stack =
      (runPostfixed apply ts stack).bind (runPostfixed apply us) := by
  induction ts generalizing stack with
  | nil => rfl
  | cons t ts ih =>
    cases t with
    | num a => exact ih _
    | op o =>
      simp only [List.cons_append, runPostfixed]
      cases applyTop apply o stack with
      | none => rfl
      | some stack' => exact ih stack'
    | lparen => rfl
    | rparen => rfl

/-- A tree run on a stack: a row leaves as many values as it has operands and groups' values, and
    an operator takes two, whoever left them. -/
def Loose.run (apply : β → α → α → Option α) : Loose α β → List α → Option (List α)
  | .empty, stack => some stack
  | .operand row a, stack => (row.run apply stack).map (a :: ·)
  | .group row inner, stack => (row.run apply stack).bind (inner.run apply)
  | .node l o r, stack =>
    (l.run apply stack).bind fun stack => (r.run apply stack).bind (applyTop apply o)

theorem runPostfixed_postfixed (apply : β → α → α → Option α) (t : Loose α β) (stack : List α) :
    runPostfixed apply t.postfixed stack = t.run apply stack := by
  induction t generalizing stack with
  | empty => rfl
  | operand row a ih =>
    rw [Loose.postfixed, runPostfixed_append, ih, Loose.run]
    cases row.run apply stack <;> rfl
  | group row inner ihrow ihinner =>
    rw [Loose.postfixed, runPostfixed_append, ihrow, Loose.run]
    cases row.run apply stack with
    | none => rfl
    | some stack' => exact ihinner stack'
  | node l o r ihl ihr =>
    rw [Loose.postfixed, List.append_assoc, runPostfixed_append, ihl, Loose.run]
    cases l.run apply stack with
    | none => rfl
    | some stack' =>
      rw [Option.bind_some, Option.bind_some, runPostfixed_append, ihr]
      cases r.run apply stack' with
      | none => rfl
      | some stack'' =>
        simp only [Option.bind_some, runPostfixed]
        cases applyTop apply o stack'' <;> rfl

end RustKernel.Lib.Precedence
