import Mathlib.Logic.Function.Basic
import Mathlib.Tactic

/-!
# RustKernel.Lib.Paper

What a text terminal is for. It types on an endless sheet of paper, and its screen is a window on
the paper that only ever moves down.

A device with a screen of `rows` by `cols` cells shows a paper (`Window`) when its cursor is that of
the paper and its cells are those in the window. How it gets there is its own affair; what it has to
show for a line break and for a cell is in three rules: `Window.nextRow` and `Window.scroll` for the
two ways of a line break, `Window.set` for a cell.
-/

namespace RustKernel.Lib

variable {α : Type}

/-- A sheet with a window that begins at the line `top`; the cursor is at `row` and `col` in the
    window. -/
structure Paper (α : Type) where
  cell : Nat → Nat → α
  top : Nat
  row : Nat
  col : Nat

/-- What is typed. -/
inductive Key (α : Type) where
  | newline
  | carriageReturn
  | tab
  | char (a : α)

namespace Paper

/-- The next line: the window moves down when the cursor is on its last row. -/
def newline (rows : Nat) (p : Paper α) : Paper α :=
  if p.row + 1 < rows then { p with row := p.row + 1, col := 0 }
  else { p with top := p.top + 1, col := 0 }

/-- Another column of the same row. -/
def toCol (col : Nat) (p : Paper α) : Paper α := { p with col := col }

/-- Another place in the window. -/
def moveTo (row col : Nat) (p : Paper α) : Paper α := { p with row := row, col := col }

/-- The next multiple of eight. -/
def tabStop (col : Nat) : Nat := (col + 8) / 8 * 8

def tab (rows cols : Nat) (p : Paper α) : Paper α :=
  if cols ≤ tabStop p.col then p.newline rows else p.toCol (tabStop p.col)

/-- A cell of the window. -/
def set (row col : Nat) (a : α) (p : Paper α) : Paper α :=
  { p with cell :=
      Function.update p.cell (p.top + row) (Function.update (p.cell (p.top + row)) col a) }

/-- A character at the cursor. -/
def put (a : α) (p : Paper α) : Paper α := (p.set p.row p.col a).toCol (p.col + 1)

/-- A character, on the next line if the line is full. -/
def char (rows cols : Nat) (a : α) (p : Paper α) : Paper α :=
  put a (if cols ≤ p.col then p.newline rows else p)

def press (rows cols : Nat) (p : Paper α) : Key α → Paper α
  | .newline => p.newline rows
  | .carriageReturn => p.toCol 0
  | .tab => p.tab rows cols
  | .char a => p.char rows cols a

/-- The paper after some keys. -/
def type (rows cols : Nat) (p : Paper α) (keys : List (Key α)) : Paper α :=
  keys.foldl (press rows cols) p

/-- The cells of a row, from column 0 on. -/
def fill (row : Nat) (a : α) (p : Paper α) : Nat → Paper α
  | 0 => p
  | col + 1 => (p.fill row a col).set row col a

/-- All cells of the window. -/
def fillAll (rows cols : Nat) (a : α) (p : Paper α) : Paper α :=
  (List.range rows).foldl (fun p row => p.fill row a cols) p

theorem set_cell (row col : Nat) (a : α) (p : Paper α) (r c : Nat) :
    (p.set row col a).cell r c = if r = p.top + row ∧ c = col then a else p.cell r c := by
  rw [set]
  by_cases hr : r = p.top + row
  · subst hr
    by_cases hc : c = col
    · subst hc
      simp
    · simp [hc]
  · simp [hr]

/-! ### Cells one behind the other -/

/-- The cell `n` of the paper, counted along lines of `cols` cells. -/
def nth (cols : Nat) (p : Paper α) (n : Nat) : α := p.cell (n / cols) (n % cols)

/-- The number of the cell at the cursor. Behind the last column that is the first one of the next
    line. -/
def pos (cols : Nat) (p : Paper α) : Nat := (p.top + p.row) * cols + p.col

theorem nth_set {cols : Nat} (row : Nat) {col : Nat} (hcol : col < cols) (a : α) (p : Paper α)
    (n : Nat) :
    (p.set row col a).nth cols n = if n = (p.top + row) * cols + col then a else p.nth cols n := by
  have hpos : 0 < cols := Nat.zero_lt_of_lt hcol
  have hiff : n / cols = p.top + row ∧ n % cols = col ↔ n = (p.top + row) * cols + col := by
    constructor
    · rintro ⟨hrow, rfl⟩
      rw [← hrow, Nat.mul_comm, Nat.div_add_mod]
    · rintro rfl
      rw [Nat.mul_comm, Nat.mul_add_div hpos, Nat.mul_add_mod, Nat.div_eq_of_lt hcol,
        Nat.mod_eq_of_lt hcol]
      exact ⟨rfl, rfl⟩
  rw [nth, set_cell]
  simp only [hiff]
  rfl

/-- A line break behind the last column stays at its cell. -/
theorem pos_newline {cols : Nat} (rows : Nat) {p : Paper α} (hcol : p.col = cols) :
    (p.newline rows).pos cols = p.pos cols := by
  rw [newline]
  split
  · simp only [pos, hcol]
    rw [← Nat.add_assoc, Nat.succ_mul, Nat.add_zero]
  · have hlast : p.top + 1 + p.row = p.top + p.row + 1 := by omega
    simp only [pos, hcol, hlast]
    rw [Nat.succ_mul, Nat.add_zero]

/-- A character goes into the cell at the cursor, and the cursor to the next one. -/
theorem nth_char {cols : Nat} (rows : Nat) {p : Paper α} (hcols : 0 < cols)
    (hcol : p.col ≤ cols) (a : α) (n : Nat) :
    (p.char rows cols a).nth cols n = if n = p.pos cols then a else p.nth cols n := by
  rw [char]
  split
  case isTrue hfull =>
    have hat := pos_newline rows (Nat.le_antisymm hcol hfull)
    have hstart : (p.newline rows).col = 0 := by
      rw [newline]
      split <;> rfl
    have hsame : (p.newline rows).nth cols n = p.nth cols n := by
      rw [newline]
      split <;> rfl
    rw [put, ← hat, ← hsame]
    exact nth_set _ (by rw [hstart]; exact hcols) a _ n
  case isFalse hroom => exact nth_set _ (not_le.mp hroom) a p n

theorem pos_char {cols : Nat} (rows : Nat) {p : Paper α} (hcol : p.col ≤ cols) (a : α) :
    (p.char rows cols a).pos cols = p.pos cols + 1 := by
  rw [char]
  split
  case isTrue hfull =>
    rw [← pos_newline rows (Nat.le_antisymm hcol hfull)]
    rfl
  case isFalse => rfl

/-- The window moves down when its last line is full. -/
theorem top_char {rows cols : Nat} {p : Paper α} (hrow : p.row < rows) (hcol : p.col ≤ cols)
    (a : α) :
    (p.char rows cols a).top = p.top ∨
      ((p.char rows cols a).top = p.top + 1 ∧ p.pos cols = (p.top + rows) * cols) := by
  rw [char]
  split
  case isTrue hfull =>
    rw [put, newline]
    split
    case isTrue => exact .inl rfl
    case isFalse hlast =>
      have hrows : p.top + rows = p.top + p.row + 1 := by omega
      have hend : p.col = cols := Nat.le_antisymm hcol hfull
      refine .inr ⟨rfl, ?_⟩
      rw [pos, hrows, Nat.succ_mul, hend]
  case isFalse => exact .inl rfl

end Paper

/-- A screen of `rows` by `cols` cells, with its cursor at `row` and `col`, is the window of the
    paper. The device shows `a` in a cell when `shows r c a`. The lines below the window are blank. -/
structure Window (rows cols : Nat) (blank : α) (shows : Nat → Nat → α → Prop) (row col : Nat)
    (p : Paper α) : Prop where
  row_eq : row = p.row
  row_lt : row < rows
  col_eq : col = p.col
  col_le : col ≤ cols
  cells : ∀ r c, r < rows → c < cols → shows r c (p.cell (p.top + r) c)
  below : ∀ r c, p.top + rows ≤ r → p.cell r c = blank

namespace Window

variable {rows cols row col : Nat} {blank : α} {shows shows' : Nat → Nat → α → Prop} {p : Paper α}

/-- The cursor goes to another place of the window. -/
theorem moveTo (h : Window rows cols blank shows row col p) (row' col' : Nat) (hrow : row' < rows)
    (hcol : col' ≤ cols) : Window rows cols blank shows row' col' (p.moveTo row' col') :=
  ⟨rfl, hrow, rfl, hcol, h.cells, h.below⟩

theorem toCol (h : Window rows cols blank shows row col p) {col' : Nat} (hcol : col' ≤ cols) :
    Window rows cols blank shows row col' (p.toCol col') :=
  ⟨h.row_eq, h.row_lt, rfl, hcol, h.cells, h.below⟩

/-- A line break above the last row: the cursor goes down. -/
theorem nextRow (h : Window rows cols blank shows row col p) (hrow : row + 1 < rows) :
    Window rows cols blank shows (row + 1) 0 (p.newline rows) := by
  rw [h.row_eq] at hrow ⊢
  rw [Paper.newline, if_pos hrow]
  exact ⟨rfl, hrow, rfl, Nat.zero_le cols, h.cells, h.below⟩

/-- A line break on the last row: every line moves up by one row, and the last row is blank. -/
theorem scroll (h : Window rows cols blank shows row col p) (hrow : rows ≤ row + 1)
    (hup : ∀ r c a, r + 1 < rows → c < cols → shows (r + 1) c a → shows' r c a)
    (hblank : ∀ c, c < cols → shows' (rows - 1) c blank) :
    Window rows cols blank shows' row 0 (p.newline rows) := by
  have hrow_lt := h.row_lt
  have hlast : ¬p.row + 1 < rows := by
    rw [← h.row_eq]
    omega
  rw [Paper.newline, if_neg hlast]
  refine ⟨h.row_eq, hrow_lt, rfl, Nat.zero_le cols, ?_, ?_⟩
  · intro r c hr hc
    by_cases hmoved : r + 1 < rows
    · have hcell := h.cells (r + 1) c hmoved hc
      rw [← Nat.add_assoc, Nat.add_right_comm] at hcell
      exact hup r c _ hmoved hc hcell
    · -- the line that enters the window has not been typed on
      have hbelow : p.cell (p.top + 1 + r) c = blank := h.below _ c (by omega)
      have hr' : r = rows - 1 := by omega
      dsimp only
      rw [hbelow, hr']
      exact hblank c hc
  · intro r c hr
    dsimp only at hr
    exact h.below r c (by omega)

/-- A cell of the window. -/
theorem set (h : Window rows cols blank shows row col p) {r₀ : Nat} (hr₀ : r₀ < rows) (c₀ : Nat)
    (a : α) (hcell : c₀ < cols → shows' r₀ c₀ a)
    (hothers : ∀ r c b, r < rows → c < cols → ¬(r = r₀ ∧ c = c₀) → shows r c b → shows' r c b) :
    Window rows cols blank shows' row col (p.set r₀ c₀ a) := by
  refine ⟨h.row_eq, h.row_lt, h.col_eq, h.col_le, ?_, ?_⟩
  · intro r c hr hc
    rw [Paper.set_cell]
    change shows' r c (if p.top + r = p.top + r₀ ∧ c = c₀ then a else p.cell (p.top + r) c)
    by_cases hhere : r = r₀ ∧ c = c₀
    · obtain ⟨rfl, rfl⟩ := hhere
      rw [if_pos ⟨rfl, rfl⟩]
      exact hcell hc
    · rw [if_neg fun hat => hhere ⟨Nat.add_left_cancel hat.1, hat.2⟩]
      exact hothers r c _ hr hc hhere (h.cells r c hr hc)
  · intro r c hr
    have hr' : p.top + rows ≤ r := hr
    rw [Paper.set_cell, if_neg fun hat => absurd hat.1 (by omega)]
    exact h.below r c hr'

/-- A new sheet, with nothing but blanks below the screen. -/
theorem start {cell : Nat → Nat → α} (hrows : 0 < rows)
    (hcells : ∀ r c, r < rows → c < cols → shows r c (cell r c))
    (hbelow : ∀ r c, rows ≤ r → cell r c = blank) :
    Window rows cols blank shows 0 0 ⟨cell, 0, 0, 0⟩ := by
  refine ⟨rfl, hrows, rfl, Nat.zero_le cols, ?_, ?_⟩
  · intro r c hr hc
    dsimp only
    rw [Nat.zero_add]
    exact hcells r c hr hc
  · intro r c hlast
    exact hbelow r c (by simpa using hlast)

end Window

end RustKernel.Lib
