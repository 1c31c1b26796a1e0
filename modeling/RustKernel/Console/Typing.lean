import RustKernel.Console.Screen
import RustKernel.Lib.Paper
import Mathlib.Data.List.GetD

/-!
# RustKernel.Console.Typing

What the text console shows. Its content rows are a window on an endless sheet of paper, and its
last row is a status line of its own.

## Main result

`screen_types`: whatever the public functions are called with, and in whatever order, the content
rows show the last lines of what was typed and the status row the last status text, from any video
memory on.

## Proof strategy

`cellAt` reads a cell of the video memory. There is one equation for it and each of the primitives
that write (`cellAt_writeAt`, `cellAt_fillRow`, `cellAt_scroll`), and with these every function is an
instance of a rule for windows.
-/

namespace RustKernel.Console

open Lib

/-- A character and a color. -/
abbrev Cell : Type := UInt8 × UInt8

/-- What `scroll` leaves on the last row. -/
def blankCell : Cell := (32, colorCode .lightGray .black)

/-- The cell of the video memory. -/
def Vga.cellAt (c : Vga) (row col : Nat) : Cell :=
  (c.buffer ((row * WIDTH + col) * 2), c.buffer ((row * WIDTH + col) * 2 + 1))

/-- What a byte of a text types. What is not printable ASCII is a question mark. -/
def keyOf (color byte : UInt8) : Key Cell :=
  if byte = 10 then .newline
  else if byte = 13 then .carriageReturn
  else if byte = 9 then .tab
  else .char (if byte < 128 ∧ byte ≠ 0x7F then byte else 63, color)

/-- What the console is meant to be: a paper, the cells of the status row, and a color. -/
structure Typed where
  paper : Paper Cell
  status : Nat → Cell
  color : UInt8

/-- The bytes of a text in one row, as far as their columns are on the screen. -/
def Typed.draw (color : UInt8) (row : Nat) (place : Nat → Nat) (p : Paper Cell)
    (text : List UInt8) : Paper Cell :=
  text.zipIdx.foldl
    (fun p b => if place b.2 < WIDTH then p.set row (place b.2) (b.1, color) else p) p

/-- The cells of a status row with a text. -/
def statusCells (text : List UInt8) (col : Nat) : Cell :=
  (text.getD col 32, colorCode .black .lightGray)

/-- A blank at another place, where the cursor goes. -/
def Typed.blankAt (row col : Nat) (t : Typed) : Typed :=
  { t with paper := (t.paper.moveTo row col).set row col (32, t.color) }

def Typed.backspace (t : Typed) : Typed :=
  if t.paper.col > 0 then t.blankAt t.paper.row (t.paper.col - 1)
  else if t.paper.row > 0 then t.blankAt (t.paper.row - 1) (WIDTH - 1)
  else t

def Typed.step (t : Typed) : ScreenOp → Typed
  | .writeStr text =>
    { t with paper := t.paper.type CONTENT_ROWS WIDTH (text.map (keyOf t.color)) }
  | .newline => { t with paper := t.paper.newline CONTENT_ROWS }
  | .clear => { t with paper := (t.paper.fillAll CONTENT_ROWS WIDTH (32, t.color)).moveTo 0 0 }
  | .setColor fg bg => { t with color := colorCode fg bg }
  | .commitScrollback => t
  | .setCursor row col =>
    { t with paper := t.paper.moveTo (min row (CONTENT_ROWS - 1)) (min col (WIDTH - 1)) }
  | .writeAt row col text =>
    { t with paper := Typed.draw t.color (min row (CONTENT_ROWS - 1)) (usizeAdd col) t.paper text }
  | .clearLine row =>
    { t with paper := t.paper.fill (min row (CONTENT_ROWS - 1)) (32, t.color) WIDTH }
  | .statusLine text => { t with status := statusCells text }
  | .backspace => t.backspace

/-- The paper on which everything that the video memory holds has been typed. -/
def Typed.start (s : Screen) : Typed where
  paper := ⟨fun r c => if r < CONTENT_ROWS then s.cellAt r c else blankCell, 0, 0, 0⟩
  status := fun c => s.cellAt (HEIGHT - 1) c
  color := s.writer.color

/-- The content rows are the window of the paper, and the last row is the status row. -/
structure Shows (s : Screen) (t : Typed) : Prop where
  window : Window CONTENT_ROWS WIDTH blankCell (fun r c a => s.cellAt r c = a) s.writer.row
    s.writer.col t.paper
  status : ∀ c, c < WIDTH → s.cellAt (HEIGHT - 1) c = t.status c
  color : s.writer.color = t.color

/-! ### Cells -/

/-- Two cells share a byte only if they are the same. -/
private theorem cell_inj (row row' : Nat) {col col' k k' : Nat} (hcol : col < WIDTH)
    (hcol' : col' < WIDTH)
    (hk : k < 2) (hk' : k' < 2) :
    (row' * WIDTH + col') * 2 + k' = (row * WIDTH + col) * 2 + k ↔
      (row' = row ∧ col' = col) ∧ k' = k := by
  have hwidth : WIDTH = 80 := rfl
  rw [hwidth] at hcol hcol' ⊢
  omega

theorem cellAt_writeAt (c : Vga) (row : Nat) {col : Nat} (hcol : col < WIDTH) (byte color : UInt8)
    (row' : Nat) {col' : Nat} (hcol' : col' < WIDTH) :
    (c.writeAt row col byte color).cellAt row' col' =
      if row' = row ∧ col' = col then (byte, color) else c.cellAt row' col' := by
  have h00 := cell_inj row row' hcol hcol' Nat.zero_lt_two Nat.zero_lt_two
  have h01 := cell_inj row row' hcol hcol' Nat.one_lt_two Nat.zero_lt_two
  have h10 := cell_inj row row' hcol hcol' Nat.zero_lt_two Nat.one_lt_two
  have h11 := cell_inj row row' hcol hcol' Nat.one_lt_two Nat.one_lt_two
  simp only [Nat.add_zero] at h00 h01 h10
  by_cases hhere : row' = row ∧ col' = col
  · obtain ⟨rfl, rfl⟩ := hhere
    simp [Vga.cellAt, Vga.writeAt]
  · simp only [Vga.cellAt, Vga.writeAt, h00, h01, h10, h11, hhere, false_and, if_false]

theorem cellAt_fillRow (c : Vga) (row : Nat) (byte color : UInt8) {cols : Nat}
    (hcols : cols ≤ WIDTH)
    (row' : Nat) {col' : Nat} (hcol' : col' < WIDTH) :
    (c.fillRow row byte color cols).cellAt row' col' =
      if row' = row ∧ col' < cols then (byte, color) else c.cellAt row' col' := by
  induction cols with
  | zero => simp [Vga.fillRow]
  | succ cols ih =>
    rw [Vga.fillRow, cellAt_writeAt _ _ (by omega) _ _ _ hcol', ih (by omega)]
    by_cases hrow : row' = row
    · by_cases hlast : col' = cols
      · simp [hrow, hlast]
      · have hiff : col' < cols + 1 ↔ col' < cols := by omega
        simp [hrow, hlast, hiff]
    · simp [hrow]

/-- The rows above the last content row move up, which is then blank. -/
theorem cellAt_scroll (c : Vga) {row' : Nat} {col' : Nat} (hcol' : col' < WIDTH) :
    c.scroll.cellAt row' col' =
      if row' + 1 < CONTENT_ROWS then c.cellAt (row' + 1) col'
      else if row' = CONTENT_ROWS - 1 then blankCell else c.cellAt row' col' := by
  rw [Vga.scroll, cellAt_fillRow _ _ _ _ le_rfl _ hcol']
  have hrows : CONTENT_ROWS = 24 := rfl
  have hwidth : WIDTH = 80 := rfl
  by_cases hlast : row' = CONTENT_ROWS - 1
  · rw [if_pos ⟨hlast, hcol'⟩, if_neg (by omega), if_pos hlast]
    rfl
  · rw [if_neg fun h => hlast h.1]
    by_cases hmoved : row' + 1 < CONTENT_ROWS
    · rw [if_pos hmoved]
      have hplace : (row' * 80 + col') * 2 + 80 * 2 = ((row' + 1) * 80 + col') * 2 := by omega
      have hplace' : (row' * 80 + col') * 2 + 1 + 80 * 2 = ((row' + 1) * 80 + col') * 2 + 1 := by
        omega
      simp only [Vga.cellAt, hwidth, hrows]
      rw [if_pos (by omega), if_pos (by omega), hplace, hplace']
    · rw [if_neg hmoved, if_neg hlast]
      simp only [Vga.cellAt, hwidth, hrows]
      rw [if_neg (by omega), if_neg (by omega)]

/-! ### The writer -/

/-- The content rows of a console show a paper. -/
abbrev Vga.Types (c : Vga) (p : Paper Cell) : Prop :=
  Window CONTENT_ROWS WIDTH blankCell (fun r c' a => c.cellAt r c' = a) c.writer.row c.writer.col p

private theorem writeAt_types {c : Vga} {p : Paper Cell} (h : c.Types p) {row col : Nat}
    (hrow : row < CONTENT_ROWS) (hcol : col < WIDTH) (byte color : UInt8) :
    (c.writeAt row col byte color).Types (p.set row col (byte, color)) := by
  apply Window.set h hrow
  · intro _
    rw [cellAt_writeAt c row hcol byte color row hcol, if_pos ⟨rfl, rfl⟩]
  · intro r c' b _ hc' hother hcell
    rw [cellAt_writeAt c row hcol byte color r hc', if_neg hother]
    exact hcell

private theorem fillRow_types {c : Vga} {p : Paper Cell} (h : c.Types p) {row cols : Nat}
    (hrow : row < CONTENT_ROWS) (hcols : cols ≤ WIDTH) (byte color : UInt8) :
    (c.fillRow row byte color cols).Types (p.fill row (byte, color) cols) := by
  induction cols with
  | zero => exact h
  | succ cols ih => exact writeAt_types (ih (by omega)) hrow hcols byte color

private theorem scroll_writer (c : Vga) : c.scroll.writer = c.writer := by
  rw [Vga.scroll]
  obtain ⟨buffer, hfill⟩ := fillRow_eq
    { c with
      buffer := fun i =>
        if i < (CONTENT_ROWS - 1) * WIDTH * 2 then c.buffer (i + WIDTH * 2) else c.buffer i
      deferredScrollLine := some c.topLine
      scrolled := c.scrolled ++ [c.topLine] }
    (CONTENT_ROWS - 1) 32 (colorCode .lightGray .black) WIDTH
  simp only [hfill]

private theorem newline_types {c : Vga} {p : Paper Cell} (h : c.Types p) :
    c.newline.Types (p.newline CONTENT_ROWS) := by
  simp only [Vga.newline]
  split
  case isTrue hlast =>
    rw [Vga.Types, scroll_writer]
    apply Window.scroll h hlast
    · intro r c' a hr hc' hcell
      rw [cellAt_scroll _ hc', if_pos hr]
      exact hcell
    · intro c' hc'
      rw [cellAt_scroll _ hc', if_neg (by decide), if_pos rfl]
  case isFalse hmore => exact h.nextRow (not_le.mp hmore)

private theorem newline_color (c : Vga) : c.newline.writer.color = c.writer.color := by
  simp only [Vga.newline]
  split
  · rw [scroll_writer]
  · rfl

/-- A character at the cursor, which is not behind the last column. -/
private theorem put_types {c : Vga} {p : Paper Cell} (h : c.Types p) (hcol : c.writer.col < WIDTH)
    (byte : UInt8) :
    let c' := c.writeAt c.writer.row c.writer.col byte c.writer.color
    Vga.Types { c' with writer := { c'.writer with col := c'.writer.col + 1 } }
      (p.put (byte, c.writer.color)) := by
  have hset := writeAt_types h h.row_lt hcol byte c.writer.color
  have hplace : p.put (byte, c.writer.color) =
      (p.set c.writer.row c.writer.col (byte, c.writer.color)).toCol (c.writer.col + 1) := by
    rw [Paper.put, h.row_eq, h.col_eq]
  rw [hplace]
  exact hset.toCol hcol

/-- A byte of a text types its key. -/
private theorem writeByte_types {c : Vga} {p : Paper Cell} (h : c.Types p) (byte : UInt8) :
    (c.writeByte byte).Types (p.press CONTENT_ROWS WIDTH (keyOf c.writer.color byte)) := by
  simp only [Vga.writeByte, keyOf]
  by_cases hnewline : byte = 10
  · rw [if_pos hnewline, if_pos hnewline]
    exact newline_types h
  rw [if_neg hnewline, if_neg hnewline]
  by_cases hreturn : byte = 13
  · rw [if_pos hreturn, if_pos hreturn]
    exact h.toCol (Nat.zero_le WIDTH)
  rw [if_neg hreturn, if_neg hreturn]
  by_cases htab : byte = 9
  · rw [if_pos htab, if_pos htab, Paper.press, Paper.tab, Paper.tabStop, ← h.col_eq]
    by_cases hwrap : (c.writer.col + 8) / 8 * 8 ≥ WIDTH
    · -- the column that a line break starts from does not matter
      have hsame : Vga.newline
          { c with writer := { c.writer with col := (c.writer.col + 8) / 8 * 8 } } = c.newline := rfl
      rw [if_pos hwrap, if_pos hwrap, hsame]
      exact newline_types h
    · rw [if_neg hwrap, if_neg hwrap]
      exact h.toCol (Nat.le_of_lt (not_le.mp hwrap))
  rw [if_neg htab, if_neg htab, Paper.press, Paper.char, ← h.col_eq]
  by_cases hwrap : c.writer.col ≥ WIDTH
  · -- the line is full: the character goes on the next one
    rw [if_pos hwrap, if_pos hwrap, ← newline_color c]
    have hline := newline_types h
    have hstart : c.newline.writer.col < WIDTH := by
      rw [(newline_moves c h.row_lt).col_eq]
      decide
    exact put_types hline hstart _
  · rw [if_neg hwrap, if_neg hwrap]
    exact put_types h (not_le.mp hwrap) _

private theorem writeByte_color (c : Vga) (byte : UInt8) :
    (c.writeByte byte).writer.color = c.writer.color := by
  simp only [Vga.writeByte]
  split
  · exact newline_color c
  · split
    · rfl
    · split
      · split
        · exact newline_color _
        · rfl
      · split
        · exact newline_color c
        · rfl

private theorem writeStr_types {c : Vga} {p : Paper Cell} (h : c.Types p) (text : List UInt8) :
    (c.writeStr text).Types (p.type CONTENT_ROWS WIDTH (text.map (keyOf c.writer.color))) ∧
      (c.writeStr text).writer.color = c.writer.color := by
  induction text generalizing c p with
  | nil => exact ⟨h, rfl⟩
  | cons byte text ih =>
    obtain ⟨htypes, hcolor⟩ := ih (writeByte_types h byte)
    rw [writeByte_color] at htypes hcolor
    exact ⟨htypes, hcolor⟩

/-! ### The public functions -/

private theorem drawText_types {s : Screen} {p : Paper Cell} (h : s.toVga.Types p) {row : Nat}
    (hrow : row < CONTENT_ROWS) (place : Nat → Nat) (color : UInt8) (text : List UInt8) :
    (s.drawText row place color text).toVga.Types (Typed.draw color row place p text) := by
  rw [Screen.drawText, Typed.draw]
  generalize text.zipIdx = pairs
  induction pairs generalizing s p with
  | nil => exact h
  | cons b pairs ih =>
    rw [List.foldl_cons, List.foldl_cons]
    split
    case isTrue hfits =>
      exact ih (writeAt_types h hrow hfits b.1 color)
    case isFalse => exact ih h

private theorem clear_types {c : Vga} {p : Paper Cell} (h : c.Types p) :
    c.clear.Types ((p.fillAll CONTENT_ROWS WIDTH (32, c.writer.color)).moveTo 0 0) ∧
      c.clear.writer.color = c.writer.color := by
  have hfill : ∀ rows : List Nat, (∀ row ∈ rows, row < CONTENT_ROWS) →
      ∀ (c : Vga) (p : Paper Cell), c.Types p →
      (rows.foldl (fun c row => c.fillRow row 32 c.writer.color WIDTH) c).Types
          (rows.foldl (fun p row => p.fill row (32, c.writer.color) WIDTH) p) ∧
        (rows.foldl (fun c row => c.fillRow row 32 c.writer.color WIDTH) c).writer = c.writer := by
    intro rows
    induction rows with
    | nil => exact fun _ c p hc => ⟨hc, rfl⟩
    | cons row rows ih =>
      intro hrows c p hc
      have hwriter : (c.fillRow row 32 c.writer.color WIDTH).writer = c.writer := by
        obtain ⟨buffer, hbuffer⟩ := fillRow_eq c row 32 c.writer.color WIDTH
        rw [hbuffer]
      obtain ⟨htypes, hsame⟩ := ih (fun r hr => hrows r (List.mem_cons_of_mem _ hr)) _ _
        (fillRow_types hc (hrows row List.mem_cons_self) le_rfl 32 c.writer.color)
      rw [hwriter] at htypes hsame
      exact ⟨htypes, hsame⟩
  obtain ⟨htypes, hwriter⟩ := hfill (List.range CONTENT_ROWS)
    (fun row hrow => List.mem_range.mp hrow) c p h
  simp only [Vga.clear, Paper.fillAll]
  generalize (List.range CONTENT_ROWS).foldl
    (fun c row => c.fillRow row 32 c.writer.color WIDTH) c = c' at *
  refine ⟨?_, by rw [hwriter]⟩
  have hhome := htypes.moveTo 0 0 (by decide) (Nat.zero_le WIDTH)
  exact hhome

private theorem commitScrollback_types {c : Vga} {p : Paper Cell} (h : c.Types p) :
    c.commitScrollback.Types p ∧ c.commitScrollback.writer = c.writer := by
  rw [Vga.commitScrollback]
  split
  · exact ⟨h, rfl⟩
  · exact ⟨h, rfl⟩

/-- The cells of a text at the start of a row. -/
private theorem cellAt_drawText (s : Screen) (row : Nat) (color : UInt8) (text : List UInt8)
    (row' : Nat)
    {col' : Nat} (hcol' : col' < WIDTH) :
    (s.drawText row id color text).cellAt row' col' =
      if row' = row ∧ col' < text.length then (text.getD col' 32, color)
      else s.cellAt row' col' := by
  -- by induction on the text, from any column on
  suffices hfrom : ∀ n, (List.foldl (fun s p => if id p.2 < WIDTH then
      Screen.writeAt s row (id p.2) p.1 color else s) s (text.zipIdx n)).cellAt row' col' =
        if row' = row ∧ n ≤ col' ∧ col' - n < text.length then (text.getD (col' - n) 32, color)
        else s.cellAt row' col' by
    have hstart := hfrom 0
    simp only [Nat.zero_le, true_and, Nat.sub_zero] at hstart
    exact hstart
  induction text generalizing s with
  | nil => simp
  | cons b text ih =>
    intro n
    have hfirst : (if id n < WIDTH then s.writeAt row (id n) b color else s).cellAt row' col' =
        if row' = row ∧ col' = n then (b, color) else s.cellAt row' col' := by
      split
      case isTrue hfits => exact cellAt_writeAt _ _ hfits _ _ _ hcol'
      case isFalse hout =>
        rw [if_neg]
        rintro ⟨-, rfl⟩
        exact hout hcol'
    rw [List.zipIdx_cons, List.foldl_cons, ih, hfirst, List.length_cons]
    by_cases hrow : row' = row
    · by_cases hafter : n + 1 ≤ col'
      · -- a cell further on
        have hplace : col' - n = col' - (n + 1) + 1 := by omega
        rw [hplace, List.getD_cons_succ, if_neg (c := row' = row ∧ col' = n) (by omega)]
        by_cases hin : col' - (n + 1) < text.length
        · rw [if_pos ⟨hrow, hafter, hin⟩, if_pos ⟨hrow, by omega, by omega⟩]
        · rw [if_neg fun h => hin h.2.2, if_neg fun h => hin (Nat.lt_of_succ_lt_succ h.2.2)]
      · rw [if_neg fun h => hafter h.2.1]
        by_cases hhere : col' = n
        · subst hhere
          rw [if_pos ⟨hrow, rfl⟩, if_pos ⟨hrow, le_rfl, by omega⟩, Nat.sub_self, List.getD_cons_zero]
        · rw [if_neg fun h => hhere h.2, if_neg (by omega)]
    · simp only [hrow, false_and, if_false]

/-- A call that keeps to the content rows leaves the status row alone. -/
private theorem cellAt_status {s s' : Screen} (h : Draws CONTENT_ROWS s s') {col : Nat}
    (hcol : col < WIDTH) :
    s'.cellAt (HEIGHT - 1) col = s.cellAt (HEIGHT - 1) col := by
  obtain ⟨offsets, hwrites, hcells⟩ := h
  have hrows : CONTENT_ROWS = 24 := rfl
  have hheight : HEIGHT - 1 = 24 := rfl
  have hwidth : WIDTH = 80 := rfl
  rw [hrows, hwidth] at hcells
  have hsame : ∀ k, k < 2 →
      s'.buffer ((24 * 80 + col) * 2 + k) = s.buffer ((24 * 80 + col) * 2 + k) := by
    intro k hk
    apply hwrites.frame
    intro hin
    have hcell := hcells _ hin
    omega
  simp only [Vga.cellAt, hheight, hwidth]
  exact Prod.ext (hsame 0 (by decide)) (hsame 1 (by decide))

theorem start_shows (s : Screen) (h : s.writer.row = 0 ∧ s.writer.col = 0) :
    Shows s (Typed.start s) where
  window := by
    rw [h.1, h.2]
    apply Window.start (by decide)
    · intro r c hr _
      rw [if_pos hr]
    · intro r c hr
      rw [if_neg (by omega)]
  status := fun _ _ => rfl
  color := rfl

/-- A call that changes the paper as the console does, and draws content rows only. -/
theorem Shows.content {s s' : Screen} {t t' : Typed} (h : Shows s t)
    (hdraws : Draws CONTENT_ROWS s s') (htypes : s'.toVga.Types t'.paper)
    (hstatus : t'.status = t.status) (hcolor : s'.writer.color = t'.color) : Shows s' t' where
  window := htypes
  status := by
    intro c hc
    rw [cellAt_status hdraws hc, hstatus]
    exact h.status c hc
  color := hcolor

theorem Shows.onScreen {s : Screen} {t : Typed} (h : Shows s t) : s.OnScreen where
  row_le := Nat.le_sub_one_of_lt h.window.row_lt
  col_le := h.window.col_le

/-- A blank where the cursor goes. -/
private theorem blankAt_types {s : Screen} {t : Typed} (h : Shows s t) {row col : Nat}
    (hrow : row < CONTENT_ROWS) (hcol : col < WIDTH) :
    (Screen.writeAt { s with writer := ⟨row, col, s.writer.color⟩ } row col 32
      s.writer.color).toVga.Types (t.blankAt row col).paper := by
  have hmoved : Vga.Types { s.toVga with writer := ⟨row, col, s.writer.color⟩ }
      (t.paper.moveTo row col) := h.window.moveTo row col hrow hcol.le
  rw [writeAt_toVga, Typed.blankAt, ← h.color]
  exact writeAt_types hmoved hrow hcol 32 s.writer.color

/-- The public functions end with a commit, which shows nothing. -/
private theorem Shows.public {s s' : Screen} {t : Typed} (t' : Typed) (h : Shows s t)
    (hdraws : Draws CONTENT_ROWS s s'.commitScrollback) (htypes : s'.toVga.Types t'.paper)
    (hstatus : t'.status = t.status) (hcolor : s'.writer.color = t'.color) :
    Shows s'.commitScrollback t' := by
  obtain ⟨hcommitted, hwriter⟩ := commitScrollback_types htypes
  apply h.content hdraws hcommitted hstatus
  rw [← hcolor]
  exact congrArg Writer.color hwriter

theorem backspace_shows {s : Screen} {t : Typed} (h : Shows s t) :
    Shows s.backspace t.backspace := by
  have hdraws := (backspace_staysOn h.onScreen).draws
  have hrow := h.window.row_lt
  have hcol := h.window.col_le
  have hwidth : WIDTH = 80 := rfl
  rw [Typed.backspace, ← h.window.col_eq, ← h.window.row_eq]
  -- left of it in the row, at the end of the row above, or nowhere
  by_cases hback : s.writer.col > 0
  · have hcall : s.backspace = (Screen.writeAt
        { s with writer := ⟨s.writer.row, s.writer.col - 1, s.writer.color⟩ } s.writer.row
        (s.writer.col - 1) 32 s.writer.color).commitScrollback := by
      rw [Screen.backspace, if_pos hback]
    rw [if_pos hback]
    rw [hcall] at hdraws ⊢
    exact h.public _ hdraws (blankAt_types h hrow (by omega)) rfl h.color
  rw [if_neg hback]
  by_cases hup : s.writer.row > 0
  · have hcall : s.backspace = (Screen.writeAt
        { s with writer := ⟨s.writer.row - 1, WIDTH - 1, s.writer.color⟩ } (s.writer.row - 1)
        (WIDTH - 1) 32 s.writer.color).commitScrollback := by
      rw [Screen.backspace, if_neg hback, if_pos hup]
    rw [if_pos hup]
    rw [hcall] at hdraws ⊢
    exact h.public _ hdraws (blankAt_types h (by omega) (by omega)) rfl h.color
  · have hcall : s.backspace = s.commitScrollback := by
      rw [Screen.backspace, if_neg hback, if_neg hup]
    rw [if_neg hup]
    rw [hcall] at hdraws ⊢
    exact h.public _ hdraws h.window rfl h.color

/-- The cells of a text in the status row, and of all other rows. -/
theorem cellAt_statusLine (s : Screen) (text : List UInt8) (row : Nat) {col : Nat}
    (hcol : col < WIDTH) :
    (s.statusLine text).cellAt row col =
      if row = HEIGHT - 1 then statusCells text col else s.cellAt row col := by
  have hcommit : ∀ s : Screen, s.commitScrollback.cellAt row col = s.cellAt row col := by
    intro s
    simp only [Screen.commitScrollback, Vga.commitScrollback]
    split <;> rfl
  rw [Screen.statusLine, hcommit]
  change ((Screen.fillRow (s.setColor .black .lightGray) (HEIGHT - 1) 32
    (colorCode .black .lightGray) WIDTH).drawText (HEIGHT - 1) id (colorCode .black .lightGray)
      text).cellAt row col = _
  rw [cellAt_drawText _ _ _ _ _ hcol, fillRow_toVga, cellAt_fillRow _ _ _ _ le_rfl _ hcol]
  by_cases hrow : row = HEIGHT - 1
  · rw [if_pos hrow, statusCells]
    by_cases hin : col < text.length
    · rw [if_pos ⟨hrow, hin⟩]
    · -- behind the text there are blanks
      rw [if_neg fun h => hin h.2, if_pos ⟨hrow, hcol⟩,
        List.getD_eq_default _ _ (not_lt.mp hin)]
  · rw [if_neg hrow, if_neg fun h => hrow h.1, if_neg fun h => hrow h.1]
    rfl

theorem statusLine_writer (s : Screen) (text : List UInt8) :
    (s.statusLine text).writer = s.writer := by
  rw [Screen.statusLine, commitScrollback_writer]
  dsimp only
  rw [drawText_writer, fillRow_writer]
  rfl

private theorem statusLine_shows {s : Screen} {t : Typed} (h : Shows s t) (text : List UInt8) :
    Shows (s.statusLine text) { t with status := statusCells text } where
  window := by
    rw [statusLine_writer]
    refine ⟨h.window.row_eq, h.window.row_lt, h.window.col_eq, h.window.col_le, ?_, h.window.below⟩
    intro r c hr hc
    have hother : r ≠ HEIGHT - 1 := Nat.ne_of_lt hr
    rw [cellAt_statusLine s text r hc, if_neg hother]
    exact h.window.cells r c hr hc
  status := by
    intro c hc
    rw [cellAt_statusLine s text _ hc, if_pos rfl]
  color := by
    rw [statusLine_writer]
    exact h.color

theorem step_shows {s : Screen} {t : Typed} (h : Shows s t) (op : ScreenOp) :
    Shows (s.step op) (t.step op) := by
  -- that no call writes outside its window is known; what is left is what stands on the rows
  have hstays := step_staysOn h.onScreen op
  cases op with
  | writeStr text =>
    obtain ⟨htypes, hcolor⟩ := writeStr_types h.window text
    rw [← writeStr_toVga] at htypes hcolor
    rw [h.color] at htypes hcolor
    exact h.content hstays.draws htypes rfl hcolor
  | newline =>
    have htypes := newline_types h.window
    have hcolor := newline_color s.toVga
    rw [← newline_toVga] at htypes hcolor
    exact h.content hstays.draws htypes rfl (hcolor.trans h.color)
  | clear =>
    obtain ⟨htypes, hcolor⟩ := clear_types h.window
    rw [← clear_toVga] at htypes hcolor
    rw [h.color] at htypes
    exact h.content hstays.draws htypes rfl (hcolor.trans h.color)
  | setColor fg bg => exact h.content hstays.draws h.window rfl rfl
  | commitScrollback => exact h.public t hstays.draws h.window rfl h.color
  | setCursor row col =>
    -- the cursor is clamped to the window first
    have hwidth : WIDTH = 80 := rfl
    have hcol : min col (WIDTH - 1) ≤ WIDTH := by omega
    exact h.public _ hstays.draws (h.window.moveTo _ _ (min_row_lt row) hcol) rfl h.color
  | writeAt row col text =>
    have htypes := drawText_types h.window (min_row_lt row) (usizeAdd col) s.writer.color text
    have hcolor : (s.drawText (min row (CONTENT_ROWS - 1)) (usizeAdd col) s.writer.color
        text).writer.color = t.color := by
      rw [drawText_writer]
      exact h.color
    rw [Typed.step, ← h.color]
    exact h.public _ hstays.draws htypes rfl (hcolor.trans h.color.symm)
  | clearLine row =>
    have htypes := fillRow_types h.window (min_row_lt row) le_rfl 32 s.writer.color
    rw [← fillRow_toVga] at htypes
    have hcolor : (s.fillRow (min row (CONTENT_ROWS - 1)) 32 s.writer.color WIDTH).writer.color =
        s.writer.color := by
      rw [fillRow_writer]
    rw [Typed.step, ← h.color]
    exact h.public _ hstays.draws htypes rfl hcolor
  | statusLine text => exact statusLine_shows h text
  | backspace => exact backspace_shows h

/-- **Typing**: from the first call on, on any video memory, the content rows of the screen show the
    window of the paper, and the last row the status text. -/
theorem screen_types (buffer : Nat → UInt8) (ops : List ScreenOp) :
    Shows (ops.foldl Screen.step (.new buffer))
      (ops.foldl Typed.step (.start (.new buffer))) := by
  suffices hrun : ∀ s t, Shows s t → Shows (ops.foldl Screen.step s) (ops.foldl Typed.step t) from
    hrun _ _ (start_shows _ ⟨rfl, rfl⟩)
  induction ops with
  | nil => exact fun s t h => h
  | cons op ops ih => exact fun s t h => ih _ _ (step_shows h op)

end RustKernel.Console
