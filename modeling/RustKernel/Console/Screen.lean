import RustKernel.Console.Scrollback

/-!
# RustKernel.Console.Screen

The raw writes of the text console. `BUFFER` is a bare pointer, and nothing between the writer and
the video memory checks an offset, so what keeps the writes on the screen is the position of the
cursor and the clamps in the public functions.

## Main result

- `writes_on_screen`: in every state of every run the cursor is on a content row, in a column up to
  `WIDTH`, and every cell written so far is one of the `HEIGHT * WIDTH` of the screen. `write_str`
  and `write_at` leave the status row alone.

## Proof strategy

`Screen` is the console with a log of the offsets written through `BUFFER`. Erasing the log gives
the console back (`writeStr_toVga`), so where the cursor goes is known already. `Draws` says what an
operation adds to the log, and that a byte outside of what it added has not changed.
-/

namespace RustKernel.Console

open Lib

/-- The console, and the offsets of the bytes written through `BUFFER` so far. -/
structure Screen extends Vga where
  written : List Nat

/-- The console before the first call: the video memory may hold anything. -/
def Screen.new (buffer : Nat → UInt8) : Screen where
  buffer := buffer
  writer := .new
  deferredScrollLine := none
  scrollback := .new
  scrolled := []
  appended := []
  written := []

/-! ### The writer -/

def Screen.writeAt (s : Screen) (row col : Nat) (byte color : UInt8) : Screen :=
  let offset := (row * WIDTH + col) * 2
  { s with
    toVga := s.toVga.writeAt row col byte color
    written := s.written ++ [offset, offset + 1] }

/-- `write_at` on the columns from 0 on. -/
def Screen.fillRow (s : Screen) (row : Nat) (byte color : UInt8) : Nat → Screen
  | 0 => s
  | col + 1 => (s.fillRow row byte color col).writeAt row col byte color

def Screen.scroll (s : Screen) : Screen :=
  let lineData := s.topLine
  let s := { s with
    -- the destination of the copy is the start of the video memory
    buffer := fun i =>
      if i < (CONTENT_ROWS - 1) * WIDTH * 2 then s.buffer (i + WIDTH * 2) else s.buffer i
    written := s.written ++ List.range ((CONTENT_ROWS - 1) * WIDTH * 2)
    deferredScrollLine := some lineData
    scrolled := s.scrolled ++ [lineData] }
  s.fillRow (CONTENT_ROWS - 1) 32 (colorCode .lightGray .black) WIDTH

def Screen.newline (s : Screen) : Screen :=
  let s := { s with writer := { s.writer with col := 0 } }
  if s.writer.row + 1 ≥ CONTENT_ROWS then s.scroll
  else { s with writer := { s.writer with row := s.writer.row + 1 } }

def Screen.writeByte (s : Screen) (byte : UInt8) : Screen :=
  if byte = 10 then s.newline
  else if byte = 13 then { s with writer := { s.writer with col := 0 } }
  else if byte = 9 then
    let s := { s with writer := { s.writer with col := (s.writer.col + 8) / 8 * 8 } }
    if s.writer.col ≥ WIDTH then s.newline else s
  else
    let byte := if byte < 128 ∧ byte ≠ 0x7F then byte else 63
    let s := if s.writer.col ≥ WIDTH then s.newline else s
    let s := s.writeAt s.writer.row s.writer.col byte s.writer.color
    { s with writer := { s.writer with col := s.writer.col + 1 } }

def Screen.writeStr (s : Screen) (text : List UInt8) : Screen := text.foldl writeByte s

def Screen.setColor (s : Screen) (fg bg : Color) : Screen :=
  { s with writer := { s.writer with color := colorCode fg bg } }

/-- `Writer::clear` -/
def Screen.clear (s : Screen) : Screen :=
  let s := (List.range CONTENT_ROWS).foldl (fun s row => s.fillRow row 32 s.writer.color WIDTH) s
  { s with writer := { s.writer with row := 0, col := 0 } }

def Screen.commitScrollback (s : Screen) : Screen := { s with toVga := s.toVga.commitScrollback }

/-! ### The public functions -/

/-- The loop of the public `write_at` and of `status_line`: the bytes of a text in one row, as far
    as their columns are on the screen. -/
def Screen.drawText (s : Screen) (row : Nat) (place : Nat → Nat) (color : UInt8)
    (text : List UInt8) : Screen :=
  text.zipIdx.foldl
    (fun s p => if place p.2 < WIDTH then s.writeAt row (place p.2) p.1 color else s) s

/-- The public `set_cursor` -/
def Screen.setCursor (s : Screen) (row col : Nat) : Screen :=
  { s with writer := { s.writer with
      row := min row (CONTENT_ROWS - 1)
      col := min col (WIDTH - 1) } }.commitScrollback

/-- The public `write_at` -/
def Screen.writeTextAt (s : Screen) (row col : Nat) (text : List UInt8) : Screen :=
  let row := min row (CONTENT_ROWS - 1)
  (s.drawText row (usizeAdd col) s.writer.color text).commitScrollback

/-- The public `clear_line` -/
def Screen.clearLine (s : Screen) (row : Nat) : Screen :=
  let row := min row (CONTENT_ROWS - 1)
  (s.fillRow row 32 s.writer.color WIDTH).commitScrollback

/-- The public `status_line` -/
def Screen.statusLine (s : Screen) (text : List UInt8) : Screen :=
  let color := s.writer.color
  let s := s.setColor .black .lightGray
  let s := s.fillRow (HEIGHT - 1) 32 (colorCode .black .lightGray) WIDTH
  let s := s.drawText (HEIGHT - 1) id (colorCode .black .lightGray) text
  { s with writer := { s.writer with color := color } }.commitScrollback

/-- The public `backspace` -/
def Screen.backspace (s : Screen) : Screen :=
  let s :=
    if s.writer.col > 0 then
      let s := { s with writer := { s.writer with col := s.writer.col - 1 } }
      s.writeAt s.writer.row s.writer.col 32 s.writer.color
    else if s.writer.row > 0 then
      let s := { s with writer := { s.writer with row := s.writer.row - 1, col := WIDTH - 1 } }
      s.writeAt s.writer.row s.writer.col 32 s.writer.color
    else s
  s.commitScrollback

/-- The calls on the console. `write_fmt`, `clear_screen` and the public `set_color` are one or more
    of these and `commitScrollback`. -/
inductive ScreenOp where
  | writeStr (text : List UInt8)
  | newline
  | clear
  | setColor (fg bg : Color)
  | commitScrollback
  | setCursor (row col : Nat)
  | writeAt (row col : Nat) (text : List UInt8)
  | clearLine (row : Nat)
  | statusLine (text : List UInt8)
  | backspace

def Screen.step (s : Screen) : ScreenOp → Screen
  | .writeStr text => s.writeStr text
  | .newline => s.newline
  | .clear => s.clear
  | .setColor fg bg => s.setColor fg bg
  | .commitScrollback => s.commitScrollback
  | .setCursor row col => s.setCursor row col
  | .writeAt row col text => s.writeTextAt row col text
  | .clearLine row => s.clearLine row
  | .statusLine text => s.statusLine text
  | .backspace => s.backspace

/-- The rows a call may write. -/
def ScreenOp.rows : ScreenOp → Nat
  | .statusLine _ => HEIGHT
  | _ => CONTENT_ROWS

/-! ### Erasing the log -/

theorem writeAt_toVga (s : Screen) (row col : Nat) (byte color : UInt8) :
    (s.writeAt row col byte color).toVga = s.toVga.writeAt row col byte color := rfl

theorem fillRow_toVga (s : Screen) (row : Nat) (byte color : UInt8) (cols : Nat) :
    (s.fillRow row byte color cols).toVga = s.toVga.fillRow row byte color cols := by
  induction cols with
  | zero => rfl
  | succ cols ih => rw [Screen.fillRow, Vga.fillRow, writeAt_toVga, ih]

private theorem scroll_toVga (s : Screen) : s.scroll.toVga = s.toVga.scroll := by
  rw [Screen.scroll, Vga.scroll, fillRow_toVga]

theorem newline_toVga (s : Screen) : s.newline.toVga = s.toVga.newline := by
  simp only [Screen.newline, Vga.newline]
  split
  · rw [scroll_toVga]
  · rfl

private theorem writeByte_toVga (s : Screen) (byte : UInt8) :
    (s.writeByte byte).toVga = s.toVga.writeByte byte := by
  simp only [Screen.writeByte, Vga.writeByte]
  by_cases hnewline : byte = 10
  · rw [if_pos hnewline, if_pos hnewline, newline_toVga]
  rw [if_neg hnewline, if_neg hnewline]
  by_cases hreturn : byte = 13
  · rw [if_pos hreturn, if_pos hreturn]
  rw [if_neg hreturn, if_neg hreturn]
  by_cases htab : byte = 9
  · rw [if_pos htab, if_pos htab]
    by_cases hwrap : (s.writer.col + 8) / 8 * 8 ≥ WIDTH
    · rw [if_pos hwrap, if_pos hwrap, newline_toVga]
    · rw [if_neg hwrap, if_neg hwrap]
  rw [if_neg htab, if_neg htab]
  by_cases hwrap : s.writer.col ≥ WIDTH
  · simp only [if_pos hwrap, writeAt_toVga, newline_toVga]
  · simp only [if_neg hwrap, writeAt_toVga]

/-- The log is all that the model of the writes adds to `write_str`. -/
theorem writeStr_toVga (s : Screen) (text : List UInt8) :
    (s.writeStr text).toVga = s.toVga.writeStr text := by
  induction text generalizing s with
  | nil => rfl
  | cons byte text ih =>
    show ((s.writeByte byte).writeStr text).toVga = (s.toVga.writeByte byte).writeStr text
    rw [ih, writeByte_toVga]

theorem clear_toVga (s : Screen) : s.clear.toVga = s.toVga.clear := by
  have hrows : (List.range CONTENT_ROWS).foldl
        (fun c row => c.fillRow row 32 c.writer.color WIDTH) s.toVga =
      ((List.range CONTENT_ROWS).foldl
        (fun s row => s.fillRow row 32 s.writer.color WIDTH) s).toVga :=
    List.foldl_hom Screen.toVga
      (fun s row => (fillRow_toVga s row 32 s.writer.color WIDTH).symm)
  simp only [Screen.clear, Vga.clear]
  rw [hrows]

/-! ### The cursor -/

/-- The cursor is on a content row, and in a column or right behind the last one. -/
structure Vga.OnScreen (c : Vga) : Prop where
  row_le : c.writer.row ≤ CONTENT_ROWS - 1
  col_le : c.writer.col ≤ WIDTH

private theorem nextCol_le (col : Nat) (byte : UInt8) : nextCol col byte ≤ WIDTH := by
  rw [nextCol]
  have hwidth : WIDTH = 80 := rfl
  -- a tab stop is never behind the last column, and a character there begins a new line
  split
  · omega
  · split
    · split <;> omega
    · split <;> omega

theorem Vga.OnScreen.row_lt {c : Vga} (h : c.OnScreen) : c.writer.row < CONTENT_ROWS := by
  have hrows : CONTENT_ROWS = 24 := rfl
  have hrow := h.row_le
  omega

theorem Moves.onScreen {c c' : Vga} {n col : Nat} (h : Moves c c' n col) (hcol : col ≤ WIDTH) :
    c'.OnScreen where
  row_le := by
    rw [h.row_eq]
    exact min_le_right _ _
  col_le := by rwa [h.col_eq]

private theorem newline_onScreen {s : Screen} (h : s.OnScreen) : s.newline.OnScreen := by
  rw [newline_toVga]
  exact (newline_moves s.toVga h.row_lt).onScreen (Nat.zero_le _)

private theorem writeByte_onScreen {s : Screen} (h : s.OnScreen) (byte : UInt8) :
    (s.writeByte byte).OnScreen := by
  rw [writeByte_toVga]
  exact (writeByte_moves s.toVga byte h.row_lt).onScreen (nextCol_le _ _)

/-! ### What an operation writes -/

/-- From `s` to `s'` the bytes at `offsets` were written, and no others. -/
structure Writes (s s' : Screen) (offsets : List Nat) : Prop where
  written_eq : s'.written = s.written ++ offsets
  frame : ∀ i, i ∉ offsets → s'.buffer i = s.buffer i

/-- The writes from `s` to `s'` are to cells of the first `rows` rows. -/
def Draws (rows : Nat) (s s' : Screen) : Prop :=
  ∃ offsets, Writes s s' offsets ∧ ∀ i ∈ offsets, i / 2 < rows * WIDTH

/-- A step that moves the cursor only. -/
private theorem draws_nothing {s s' : Screen} (rows : Nat) (hbuffer : s'.buffer = s.buffer)
    (hwritten : s'.written = s.written) : Draws rows s s' := by
  refine ⟨[], ⟨?_, ?_⟩, ?_⟩
  · rw [hwritten, List.append_nil]
  · intro i _
    rw [hbuffer]
  · simp

theorem Draws.trans {rows : Nat} {s s' s'' : Screen} (h : Draws rows s s')
    (h' : Draws rows s' s'') : Draws rows s s'' := by
  obtain ⟨offsets, hwrites, hcells⟩ := h
  obtain ⟨offsets', hwrites', hcells'⟩ := h'
  refine ⟨offsets ++ offsets', ⟨?_, ?_⟩, ?_⟩
  · rw [hwrites'.written_eq, hwrites.written_eq, List.append_assoc]
  · intro i hi
    rw [List.mem_append, not_or] at hi
    rw [hwrites'.frame i hi.2, hwrites.frame i hi.1]
  · intro i hi
    rcases List.mem_append.mp hi with hi | hi
    · exact hcells i hi
    · exact hcells' i hi

theorem Draws.mono {rows rows' : Nat} {s s' : Screen} (h : Draws rows s s') (hle : rows ≤ rows') :
    Draws rows' s s' := by
  obtain ⟨offsets, hwrites, hcells⟩ := h
  refine ⟨offsets, hwrites, ?_⟩
  intro i hi
  exact lt_of_lt_of_le (hcells i hi) (Nat.mul_le_mul_right _ hle)

/-- The log of a step that keeps to the first rows. -/
private theorem Draws.written_lt {rows : Nat} {s s' : Screen} (h : Draws rows s s')
    (hlog : ∀ i ∈ s.written, i / 2 < rows * WIDTH) : ∀ i ∈ s'.written, i / 2 < rows * WIDTH := by
  obtain ⟨offsets, hwrites, hcells⟩ := h
  intro i hi
  rw [hwrites.written_eq, List.mem_append] at hi
  cases hi with
  | inl hold => exact hlog i hold
  | inr hnew => exact hcells i hnew

private theorem writeAt_draws (s : Screen) {rows row col : Nat} (hrow : row < rows)
    (hcol : col < WIDTH)
    (byte color : UInt8) : Draws rows s (s.writeAt row col byte color) := by
  refine ⟨[(row * WIDTH + col) * 2, (row * WIDTH + col) * 2 + 1], ⟨rfl, ?_⟩, ?_⟩
  · intro i hi
    simp only [List.mem_cons, List.not_mem_nil, or_false, not_or] at hi
    simp only [Screen.writeAt, Vga.writeAt]
    rw [if_neg hi.1, if_neg hi.2]
  · -- the cell is in the row, and the row ends before the next one
    have hcell : row * WIDTH + col < rows * WIDTH := calc
      row * WIDTH + col < row * WIDTH + WIDTH := Nat.add_lt_add_left hcol _
      _ = (row + 1) * WIDTH := (Nat.succ_mul row WIDTH).symm
      _ ≤ rows * WIDTH := Nat.mul_le_mul_right _ hrow
    intro i hi
    have hi : i = (row * WIDTH + col) * 2 ∨ i = (row * WIDTH + col) * 2 + 1 := by simpa using hi
    have hhalf : i / 2 = row * WIDTH + col := by omega
    rwa [hhalf]

private theorem fillRow_draws (s : Screen) {rows row cols : Nat} (hrow : row < rows)
    (hcols : cols ≤ WIDTH)
    (byte color : UInt8) : Draws rows s (s.fillRow row byte color cols) := by
  induction cols with
  | zero => exact draws_nothing rows rfl rfl
  | succ cols ih => exact (ih (by omega)).trans (writeAt_draws _ hrow hcols byte color)

private theorem drawText_draws (s : Screen) {rows row : Nat} (hrow : row < rows) (place : Nat → Nat)
    (color : UInt8) (text : List UInt8) : Draws rows s (s.drawText row place color text) := by
  rw [Screen.drawText]
  -- by induction on the numbered bytes, from any screen on
  generalize text.zipIdx = pairs
  induction pairs generalizing s with
  | nil => exact draws_nothing rows rfl rfl
  | cons p pairs ih =>
    rw [List.foldl_cons]
    refine .trans ?_ (ih _)
    split
    case isTrue hfits => exact writeAt_draws s hrow hfits p.1 color
    case isFalse => exact draws_nothing rows rfl rfl

private theorem commitScrollback_draws (rows : Nat) (s : Screen) :
    Draws rows s s.commitScrollback := by
  apply draws_nothing
  · simp only [Screen.commitScrollback, Vga.commitScrollback]
    split <;> rfl
  · rfl

/-- The copy writes all content rows but the last one, and the last one is blanked. -/
private theorem scroll_draws (s : Screen) : Draws CONTENT_ROWS s s.scroll := by
  rw [Screen.scroll]
  refine .trans ?_ (fillRow_draws _ (by decide) le_rfl _ _)
  refine ⟨List.range ((CONTENT_ROWS - 1) * WIDTH * 2), ⟨rfl, ?_⟩, ?_⟩
  · intro i hi
    rw [List.mem_range] at hi
    exact if_neg hi
  · intro i hi
    rw [List.mem_range] at hi
    have hrows : CONTENT_ROWS = 24 := rfl
    have hwidth : WIDTH = 80 := rfl
    rw [hrows, hwidth] at hi ⊢
    omega

private theorem newline_draws (s : Screen) : Draws CONTENT_ROWS s s.newline := by
  have hreturn : Draws CONTENT_ROWS s { s with writer := { s.writer with col := 0 } } :=
    draws_nothing _ rfl rfl
  rw [Screen.newline]
  split
  · exact hreturn.trans (scroll_draws _)
  · exact hreturn.trans (draws_nothing _ rfl rfl)

private theorem writeByte_draws {s : Screen} (h : s.OnScreen) (byte : UInt8) :
    Draws CONTENT_ROWS s (s.writeByte byte) := by
  simp only [Screen.writeByte]
  by_cases hnewline : byte = 10
  · rw [if_pos hnewline]
    exact newline_draws s
  rw [if_neg hnewline]
  by_cases hreturn : byte = 13
  · rw [if_pos hreturn]
    exact draws_nothing _ rfl rfl
  rw [if_neg hreturn]
  by_cases htab : byte = 9
  · rw [if_pos htab]
    split
    · exact .trans (draws_nothing _ rfl rfl) (newline_draws _)
    · exact draws_nothing _ rfl rfl
  rw [if_neg htab]
  by_cases hwrap : s.writer.col ≥ WIDTH
  · -- behind the last column the character goes to the start of the next row
    rw [if_pos hwrap]
    have hcol : s.newline.writer.col < WIDTH := by
      rw [newline_toVga, (newline_moves s.toVga h.row_lt).col_eq]
      decide
    have hchar := fun byte => writeAt_draws s.newline (newline_onScreen h).row_lt hcol byte
      s.newline.writer.color
    exact (newline_draws s).trans ((hchar _).trans (draws_nothing _ rfl rfl))
  · rw [if_neg hwrap]
    have hchar := fun byte => writeAt_draws s h.row_lt (not_le.mp hwrap) byte s.writer.color
    exact (hchar _).trans (draws_nothing _ rfl rfl)

/-! ### What a call does -/

/-- A call leaves the cursor on the screen, and writes cells of the first `rows` rows only. -/
structure StaysOn (rows : Nat) (s s' : Screen) : Prop where
  onScreen : s'.OnScreen
  draws : Draws rows s s'

theorem StaysOn.trans {rows : Nat} {s s' s'' : Screen} (h : StaysOn rows s s')
    (h' : StaysOn rows s' s'') : StaysOn rows s s'' := ⟨h'.onScreen, h.draws.trans h'.draws⟩

/-- Drawing leaves the cursor where it is. -/
private theorem Draws.staysOn {rows : Nat} {s s' : Screen} (h : Draws rows s s')
    (hwriter : s'.writer = s.writer) (hon : s.OnScreen) : StaysOn rows s s' where
  onScreen := by
    obtain ⟨hrow, hcol⟩ := hon
    exact ⟨by rwa [hwriter], by rwa [hwriter]⟩
  draws := h

theorem fillRow_writer (s : Screen) (row : Nat) (byte color : UInt8) (cols : Nat) :
    (s.fillRow row byte color cols).writer = s.writer := by
  induction cols with
  | zero => rfl
  | succ cols ih => exact ih

theorem drawText_writer (s : Screen) (row : Nat) (place : Nat → Nat) (color : UInt8)
    (text : List UInt8) : (s.drawText row place color text).writer = s.writer := by
  rw [Screen.drawText]
  generalize text.zipIdx = pairs
  induction pairs generalizing s with
  | nil => rfl
  | cons p pairs ih =>
    rw [List.foldl_cons, ih]
    split <;> rfl

theorem commitScrollback_writer (s : Screen) : s.commitScrollback.writer = s.writer := by
  simp only [Screen.commitScrollback, Vga.commitScrollback]
  split <;> rfl

/-- The public functions end with a commit. -/
theorem StaysOn.commit {rows : Nat} {s s' : Screen} (h : StaysOn rows s s') :
    StaysOn rows s s'.commitScrollback :=
  h.trans ((commitScrollback_draws rows s').staysOn (commitScrollback_writer s') h.onScreen)

/-- A move of the cursor to a place on the screen. -/
private theorem staysOn_move (rows : Nat) (s : Screen) {row col : Nat}
    (hrow : row ≤ CONTENT_ROWS - 1)
    (hcol : col ≤ WIDTH) (color : UInt8) :
    StaysOn rows s { s with writer := ⟨row, col, color⟩ } :=
  ⟨⟨hrow, hcol⟩, draws_nothing rows rfl rfl⟩

private theorem writeStr_staysOn {s : Screen} (h : s.OnScreen) (text : List UInt8) :
    StaysOn CONTENT_ROWS s (s.writeStr text) := by
  induction text generalizing s with
  | nil => exact ⟨h, draws_nothing _ rfl rfl⟩
  | cons byte text ih =>
    have hbyte := writeByte_onScreen h byte
    exact .trans ⟨hbyte, writeByte_draws h byte⟩ (ih hbyte)

private theorem clear_staysOn {s : Screen} (h : s.OnScreen) : StaysOn CONTENT_ROWS s s.clear := by
  have hfill : ∀ (rows : List Nat) (s : Screen), (∀ row ∈ rows, row < CONTENT_ROWS) → s.OnScreen →
      StaysOn CONTENT_ROWS s
        (rows.foldl (fun s row => s.fillRow row 32 s.writer.color WIDTH) s) := by
    intro rows
    induction rows with
    | nil => exact fun s _ hon => ⟨hon, draws_nothing _ rfl rfl⟩
    | cons row rows ih =>
      intro s hrows hon
      have hrow := (fillRow_draws s (hrows row List.mem_cons_self) le_rfl 32 s.writer.color).staysOn
        (fillRow_writer _ _ _ _ _) hon
      exact hrow.trans (ih _ (fun r hr => hrows r (List.mem_cons_of_mem _ hr)) hrow.onScreen)
  have hrows := hfill (List.range CONTENT_ROWS) s (fun row hrow => List.mem_range.mp hrow) h
  exact hrows.trans (staysOn_move _ _ (Nat.zero_le _) (Nat.zero_le _) _)

private theorem setCursor_staysOn (s : Screen) (row col : Nat) :
    StaysOn CONTENT_ROWS s (s.setCursor row col) := by
  have hwidth : WIDTH = 80 := rfl
  exact (staysOn_move _ s (min_le_right _ _) (by omega) s.writer.color).commit

theorem min_row_lt (row : Nat) : min row (CONTENT_ROWS - 1) < CONTENT_ROWS := by
  have hrows : CONTENT_ROWS = 24 := rfl
  omega

private theorem writeTextAt_staysOn {s : Screen} (h : s.OnScreen) (row col : Nat)
    (text : List UInt8) :
    StaysOn CONTENT_ROWS s (s.writeTextAt row col text) :=
  ((drawText_draws s (min_row_lt row) (usizeAdd col) s.writer.color text).staysOn
    (drawText_writer _ _ _ _ _) h).commit

private theorem clearLine_staysOn {s : Screen} (h : s.OnScreen) (row : Nat) :
    StaysOn CONTENT_ROWS s (s.clearLine row) :=
  ((fillRow_draws s (min_row_lt row) le_rfl 32 s.writer.color).staysOn
    (fillRow_writer _ _ _ _ _) h).commit

/-- `status_line` is the only call that writes the status row. -/
private theorem statusLine_staysOn {s : Screen} (h : s.OnScreen) (text : List UInt8) :
    StaysOn HEIGHT s (s.statusLine text) := by
  have hlast : HEIGHT - 1 < HEIGHT := by decide
  rw [Screen.statusLine]
  apply StaysOn.commit
  have hcolor := staysOn_move HEIGHT s h.row_le h.col_le (colorCode .black .lightGray)
  have hblank := (fillRow_draws (s.setColor .black .lightGray) hlast le_rfl 32
    (colorCode .black .lightGray)).staysOn (fillRow_writer _ _ _ _ _) hcolor.onScreen
  have htext := (drawText_draws _ hlast id (colorCode .black .lightGray) text).staysOn
    (drawText_writer _ _ _ _ _) hblank.onScreen
  -- the color is put back
  exact hcolor.trans (hblank.trans (htext.trans
    (staysOn_move HEIGHT _ htext.onScreen.row_le htext.onScreen.col_le s.writer.color)))

/-- A blank at the cursor, after a move to a place on the screen. -/
private theorem blank_staysOn (s : Screen) {row col : Nat} (hrow : row ≤ CONTENT_ROWS - 1)
    (hcol : col < WIDTH) (color : UInt8) :
    StaysOn CONTENT_ROWS s
      (Screen.writeAt { s with writer := ⟨row, col, color⟩ } row col 32 color) := by
  have hmove := staysOn_move CONTENT_ROWS s hrow hcol.le color
  exact hmove.trans ((writeAt_draws _ hmove.onScreen.row_lt hcol 32 color).staysOn rfl
    hmove.onScreen)

theorem backspace_staysOn {s : Screen} (h : s.OnScreen) :
    StaysOn CONTENT_ROWS s s.backspace := by
  have hrow := h.row_le
  have hcol := h.col_le
  have hwidth : WIDTH = 80 := rfl
  apply StaysOn.commit
  -- even from behind the last column the blank goes to a column of the screen
  by_cases hback : s.writer.col > 0
  · rw [if_pos hback]
    exact blank_staysOn s hrow (by omega) s.writer.color
  rw [if_neg hback]
  by_cases hup : s.writer.row > 0
  · rw [if_pos hup]
    exact blank_staysOn s (by omega) (by omega) s.writer.color
  · rw [if_neg hup]
    exact ⟨h, draws_nothing _ rfl rfl⟩

theorem step_staysOn {s : Screen} (h : s.OnScreen) (op : ScreenOp) :
    StaysOn op.rows s (s.step op) := by
  cases op with
  | writeStr text => exact writeStr_staysOn h text
  | newline => exact ⟨newline_onScreen h, newline_draws s⟩
  | clear => exact clear_staysOn h
  | setColor fg bg => exact staysOn_move _ s h.row_le h.col_le _
  | commitScrollback => exact StaysOn.commit ⟨h, draws_nothing _ rfl rfl⟩
  | setCursor row col => exact setCursor_staysOn s row col
  | writeAt row col text => exact writeTextAt_staysOn h row col text
  | clearLine row => exact clearLine_staysOn h row
  | statusLine text => exact statusLine_staysOn h text
  | backspace => exact backspace_staysOn h

private theorem ScreenOp.rows_le (op : ScreenOp) : op.rows ≤ HEIGHT := by
  cases op with
  | statusLine text => exact le_rfl
  | _ => exact Nat.sub_le _ _

/-! ### Runs -/

/-- The cursor is on the screen, and so is everything written so far. -/
structure Screen.Safe (s : Screen) : Prop where
  onScreen : s.OnScreen
  cells : ∀ i ∈ s.written, i / 2 < HEIGHT * WIDTH

private theorem new_safe (buffer : Nat → UInt8) : (Screen.new buffer).Safe where
  onScreen := ⟨Nat.zero_le _, Nat.zero_le _⟩
  cells := by simp [Screen.new]

private theorem step_safe {s : Screen} (h : s.Safe) (op : ScreenOp) : (s.step op).Safe := by
  have hstep := step_staysOn h.onScreen op
  exact ⟨hstep.onScreen, (hstep.draws.mono op.rows_le).written_lt h.cells⟩

/-- No byte of the status row was written. -/
def SparesStatusRow (s s' : Screen) : Prop :=
  ∃ offsets, Writes s s' offsets ∧ ∀ i ∈ offsets, i / 2 / WIDTH ≠ HEIGHT - 1

private theorem Draws.sparesStatusRow {s s' : Screen} (h : Draws CONTENT_ROWS s s') :
    SparesStatusRow s s' := by
  obtain ⟨offsets, hwrites, hcells⟩ := h
  refine ⟨offsets, hwrites, ?_⟩
  intro i hi
  have hrow : i / 2 / WIDTH < CONTENT_ROWS := by
    apply Nat.div_lt_of_lt_mul
    rw [Nat.mul_comm]
    exact hcells i hi
  exact hrow.ne

/-- The writer stays on the page. -/
theorem writes_on_screen (buffer : Nat → UInt8) (ops : List ScreenOp) :
    (∀ s ∈ states Screen.step (.new buffer) ops,
      s.writer.row ≤ CONTENT_ROWS - 1 ∧ s.writer.col ≤ WIDTH ∧
        ∀ i ∈ s.written, i / 2 < HEIGHT * WIDTH) ∧
    ∀ p ∈ steps Screen.step (.new buffer) ops,
      (∀ text, p.2 ≠ .statusLine text) → SparesStatusRow p.1 (p.1.step p.2) := by
  have hkeep : ∀ s op, Screen.Safe s → True → (s.step op).Safe := fun s op h _ => step_safe h op
  have hall := invariant_states Screen.step Screen.Safe (fun _ _ => True) hkeep _ ops
    (new_safe buffer) (fun _ _ => trivial)
  have hbefore := invariant_steps Screen.step Screen.Safe (fun _ _ => True) hkeep _ ops
    (new_safe buffer) (fun _ _ => trivial)
  constructor
  · intro s hs
    obtain ⟨⟨hrow, hcol⟩, hcells⟩ := hall s hs
    exact ⟨hrow, hcol, hcells⟩
  · rintro ⟨s, op⟩ hp hop
    have hstep := step_staysOn (hbefore _ hp).onScreen op
    have hrows : op.rows = CONTENT_ROWS := by
      cases op with
      | statusLine text => exact absurd rfl (hop text)
      | _ => rfl
    rw [hrows] at hstep
    exact hstep.draws.sparesStatusRow

end RustKernel.Console
