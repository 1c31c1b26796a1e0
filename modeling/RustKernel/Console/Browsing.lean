import RustKernel.Console.Typing
import RustKernel.Lib.Raster

/-!
# RustKernel.Console.Browsing

Looking back at what has scrolled off the screen. `scroll_display_up` and `scroll_display_down` copy
lines of the scrollback buffer into the video memory, over the rows that are shown there.

## Main result

`browsing_shows`: from every state of a run on, and after any calls that scroll the display, the
content rows hold the lines of the last view that was not the live one, with the writer at its top.
Scrolling down to the live view, as the status line suggests, draws nothing: the rows that were
overwritten do not come back.
-/

namespace RustKernel.Console

open Lib

/-- One row of `redraw_from_scrollback`. -/
def Screen.redrawRow (s : Screen) (row : Nat) (lineData : Line) : Screen :=
  { s with
    buffer := writeBytes s.buffer (row * WIDTH * 2)
      ((List.range (WIDTH * 2)).map fun i => lineData.getD i 0)
    written := s.written ++ List.range' (row * WIDTH * 2) (WIDTH * 2) }

def Screen.redrawFromScrollback (s : Screen) : Screen :=
  if s.scrollback.scrollOffset = 0 then s
  else
    let s := (List.range CONTENT_ROWS).foldl (fun s row =>
      match s.scrollback.getLine row with
      | some lineData => s.redrawRow row lineData
      | none => s) s
    { s with writer := { s.writer with row := 0, col := 0 } }

/-- The text of the status line while older lines are shown. -/
def scrolledText (offset : Nat) : List UInt8 :=
  ("  SCROLLBACK: -" ++ toString offset ++ " lines (scroll down to return)").toUTF8.toList

def Screen.scrollDisplayUp (s : Screen) (lines : Nat) : Screen :=
  let s := { s with scrollback := s.scrollback.scrollUp lines }
  let offset := s.scrollback.scrollOffset
  let s := s.redrawFromScrollback
  if offset > 0 then s.statusLine (scrolledText offset) else s

def Screen.scrollDisplayDown (s : Screen) (lines : Nat) : Screen :=
  let s := { s with scrollback := s.scrollback.scrollDown lines }
  let offset := s.scrollback.scrollOffset
  if offset = 0 then s.statusLine []
  else s.redrawFromScrollback.statusLine (scrolledText offset)

/-- The calls that scroll the display. -/
inductive Browse where
  | up (lines : Nat)
  | down (lines : Nat)

def Screen.browse (s : Screen) : Browse → Screen
  | .up lines => s.scrollDisplayUp lines
  | .down lines => s.scrollDisplayDown lines

/-- A call of a public function: it commits the line that scrolled off, or scrolls the display. -/
inductive PublicCall where
  | draw (op : ScreenOp)
  | browse (call : Browse)

def Screen.call (s : Screen) : PublicCall → Screen
  | .draw op => (s.step op).commitScrollback
  | .browse call => s.browse call

/-! ### The view -/

/-- How far back the display is after a call, with `max` lines above the last ones. -/
def Browse.offset (max : Nat) (offset : Nat) : Browse → Nat
  | .up lines => min (usizeAdd offset lines) max
  | .down lines => offset - lines

/-- How far back the display is, and how far back it was when it was last redrawn. -/
structure View where
  offset : Nat
  drawn : Option Nat

def View.step (max : Nat) (v : View) (call : Browse) : View :=
  let offset := call.offset max v.offset
  ⟨offset, if offset = 0 then v.drawn else some offset⟩

/-- A cell of a line. -/
def lineCell (lineData : Line) (col : Nat) : Cell :=
  (lineData.getD (col * 2) 0, lineData.getD (col * 2 + 1) 0)

/-- The line in a row of the view that is `offset` lines back. -/
def ScrollbackBuffer.viewed (sb : ScrollbackBuffer) (offset row : Nat) : Line :=
  sb.lines ((sb.currentLine - CONTENT_ROWS - offset + row) % SCROLLBACK_LINES)

/-- `s'` shows the view `v` of the scrollback buffer of `s`, or what `s` shows. -/
structure Screen.Viewing (s : Screen) (v : View) (s' : Screen) : Prop where
  lines_eq : s'.scrollback.lines = s.scrollback.lines
  currentLine_eq : s'.scrollback.currentLine = s.scrollback.currentLine
  offset_eq : s'.scrollback.scrollOffset = v.offset
  offset_le : v.offset ≤ s.scrollback.currentLine - CONTENT_ROWS
  settled : s'.deferredScrollLine = none
  cells : ∀ row col, row < CONTENT_ROWS → col < WIDTH → s'.cellAt row col =
    match v.drawn with
    | some offset => lineCell (s.scrollback.viewed offset row) col
    | none => s.cellAt row col
  writer : (s'.writer.row, s'.writer.col) =
    match v.drawn with
    | some _ => (0, 0)
    | none => (s.writer.row, s.writer.col)

/-- The display at another offset, before anything is drawn. -/
def Screen.scrollTo (s : Screen) (offset : Nat) : Screen :=
  { s with scrollback := { s.scrollback with scrollOffset := offset } }

/-- Both calls redraw the rows and the status line, but for the live view. -/
private theorem browse_eq (s : Screen) (call : Browse) :
    s.browse call =
      let offset := call.offset (s.scrollback.currentLine - CONTENT_ROWS) s.scrollback.scrollOffset
      if offset = 0 then
        match call with
        | .up _ => s.scrollTo 0
        | .down _ => (s.scrollTo 0).statusLine []
      else (s.scrollTo offset).redrawFromScrollback.statusLine (scrolledText offset) := by
  cases call with
  | up lines =>
    -- up asks whether the offset is positive, down whether it is 0
    have hup : s.browse (.up lines) =
        let s' := s.scrollTo (Browse.offset (s.scrollback.currentLine - CONTENT_ROWS)
          s.scrollback.scrollOffset (.up lines))
        if s'.scrollback.scrollOffset > 0 then
          s'.redrawFromScrollback.statusLine (scrolledText s'.scrollback.scrollOffset)
        else s'.redrawFromScrollback := rfl
    rw [hup]
    simp only
    generalize Browse.offset (s.scrollback.currentLine - CONTENT_ROWS)
      s.scrollback.scrollOffset (.up lines) = offset
    have hset : (s.scrollTo offset).scrollback.scrollOffset = offset := rfl
    rw [hset]
    by_cases hzero : offset = 0
    · subst hzero
      rfl
    · rw [if_neg hzero, if_pos (Nat.pos_of_ne_zero hzero)]
  | down lines =>
    have hdown : s.browse (.down lines) =
        let s' := s.scrollTo (Browse.offset (s.scrollback.currentLine - CONTENT_ROWS)
          s.scrollback.scrollOffset (.down lines))
        if s'.scrollback.scrollOffset = 0 then s'.statusLine []
        else s'.redrawFromScrollback.statusLine (scrolledText s'.scrollback.scrollOffset) := rfl
    rw [hdown]
    simp only
    generalize Browse.offset (s.scrollback.currentLine - CONTENT_ROWS)
      s.scrollback.scrollOffset (.down lines) = offset
    have hset : (s.scrollTo offset).scrollback.scrollOffset = offset := rfl
    rw [hset]
    by_cases hzero : offset = 0
    · subst hzero
      rfl
    · rw [if_neg hzero, if_neg hzero]

/-! ### The status line -/

theorem Screen.fillRow_eq (s : Screen) (row : Nat) (byte color : UInt8) (cols : Nat) :
    ∃ buffer written, s.fillRow row byte color cols =
      { s with buffer := buffer, written := written } := by
  induction cols with
  | zero => exact ⟨s.buffer, s.written, rfl⟩
  | succ cols ih =>
    obtain ⟨buffer, written, hfill⟩ := ih
    rw [Screen.fillRow, hfill]
    exact ⟨_, _, rfl⟩

private theorem Screen.drawText_eq (s : Screen) (row : Nat) (place : Nat → Nat) (color : UInt8)
    (text : List UInt8) :
    ∃ buffer written, s.drawText row place color text =
      { s with buffer := buffer, written := written } := by
  rw [Screen.drawText]
  generalize text.zipIdx = pairs
  induction pairs generalizing s with
  | nil => exact ⟨s.buffer, s.written, rfl⟩
  | cons b pairs ih =>
    rw [List.foldl_cons]
    split
    · exact ih (s.writeAt row (place b.2) b.1 color)
    · exact ih s

/-- With nothing to commit, a status line changes the status row only. -/
private theorem statusLine_eq {s : Screen} (h : s.deferredScrollLine = none) (text : List UInt8) :
    ∃ buffer written, s.statusLine text = { s with buffer := buffer, written := written } := by
  obtain ⟨buffer, written, hfill⟩ := (s.setColor .black .lightGray).fillRow_eq (HEIGHT - 1) 32
    (colorCode .black .lightGray) WIDTH
  obtain ⟨buffer', written', hdraw⟩ := Screen.drawText_eq
    { s.setColor .black .lightGray with buffer := buffer, written := written } (HEIGHT - 1) id
    (colorCode .black .lightGray) text
  refine ⟨buffer', written', ?_⟩
  simp only [Screen.statusLine, hfill, hdraw]
  rw [Screen.commitScrollback, Vga.commitScrollback]
  simp only [Screen.setColor, h]

/-! ### Redrawing -/

/-- The bytes of the row that is redrawn. -/
private theorem buffer_redrawRow (s : Screen) (row : Nat) (lineData : Line) {i : Nat}
    (hi : i < WIDTH * 2) :
    (s.redrawRow row lineData).buffer (row * WIDTH * 2 + i) = lineData.getD i 0 := by
  simp only [Screen.redrawRow, writeBytes, List.length_map, List.length_range]
  rw [if_pos (by omega), Nat.add_sub_cancel_left, List.getD_eq_getElem _ _ (by simpa using hi)]
  simp

private theorem cellAt_redrawRow (s : Screen) (row : Nat) (lineData : Line) (row' : Nat) {col : Nat}
    (hcol : col < WIDTH) :
    (s.redrawRow row lineData).cellAt row' col =
      if row' = row then lineCell lineData col else s.cellAt row' col := by
  have hwidth : WIDTH = 80 := rfl
  split
  case isTrue hrow =>
    subst hrow
    have hchar := buffer_redrawRow s row' lineData (i := col * 2) (by omega)
    have hcolor := buffer_redrawRow s row' lineData (i := col * 2 + 1) (by omega)
    rw [← Nat.add_mul] at hchar
    rw [← Nat.add_assoc, ← Nat.add_mul] at hcolor
    rw [Vga.cellAt, hchar, hcolor, lineCell]
  case isFalse hrow =>
    simp only [Vga.cellAt, Screen.redrawRow, writeBytes, List.length_map, List.length_range, hwidth]
    rw [if_neg (by omega), if_neg (by omega)]

/-- Above the live view every row has a line in the buffer. -/
private theorem getLine_eq {sb : ScrollbackBuffer} (hpos : 0 < sb.scrollOffset)
    (hle : sb.scrollOffset ≤ sb.currentLine - CONTENT_ROWS) {row : Nat}
    (hrow : row < CONTENT_ROWS) :
    sb.getLine row = some (sb.viewed sb.scrollOffset row) := by
  have hrows : CONTENT_ROWS = 24 := rfl
  rw [ScrollbackBuffer.getLine, if_neg (by omega)]
  simp only
  rw [if_neg (by omega), ScrollbackBuffer.viewed]

/-- The rows that have been redrawn. -/
private theorem redraw_rows {s : Screen} (hpos : 0 < s.scrollback.scrollOffset)
    (hle : s.scrollback.scrollOffset ≤ s.scrollback.currentLine - CONTENT_ROWS) {n : Nat}
    (hn : n ≤ CONTENT_ROWS) :
    ∃ buffer written, (List.range n).foldl (fun s row =>
        match s.scrollback.getLine row with
        | some lineData => s.redrawRow row lineData
        | none => s) s = { s with buffer := buffer, written := written } ∧
      ∀ row col, col < WIDTH → Vga.cellAt { s.toVga with buffer := buffer } row col =
        if row < n then lineCell (s.scrollback.viewed s.scrollback.scrollOffset row) col
        else s.cellAt row col := by
  induction n with
  | zero => exact ⟨s.buffer, s.written, rfl, by simp⟩
  | succ n ih =>
    obtain ⟨buffer, written, hfold, hcells⟩ := ih (Nat.le_of_succ_le hn)
    -- row `n` is drawn after the rows above it, and touches none of them
    have hnext : n < CONTENT_ROWS := hn
    have hline := getLine_eq hpos hle hnext
    rw [List.range_succ, List.foldl_append, hfold, List.foldl_cons, List.foldl_nil]
    simp only [hline]
    refine ⟨_, _, rfl, ?_⟩
    intro row col hcol
    have hrow := cellAt_redrawRow { s with buffer := buffer, written := written } n
      (s.scrollback.viewed s.scrollback.scrollOffset n) row hcol
    refine hrow.trans ?_
    rw [hcells row col hcol]
    by_cases hhere : row = n
    · subst hhere
      rw [if_pos rfl, if_pos (Nat.lt_succ_self row)]
    · have hiff : row < n + 1 ↔ row < n := by omega
      simp only [hhere, hiff, if_false]

/-- What `redraw_from_scrollback` draws, and where it puts the writer. -/
private theorem redraw_eq {s : Screen} (hpos : 0 < s.scrollback.scrollOffset)
    (hle : s.scrollback.scrollOffset ≤ s.scrollback.currentLine - CONTENT_ROWS) :
    ∃ buffer written, s.redrawFromScrollback =
        { s with buffer := buffer, written := written, writer := ⟨0, 0, s.writer.color⟩ } ∧
      ∀ row col, row < CONTENT_ROWS → col < WIDTH →
        Vga.cellAt { s.toVga with buffer := buffer } row col =
          lineCell (s.scrollback.viewed s.scrollback.scrollOffset row) col := by
  obtain ⟨buffer, written, hfold, hcells⟩ := redraw_rows hpos hle le_rfl
  refine ⟨buffer, written, ?_, ?_⟩
  · rw [Screen.redrawFromScrollback, if_neg hpos.ne']
    simp only [hfold]
  · intro row col hrow hcol
    rw [hcells row col hcol, if_pos hrow]

/-! ### Runs -/

/-- A status line does not touch the content rows. -/
private theorem statusLine_content (s : Screen) (text : List UInt8) {row col : Nat}
    (hrow : row < CONTENT_ROWS) (hcol : col < WIDTH) :
    (s.statusLine text).cellAt row col = s.cellAt row col := by
  have hother : row ≠ HEIGHT - 1 := Nat.ne_of_lt hrow
  rw [cellAt_statusLine s text row hcol, if_neg hother]

variable {s s' : Screen} {v : View}

theorem Screen.Viewing.status (h : s.Viewing v s') (text : List UInt8) :
    s.Viewing v (s'.statusLine text) := by
  obtain ⟨buffer, written, heq⟩ := statusLine_eq h.settled text
  have hsame : (s'.statusLine text).scrollback = s'.scrollback := by rw [heq]
  refine ⟨?_, ?_, ?_, h.offset_le, ?_, ?_, ?_⟩
  · rw [hsame, h.lines_eq]
  · rw [hsame, h.currentLine_eq]
  · rw [hsame, h.offset_eq]
  · rw [heq]
    exact h.settled
  · intro row col hrow hcol
    rw [statusLine_content s' text hrow hcol]
    exact h.cells row col hrow hcol
  · rw [statusLine_writer]
    exact h.writer

theorem Screen.Viewing.scrollTo (h : s.Viewing v s') {offset : Nat}
    (hle : offset ≤ s.scrollback.currentLine - CONTENT_ROWS) :
    s.Viewing ⟨offset, v.drawn⟩ (s'.scrollTo offset) :=
  ⟨h.lines_eq, h.currentLine_eq, rfl, hle, h.settled, h.cells, h.writer⟩

theorem Screen.Viewing.redraw (h : s.Viewing v s') (hpos : v.offset ≠ 0) :
    s.Viewing ⟨v.offset, some v.offset⟩ s'.redrawFromScrollback := by
  obtain ⟨buffer, written, heq, hcells⟩ := redraw_eq (s := s')
    (by rw [h.offset_eq]; exact Nat.pos_of_ne_zero hpos)
    (by rw [h.offset_eq, h.currentLine_eq]; exact h.offset_le)
  rw [heq]
  refine ⟨h.lines_eq, h.currentLine_eq, h.offset_eq, h.offset_le, h.settled, ?_, rfl⟩
  intro row col hrow hcol
  have hcell := hcells row col hrow hcol
  rw [ScrollbackBuffer.viewed, h.lines_eq, h.currentLine_eq, h.offset_eq] at hcell
  exact hcell

theorem Browse.offset_le {max offset : Nat} (call : Browse) (h : offset ≤ max) :
    call.offset max offset ≤ max := by
  cases call with
  | up lines => exact min_le_right _ _
  | down lines => exact (Nat.sub_le _ _).trans h

theorem Screen.Viewing.browse (h : s.Viewing v s') (call : Browse) :
    s.Viewing (v.step (s.scrollback.currentLine - CONTENT_ROWS) call) (s'.browse call) := by
  have hoffset := call.offset_le h.offset_le
  have hscrolled := h.scrollTo hoffset
  rw [browse_eq, h.currentLine_eq, h.offset_eq, View.step]
  simp only
  generalize call.offset (s.scrollback.currentLine - CONTENT_ROWS) v.offset = offset at *
  by_cases hzero : offset = 0
  · -- back at the live view nothing is redrawn
    subst hzero
    rw [if_pos rfl, if_pos rfl]
    cases call with
    | up lines => exact hscrolled
    | down lines => exact hscrolled.status []
  · rw [if_neg hzero, if_neg hzero]
    exact (hscrolled.redraw hzero).status _

/-- The view is in the buffer. -/
def ScrollbackBuffer.InView (sb : ScrollbackBuffer) : Prop :=
  sb.scrollOffset ≤ sb.currentLine - CONTENT_ROWS

/-- Between two public calls there is nothing to commit, and the view is in the buffer. -/
structure Screen.Ready (s : Screen) : Prop where
  settled : s.deferredScrollLine = none
  inView : s.scrollback.InView

private theorem Screen.Ready.viewing (h : s.Ready) :
    s.Viewing ⟨s.scrollback.scrollOffset, none⟩ s :=
  ⟨rfl, rfl, rfl, h.inView, h.settled, fun _ _ _ _ => rfl, rfl⟩

theorem Screen.Viewing.ready (h : s.Viewing v s') : s'.Ready where
  settled := h.settled
  inView := by
    rw [ScrollbackBuffer.InView, h.offset_eq, h.currentLine_eq]
    exact h.offset_le

/-- A commit goes back to the live view, or there was nothing to commit. -/
private theorem commit_ready (h : s.scrollback.InView) : s.commitScrollback.Ready := by
  simp only [Screen.commitScrollback, Vga.commitScrollback]
  split
  case h_1 line _ =>
    refine ⟨rfl, ?_⟩
    change (s.scrollback.addLine line).InView
    rw [ScrollbackBuffer.InView, ScrollbackBuffer.addLine]
    simp only
    split <;> omega
  case h_2 hnone => exact ⟨hnone, h⟩

private theorem fillRow_scrollback (s : Screen) (row : Nat) (byte color : UInt8) (cols : Nat) :
    (s.fillRow row byte color cols).scrollback = s.scrollback := by
  obtain ⟨buffer, written, heq⟩ := s.fillRow_eq row byte color cols
  rw [heq]

private theorem drawText_scrollback (s : Screen) (row : Nat) (place : Nat → Nat) (color : UInt8)
    (text : List UInt8) :
    (s.drawText row place color text).scrollback = s.scrollback := by
  obtain ⟨buffer, written, heq⟩ := s.drawText_eq row place color text
  rw [heq]

private theorem newline_scrollback (s : Screen) : s.newline.scrollback = s.scrollback := by
  simp only [Screen.newline]
  split
  · rw [Screen.scroll, fillRow_scrollback]
  · rfl

private theorem writeByte_scrollback (s : Screen) (byte : UInt8) :
    (s.writeByte byte).scrollback = s.scrollback := by
  simp only [Screen.writeByte]
  split
  · exact newline_scrollback s
  · split
    · rfl
    · split
      · split
        · exact newline_scrollback _
        · rfl
      · split
        · exact newline_scrollback s
        · rfl

private theorem writeStr_scrollback (s : Screen) (text : List UInt8) :
    (s.writeStr text).scrollback = s.scrollback := by
  induction text generalizing s with
  | nil => rfl
  | cons byte text ih => exact (ih (s.writeByte byte)).trans (writeByte_scrollback s byte)

private theorem clear_scrollback (s : Screen) : s.clear.scrollback = s.scrollback := by
  simp only [Screen.clear]
  generalize List.range CONTENT_ROWS = rows
  induction rows generalizing s with
  | nil => rfl
  | cons row rows ih =>
    rw [List.foldl_cons, ih, fillRow_scrollback]

/-- No call leaves a view that is not in the buffer. -/
private theorem step_inView (h : s.scrollback.InView) (op : ScreenOp) :
    (s.step op).scrollback.InView := by
  cases op with
  | writeStr text => rwa [Screen.step, writeStr_scrollback]
  | newline => rwa [Screen.step, newline_scrollback]
  | clear => rwa [Screen.step, clear_scrollback]
  | setColor fg bg => exact h
  -- every public call ends in a commit, which keeps the view
  | commitScrollback => exact (commit_ready h).inView
  | setCursor row col =>
    apply Screen.Ready.inView
    apply commit_ready
    exact h
  | writeAt row col text =>
    apply Screen.Ready.inView
    apply commit_ready
    rwa [drawText_scrollback]
  | clearLine row =>
    apply Screen.Ready.inView
    apply commit_ready
    rwa [fillRow_scrollback]
  | statusLine text =>
    apply Screen.Ready.inView
    apply commit_ready
    simp only
    rwa [drawText_scrollback, fillRow_scrollback]
  | backspace =>
    apply Screen.Ready.inView
    apply commit_ready
    split
    · exact h
    · split <;> exact h

private theorem call_ready (h : s.Ready) (call : PublicCall) : (s.call call).Ready := by
  cases call with
  | draw op => exact commit_ready (step_inView h.inView op)
  | browse call => exact (h.viewing.browse call).ready

private theorem new_ready (buffer : Nat → UInt8) : (Screen.new buffer).Ready := ⟨rfl, Nat.zero_le _⟩

private theorem run_ready (h : s.Ready) (calls : List PublicCall) :
    (calls.foldl Screen.call s).Ready := by
  induction calls generalizing s with
  | nil => exact h
  | cons call calls ih => exact ih (call_ready h call)

theorem Screen.Viewing.run (h : s.Viewing v s') (calls : List Browse) :
    s.Viewing (calls.foldl (View.step (s.scrollback.currentLine - CONTENT_ROWS)) v)
      (calls.foldl Screen.browse s') := by
  induction calls generalizing v s' with
  | nil => exact h
  | cons call calls ih => exact ih (h.browse call)

/-- **Looking back**: from every state of a run on, and whatever calls scroll the display, the
    content rows and the writer are those of the last view that was drawn, or as they were if none
    was. -/
theorem browsing_shows (buffer : Nat → UInt8) (before : List PublicCall) (calls : List Browse) :
    let s := before.foldl Screen.call (.new buffer)
    s.Viewing (calls.foldl (View.step (s.scrollback.currentLine - CONTENT_ROWS))
      ⟨s.scrollback.scrollOffset, none⟩) (calls.foldl Screen.browse s) :=
  (run_ready (new_ready buffer) before).viewing.run calls

end RustKernel.Console
