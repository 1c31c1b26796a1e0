import RustKernel.Console.Vga

/-!
# RustKernel.Console.Scrollback

Which lines reach the scrollback buffer. `scroll` keeps the line that leaves the screen in a single
slot, and the slot is committed once a call, so of all lines that a call scrolls off only the last
one is kept.

## Main results

- `scrollback_complete_iff`: the lines appended in a run are those that scrolled off exactly when
  every call moves the cursor past the last content row at most once (`ScrollsAtMostOnce`).
- `scrollback_keeps`: the buffer holds the last `SCROLLBACK_LINES` lines appended.

## Proof strategy

`writeFmt_scrolls` says what a call does, from the number of line breaks in its text: this is
followed byte by byte from `newline`. Both directions are then about one number, the lines that
scrolled off and were not appended: a call never lowers it and keeps it exactly under the guard.
-/

namespace RustKernel.Console

open Lib

/-! ### Line breaks of a text -/

/-- The column after a byte. -/
def nextCol (col : Nat) (byte : UInt8) : Nat :=
  if byte = 10 ∨ byte = 13 then 0
  else if byte = 9 then if (col + 8) / 8 * 8 ≥ WIDTH then 0 else (col + 8) / 8 * 8
  else if col ≥ WIDTH then 1 else col + 1

/-- Whether a byte at this column begins a new line. -/
def breaksLine (col : Nat) (byte : UInt8) : Bool :=
  if byte = 10 then true
  else if byte = 13 then false
  else if byte = 9 then (col + 8) / 8 * 8 ≥ WIDTH
  else col ≥ WIDTH

/-- The number of line breaks of a text that begins at a column. -/
def lineBreaks (col : Nat) : List UInt8 → Nat
  | [] => 0
  | byte :: bytes => (breaksLine col byte).toNat + lineBreaks (nextCol col byte) bytes

/-- The call moves the cursor past the last content row at most once. -/
def ScrollsAtMostOnce (c : Vga) (pieces : List (List UInt8)) : Prop :=
  c.writer.row + lineBreaks c.writer.col pieces.flatten ≤ CONTENT_ROWS

/-! ### What a call does -/

/-- From `c` to `c'` the lines `ls` scrolled off, and nothing was committed. -/
structure Scrolls (c c' : Vga) (ls : List Line) : Prop where
  scrolled_eq : c'.scrolled = c.scrolled ++ ls
  deferred_eq : c'.deferredScrollLine = ls.getLast?.or c.deferredScrollLine
  scrollback_eq : c'.scrollback = c.scrollback
  appended_eq : c'.appended = c.appended

theorem Scrolls.trans {c c' c'' : Vga} {ls ls' : List Line} (h : Scrolls c c' ls)
    (h' : Scrolls c' c'' ls') : Scrolls c c'' (ls ++ ls') where
  scrolled_eq := by rw [h'.scrolled_eq, h.scrolled_eq, List.append_assoc]
  deferred_eq := by
    rw [h'.deferred_eq, h.deferred_eq, List.getLast?_append]
    cases ls'.getLast? <;> rfl
  scrollback_eq := h'.scrollback_eq.trans h.scrollback_eq
  appended_eq := h'.appended_eq.trans h.appended_eq

/-- Drawing touches the video memory only. -/
theorem fillRow_eq (c : Vga) (row : Nat) (byte color : UInt8) (cols : Nat) :
    ∃ buffer, c.fillRow row byte color cols = { c with buffer := buffer } := by
  induction cols with
  | zero => exact ⟨c.buffer, rfl⟩
  | succ cols ih =>
    obtain ⟨buffer, hfill⟩ := ih
    rw [Vga.fillRow, hfill]
    exact ⟨_, rfl⟩

/-- The lines that leave the screen at `n` line breaks, and where the cursor goes: every break
    beyond the last content row scrolls. -/
structure Moves (c c' : Vga) (n col : Nat) : Prop where
  scrolls : ∃ ls, Scrolls c c' ls ∧ ls.length = c.writer.row + n - (CONTENT_ROWS - 1)
  row_eq : c'.writer.row = min (c.writer.row + n) (CONTENT_ROWS - 1)
  col_eq : c'.writer.col = col

/-- Another column, color or video memory. -/
private theorem moves_drawing {c : Vga} (hrow : c.writer.row < CONTENT_ROWS) (col : Nat)
    (color : UInt8)
    (buffer : Nat → UInt8) :
    Moves c { c with buffer := buffer, writer := ⟨c.writer.row, col, color⟩ } 0 col where
  scrolls := by
    refine ⟨[], ⟨(List.append_nil _).symm, rfl, rfl, rfl⟩, ?_⟩
    rw [List.length_nil]
    omega
  row_eq := by
    show c.writer.row = _
    omega
  col_eq := rfl

theorem Moves.row_lt {c c' : Vga} {n col : Nat} (h : Moves c c' n col) :
    c'.writer.row < CONTENT_ROWS := by
  have hrows : 0 < CONTENT_ROWS := by decide
  rw [h.row_eq]
  omega

theorem Moves.trans {c c' c'' : Vga} {n n' col col' : Nat} (h : Moves c c' n col)
    (h' : Moves c' c'' n' col') : Moves c c'' (n + n') col' where
  scrolls := by
    obtain ⟨ls, hls, hlen⟩ := h.scrolls
    obtain ⟨ls', hls', hlen'⟩ := h'.scrolls
    refine ⟨ls ++ ls', hls.trans hls', ?_⟩
    rw [List.length_append, hlen, hlen', h.row_eq]
    omega
  row_eq := by
    rw [h'.row_eq, h.row_eq]
    omega
  col_eq := h'.col_eq

theorem newline_moves (c : Vga) (hrow : c.writer.row < CONTENT_ROWS) : Moves c c.newline 1 0 := by
  rw [Vga.newline]
  split
  case isTrue hlast =>
    -- on the last content row the top line scrolls off
    have hlast : c.writer.row + 1 ≥ CONTENT_ROWS := hlast
    rw [Vga.scroll]
    obtain ⟨buffer, hfill⟩ := fillRow_eq _ (CONTENT_ROWS - 1) 32 (colorCode .lightGray .black) WIDTH
    rw [hfill]
    refine ⟨⟨[c.topLine], ⟨rfl, rfl, rfl, rfl⟩, ?_⟩, ?_, rfl⟩
    · rw [List.length_singleton]
      omega
    · show c.writer.row = _
      omega
  case isFalse hroom =>
    have hroom : ¬c.writer.row + 1 ≥ CONTENT_ROWS := hroom
    refine ⟨⟨[], ⟨(List.append_nil _).symm, rfl, rfl, rfl⟩, ?_⟩, ?_, rfl⟩
    · rw [List.length_nil]
      omega
    · show c.writer.row + 1 = _
      omega

theorem writeByte_moves (c : Vga) (byte : UInt8) (hrow : c.writer.row < CONTENT_ROWS) :
    Moves c (c.writeByte byte) (breaksLine c.writer.col byte).toNat
      (nextCol c.writer.col byte) := by
  rw [Vga.writeByte, breaksLine, nextCol]
  by_cases hnewline : byte = 10
  · rw [if_pos hnewline, if_pos hnewline, if_pos (.inl hnewline)]
    exact newline_moves c hrow
  rw [if_neg hnewline, if_neg hnewline]
  by_cases hreturn : byte = 13
  · rw [if_pos hreturn, if_pos hreturn, if_pos (.inr hreturn)]
    exact moves_drawing hrow 0 c.writer.color c.buffer
  rw [if_neg hreturn, if_neg hreturn, if_neg (not_or.mpr ⟨hnewline, hreturn⟩)]
  by_cases htab : byte = 9
  · rw [if_pos htab, if_pos htab, if_pos htab]
    have htabbed := moves_drawing hrow ((c.writer.col + 8) / 8 * 8) c.writer.color c.buffer
    show Moves c (if (c.writer.col + 8) / 8 * 8 ≥ WIDTH then _ else _) _ _
    by_cases hwrap : (c.writer.col + 8) / 8 * 8 ≥ WIDTH
    · rw [if_pos hwrap, if_pos hwrap, decide_eq_true hwrap]
      exact htabbed.trans (newline_moves _ hrow)
    · rw [if_neg hwrap, if_neg hwrap, decide_eq_false hwrap]
      exact htabbed
  rw [if_neg htab, if_neg htab, if_neg htab]
  by_cases hwrap : c.writer.col ≥ WIDTH
  · -- the character goes to the start of the next line
    have hline := newline_moves c hrow
    have hchar := fun buffer => hline.trans
      (moves_drawing hline.row_lt (c.newline.writer.col + 1) c.newline.writer.color buffer)
    simp only [if_pos hwrap, decide_eq_true hwrap]
    refine ⟨(hchar _).scrolls, (hchar _).row_eq, ?_⟩
    show c.newline.writer.col + 1 = 1
    rw [hline.col_eq]
  · simp only [if_neg hwrap, decide_eq_false hwrap]
    exact moves_drawing hrow (c.writer.col + 1) c.writer.color _

private theorem writeStr_moves (c : Vga) (s : List UInt8) (hrow : c.writer.row < CONTENT_ROWS) :
    ∃ col, Moves c (c.writeStr s) (lineBreaks c.writer.col s) col := by
  induction s generalizing c with
  | nil => exact ⟨c.writer.col, moves_drawing hrow c.writer.col c.writer.color c.buffer⟩
  | cons byte bytes ih =>
    have hbyte := writeByte_moves c byte hrow
    obtain ⟨col, hrest⟩ := ih _ hbyte.row_lt
    rw [hbyte.col_eq] at hrest
    exact ⟨col, hbyte.trans hrest⟩

/-- Between two calls the cursor is on a content row and the slot is empty. -/
structure Vga.Settled (c : Vga) : Prop where
  row_lt : c.writer.row < CONTENT_ROWS
  deferred_none : c.deferredScrollLine = none

/-- A call scrolls off the lines `ls` and appends the last one. -/
structure CallScrolls (c c' : Vga) (ls : List Line) : Prop where
  settled : c'.Settled
  scrolled_eq : c'.scrolled = c.scrolled ++ ls
  appended_eq : c'.appended = c.appended ++ ls.getLast?.toList
  scrollback_eq : c'.scrollback = ls.getLast?.toList.foldl ScrollbackBuffer.addLine c.scrollback

theorem writeFmt_scrolls {c : Vga} (h : c.Settled) (pieces : List (List UInt8)) :
    ∃ ls, CallScrolls c (c.writeFmt pieces) ls ∧
      ls.length = c.writer.row + lineBreaks c.writer.col pieces.flatten - (CONTENT_ROWS - 1) := by
  have hflat : pieces.foldl Vga.writeStr c = c.writeStr pieces.flatten := by
    rw [Vga.writeStr, List.foldl_flatten]
    rfl
  obtain ⟨col, hmoves⟩ := writeStr_moves c pieces.flatten h.row_lt
  obtain ⟨ls, hls, hlen⟩ := hmoves.scrolls
  refine ⟨ls, ?_, hlen⟩
  have hslot : (c.writeStr pieces.flatten).deferredScrollLine = ls.getLast? := by
    rw [hls.deferred_eq, h.deferred_none, Option.or_none]
  rw [Vga.writeFmt, hflat, Vga.commitScrollback, hslot]
  cases hlast : ls.getLast? with
  | none =>
    rw [hlast] at hslot
    refine ⟨⟨hmoves.row_lt, hslot⟩, hls.scrolled_eq, ?_, ?_⟩
    · simp [hls.appended_eq, hlast]
    · simp [hls.scrollback_eq, hlast]
  | some line =>
    refine ⟨⟨hmoves.row_lt, rfl⟩, hls.scrolled_eq, ?_, ?_⟩
    · simp [hls.appended_eq, hlast]
    · simp [hls.scrollback_eq, hlast]

/-! ### Runs -/

private theorem init_eq (buffer : Nat → UInt8) :
    ∃ drawn, Vga.init buffer = ⟨drawn, .new, none, .new, [], []⟩ := by
  have hclear : ∀ (rows : List Nat) (c : Vga), ∃ drawn,
      rows.foldl (fun c row => c.fillRow row 32 c.writer.color WIDTH) c =
        { c with buffer := drawn } := by
    intro rows
    induction rows with
    | nil => exact fun c => ⟨c.buffer, rfl⟩
    | cons row rows ih =>
      intro c
      obtain ⟨drawn, hfill⟩ := fillRow_eq c row 32 c.writer.color WIDTH
      rw [List.foldl_cons, hfill]
      exact ih _
  obtain ⟨drawn, hfill⟩ := hclear (List.range CONTENT_ROWS) ⟨buffer, .new, none, .new, [], []⟩
  rw [Vga.init, Vga.clear, hfill]
  exact ⟨drawn, rfl⟩

private theorem init_settled (buffer : Nat → UInt8) : (Vga.init buffer).Settled := by
  obtain ⟨drawn, hinit⟩ := init_eq buffer
  rw [hinit]
  exact ⟨show 0 < 24 by decide, rfl⟩

variable {c c' : Vga} {ls : List Line}

/-- Up to one line is appended as it scrolled off. -/
private theorem CallScrolls.complete (h : CallScrolls c c' ls) (heq : c.appended = c.scrolled)
    (hlen : ls.length ≤ 1) : c'.appended = c'.scrolled := by
  have hlast : ls.getLast?.toList = ls := by
    match ls, hlen with
    | [], _ => rfl
    | [line], _ => rfl
  rw [h.appended_eq, h.scrolled_eq, heq, hlast]

/-- The lines missing after a call: those missing before, and all but one of the call. -/
theorem CallScrolls.missing (h : CallScrolls c c' ls) {k : Nat}
    (hk : c.appended.length + k ≤ c.scrolled.length) :
    c'.appended.length + (k + (ls.length - 1)) ≤ c'.scrolled.length := by
  have hlast : ls.getLast?.toList.length = min ls.length 1 := by
    cases ls with
    | nil => rfl
    | cons line ls => simp [List.getLast?_cons]
  rw [h.appended_eq, h.scrolled_eq, List.length_append, List.length_append, hlast]
  omega

/-- What is missing stays missing. -/
private theorem run_missing (calls : List (List (List UInt8))) (h : c.Settled) {k : Nat}
    (hk : c.appended.length + k ≤ c.scrolled.length) :
    (calls.foldl Vga.writeFmt c).appended.length + k ≤
      (calls.foldl Vga.writeFmt c).scrolled.length := by
  induction calls generalizing c with
  | nil => exact hk
  | cons pieces calls ih =>
    obtain ⟨ls, hcall, -⟩ := writeFmt_scrolls h pieces
    apply ih hcall.settled
    have hmissing := hcall.missing hk
    omega

private theorem run_complete_iff (calls : List (List (List UInt8))) (h : c.Settled)
    (heq : c.appended = c.scrolled) :
    (calls.foldl Vga.writeFmt c).appended = (calls.foldl Vga.writeFmt c).scrolled ↔
      ∀ p ∈ steps Vga.writeFmt c calls, ScrollsAtMostOnce p.1 p.2 := by
  induction calls generalizing c with
  | nil => simp [steps, heq]
  | cons pieces calls ih =>
    obtain ⟨ls, hcall, hlen⟩ := writeFmt_scrolls h pieces
    have hrows : CONTENT_ROWS = 24 := rfl
    simp only [steps, List.mem_cons, forall_eq_or_imp, List.foldl_cons]
    by_cases honce : ScrollsAtMostOnce c pieces
    · have hle : ls.length ≤ 1 := by
        rw [ScrollsAtMostOnce] at honce
        omega
      rw [ih hcall.settled (hcall.complete heq hle)]
      exact (and_iff_right honce).symm
    · -- a line is lost in this call, and no later call appends it
      have hlost : 1 ≤ ls.length - 1 := by
        rw [ScrollsAtMostOnce] at honce
        omega
      have hmissing := hcall.missing (k := 0) (by rw [heq]; exact le_rfl)
      have hrun := run_missing calls hcall.settled
        (show (c.writeFmt pieces).appended.length + 1 ≤ _ by omega)
      constructor
      · intro hfinal
        rw [hfinal] at hrun
        omega
      · intro hguard
        exact absurd hguard.1 honce

/-! ### The scrollback buffer -/

/-- The buffer holds the last lines of a log, and counts them all. -/
structure ScrollbackBuffer.Holds (sb : ScrollbackBuffer) (log : List Line) : Prop where
  count : sb.currentLine = log.length
  keeps : Keeps sb.lines SCROLLBACK_LINES log

theorem ScrollbackBuffer.Holds.addLine {sb : ScrollbackBuffer} {log : List Line}
    (h : sb.Holds log) (line : Line) : (sb.addLine line).Holds (log ++ [line]) where
  count := by
    rw [List.length_append, ← h.count]
    rfl
  keeps := by
    have hpush := h.keeps.push (by decide) line
    rw [Keeps] at hpush ⊢
    rw [← hpush]
    apply ringRead_congr (by decide)
    intro i hi
    rw [ringWrite_singleton _ hi, ← h.count]
    rfl

/-- After every run the buffer holds the last `SCROLLBACK_LINES` lines appended. -/
theorem scrollback_keeps (buffer : Nat → UInt8) (calls : List (List (List UInt8))) :
    (calls.foldl Vga.writeFmt (.init buffer)).scrollback.Holds
      (calls.foldl Vga.writeFmt (.init buffer)).appended := by
  suffices hinv : (calls.foldl Vga.writeFmt (.init buffer)).Settled ∧
      (calls.foldl Vga.writeFmt (.init buffer)).scrollback.Holds
        (calls.foldl Vga.writeFmt (.init buffer)).appended from hinv.2
  apply invariant_after Vga.writeFmt (fun c => c.Settled ∧ c.scrollback.Holds c.appended)
  · rintro c pieces ⟨hsettled, hholds⟩
    obtain ⟨ls, hcall, -⟩ := writeFmt_scrolls hsettled pieces
    refine ⟨hcall.settled, ?_⟩
    rw [hcall.scrollback_eq, hcall.appended_eq]
    cases ls.getLast? with
    | none => simpa using hholds
    | some line => exact hholds.addLine line
  · refine ⟨init_settled buffer, ?_⟩
    obtain ⟨drawn, hinit⟩ := init_eq buffer
    rw [hinit]
    exact ⟨rfl, .nil _ _⟩

theorem scrollback_complete_iff (buffer : Nat → UInt8) (calls : List (List (List UInt8))) :
    (calls.foldl Vga.writeFmt (.init buffer)).appended =
        (calls.foldl Vga.writeFmt (.init buffer)).scrolled ↔
      ∀ p ∈ steps Vga.writeFmt (.init buffer) calls, ScrollsAtMostOnce p.1 p.2 := by
  obtain ⟨drawn, hinit⟩ := init_eq buffer
  apply run_complete_iff calls (init_settled buffer)
  rw [hinit]

/-- One call with two line breaks on the last content row loses the first of the two lines. -/
theorem two_scrolls_lose_a_line : ¬∀ (buffer : Nat → UInt8) (calls : List (List (List UInt8))),
    (calls.foldl Vga.writeFmt (.init buffer)).appended =
      (calls.foldl Vga.writeFmt (.init buffer)).scrolled := by
  intro hall
  have hlen := congrArg List.length (hall (fun _ => 0) [[List.replicate 25 10]])
  revert hlen
  decide +kernel

end RustKernel.Console
