import RustKernel.Console.Scrollback

/-!
# RustKernel.Console.Addressing

Which line `get_line` shows. The rows are addressed by the number a line had when it was added, and
the ring holds the last `SCROLLBACK_LINES` lines, but the scroll limit counts every line ever added.

## Main result

- `addressed_iff`: in every state of a run each row shows the line it addresses, one that is still
  in the ring, exactly when every `scroll_up` keeps within the ring (`WithinRing`).

## Proof strategy

`History` pairs the buffer with the lines added so far. The invariant of a run within the ring is
`Scrolled.Kept`: the ring holds the last lines, and the offset is at most the number of lines above
the screen that are in the ring. A step that leaves the ring is seen in the top row at once: the line
it addresses has been overwritten by the one added `SCROLLBACK_LINES` later.
-/

namespace RustKernel.Console

open Lib

/-- The calls on a scrollback buffer. -/
inductive ScrollOp where
  | addLine (line : Line)
  | scrollUp (lines : Nat)
  | scrollDown (lines : Nat)

/-- The number of lines an operation scrolls by. -/
def ScrollOp.distance : ScrollOp → Nat
  | .addLine _ => 0
  | .scrollUp lines => lines
  | .scrollDown lines => lines

/-- The buffer, and every line passed to `add_line` so far. -/
structure History where
  buffer : ScrollbackBuffer
  log : List Line

def History.new : History := ⟨.new, []⟩

def History.step (s : History) : ScrollOp → History
  | .addLine line => ⟨s.buffer.addLine line, s.log ++ [line]⟩
  | .scrollUp lines => { s with buffer := s.buffer.scrollUp lines }
  | .scrollDown lines => { s with buffer := s.buffer.scrollDown lines }

/-- The number of the line that a row of the screen addresses. -/
def History.addressed (s : History) (row : Nat) : Nat :=
  s.buffer.currentLine - CONTENT_ROWS - s.buffer.scrollOffset + row

/-- A newer line was written to the cell of line `k`. -/
def History.Overwritten (s : History) (k : Nat) : Prop :=
  ∃ j, k < j ∧ j < s.log.length ∧ j % SCROLLBACK_LINES = k % SCROLLBACK_LINES

/-- What a row shows is the line it addresses, which has not been overwritten. -/
def History.Addressed (s : History) : Prop :=
  ∀ row < CONTENT_ROWS, ∀ line, s.buffer.getLine row = some line →
    s.log[s.addressed row]? = some line ∧ ¬s.Overwritten (s.addressed row)

/-- A `scroll_up` before the ring is full, or by no more than the lines above the screen that the
    ring holds. -/
def WithinRing (s : History) : ScrollOp → Prop
  | .scrollUp lines => s.buffer.currentLine ≤ SCROLLBACK_LINES ∨
      usizeAdd s.buffer.scrollOffset lines ≤ SCROLLBACK_LINES - CONTENT_ROWS
  | _ => True

/-! ### The invariant -/

/-- The ring holds the last lines, and the offset stays above the oldest of them. -/
structure History.Kept (s : History) : Prop where
  holds : s.buffer.Holds s.log
  offset_le : s.buffer.scrollOffset ≤ s.buffer.currentLine - CONTENT_ROWS
  within : s.buffer.scrollOffset ≤ SCROLLBACK_LINES - CONTENT_ROWS

/-- A line is overwritten when it is `SCROLLBACK_LINES` lines old. -/
private theorem History.overwritten_iff (s : History) (k : Nat) :
    s.Overwritten k ↔ k + SCROLLBACK_LINES < s.log.length := by
  constructor
  · rintro ⟨j, hlt, hlen, hcell⟩
    -- two numbers with the same remainder are `SCROLLBACK_LINES` apart
    have hapart : k + SCROLLBACK_LINES ≤ j := by
      have hdvd := (Nat.modEq_iff_dvd' hlt.le).mp (Nat.ModEq.symm hcell)
      have hle := Nat.le_of_dvd (by omega) hdvd
      omega
    omega
  · intro hold
    exact ⟨k + SCROLLBACK_LINES, Nat.lt_add_of_pos_right (by decide), hold, Nat.add_mod_right _ _⟩

theorem History.Kept.sound {s : History} (h : s.Kept) : s.Addressed := by
  intro row hrow line hline
  simp only [ScrollbackBuffer.getLine] at hline
  split at hline
  case isTrue => cases hline
  case isFalse hfull =>
    split at hline
    case isTrue => cases hline
    case isFalse hbelow =>
      have hlt : s.addressed row < s.log.length := by
        rw [History.addressed, ← h.holds.count]
        omega
      have hkept : s.log.length ≤ s.addressed row + SCROLLBACK_LINES := by
        have hwithin := h.within
        have hoffset := h.offset_le
        have hrows : SCROLLBACK_LINES - CONTENT_ROWS + CONTENT_ROWS = SCROLLBACK_LINES := rfl
        rw [History.addressed, ← h.holds.count]
        omega
      refine ⟨?_, ?_⟩
      · rw [h.holds.keeps.getElem? hlt hkept]
        exact hline
      · rw [History.overwritten_iff]
        omega

theorem History.Kept.new : History.new.Kept where
  holds := ⟨rfl, .nil _ _⟩
  offset_le := Nat.zero_le _
  within := Nat.zero_le _

theorem History.Kept.step {s : History} (h : s.Kept) (op : ScrollOp) (hop : WithinRing s op) :
    (s.step op).Kept := by
  cases op with
  | addLine line =>
    -- a new line resets the offset
    have hreset : (s.buffer.addLine line).scrollOffset = 0 := by
      show (if 0 < s.buffer.scrollOffset then 0 else s.buffer.scrollOffset) = 0
      split <;> omega
    exact ⟨h.holds.addLine line, hreset.trans_le (Nat.zero_le _), hreset.trans_le (Nat.zero_le _)⟩
  | scrollUp lines =>
    refine ⟨⟨h.holds.count, h.holds.keeps⟩, Nat.min_le_right _ _, ?_⟩
    rcases hop with hfew | hnear
    · exact (Nat.min_le_right _ _).trans (Nat.sub_le_sub_right hfew _)
    · exact (Nat.min_le_left _ _).trans hnear
  | scrollDown lines =>
    exact ⟨⟨h.holds.count, h.holds.keeps⟩, (Nat.sub_le _ _).trans h.offset_le,
      (Nat.sub_le _ _).trans h.within⟩

/-- Outside the ring the top row addresses a line that has been overwritten. -/
private theorem History.Kept.breaks {s : History} (h : s.Kept) (op : ScrollOp)
    (hop : ¬WithinRing s op) :
    ¬(s.step op).Addressed := by
  cases op with
  | addLine line => exact absurd trivial hop
  | scrollDown lines => exact absurd trivial hop
  | scrollUp lines =>
    obtain ⟨hmany, hfar⟩ := not_or.mp hop
    have hrows : CONTENT_ROWS = 24 := rfl
    have hlines : SCROLLBACK_LINES = 500 := rfl
    have hnew : (s.buffer.scrollUp lines).scrollOffset =
        min (usizeAdd s.buffer.scrollOffset lines) (s.buffer.currentLine - CONTENT_ROWS) := rfl
    have hcount : (s.buffer.scrollUp lines).currentLine = s.buffer.currentLine := rfl
    intro haddressed
    -- row 0 shows some line, but the one that belongs there has been overwritten
    have hshown : ∃ line, (s.buffer.scrollUp lines).getLine 0 = some line := by
      rw [ScrollbackBuffer.getLine, if_neg (by omega), if_neg (by omega)]
      exact ⟨_, rfl⟩
    obtain ⟨line, hline⟩ := hshown
    refine (haddressed 0 (by decide) line hline).2 ?_
    rw [History.overwritten_iff]
    show (s.buffer.scrollUp lines).currentLine - CONTENT_ROWS -
      (s.buffer.scrollUp lines).scrollOffset + 0 + SCROLLBACK_LINES < s.log.length
    rw [← h.holds.count]
    omega

/-! ### Runs -/

/-- In every state of a run the rows show the lines they address exactly when no `scroll_up` of the
    run leaves the ring. -/
theorem addressed_iff (ops : List ScrollOp) :
    (∀ t ∈ states History.step .new ops, t.Addressed) ↔
      ∀ p ∈ steps History.step .new ops, WithinRing p.1 p.2 :=
  guardedRun_iff History.step History.Kept History.Addressed (fun _ => True) WithinRing
    (fun _ h => h.sound) (fun _ op h _ hop => h.step op hop) (fun _ op h _ hop => h.breaks op hop)
    .new ops .new (fun _ _ => trivial)

/-- After 501 lines a `scroll_up` of 477 addresses the first line, which the last one overwrote. -/
theorem overwritten_line_shown : ¬∀ ops : List ScrollOp, (∀ op ∈ ops, op.distance ≤ 1000) →
    ∀ t ∈ states History.step .new ops, t.Addressed := by
  intro hall
  have hfilled : ((List.replicate 501 (.addLine [])).foldl History.step .new).Kept := by
    apply invariant_states History.step History.Kept WithinRing (fun _ op h hop => h.step op hop)
      .new _ .new _ _ (foldl_mem_states _ _ _)
    intro p hp
    rw [List.eq_of_mem_replicate (mem_of_mem_steps hp)]
    trivial
  have hcount : ((List.replicate 501 (.addLine [])).foldl History.step .new).buffer.currentLine =
      501 := by
    rw [hfilled.holds.count]
    decide +kernel
  have hbroken := hfilled.breaks (.scrollUp 477) (by
    rintro (hfew | hnear)
    · rw [hcount] at hfew
      exact absurd hfew (by decide)
    · have hwithin := hfilled.within
      have hrows : SCROLLBACK_LINES - CONTENT_ROWS = 476 := rfl
      rw [usizeAdd, hrows] at hnear
      omega)
  apply hbroken
  apply hall (List.replicate 501 (.addLine []) ++ [.scrollUp 477])
  · intro op hop
    rcases List.mem_append.mp hop with hline | hscroll
    · rw [List.eq_of_mem_replicate hline]
      exact Nat.zero_le _
    · rw [List.mem_singleton.mp hscroll]
      decide
  · have hlast := foldl_mem_states History.step .new
      (List.replicate 501 (.addLine []) ++ [.scrollUp 477])
    rw [List.foldl_append] at hlast
    exact hlast

end RustKernel.Console
