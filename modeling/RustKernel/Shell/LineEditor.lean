import RustKernel.Console.Browsing
import RustKernel.Fs.Directory
import RustKernel.Input.Keyboard
import RustKernel.Lib.Text
import RustKernel.Shell.History

/-!
# RustKernel.Shell.LineEditor

The command line of the shell: keys and bytes of the serial line edit it, the keys up and down load
it from the history, and a line break ends it.

## Main result

`line_displayed`: the editor does not panic, and as long as nothing else writes to the screen what
stands in front of the cursor is the prompt and the line that a line break would run. This goes
through wrapped lines, lines that scroll the screen and lines loaded from the history.

## Proof strategy

The screen is the window of a paper (`Console.Shows`), on which the prompt and the line stand in
cells one behind the other, from `base` on (`OnPaper`). A character that is typed is one more cell,
and a backspace one less. The window never passes `base`, since it has room for a full line.
-/

namespace RustKernel.Shell

open Lib Lib.Text Console Keyboard
open Fs (asBytes fromUtf8)

def PROMPT : String := "kernel> "

/-- The length of `line_buf`. -/
def LINE_LEN : Nat := 256

/-- `print!` -/
def print (s : Screen) (text : List UInt8) : Screen := (s.writeStr text).commitScrollback

/-- `print!` of `c as char` -/
def printChar (s : Screen) (c : UInt8) : Screen := print s (bytes [charOf c])

/-- What a command does: the calls of the console that it makes, and the rest of the kernel behind
    it. -/
abbrev Dispatch (σ : Type) : Type := String → Screen → σ → List ScreenOp × σ

/-- The variables of `run`, the screen, and the rest of the kernel. -/
structure LineEditor (σ : Type) where
  history : History
  line : List UInt8
  screen : Screen
  kernel : σ

/-- What the loop waits for. The drivers may print texts while the network is polled. -/
inductive Input where
  | key (ev : KeyEvent)
  | serial (byte : UInt8)
  | poll (texts : List (List UInt8))

namespace LineEditor

variable {σ : Type}

/-- A character, if there is room for it. -/
def put (sh : LineEditor σ) (c : UInt8) : LineEditor σ :=
  if sh.line.length < LINE_LEN then
    { sh with line := sh.line ++ [c], screen := printChar sh.screen c }
  else sh

def back (sh : LineEditor σ) : LineEditor σ :=
  if 0 < sh.line.length then
    { sh with line := sh.line.dropLast, screen := sh.screen.backspace }
  else sh

/-- A backspace on the screen for each byte of the line. -/
def erase (sh : LineEditor σ) : LineEditor σ :=
  { sh with line := [], screen := Nat.iterate Screen.backspace sh.line.length sh.screen }

def loadLine (sh : LineEditor σ) (s : String) : LineEditor σ := (asBytes s).foldl put sh.erase

/-- The characters that a command may have. -/
def isText (c : Char) : Bool :=
  let control := c.toNat < 0x20 ∨ (0x7F ≤ c.toNat ∧ c.toNat ≤ 0x9F)
  decide (c ≠ '\x00' ∧ (¬control ∨ c = '\n' ∨ c = '\t'))

/-- The next round of the outer loop. -/
def prompt (sh : LineEditor σ) : LineEditor σ :=
  { sh with line := [], screen := print sh.screen (asBytes PROMPT) }

/-- The end of a line, which is run if it is a command. -/
def endLine (dispatch : Dispatch σ) (sh : LineEditor σ) : LineEditor σ :=
  let trimmed := trim ((fromUtf8 sh.line).getD "").toList
  let sh :=
    if trimmed = [] then sh
    else if trimmed.all isText then
      let cmd := String.ofList trimmed
      let (ops, kernel) := dispatch cmd sh.screen sh.kernel
      { sh with
        history := sh.history.push cmd
        screen := ops.foldl Screen.step sh.screen
        kernel := kernel }
    else { sh with screen := print (print sh.screen (asBytes "Invalid input")) [10] }
  sh.prompt

/-- `^C` -/
def cancel (dispatch : Dispatch σ) (sh : LineEditor σ) : LineEditor σ :=
  let sh := sh.erase
  endLine dispatch { sh with screen := print (print sh.screen (asBytes "^C")) [10] }

/-- `println!()` and the end of the line. -/
def enter (dispatch : Dispatch σ) (sh : LineEditor σ) : LineEditor σ :=
  endLine dispatch { sh with screen := print sh.screen [10] }

/-- What a key does. -/
def key (dispatch : Dispatch σ) (sh : LineEditor σ) :
    KeyEvent → Checked (LineEditor σ)
  | .char c => .ok (sh.put c)
  | .backspace => .ok sh.back
  | .enter => .ok (sh.enter dispatch)
  | .up => do
    let (cmd, history) ← sh.history.prev
    let sh := { sh with history }
    .ok (match cmd with
      | some cmd => sh.loadLine cmd
      | none => sh)
  | .down => do
    let (cmd, history) ← sh.history.next
    let sh := { sh with history }
    .ok (match cmd with
      | some cmd => sh.loadLine cmd
      | none => sh.erase)
  | .pageUp => .ok { sh with screen := sh.screen.scrollDisplayUp 10 }
  | .pageDown => .ok { sh with screen := sh.screen.scrollDisplayDown 10 }
  | .ctrl c => .ok (if c = 'c' then sh.cancel dispatch else sh)
  | .left => .ok sh
  | .right => .ok sh
  | .escape => .ok sh

/-- What a byte of the serial line does. -/
def serial (dispatch : Dispatch σ) (sh : LineEditor σ) (byte : UInt8) :
    LineEditor σ :=
  if byte = 13 ∨ byte = 10 then sh.enter dispatch
  else if byte = 0x7F ∨ byte = 0x08 then sh.back
  else if byte = 0x03 then sh.cancel dispatch
  else if 0x20 ≤ byte ∧ byte ≤ 0x7E then sh.put byte
  else sh

def step (dispatch : Dispatch σ) (sh : LineEditor σ) :
    Input → Checked (LineEditor σ)
  | .key ev => sh.key dispatch ev
  | .serial byte => .ok (sh.serial dispatch byte)
  | .poll texts => .ok { sh with screen := texts.foldl print sh.screen }

/-- `run`, after some output of the boot. -/
def start (screen : Screen) (kernel : σ) : LineEditor σ :=
  prompt { history := .new, line := [], screen := screen, kernel := kernel }

end LineEditor

/-! ### What is displayed -/

/-- The cell `n` of the screen, row by row. -/
def cellNo (s : Screen) (n : Nat) : Cell := s.cellAt (n / WIDTH) (n % WIDTH)

/-- The number of the cell at the cursor. -/
def cursorNo (s : Screen) : Nat := s.writer.row * WIDTH + s.writer.col

/-- A text stands in front of the cursor. -/
def Displays (s : Screen) (text : List UInt8) : Prop :=
  text.length ≤ cursorNo s ∧
    ∀ i (hi : i < text.length), cellNo s (cursorNo s - text.length + i) =
      (text[i], s.writer.color)

/-- The input neither scrolls the display nor prints, and it is no tab. The keyboard sends the events
    of its table. -/
def Input.Plain : Input → Prop
  | .key ev => Produced ev ∧ ev ≠ .char 9 ∧ ev ≠ .pageUp ∧ ev ≠ .pageDown
  | .serial _ => True
  | .poll texts => texts = []

def Printable (b : UInt8) : Prop := 32 ≤ b ∧ b ≤ 126

instance : DecidablePred Printable := fun b => inferInstanceAs (Decidable (32 ≤ b ∧ b ≤ 126))

/-! ### The paper -/

/-- A text stands on the paper from the cell `base` on, up to the cursor, and the window begins
    above it. -/
structure OnPaper (t : Typed) (base : Nat) (text : List UInt8) : Prop where
  top_le : t.paper.top * WIDTH ≤ base
  pos_eq : t.paper.pos WIDTH = base + text.length
  cells : ∀ i (hi : i < text.length), t.paper.nth WIDTH (base + i) = (text[i], t.color)

variable {s s' : Screen} {t : Typed} {base : Nat} {text : List UInt8} {c : UInt8}

private theorem keyOf_printable (h : Printable c) (color : UInt8) :
    keyOf color c = .char (c, color) := by
  obtain ⟨hlow, hhigh⟩ := h
  have hall : ∀ n : Fin 256, 32 ≤ n.val → n.val ≤ 126 → (UInt8.ofNat n.val ≠ 10 ∧
      UInt8.ofNat n.val ≠ 13 ∧ UInt8.ofNat n.val ≠ 9 ∧ UInt8.ofNat n.val < 128 ∧
      UInt8.ofNat n.val ≠ 0x7F) := by
    decide +kernel
  obtain ⟨hline, hreturn, htab, hascii, hdelete⟩ := hall ⟨c.toNat, c.toNat_lt⟩ hlow hhigh
  simp only [UInt8.ofNat_toNat] at hline hreturn htab hascii hdelete
  rw [keyOf, if_neg hline, if_neg hreturn, if_neg htab, if_pos ⟨hascii, hdelete⟩]

private theorem bytes_printable (h : Printable c) : bytes [charOf c] = [c] := by
  obtain ⟨hlow, hhigh⟩ := h
  have hall : ∀ n : Fin 256, n.val ≤ 126 →
      bytes [charOf (UInt8.ofNat n.val)] = [UInt8.ofNat n.val] := by
    decide +kernel
  have hc := hall ⟨c.toNat, c.toNat_lt⟩ hhigh
  simpa only [UInt8.ofNat_toNat] using hc

/-- A character behind the text. The window has room for it and moves down by at most one line, so
    that it still begins above the text. -/
theorem OnPaper.put (h : OnPaper t base text) (hshows : Shows s t) (hc : Printable c)
    (hroom : text.length < (CONTENT_ROWS - 1) * WIDTH) :
    OnPaper (t.step (.writeStr [c])) base (text ++ [c]) := by
  have hwidth : WIDTH = 80 := rfl
  have hrows : CONTENT_ROWS = 24 := rfl
  have hrow : t.paper.row < CONTENT_ROWS := by
    rw [← hshows.window.row_eq]
    exact hshows.window.row_lt
  have hcol : t.paper.col ≤ WIDTH := by
    rw [← hshows.window.col_eq]
    exact hshows.window.col_le
  have hpaper : (t.step (.writeStr [c])).paper =
      t.paper.char CONTENT_ROWS WIDTH (c, t.color) := by
    simp only [Typed.step, List.map_cons, List.map_nil, keyOf_printable hc]
    rfl
  -- three things: no row of the text is lost, where it ends, and its characters
  have hpos := h.pos_eq
  refine ⟨?_, ?_, ?_⟩
  · have htop := h.top_le
    rw [hpaper]
    rcases Paper.top_char hrow hcol (c, t.color) with hsame | ⟨hmoved, hend⟩
    · rw [hsame]
      exact htop
    -- the paper scrolls only at its end, and the room says that the text is not yet that long
    · rw [hmoved]
      rw [hend] at hpos
      simp only [hwidth, hrows] at *
      omega
  · rw [hpaper, Paper.pos_char CONTENT_ROWS hcol, hpos, List.length_append]
    rfl
  · intro i hi
    rw [hpaper, Paper.nth_char CONTENT_ROWS (by decide) hcol, hpos]
    by_cases hlast : i = text.length
    · subst hlast
      rw [if_pos rfl]
      simp [Typed.step]
    · have hold : i < text.length := by
        rw [List.length_append, List.length_singleton] at hi
        omega
      rw [if_neg (by omega), h.cells i hold, List.getElem_append_left hold]
      rfl

/-- A text behind the text, character by character. -/
theorem OnPaper.type {typed : List UInt8} (h : OnPaper t base typed) (hshows : Shows s t)
    (htext : ∀ c ∈ text, Printable c)
    (hroom : typed.length + text.length ≤ (CONTENT_ROWS - 1) * WIDTH) :
    OnPaper (t.step (.writeStr text)) base (typed ++ text) := by
  induction text generalizing s t typed with
  | nil =>
    rw [List.append_nil]
    exact h
  | cons c text ih =>
    rw [List.length_cons] at hroom
    have hput := h.put hshows (htext c List.mem_cons_self) (by omega)
    have hrest := ih hput (step_shows hshows (.writeStr [c]))
      (fun b hb => htext b (List.mem_cons_of_mem _ hb))
      (by rw [List.length_append, List.length_singleton]; omega)
    rw [List.append_assoc, List.singleton_append] at hrest
    exact hrest

/-- A backspace takes the last character away, and is not at the top of the screen. -/
theorem OnPaper.back (h : OnPaper t base (text ++ [c])) (hshows : Shows s t) :
    OnPaper t.backspace base text := by
  have hwidth : WIDTH = 80 := rfl
  have hcol : t.paper.col ≤ WIDTH := by
    rw [← hshows.window.col_eq]
    exact hshows.window.col_le
  have htop := h.top_le
  have hpos := h.pos_eq
  rw [List.length_append, List.length_singleton, Paper.pos] at hpos
  -- the blank goes into the last cell of the text
  have hblank : ∀ row col, col < WIDTH → (t.paper.top + row) * WIDTH + col = base + text.length →
      OnPaper (t.blankAt row col) base text := by
    intro row col hin hat
    refine ⟨htop, hat, ?_⟩
    intro i hi
    have hset := Paper.nth_set row hin (32, t.color) (t.paper.moveTo row col) (base + i)
    have hne : base + i ≠ (t.paper.top + row) * WIDTH + col := by omega
    change (Paper.set row col (32, t.color) (t.paper.moveTo row col)).nth WIDTH (base + i) = _
    rw [hset]
    change (if base + i = (t.paper.top + row) * WIDTH + col then _ else
      t.paper.nth WIDTH (base + i)) = _
    rw [if_neg hne, h.cells i (by rw [List.length_append]; omega), List.getElem_append_left hi]
    rfl
  rw [Typed.backspace]
  split
  case isTrue hback =>
    apply hblank
    · omega
    · omega
  case isFalse hstart =>
    have hzero : t.paper.col = 0 := by omega
    split
    case isTrue hup =>
      apply hblank
      · decide
      · rw [hwidth] at *
        omega
    case isFalse htopmost =>
      -- the cursor would be in front of the text
      have hrow : t.paper.row = 0 := by omega
      rw [hzero, hrow, hwidth] at hpos
      rw [hwidth] at htop
      omega

private theorem print_shows (h : Shows s t) (text : List UInt8) :
    Shows (print s text) (t.step (.writeStr text)) :=
  step_shows (step_shows h (.writeStr text)) .commitScrollback

/-! ### The line on the screen -/

/-- The screen shows a paper on which the prompt and the line stand in front of the cursor. -/
def Shown (s : Screen) (line : List UInt8) : Prop :=
  ∃ t base, Shows s t ∧ OnPaper t base (asBytes PROMPT ++ line)

variable {line : List UInt8}

private theorem length_prompt : (asBytes PROMPT).length = 8 := rfl

/-- What stands on the paper is seen on the screen. -/
private theorem Shown.displays (h : Shown s line) : Displays s (asBytes PROMPT ++ line) := by
  obtain ⟨t, base, hshows, hpaper⟩ := h
  have hwidth : WIDTH = 80 := rfl
  have hrows : CONTENT_ROWS = 24 := rfl
  have htop := hpaper.top_le
  have hpos := hpaper.pos_eq
  have hrow := hshows.window.row_lt
  have hcol := hshows.window.col_le
  rw [Paper.pos, ← hshows.window.row_eq, ← hshows.window.col_eq, Nat.add_mul] at hpos
  have hcursor : cursorNo s + t.paper.top * WIDTH = base + (asBytes PROMPT ++ line).length := by
    rw [cursorNo]
    omega
  refine ⟨by omega, ?_⟩
  intro i hi
  have hcell := hpaper.cells i hi
  have hat : base + i =
      WIDTH * t.paper.top + (cursorNo s - (asBytes PROMPT ++ line).length + i) := by
    rw [Nat.mul_comm]
    omega
  have hlt : cursorNo s - (asBytes PROMPT ++ line).length + i < CONTENT_ROWS * WIDTH := by
    rw [cursorNo] at *
    simp only [hwidth, hrows] at *
    omega
  rw [hat, Paper.nth, Nat.mul_add_div (by decide), Nat.mul_add_mod] at hcell
  rw [cellNo, hshows.color, ← hcell]
  apply hshows.window.cells
  · exact Nat.div_lt_of_lt_mul (by rwa [Nat.mul_comm])
  · exact Nat.mod_lt _ (by decide)

/-- A character that is typed, with room for it in the line. -/
theorem Shown.put (h : Shown s line) (hc : Printable c) (hroom : line.length < LINE_LEN) :
    Shown (printChar s c) (line ++ [c]) := by
  obtain ⟨t, base, hshows, hpaper⟩ := h
  rw [printChar, bytes_printable hc]
  refine ⟨_, base, print_shows hshows [c], ?_⟩
  rw [← List.append_assoc]
  apply hpaper.put hshows hc
  have hlen : LINE_LEN = 256 := rfl
  have hwidth : WIDTH = 80 := rfl
  have hrows : CONTENT_ROWS = 24 := rfl
  rw [List.length_append, length_prompt, hwidth, hrows]
  omega

theorem Shown.back (h : Shown s (line ++ [c])) : Shown s.backspace line := by
  obtain ⟨t, base, hshows, hpaper⟩ := h
  rw [← List.append_assoc] at hpaper
  exact ⟨_, base, backspace_shows hshows, hpaper.back hshows⟩

/-- A backspace for each character leaves the prompt. -/
theorem Shown.erase (h : Shown s line) :
    Shown (Nat.iterate Screen.backspace line.length s) [] := by
  induction line using List.reverseRecOn generalizing s with
  | nil => exact h
  | append_singleton line c ih =>
    rw [List.length_append, List.length_singleton, Function.iterate_succ_apply]
    exact ih h.back

/-- The prompt, wherever the cursor is. -/
private theorem prompt_shown (h : Shows s t) : Shown (print s (asBytes PROMPT)) [] := by
  have hstart : OnPaper t (t.paper.pos WIDTH) [] :=
    ⟨Nat.le_trans (Nat.mul_le_mul_right _ (Nat.le_add_right _ _)) (Nat.le_add_right _ _), rfl,
      fun i hi => absurd hi (Nat.not_lt_zero i)⟩
  have hprompt : ∀ c ∈ asBytes PROMPT, Printable c := by
    have hall : (asBytes PROMPT).all fun c => decide (Printable c) := by decide +kernel
    intro c hc
    exact of_decide_eq_true (List.all_eq_true.mp hall c hc)
  have htyped := hstart.type h hprompt (by decide +kernel)
  refine ⟨_, t.paper.pos WIDTH, print_shows h _, ?_⟩
  rw [List.append_nil]
  exact htyped

/-! ### The invariant -/

/-- A selected command is in the history, and all commands are printable. -/
structure LineEditor.Ok {σ : Type} (sh : LineEditor σ) : Prop where
  shown : Shown sh.screen sh.line
  length_le : sh.line.length ≤ LINE_LEN
  printable : ∀ c ∈ sh.line, Printable c
  valid : sh.history.Valid
  items : ∀ cmd ∈ sh.history.items, ∀ c ∈ asBytes cmd, Printable c

namespace LineEditor

variable {σ : Type} {sh : LineEditor σ} {dispatch : Dispatch σ}

private theorem put_ok (h : sh.Ok) (hc : Printable c) : (sh.put c).Ok := by
  rw [put]
  split
  case isTrue hroom =>
    refine ⟨h.shown.put hc hroom, ?_, ?_, h.valid, h.items⟩
    · rw [List.length_append, List.length_singleton]
      exact hroom
    · intro b hb
      rcases List.mem_append.mp hb with hb | hb
      · exact h.printable b hb
      · rw [List.mem_singleton.mp hb]
        exact hc
  case isFalse => exact h

private theorem back_ok (h : sh.Ok) : sh.back.Ok := by
  rw [back]
  split
  case isTrue hpos =>
    have hne : sh.line ≠ [] := List.ne_nil_of_length_pos hpos
    have hshown := h.shown
    rw [← List.dropLast_append_getLast hne] at hshown
    refine ⟨hshown.back, ?_, ?_, h.valid, h.items⟩
    · rw [List.length_dropLast]
      exact (Nat.sub_le _ _).trans h.length_le
    · exact fun b hb => h.printable b (List.mem_of_mem_dropLast hb)
  case isFalse => exact h

private theorem erase_ok (h : sh.Ok) : sh.erase.Ok :=
  ⟨h.shown.erase, Nat.zero_le _, fun _ hb => absurd hb List.not_mem_nil, h.valid, h.items⟩

/-- Loading a command of the history. -/
private theorem loadLine_ok (h : sh.Ok) {cmd : String} (hcmd : ∀ c ∈ asBytes cmd, Printable c) :
    (sh.loadLine cmd).Ok := by
  rw [loadLine]
  have hstart := erase_ok h
  generalize sh.erase = sh' at *
  generalize asBytes cmd = text at *
  induction text generalizing sh' with
  | nil => exact hstart
  | cons c text ih =>
    exact ih _ (put_ok hstart (hcmd c List.mem_cons_self))
      fun b hb => hcmd b (List.mem_cons_of_mem _ hb)

/-! ### The end of a line -/

private theorem asBytes_ofList (cs : List Char) : asBytes (String.ofList cs) = bytes cs := by
  simp [asBytes, bytes, List.utf8Encode]

/-- The characters of a printable line are its bytes. -/
private theorem toList_fromUtf8 {line : List UInt8} (h : ∀ c ∈ line, Printable c) :
    ((fromUtf8 line).getD "").toList = line.map charOf := by
  have hbytes : asBytes (String.ofList (line.map charOf)) = line := by
    rw [asBytes_ofList]
    induction line with
    | nil => rfl
    | cons c line ih =>
      have hrest := ih fun b hb => h b (List.mem_cons_of_mem _ hb)
      rw [List.map_cons, ← List.singleton_append, bytes_append, hrest,
        bytes_printable (h c List.mem_cons_self), List.singleton_append]
  have hdecoded := Fs.fromUtf8_asBytes (String.ofList (line.map charOf))
  rw [hbytes] at hdecoded
  rw [hdecoded, Option.getD_some, String.toList_ofList]

private theorem mem_of_mem_trim {cs : List Char} {c : Char} (h : c ∈ trim cs) : c ∈ cs := by
  rw [trim, List.mem_reverse] at h
  have hback := (List.dropWhile_suffix isWhitespace).subset h
  rw [List.mem_reverse] at hback
  exact (List.dropWhile_suffix isWhitespace).subset hback

/-- A command is part of its line. -/
private theorem command_printable {line : List UInt8} (h : ∀ c ∈ line, Printable c) :
    ∀ c ∈ asBytes (String.ofList (trim ((fromUtf8 line).getD "").toList)), Printable c := by
  intro c hc
  rw [asBytes_ofList, toList_fromUtf8 h, bytes, List.mem_flatMap] at hc
  obtain ⟨ch, hch, hc⟩ := hc
  obtain ⟨b, hb, rfl⟩ := List.mem_map.mp (mem_of_mem_trim hch)
  have hencoded := bytes_printable (h b hb)
  rw [bytes, List.flatMap_singleton] at hencoded
  rw [hencoded, List.mem_singleton] at hc
  rw [hc]
  exact h b hb

/-- After a push nothing is selected. -/
private theorem push_valid (h : History) (cmd : String) : (h.push cmd).Valid := by
  have hindex : (h.push cmd).index = -1 := by
    rw [History.push]
    split
    · rfl
    · split <;> rfl
  constructor <;> omega

private theorem mem_items_push {h : History} {cmd s : String} (hs : s ∈ (h.push cmd).items) :
    s ∈ h.items ∨ s = cmd := by
  simp only [History.push] at hs
  split at hs
  · exact .inl hs
  · split at hs
    · exact .inl hs
    · have hmem : s ∈ h.items ++ [cmd] := by
        simp only at hs
        split at hs
        · exact List.mem_of_mem_drop hs
        · exact hs
      simpa using hmem

/-- A new prompt on a screen that shows a paper. -/
private theorem prompt_ok (hshows : ∃ t, Shows sh.screen t) (hvalid : sh.history.Valid)
    (hitems : ∀ cmd ∈ sh.history.items, ∀ c ∈ asBytes cmd, Printable c) : sh.prompt.Ok := by
  obtain ⟨t, hshows⟩ := hshows
  exact ⟨prompt_shown hshows, Nat.zero_le _, fun _ hb => absurd hb List.not_mem_nil, hvalid, hitems⟩

/-- Whatever a command does, the next prompt is shown. -/
private theorem endLine_ok (hshows : ∃ t, Shows sh.screen t) (hline : ∀ c ∈ sh.line, Printable c)
    (hvalid : sh.history.Valid)
    (hitems : ∀ cmd ∈ sh.history.items, ∀ c ∈ asBytes cmd, Printable c) :
    (sh.endLine dispatch).Ok := by
  have hcommand := command_printable hline
  simp only [endLine]
  generalize trim ((fromUtf8 sh.line).getD "").toList = trimmed at *
  apply prompt_ok
  · obtain ⟨t, hshows⟩ := hshows
    split
    · exact ⟨t, hshows⟩
    · split
      · dsimp only
        generalize (dispatch _ sh.screen sh.kernel).1 = ops
        generalize sh.screen = s at hshows ⊢
        -- the command may do anything to the screen, one public call after the other
        induction ops generalizing s t with
        | nil => exact ⟨t, hshows⟩
        | cons op ops ih => exact ih _ _ (step_shows hshows op)
      · exact ⟨_, print_shows (print_shows hshows _) _⟩
  · split
    · exact hvalid
    · split
      · exact push_valid sh.history _
      · exact hvalid
  · split
    · exact hitems
    · split
      · intro cmd hcmd
        rcases mem_items_push hcmd with hold | rfl
        · exact hitems cmd hold
        · exact hcommand
      · exact hitems

private theorem enter_ok (h : sh.Ok) : (sh.enter dispatch).Ok := by
  obtain ⟨t, -, hshows, -⟩ := h.shown
  exact endLine_ok ⟨_, print_shows hshows [10]⟩ h.printable h.valid h.items

private theorem cancel_ok (h : sh.Ok) : (sh.cancel dispatch).Ok := by
  have herased := erase_ok h
  obtain ⟨t, -, hshows, -⟩ := herased.shown
  exact endLine_ok ⟨_, print_shows (print_shows hshows _) [10]⟩ herased.printable herased.valid
    herased.items

/-! ### Keys -/

/-- Apart from backspace and enter, the keys send printable bytes and the tab. -/
private theorem printable_of_ascii (shift : Bool) : ∀ n < 256, n ≠ 0x0E → n ≠ 0x1C →
    (scancodeToAscii (UInt8.ofNat n) shift).all (fun b => b = 9 ∨ Printable b) := by
  cases shift <;> decide +kernel

/-- A key of the keyboard that sends a character sends a printable one, or a tab. -/
private theorem printable_of_produced {c : UInt8} (h : Produced (.char c)) (htab : c ≠ 9) :
    Printable c := by
  rcases h with ⟨sc, hsc⟩ | ⟨sc, k, hsc⟩
  -- an extended code gives no character; a plain one gives one of the two tables
  · simp only [translateExtended] at hsc
    repeat (split at hsc; · cases hsc)
    cases hsc
  · simp only [Keyboard.translate] at hsc
    split at hsc
    · cases hsc
    split at hsc
    · cases hsc
    split at hsc
    · cases hsc
    case isFalse hback =>
      split at hsc
      · cases hsc
      case isFalse henter =>
        split at hsc
        · cases hsc
        · obtain ⟨b, hb, hchar⟩ := Option.map_eq_some_iff.mp hsc
          split at hchar
          · cases hchar
          · obtain rfl := KeyEvent.char.inj hchar
            have hall := printable_of_ascii k.shift sc.toNat sc.toNat_lt
              (fun heq => hback (UInt8.toNat_inj.mp heq))
              (fun heq => henter (UInt8.toNat_inj.mp heq))
            rw [UInt8.ofNat_toNat, hb, Option.all_some] at hall
            have hprintable := of_decide_eq_true hall
            exact hprintable.resolve_left htab

private theorem key_ok (h : sh.Ok) {ev : KeyEvent} (hplain : (Input.key ev).Plain) :
    ∃ sh', sh.key dispatch ev = .ok sh' ∧ sh'.Ok := by
  obtain ⟨hproduced, htab, hup, hdown⟩ := hplain
  cases ev with
  | char c =>
    have hc := printable_of_produced hproduced fun heq => htab (congrArg KeyEvent.char heq)
    exact ⟨_, rfl, put_ok h hc⟩
  | backspace => exact ⟨_, rfl, back_ok h⟩
  | enter => exact ⟨_, rfl, enter_ok h⟩
  | up =>
    obtain ⟨cmd, history, hprev, hvalid, hitems, hmem⟩ := History.prev_ok h.valid
    -- only the place in the history has moved; then the line is replaced
    have hmoved : ({ sh with history } : LineEditor σ).Ok :=
      ⟨h.shown, h.length_le, h.printable, hvalid, hitems ▸ h.items⟩
    rw [key, hprev]
    refine ⟨_, rfl, ?_⟩
    cases cmd with
    | none => exact hmoved
    | some cmd => exact loadLine_ok hmoved (h.items cmd (hmem cmd rfl))
  | down =>
    obtain ⟨cmd, history, hnext, hvalid, hitems, hmem⟩ := History.next_ok h.valid
    have hmoved : ({ sh with history } : LineEditor σ).Ok :=
      ⟨h.shown, h.length_le, h.printable, hvalid, hitems ▸ h.items⟩
    rw [key, hnext]
    refine ⟨_, rfl, ?_⟩
    cases cmd with
    | none => exact erase_ok hmoved
    | some cmd => exact loadLine_ok hmoved (h.items cmd (hmem cmd rfl))
  | pageUp => exact absurd rfl hup
  | pageDown => exact absurd rfl hdown
  | ctrl c =>
    refine ⟨_, rfl, ?_⟩
    split
    · exact cancel_ok h
    · exact h
  | left => exact ⟨sh, rfl, h⟩
  | right => exact ⟨sh, rfl, h⟩
  | escape => exact ⟨sh, rfl, h⟩

/-- The serial line is filtered, so that every byte is fine. -/
private theorem serial_ok (h : sh.Ok) (byte : UInt8) : (sh.serial dispatch byte).Ok := by
  rw [serial]
  split
  · exact enter_ok h
  · split
    · exact back_ok h
    · split
      · exact cancel_ok h
      · split
        case isTrue hprintable => exact put_ok h hprintable
        case isFalse => exact h

private theorem step_ok (h : sh.Ok) {input : Input} (hplain : input.Plain) :
    ∃ sh', sh.step dispatch input = .ok sh' ∧ sh'.Ok := by
  cases input with
  | key ev => exact key_ok h hplain
  | serial byte => exact ⟨_, rfl, serial_ok h byte⟩
  | poll texts =>
    rw [Input.Plain] at hplain
    subst hplain
    exact ⟨sh, rfl, h⟩

end LineEditor

/-- Any output of the boot leaves a screen that shows a paper. -/
private theorem boot_shows (buffer : Nat → UInt8) (boot : List ScreenOp) :
    ∃ t, Shows (boot.foldl Screen.step (.new buffer)) t := by
  have hrun : ∀ s t, Shows s t → ∃ t, Shows (boot.foldl Screen.step s) t := by
    induction boot with
    | nil => exact fun s t h => ⟨t, h⟩
    | cons op boot ih => exact fun s t h => ih _ _ (step_shows h op)
  exact hrun _ _ (start_shows _ ⟨rfl, rfl⟩)

/-- **What you see is what is run**: after any output of the boot, any commands and any inputs that
    do not scroll the display, print or enter a tab, the editor has not panicked and the prompt and
    the line stand in front of the cursor. -/
theorem line_displayed {σ : Type} (dispatch : Dispatch σ)
    (buffer : Nat → UInt8) (boot : List ScreenOp) (kernel : σ) (inputs : List Input)
    (hplain : ∀ input ∈ inputs, input.Plain) :
    ∃ sh, inputs.foldlM (LineEditor.step dispatch)
        (.start (boot.foldl Screen.step (.new buffer)) kernel) = .ok sh ∧
      sh.line.length ≤ LINE_LEN ∧ Displays sh.screen (asBytes PROMPT ++ sh.line) := by
  have hnew : History.new.Valid := ⟨le_rfl, by decide⟩
  have hstart : (LineEditor.start (boot.foldl Screen.step (.new buffer)) kernel).Ok :=
    LineEditor.prompt_ok (boot_shows buffer boot) hnew
      fun _ hcmd => absurd hcmd List.not_mem_nil
  generalize LineEditor.start (boot.foldl Screen.step (.new buffer)) kernel = sh at *
  induction inputs generalizing sh with
  | nil => exact ⟨sh, rfl, hstart.length_le, hstart.shown.displays⟩
  | cons input inputs ih =>
    obtain ⟨sh', hstep, hok⟩ := LineEditor.step_ok hstart (hplain input List.mem_cons_self)
    rw [List.foldlM_cons, hstep]
    exact ih (fun i hi => hplain i (List.mem_cons_of_mem _ hi)) sh' hok

/-- A command that is typed and loaded again. -/
def typedTwice : List Input :=
  [.key (.char 0x6C), .key (.char 0x73), .key .enter, .serial 0x78, .key .backspace, .key .up]

theorem line_displayed_ls :
    ∃ sh, typedTwice.foldlM (LineEditor.step fun _ _ kernel => ([], kernel))
        (.start (([] : List ScreenOp).foldl Screen.step (.new fun _ => 0)) ()) = .ok sh ∧
      sh.line.length ≤ LINE_LEN ∧ Displays sh.screen (asBytes PROMPT ++ sh.line) :=
  line_displayed _ (fun _ => 0) [] () typedTwice (by
    have hup : Produced .up := .inl ⟨0x48, by decide⟩
    have hkey : ∀ sc ev, (Keyboard.translate sc ⟨false, false, false⟩).1 = some ev → Produced ev :=
      fun sc ev h => .inr ⟨sc, _, h⟩
    intro input hinput
    simp only [typedTwice, List.mem_cons, List.not_mem_nil, or_false] at hinput
    rcases hinput with rfl | rfl | rfl | rfl | rfl | rfl
    · exact ⟨hkey 0x26 _ (by decide), by decide, by decide, by decide⟩
    · exact ⟨hkey 0x1F _ (by decide), by decide, by decide, by decide⟩
    · exact ⟨hkey 0x1C _ (by decide), by decide, by decide, by decide⟩
    · trivial
    · exact ⟨hkey 0x0E _ (by decide), by decide, by decide, by decide⟩
    · exact ⟨hup, by decide, by decide, by decide⟩)

end RustKernel.Shell
