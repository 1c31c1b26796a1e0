import RustKernel.Shell.Editor
import Mathlib.Data.List.TakeWhile

/-!
# RustKernel.Shell.CursorPosition

The row and the column that the editor shows, against the position of its cursor.

The cursor is always at the end of the text. So the position shown is right only where it is that of
the end: not when a text is opened, not after the arrow to the left, and not behind a line feed at
the end, which `offset_to_pos` takes for a part of the line before.

## Main result

`shown_iff`: the position shown is right throughout a run exactly when the editor is opened without
a text and no event is an Enter, or an arrow to the left in a text.
-/

namespace RustKernel.Editor

open Lib Lib.Text Ram
open Keyboard (KeyEvent charOf)

/-- The position of a byte offset: the line feeds before it, and its distance from the last one. -/
def position (text : List UInt8) (offset : Nat) : Nat × Nat :=
  let before := text.take offset
  (before.count 0x0A, (before.reverse.takeWhile (· ≠ 0x0A)).length)

/-- The row and the column shown are the position of the cursor. -/
def Synced (t : Option Session) : Prop :=
  ∀ s, t = some s → (s.row, s.col) = position (bytes s.buffer) s.cursor

/-- The event keeps a cursor in the first line where it is: no line feed is typed, and there is
    nothing to the left. -/
def InPlace (t : Option Session) (ev : KeyEvent) : Prop :=
  ∀ s, t = some s → s.closed = false →
    ev ≠ .enter ∧ ev ≠ .char 0x0A ∧ (ev = .left → s.buffer = [])

/-- Only ASCII characters are typed. -/
def Ascii (ev : KeyEvent) : Prop := ∀ c, ev = .char c → c < 128

/-! ### A text in one line -/

/-- ASCII characters, none of which is a line feed. -/
def Plain (cs : List Char) : Prop :=
  ∀ c ∈ cs, ∃ b : UInt8, b < 128 ∧ b ≠ 0x0A ∧ c = charOf b

private theorem charOf_ne_newline {b : UInt8} (h : b < 128) (hb : b ≠ 0x0A) : charOf b ≠ '\n' := by
  intro heq
  have hbytes := (charOf_ascii h).2
  rw [heq] at hbytes
  have hnewline : String.utf8EncodeChar '\n' = [0x0A] := by decide
  rw [hnewline] at hbytes
  exact hb (List.cons.inj hbytes).1.symm

namespace Plain

variable {cs : List Char}

private theorem not_mem (h : Plain cs) : '\n' ∉ cs := by
  intro hmem
  obtain ⟨b, hb, hne, heq⟩ := h _ hmem
  exact charOf_ne_newline hb hne heq.symm

theorem not_mem_bytes (h : Plain cs) : 0x0A ∉ bytes cs := by
  intro hmem
  obtain ⟨c, hc, hb⟩ := List.mem_flatMap.mp hmem
  obtain ⟨b, hlt, hne, rfl⟩ := h c hc
  rw [(charOf_ascii hlt).2, List.mem_singleton] at hb
  exact hne hb.symm

theorem append (h : Plain cs) {b : UInt8} (hb : b < 128) (hne : b ≠ 0x0A) :
    Plain (cs ++ [charOf b]) := by
  intro c hc
  rcases List.mem_append.mp hc with hc | hc
  · exact h c hc
  · exact ⟨b, hb, hne, List.mem_singleton.mp hc⟩

private theorem of_append {ds : List Char} (h : Plain (cs ++ ds)) : Plain cs :=
  fun c hc => h c (List.mem_append_left _ hc)

/-- The end of a text in one line. -/
private theorem position_end (h : Plain cs) : position (bytes cs)
    (byteLen cs) = (0, byteLen cs) := by
  have hne : ∀ b ∈ (bytes cs).reverse, decide (b ≠ 0x0A) = true := by
    intro b hb
    have hmem : b ∈ bytes cs := List.mem_reverse.mp hb
    exact decide_eq_true fun heq => h.not_mem_bytes (heq ▸ hmem)
  rw [← length_bytes, position, List.take_length]
  simp only [List.count_eq_zero.mpr h.not_mem_bytes, List.takeWhile_eq_self_iff.mpr hne,
    List.length_reverse]

/-- `offset_to_pos` is right at the end of a text in one line. -/
private theorem offsetToPos_end (h : Plain cs) : offsetToPos cs (byteLen cs) = (0, byteLen cs) := by
  rw [offsetToPos, lines_of_not_mem h.not_mem]
  by_cases hnil : cs = []
  · subst hnil
    rfl
  · simp [hnil, offsetToPosFrom]

/-- Behind a line feed at the end, `offset_to_pos` stays in the line that it ends. -/
private theorem offsetToPos_newline (h : Plain cs) (offset : Nat) :
    (offsetToPos (cs ++ ['\n']) offset).1 = 0 := by
  simp only [offsetToPos, lineCount, lines_concat_newline h.not_mem, offsetToPosFrom]
  split
  · rename_i pos hpos
    split at hpos
    · obtain rfl := Option.some.inj hpos
      rfl
    · cases hpos
  · rfl

end Plain

/-- Behind a line feed, the row is not the first one. -/
private theorem position_newline (cs : List Char) :
    0 < (position (bytes (cs ++ ['\n'])) (byteLen (cs ++ ['\n']))).1 := by
  have hnewline : bytes ['\n'] = [0x0A] := by decide
  rw [← length_bytes, position, List.take_length, bytes_append, hnewline]
  simp

/-! ### Runs in the first line -/

/-- A text in one line, with the cursor and the position shown at its end. -/
structure FirstLine (s : Session) : Prop where
  plain : Plain s.buffer
  atEnd : s.AtEnd
  row : s.row = 0
  col : s.col = byteLen s.buffer

namespace FirstLine

variable {s : Session}

private theorem synced (h : FirstLine s) : Synced (some s) := by
  rintro _ ⟨rfl⟩
  have hcursor : s.cursor = byteLen s.buffer := h.atEnd
  rw [h.row, h.col, hcursor, h.plain.position_end]

theorem edit {cs : List Char} (h : Plain cs) {cursor : Nat} (hcursor : cursor = byteLen cs) :
    FirstLine (s.edit cs cursor) := by
  subst hcursor
  have hpos := h.offsetToPos_end
  exact ⟨h, rfl, by simp [Session.edit, hpos], by simp [Session.edit, hpos]⟩

private theorem lineCount_eq (h : FirstLine s) : lineCount s.buffer = 1 := by
  rw [lineCount, lines_of_not_mem h.plain.not_mem]
  split <;> rfl

private theorem lineLen_eq (h : FirstLine s) : lineLen s.buffer 0 = byteLen s.buffer := by
  rw [lineLen, lines_of_not_mem h.plain.not_mem]
  by_cases hnil : s.buffer = []
  · simp [hnil]
  · simp [hnil]

/-- At the end of the only line, three of the arrows have nowhere to go. -/
private theorem arrows (h : FirstLine s) : s.up = s ∧ s.down = s ∧ s.right = s := by
  have hcount := h.lineCount_eq
  have hlen := h.lineLen_eq
  refine ⟨?_, ?_, ?_⟩
  · simp [Session.up, h.row]
  · simp [Session.down, h.row, hcount]
  · simp [Session.right, h.row, h.col, hlen, hcount]

theorem backspace (h : FirstLine s) : ∃ t, s.backspace = some t ∧ FirstLine t := by
  have hcursor : s.cursor = byteLen s.buffer := h.atEnd
  rcases List.eq_nil_or_concat s.buffer with hnil | ⟨cs, c, hcs⟩
  · have hzero : s.cursor = 0 := by rw [hcursor, hnil, byteLen_nil]
    exact ⟨s, by rw [Session.backspace, hzero]; rfl, h⟩
  · rw [List.concat_eq_append] at hcs
    have hplain : Plain (cs ++ [c]) := hcs ▸ h.plain
    obtain ⟨b, hb, -, hc⟩ := hplain c (by simp)
    have hone : c.utf8Size = 1 := by rw [hc, (charOf_ascii hb).1]
    rw [Session.backspace_of_atEnd h.atEnd hcs, if_pos hone]
    exact ⟨_, rfl, edit hplain.of_append (by simp [hcursor, hcs, hone])⟩

end FirstLine

/-- The run goes on in the first line. -/
def InFirstLine (t : Option Session) : Prop := ∃ s, t = some s ∧ FirstLine s

private theorem inFirstLine_turn {t : Option Session} {ev : KeyEvent} (h : InFirstLine t)
    (hev : Ascii ev)
    (hplace : InPlace t ev) : InFirstLine (turn t ev) := by
  obtain ⟨s, rfl, hline⟩ := h
  cases hclosed : s.closed with
  | true =>
    rw [turn_closed hclosed]
    exact ⟨s, rfl, hline⟩
  | false =>
    obtain ⟨henter, hnewline, hleft⟩ := hplace s rfl hclosed
    obtain ⟨hup, hdown, hright⟩ := hline.arrows
    rw [turn, Option.bind_some]
    unfold Session.step
    rw [hclosed]
    cases ev with
    | up => exact ⟨s, congrArg some hup, hline⟩
    | down => exact ⟨s, congrArg some hdown, hline⟩
    | right => exact ⟨s, congrArg some hright, hline⟩
    | left =>
      -- without a text, the column is 0
      have hcol : s.col = 0 := by rw [hline.col, hleft rfl, byteLen_nil]
      have hstay : s.left = s := by simp [Session.left, hcol, hline.row]
      exact ⟨s, congrArg some hstay, hline⟩
    | enter => exact absurd rfl henter
    | char c =>
      have hc : c ≠ 0x0A := fun heq => hnewline (heq ▸ rfl)
      have hcursor : s.cursor = byteLen s.buffer := hline.atEnd
      have hsize := (charOf_ascii (hev c rfl)).1
      exact ⟨_, Session.insert_of_atEnd hline.atEnd _,
        FirstLine.edit (hline.plain.append (hev c rfl) hc) (by simp [hcursor, hsize])⟩
    | backspace =>
      obtain ⟨t, ht, hline'⟩ := hline.backspace
      exact ⟨t, ht, hline'⟩
    | ctrl c =>
      simp only [Bool.false_eq_true, if_false]
      split
      · exact ⟨_, rfl, ⟨hline.plain, hline.atEnd, hline.row, hline.col⟩⟩
      · exact ⟨s, rfl, hline⟩
    | escape => exact ⟨_, rfl, ⟨hline.plain, hline.atEnd, hline.row, hline.col⟩⟩
    | pageUp => exact ⟨s, rfl, hline⟩
    | pageDown => exact ⟨s, rfl, hline⟩

/-- A line feed at the end of the line puts the cursor into a line that is not shown. -/
private theorem not_synced_newline {s : Session} (h : FirstLine s) :
    ∃ t, s.insert '\n' = some t ∧ ¬Synced (some t) := by
  have hcursor : s.cursor = byteLen s.buffer := h.atEnd
  refine ⟨_, Session.insert_of_atEnd h.atEnd _, fun hsynced => ?_⟩
  have hsize : '\n'.utf8Size = 1 := by decide
  have hend : s.cursor + 1 = byteLen (s.buffer ++ ['\n']) := by simp [hcursor, hsize]
  have hpos := position_newline s.buffer
  have hrow := congrArg Prod.fst (hsynced _ rfl)
  simp only [Session.edit, h.plain.offsetToPos_newline, hend] at hrow
  omega

private theorem not_synced_turn {t : Option Session} {ev : KeyEvent} (h : InFirstLine t)
    (hno : ¬InPlace t ev) : ¬Synced (turn t ev) := by
  obtain ⟨s, rfl, hline⟩ := h
  simp only [InPlace, not_forall] at hno
  obtain ⟨_, ⟨rfl⟩, hclosed, hevent⟩ := hno
  obtain ⟨t, ht, hnot⟩ := not_synced_newline hline
  rw [turn, Option.bind_some]
  unfold Session.step
  rw [hclosed]
  -- Enter and a typed line feed are one insertion
  by_cases henter : ev = .enter
  · subst henter
    exact ht ▸ hnot
  by_cases hnewline : ev = .char 0x0A
  · subst hnewline
    have hchar : charOf 0x0A = '\n' := by decide
    change ¬Synced (s.insert (charOf 0x0A))
    rw [hchar]
    exact ht ▸ hnot
  · -- the arrow to the left, and a text to go left in
    have hleft : ev = .left ∧ s.buffer ≠ [] := by
      by_contra hcontra
      exact hevent ⟨henter, hnewline, fun heq => by_contra fun hne => hcontra ⟨heq, hne⟩⟩
    obtain ⟨rfl, hne⟩ := hleft
    have hpos : 0 < s.col := by
      rw [hline.col]
      exact Nat.pos_of_ne_zero fun hzero => hne (byteLen_eq_zero hzero)
    intro hsynced
    have hmoved : s.left = s.moveTo s.row (s.col - 1) := if_pos hpos
    have hcol := congrArg Prod.snd (hsynced s.left rfl)
    have hbefore := congrArg Prod.snd (hline.synced s rfl)
    rw [hmoved] at hcol
    simp only [Session.moveTo] at hcol hbefore
    omega

/-! ### Opening a text -/

private theorem endLine_eq_nil {text : List Char} : endLine text = [] ↔ text = [] := by
  unfold endLine
  split
  · rename_i h
    simp [h.2]
  · rfl

private theorem endLine_newline {text : List Char} (h : text ≠ []) :
    ∃ cs, endLine text = cs ++ ['\n'] := by
  unfold endLine
  split
  · exact ⟨text, rfl⟩
  · rename_i hlast
    have hnewline : text.getLast? = some '\n' := not_not.mp fun hne => hlast ⟨hne, h⟩
    exact List.getLast?_eq_some_iff.mp hnewline

private theorem loadText_eq_nil {fs : RamFs} {path : String} :
    loadText fs path = [] ↔ ∀ data, fs.read path = .ok data → data = [] := by
  unfold loadText
  cases fs.read path with
  | error e => simp [endLine_eq_nil]
  | ok data => simp [endLine_eq_nil, decodeLossy_eq_nil]

private theorem loadText_newline {fs : RamFs} {path : String} (h : loadText fs path ≠ []) :
    ∃ cs, loadText fs path = cs ++ ['\n'] := by
  unfold loadText at h ⊢
  cases hread : fs.read path with
  | error e => simp [hread, endLine_eq_nil] at h
  | ok data =>
    rw [hread] at h
    exact endLine_newline fun hnil => h (endLine_eq_nil.mpr hnil)

/-- Opened on a text, the editor shows the start while the cursor is at the end. -/
private theorem not_synced_openEditor {fs : RamFs} {path : String} (h : loadText fs path ≠ []) :
    ¬Synced (some (openEditor fs path)) := by
  intro hsynced
  obtain ⟨cs, hcs⟩ := loadText_newline h
  have hpos := position_newline cs
  have hrow := congrArg Prod.fst (hsynced _ rfl)
  simp only [openEditor, hcs] at hrow
  omega

/-- The position shown is that of the cursor, from the opening on and after every event, exactly
    when there is no text at the opening and every event leaves the cursor in its place. -/
theorem shown_iff (fs : RamFs) (path : String) (events : List KeyEvent)
    (h : ∀ ev ∈ events, Ascii ev) :
    (∀ t ∈ states turn (some (openEditor fs path)) events, Synced t) ↔
      (∀ data, fs.read path = .ok data → data = []) ∧
        ∀ p ∈ steps turn (some (openEditor fs path)) events, InPlace p.1 p.2 := by
  rw [← loadText_eq_nil]
  by_cases hnil : loadText fs path = []
  · have hstart : FirstLine (openEditor fs path) :=
      ⟨by simp [openEditor, hnil, Plain], rfl, rfl, by simp [openEditor, hnil]⟩
    rw [guardedRun_iff_of_legal turn InFirstLine Synced (fun _ ev => Ascii ev) InPlace ?_ ?_ ?_ _
      events ⟨_, rfl, hstart⟩ fun p hp => h _ (mem_of_mem_steps hp)]
    · simp [hnil]
    · rintro _ ⟨s, rfl, hline⟩
      exact hline.synced
    · intro t ev hline hev hplace
      exact inFirstLine_turn hline hev hplace
    · intro t ev hline _ hno
      exact not_synced_turn hline hno
  · refine iff_of_false (fun hall => ?_) fun hboth => hnil hboth.1
    have hfirst : some (openEditor fs path) ∈ states turn (some (openEditor fs path)) events := by
      cases events <;> exact List.mem_cons_self
    exact not_synced_openEditor hnil (hall _ hfirst)

/-- A file with one line. -/
def greeting : RamFs := ⟨fun key => if key = "f" then some [0x68, 0x69, 0x0A] else none⟩

/-- Opened on it, the editor shows the start of the file and edits at its end. -/
theorem greeting_not_synced : ¬∀ t ∈ states turn (some (openEditor greeting "f")) [], Synced t := by
  have htext : loadText greeting "f" ≠ [] := by decide +kernel
  intro hall
  exact not_synced_openEditor htext (hall _ List.mem_cons_self)

/-- A new file, in which one line is typed. -/
theorem typing_synced : loadText greeting "g" = [] ∧
    ∀ t ∈ states turn (some (openEditor greeting "g"))
      [.char 0x68, .char 0x6A, .backspace, .right, .char 0x69], Synced t := by
  have hnil : loadText greeting "g" = [] := by decide +kernel
  refine ⟨hnil, (shown_iff greeting "g" _ ?_).mpr ⟨loadText_eq_nil.mp hnil, ?_⟩⟩
  · intro ev hev c hc
    simp only [List.mem_cons, List.not_mem_nil, or_false] at hev
    subst hc
    rcases hev with hev | hev | hev | hev | hev <;> cases hev <;> decide
  · intro p hp s _ _
    have hev := mem_of_mem_steps hp
    simp only [List.mem_cons, List.not_mem_nil, or_false] at hev
    rcases hev with hev | hev | hev | hev | hev <;> simp [hev]

end RustKernel.Editor
