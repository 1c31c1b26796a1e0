import RustKernel.Fs.RamFs
import RustKernel.Input.Keyboard
import RustKernel.Lib.Run

/-!
# RustKernel.Shell.Editor

The loop of the editor, one key event at a time. The cursor is a byte offset into the text, and the
row and the column that are shown are kept beside it.

`openEditor` puts the cursor at the end of the text, and no event moves it but with an edit: it
stays at the end, where an insertion always works. A removal takes one byte off the cursor.

## Main result

`no_panic_iff`: the editor never panics exactly when a Backspace only ever meets an ASCII character.
-/

namespace RustKernel.Editor

open Lib Lib.Text Ram
open Keyboard (KeyEvent Produced charOf)

/-! ### Lines and positions -/

def lineCount (s : List Char) : Nat := max (lines s).length 1

/-- The bytes of a line, and no bytes for a line that is not there. -/
def lineLen (s : List Char) (row : Nat) : Nat := ((lines s)[row]?.map byteLen).getD 0

/-- The loop of `offset_to_pos` from line `r`, which begins at offset `i`. -/
def offsetToPosFrom (offset : Nat) : List (List Char) → Nat → Nat → Option (Nat × Nat)
  | [], _, _ => none
  | line :: rest, r, i =>
    let lineBytes := byteLen line + 1
    if offset < i + lineBytes then some (r, offset - i)
    else offsetToPosFrom offset rest (r + 1) (i + lineBytes)

def offsetToPos (s : List Char) (offset : Nat) : Nat × Nat :=
  match offsetToPosFrom offset (lines s) 0 0 with
  | some pos => pos
  | none =>
    let rows := lineCount s
    (rows - 1, lineLen s (rows - 1))

/-! ### The loop -/

/-- The variables of `run`, the file system, whether the loop has ended and whether the notice about
    unsaved changes was printed then. -/
structure Session where
  fs : RamFs
  path : String
  buffer : List Char
  cursor : Nat
  row : Nat
  col : Nat
  dirty : Bool
  closed : Bool
  notice : Bool

/-- The text ends with a line feed, unless it is empty. -/
def endLine (text : List Char) : List Char :=
  if text.getLast? ≠ some '\n' ∧ text ≠ [] then text ++ ['\n'] else text

def loadText (fs : RamFs) (path : String) : List Char :=
  match fs.read path with
  | .ok data => endLine (decodeLossy data)
  | .error _ => endLine []

def openEditor (fs : RamFs) (path : String) : Session :=
  let buffer := loadText fs path
  { fs, path, buffer, cursor := byteLen buffer, row := 0, col := 0, dirty := false, closed := false
    notice := false }

namespace Session

def moveTo (s : Session) (row col : Nat) : Session := { s with row, col }

/-- What the three editing events do with the new text. -/
def edit (s : Session) (buffer : List Char) (cursor : Nat) : Session :=
  let pos := offsetToPos buffer cursor
  { s with buffer, cursor, dirty := true, row := pos.1, col := pos.2 }

/-- The result of the write is not looked at. -/
def save (s : Session) : Session :=
  let fs :=
    match s.fs.write s.path (bytes s.buffer) with
    | .ok fs => fs
    | .error _ => s.fs
  { s with fs, dirty := false }

def up (s : Session) : Session :=
  if 0 < s.row then s.moveTo (s.row - 1) (min s.col (lineLen s.buffer (s.row - 1))) else s

def down (s : Session) : Session :=
  if s.row + 1 < lineCount s.buffer then
    s.moveTo (s.row + 1) (min s.col (lineLen s.buffer (s.row + 1)))
  else s

def left (s : Session) : Session :=
  if 0 < s.col then s.moveTo s.row (s.col - 1)
  else if 0 < s.row then s.moveTo (s.row - 1) (lineLen s.buffer (s.row - 1))
  else s

def right (s : Session) : Session :=
  if s.col < lineLen s.buffer s.row then s.moveTo s.row (s.col + 1)
  else if s.row + 1 < lineCount s.buffer then s.moveTo (s.row + 1) 0
  else s

/-- `buffer.insert` at the cursor, which moves by one byte. -/
def insert (s : Session) (c : Char) : Option Session :=
  (insertAt s.buffer s.cursor c).map fun buffer => s.edit buffer (s.cursor + 1)

def backspace (s : Session) : Option Session :=
  if 0 < s.cursor then
    (removeAt s.buffer (s.cursor - 1)).map fun buffer => s.edit buffer (s.cursor - 1)
  else some s

/-- One turn of the loop, none if it panics. Behind the end of the loop nothing happens. -/
def step (s : Session) (ev : KeyEvent) : Option Session :=
  if s.closed then some s
  else
    match ev with
    | .escape => some { s with closed := true, notice := s.dirty }
    | .ctrl c => if c = 's' ∨ c = 'S' then some s.save else some s
    | .up => some s.up
    | .down => some s.down
    | .left => some s.left
    | .right => some s.right
    | .backspace => s.backspace
    | .enter => s.insert '\n'
    | .char c => s.insert (charOf c)
    | .pageUp => some s
    | .pageDown => some s

end Session

/-- The loop over events, for a session that may have panicked. -/
def turn (t : Option Session) (ev : KeyEvent) : Option Session := t.bind (·.step ev)

/-! ### What moving leaves alone -/

namespace Session

@[simp] theorem moveTo_buffer (s : Session) (row col : Nat) :
    (s.moveTo row col).buffer = s.buffer := rfl

@[simp] theorem moveTo_cursor (s : Session) (row col : Nat) :
    (s.moveTo row col).cursor = s.cursor := rfl

/-- The arrows change the row and the column only. -/
private theorem moves (s : Session) : ∀ t ∈ [s.up, s.down, s.left, s.right],
    ∃ row col, t = s.moveTo row col := by
  have hself : ∃ row col, s = s.moveTo row col := ⟨s.row, s.col, rfl⟩
  have hup : ∃ row col, s.up = s.moveTo row col := by
    unfold up
    split
    · exact ⟨_, _, rfl⟩
    · exact hself
  have hdown : ∃ row col, s.down = s.moveTo row col := by
    unfold down
    split
    · exact ⟨_, _, rfl⟩
    · exact hself
  have hleft : ∃ row col, s.left = s.moveTo row col := by
    unfold left
    split
    · exact ⟨_, _, rfl⟩
    split
    · exact ⟨_, _, rfl⟩
    · exact hself
  have hright : ∃ row col, s.right = s.moveTo row col := by
    unfold right
    split
    · exact ⟨_, _, rfl⟩
    split
    · exact ⟨_, _, rfl⟩
    · exact hself
  intro t ht
  simp only [List.mem_cons, List.not_mem_nil, or_false] at ht
  rcases ht with rfl | rfl | rfl | rfl <;> assumption

/-- While the loop runs, an event that is none of the three that edit moves, ends the loop, saves or
    does nothing. -/
theorem step_of_quiet {s : Session} (hopen : s.closed = false) {ev : KeyEvent}
    (henter : ev ≠ .enter) (hchar : ∀ c, ev ≠ .char c) (hbackspace : ev ≠ .backspace) :
    (∃ row col, s.step ev = some (s.moveTo row col)) ∨
      s.step ev = some { s with closed := true, notice := s.dirty } ∨
      ((ev = .ctrl 's' ∨ ev = .ctrl 'S') ∧ s.step ev = some s.save) := by
  -- the cursor may also stay where it is
  have hself : ∃ row col, some s = some (s.moveTo row col) := ⟨s.row, s.col, rfl⟩
  have hmoves : ∀ t ∈ [s.up, s.down, s.left, s.right],
      ∃ row col, some t = some (s.moveTo row col) := by
    intro t ht
    obtain ⟨row, col, rfl⟩ := s.moves t ht
    exact ⟨row, col, rfl⟩
  unfold step
  rw [hopen]
  cases ev with
  | up => exact .inl (hmoves _ (by simp))
  | down => exact .inl (hmoves _ (by simp))
  | left => exact .inl (hmoves _ (by simp))
  | right => exact .inl (hmoves _ (by simp))
  | escape => exact .inr (.inl rfl)
  | ctrl c =>
    simp only [Bool.false_eq_true, if_false]
    split
    case isTrue hc => exact .inr (.inr ⟨hc.imp (congrArg _) (congrArg _), rfl⟩)
    case isFalse => exact .inl hself
  | pageUp => exact .inl hself
  | pageDown => exact .inl hself
  | enter => exact absurd rfl henter
  | char c => exact absurd rfl (hchar c)
  | backspace => exact absurd rfl hbackspace

/-! ### The cursor stays at the end -/

def AtEnd (s : Session) : Prop := s.cursor = byteLen s.buffer

theorem insert_of_atEnd {s : Session} (h : s.AtEnd) (c : Char) :
    s.insert c = some (s.edit (s.buffer ++ [c]) (s.cursor + 1)) := by
  rw [insert, h, insertAt_end]
  rfl

/-- Behind a last character of one byte, Backspace removes it; behind a longer one, it panics. -/
theorem backspace_of_atEnd {s : Session} (h : s.AtEnd) {cs : List Char} {c : Char}
    (hbuffer : s.buffer = cs ++ [c]) :
    s.backspace = if c.utf8Size = 1 then some (s.edit cs (s.cursor - 1)) else none := by
  have hcursor : s.cursor = byteLen cs + c.utf8Size := by
    rw [AtEnd, hbuffer, byteLen_append] at h
    simpa using h
  have hpos := c.utf8Size_pos
  have hsub : s.cursor - 1 = byteLen cs + (c.utf8Size - 1) := by omega
  rw [backspace, if_pos (by omega), hbuffer, hsub, removeAt_last]
  by_cases hone : c.utf8Size = 1
  · simp [hone]
  · have hne : c.utf8Size - 1 ≠ 0 := by omega
    simp [hone, hne]

private theorem atEnd_edit (s : Session) {buffer : List Char} {cursor : Nat}
    (h : cursor = byteLen buffer) :
    (s.edit buffer cursor).AtEnd := h

end Session

private theorem atEnd_openEditor (fs : RamFs) (path : String) : (openEditor fs path).AtEnd := rfl

/-! ### Characters of the keyboard -/

/-- The character of an ASCII byte has one byte, and is that byte. -/
theorem charOf_ascii {c : UInt8} (h : c < 128) :
    (charOf c).utf8Size = 1 ∧ String.utf8EncodeChar (charOf c) = [c] := by
  have hall : ∀ n : Fin 128, (Char.ofNat n).utf8Size = 1 ∧
      String.utf8EncodeChar (Char.ofNat n) = [UInt8.ofNat n] := by
    decide +kernel
  have hn := hall ⟨c.toNat, h⟩
  rwa [UInt8.ofNat_toNat] at hn

/-- The driver produces ASCII characters only. -/
private theorem ascii_of_produced {c : UInt8} (h : Produced (.char c)) : c < 128 := by
  rcases h with ⟨sc, hsc⟩ | ⟨sc, k, hsc⟩
  · simp only [Keyboard.translateExtended] at hsc
    repeat (split at hsc; · cases hsc)
    cases hsc
  · simp only [Keyboard.translate] at hsc
    repeat (split at hsc; · cases hsc)
    obtain ⟨b, hb, hev⟩ := Option.map_eq_some_iff.mp hsc
    have hbc : b = c := by
      split at hev
      · cases hev
      · exact KeyEvent.char.inj hev
    subst hbc
    have htables : (Keyboard.UPPER ++ Keyboard.LOWER).all fun c => decide (c < 128) := by
      decide +kernel
    apply of_decide_eq_true
    apply List.all_eq_true.mp htables
    simp only [Keyboard.scancodeToAscii] at hb
    split at hb
    · cases hb
    · rename_i d hd
      obtain rfl : d = b := by
        split at hb
        · cases hb
        · exact Option.some.inj hb
      have hmem := List.mem_of_getElem? hd
      split at hmem
      · exact List.mem_append_left _ hmem
      · exact List.mem_append_right _ hmem

/-! ### Panics -/

/-- Before a Backspace, the character in front of the cursor has one byte. -/
def Removable (t : Option Session) (ev : KeyEvent) : Prop :=
  ∀ s, t = some s → s.closed = false → ev = .backspace → ∀ c ∈ s.buffer.getLast?, c.utf8Size = 1

/-- The loop has not panicked, and its cursor is at the end. -/
def Running (t : Option Session) : Prop := ∃ s, t = some s ∧ s.AtEnd

theorem turn_closed {s : Session} (h : s.closed = true) (ev : KeyEvent) :
    turn (some s) ev = some s := by
  simp [turn, Session.step, h]

/-- An event other than Backspace, and a Backspace that can remove, keeps the loop running. -/
private theorem running_turn {t : Option Session} {ev : KeyEvent} (h : Running t)
    (hev : Produced ev)
    (hok : Removable t ev) : Running (turn t ev) := by
  obtain ⟨s, rfl, hend⟩ := h
  have hcursor : s.cursor = byteLen s.buffer := hend
  cases hclosed : s.closed with
  | true =>
    rw [turn_closed hclosed]
    exact ⟨s, rfl, hend⟩
  | false =>
    have hinsert : ∀ c : Char, c.utf8Size = 1 → Running (s.insert c) := by
      intro c hc
      rw [Session.insert_of_atEnd hend]
      exact ⟨_, rfl, s.atEnd_edit (by simp [hcursor, hc])⟩
    rw [turn, Option.bind_some]
    by_cases henter : ev = .enter
    · subst henter
      have hstep : s.step .enter = s.insert '\n' := by simp [Session.step, hclosed]
      exact hstep ▸ hinsert _ (by decide)
    by_cases hchar : ∃ c, ev = .char c
    · obtain ⟨c, rfl⟩ := hchar
      have hstep : s.step (.char c) = s.insert (charOf c) := by simp [Session.step, hclosed]
      exact hstep ▸ hinsert _ (charOf_ascii (ascii_of_produced hev)).1
    by_cases hbackspace : ev = .backspace
    · subst hbackspace
      have hstep : s.step .backspace = s.backspace := by simp [Session.step, hclosed]
      rw [hstep]
      rcases List.eq_nil_or_concat s.buffer with hnil | ⟨cs, c, hcs⟩
      · have hzero : s.cursor = 0 := by rw [hcursor, hnil, byteLen_nil]
        rw [Session.backspace, hzero]
        exact ⟨s, rfl, hend⟩
      · rw [List.concat_eq_append] at hcs
        have hone : c.utf8Size = 1 := hok s rfl hclosed rfl c (by simp [hcs])
        rw [Session.backspace_of_atEnd hend hcs, if_pos hone]
        exact ⟨_, rfl, s.atEnd_edit (by simp [hcursor, hcs, hone])⟩
    · -- neither the text nor the cursor changes
      rcases s.step_of_quiet hclosed henter (not_exists.mp hchar) hbackspace with
        ⟨row, col, hstep⟩ | hstep | ⟨-, hstep⟩
      · exact ⟨_, hstep, hend⟩
      · exact ⟨_, hstep, hend⟩
      · exact ⟨_, hstep, hend⟩

/-- A Backspace behind a longer character panics. -/
private theorem panics_of_not_removable {t : Option Session} {ev : KeyEvent} (h : Running t)
    (hno : ¬Removable t ev) : turn t ev = none := by
  obtain ⟨s, rfl, hend⟩ := h
  simp only [Removable, not_forall] at hno
  obtain ⟨_, ⟨rfl⟩, hclosed, rfl, c, hc, hlong⟩ := hno
  obtain ⟨cs, hcs⟩ := List.getLast?_eq_some_iff.mp hc
  have hstep : s.step .backspace = s.backspace := by simp [Session.step, hclosed]
  rw [turn, Option.bind_some, hstep, Session.backspace_of_atEnd hend hcs, if_neg hlong]

/-- The editor never panics exactly when no Backspace meets a character of several bytes. -/
theorem no_panic_iff (fs : RamFs) (path : String) (events : List KeyEvent)
    (h : ∀ ev ∈ events, Produced ev) :
    (∀ t ∈ states turn (some (openEditor fs path)) events, t ≠ none) ↔
      ∀ p ∈ steps turn (some (openEditor fs path)) events, Removable p.1 p.2 := by
  refine guardedRun_iff_of_legal turn Running (· ≠ none) (fun _ ev => Produced ev) Removable
    ?_ ?_ ?_ _ events ⟨_, rfl, atEnd_openEditor fs path⟩ fun p hp => h _ (mem_of_mem_steps hp)
  · rintro _ ⟨s, rfl, -⟩
    simp
  · intro t ev hrun hev hok
    exact running_turn hrun hev hok
  · intro t ev hrun _ hno hne
    exact hne (panics_of_not_removable hrun hno)

/-- A file with the two bytes of `é`. -/
def accented : RamFs := ⟨fun key => if key = "f" then some [0xC3, 0xA9] else none⟩

private theorem produced_backspace : Produced .backspace := .inr ⟨0x0E, ⟨false, false, false⟩, rfl⟩

private theorem loadText_accented : loadText accented "f" = ['é', '\n'] := by decide +kernel

/-- The second Backspace in that file panics. -/
theorem accented_panics : (∀ ev ∈ [KeyEvent.backspace, .backspace], Produced ev) ∧
    none ∈ states turn (some (openEditor accented "f")) [.backspace, .backspace] := by
  refine ⟨by simpa using produced_backspace, ?_⟩
  have hsize : ('\n'.utf8Size = 1) ∧ 'é'.utf8Size = 2 := by decide
  have hcursor : (openEditor accented "f").cursor = 3 := by
    rw [openEditor, loadText_accented]
    rfl
  have hfirst : turn (some (openEditor accented "f")) .backspace =
      some ((openEditor accented "f").edit ['é'] 2) := by
    have htext : (openEditor accented "f").buffer = ['é'] ++ ['\n'] := loadText_accented
    have hremove := Session.backspace_of_atEnd (atEnd_openEditor accented "f") htext
    rw [if_pos hsize.1, hcursor] at hremove
    exact hremove
  have hsecond : turn (some ((openEditor accented "f").edit ['é'] 2)) .backspace = none := by
    have htext : ((openEditor accented "f").edit ['é'] 2).buffer = [] ++ ['é'] := rfl
    have hend : ((openEditor accented "f").edit ['é'] 2).AtEnd := by
      simp [Session.AtEnd, Session.edit, hsize]
    have hremove := Session.backspace_of_atEnd hend htext
    rw [if_neg (by simp [hsize])] at hremove
    exact hremove
  simp [states, hfirst, hsecond]

/-- With one Backspace, it does not. -/
theorem accented_runs : Produced .backspace ∧
    ∀ t ∈ states turn (some (openEditor accented "f")) [.backspace], t ≠ none := by
  refine ⟨produced_backspace, ?_⟩
  refine (no_panic_iff accented "f" [.backspace] (by simpa using produced_backspace)).mpr ?_
  intro p hp s hs _ _ c hc
  obtain rfl : p = (some (openEditor accented "f"), .backspace) := by simpa [steps] using hp
  obtain rfl := Option.some.inj hs
  have hlast : c = '\n' := by
    simpa [openEditor, loadText_accented] using hc.symm
  rw [hlast]
  decide

end RustKernel.Editor
