import RustKernel.Shell.Editor

/-!
# RustKernel.Shell.Saving

What the `dirty` flag of the editor says about the file.

A run is watched from outside: `lastEdit` is the text as of the last edit since the editor was
opened. The flag is cleared by Ctrl+S whatever the write returns.

## Main result

`honest_iff`: a clear flag means, throughout a run, that the file has the text as of the last edit,
exactly when no edited text is saved under a name that the file system rejects.
-/

namespace RustKernel.Editor

open Lib Lib.Text Ram
open Keyboard (KeyEvent charOf)

/-- A session that may have panicked, and the bytes of its text as of the last edit. -/
structure Watched where
  session : Option Session
  lastEdit : Option (List UInt8)

/-- The event changes the text. -/
def Session.edits (s : Session) (ev : KeyEvent) : Bool :=
  !s.closed && match ev with
    | .enter => true
    | .char _ => true
    | .backspace => decide (0 < s.cursor)
    | .up | .down | .left | .right | .escape | .ctrl _ | .pageUp | .pageDown => false

def watch (w : Watched) (ev : KeyEvent) : Watched :=
  { session := turn w.session ev
    lastEdit :=
      if w.session.any (·.edits ev) then (turn w.session ev).map fun s => bytes s.buffer
      else w.lastEdit }

def watchOpened (fs : RamFs) (path : String) : Watched := ⟨some (openEditor fs path), none⟩

/-- The file has the text as of the last edit, if there was one. -/
def Saved (s : Session) (lastEdit : Option (List UInt8)) : Prop :=
  ∀ data, lastEdit = some data → s.fs.read s.path = .ok data

/-- While the flag is clear, and after an exit without the notice, the last edit is in the file. -/
def Honest (w : Watched) : Prop :=
  ∀ s, w.session = some s →
    (s.dirty = false → Saved s w.lastEdit) ∧
    (s.closed = true → s.notice = false → Saved s w.lastEdit)

def isSave (ev : KeyEvent) : Prop := ev = .ctrl 's' ∨ ev = .ctrl 'S'

/-- Where edited text is saved, the file system accepts the name. -/
def SaveAccepted (w : Watched) (ev : KeyEvent) : Prop :=
  ∀ s, w.session = some s → s.closed = false → isSave ev → w.lastEdit ≠ none →
    ∃ key, RamFs.normalize s.path = .ok key

/-- What the loop keeps: the text is that of the last edit, a clear flag is honest, and the notice
    is the flag at the exit. -/
structure Tracked (s : Session) (lastEdit : Option (List UInt8)) : Prop where
  current : ∀ data, lastEdit = some data → data = bytes s.buffer
  saved : s.dirty = false → Saved s lastEdit
  notice : s.closed = true → s.notice = s.dirty

def Watched.Ok (w : Watched) : Prop := ∀ s, w.session = some s → Tracked s w.lastEdit

theorem Watched.Ok.honest {w : Watched} (h : w.Ok) : Honest w := by
  intro s hs
  have htracked := h s hs
  exact ⟨htracked.saved, fun hclosed hnotice =>
    htracked.saved ((htracked.notice hclosed).symm.trans hnotice)⟩

private theorem ok_watchOpened (fs : RamFs) (path : String) : (watchOpened fs path).Ok := by
  rintro _ ⟨rfl⟩
  refine ⟨?_, ?_, ?_⟩ <;> simp [watchOpened, openEditor, Saved]

/-! ### The three kinds of events -/

/-- An event that edits sets the flag and the text. -/
theorem Session.step_of_edits {s t : Session} {ev : KeyEvent} (h : s.edits ev = true)
    (hstep : s.step ev = some t) : ∃ buffer cursor, t = s.edit buffer cursor := by
  obtain ⟨hopen, hev⟩ := Bool.and_eq_true_iff.mp h
  have hclosed : s.closed = false := by simpa using hopen
  have hinsert : ∀ c, s.insert c = some t → ∃ buffer cursor, t = s.edit buffer cursor := by
    intro c hc
    obtain ⟨buffer, -, rfl⟩ := Option.map_eq_some_iff.mp hc
    exact ⟨buffer, _, rfl⟩
  unfold Session.step at hstep
  rw [hclosed] at hstep
  cases ev with
  | enter => exact hinsert _ hstep
  | char c => exact hinsert _ hstep
  | backspace =>
    have hpos : 0 < s.cursor := of_decide_eq_true hev
    change s.backspace = some t at hstep
    rw [backspace, if_pos hpos] at hstep
    obtain ⟨buffer, -, rfl⟩ := Option.map_eq_some_iff.mp hstep
    exact ⟨buffer, _, rfl⟩
  | _ => cases hev

/-- Any other event moves, ends the loop, saves, or does nothing. -/
theorem Session.step_of_not_edits {s : Session} {ev : KeyEvent} (h : s.edits ev = false) :
    (∃ row col, s.step ev = some (s.moveTo row col)) ∨
      (s.closed = false ∧ s.step ev = some { s with closed := true, notice := s.dirty }) ∨
      (s.closed = false ∧ isSave ev ∧ s.step ev = some s.save) := by
  have hself : ∃ row col, some s = some (s.moveTo row col) := ⟨s.row, s.col, rfl⟩
  cases hclosed : s.closed with
  | true =>
    have hstep : s.step ev = some s := by simp [Session.step, hclosed]
    exact .inl (hstep ▸ hself)
  | false =>
    by_cases hbackspace : ev = .backspace
    · -- at the start of the text
      subst hbackspace
      have hzero : s.cursor = 0 := by simpa [edits, hclosed] using h
      have hstep : s.step .backspace = some s := by
        simp [Session.step, hclosed, backspace, hzero]
      exact .inl (hstep ▸ hself)
    · have henter : ev ≠ .enter := by
        rintro rfl
        simp [edits, hclosed] at h
      have hchar : ∀ c, ev ≠ .char c := by
        rintro c rfl
        simp [edits, hclosed] at h
      exact (s.step_of_quiet hclosed henter hchar hbackspace).imp_right
        (Or.imp (⟨rfl, ·⟩) (⟨rfl, ·⟩))

/-- A save under a name that is accepted writes the text; the flag is clear in any case. -/
private theorem Session.save_eq (s : Session) :
    (∃ fs, s.fs.write s.path (bytes s.buffer) = .ok fs ∧ s.save = { s with fs, dirty := false }) ∨
      (∃ e, RamFs.normalize s.path = .error e) ∧ s.save = { s with dirty := false } := by
  cases hname : RamFs.normalize s.path with
  | ok key =>
    refine .inl ⟨_, RamFs.write_eq hname _ _, ?_⟩
    simp [save, RamFs.write_eq hname]
  | error e =>
    refine .inr ⟨⟨e, rfl⟩, ?_⟩
    simp [save, RamFs.write_of_error hname]

/-! ### One turn -/

private theorem watch_of_edits {w : Watched} {s : Session} {ev : KeyEvent} (hs : w.session = some s)
    (h : s.edits ev = true) :
    watch w ev = ⟨s.step ev, (s.step ev).map fun t => bytes t.buffer⟩ := by
  simp [watch, hs, turn, h]

private theorem watch_of_not_edits {w : Watched} {s : Session} {ev : KeyEvent}
    (hs : w.session = some s)
    (h : s.edits ev = false) : watch w ev = ⟨s.step ev, w.lastEdit⟩ := by
  simp [watch, hs, turn, h]

private theorem watch_of_none {w : Watched} (hs : w.session = none) (ev : KeyEvent) :
    (watch w ev).session = none := by
  simp [watch, hs, turn]

private theorem ok_watch {w : Watched} {ev : KeyEvent} (h : w.Ok) (hsave : SaveAccepted w ev) :
    (watch w ev).Ok := by
  cases hs : w.session with
  | none =>
    intro t ht
    rw [watch_of_none hs] at ht
    cases ht
  | some s =>
    have htracked := h s hs
    cases hedits : s.edits ev with
    | true =>
      -- the flag is set, and nothing is said of the file
      rw [watch_of_edits hs hedits]
      intro t ht
      obtain ⟨buffer, cursor, rfl⟩ := Session.step_of_edits hedits ht
      have hopen : s.closed = false := by simpa using (Bool.and_eq_true_iff.mp hedits).1
      refine ⟨?_, ?_, ?_⟩
      · intro data hdata
        rw [show s.step ev = some (s.edit buffer cursor) from ht] at hdata
        exact (Option.some.inj hdata).symm
      · intro hdirty
        cases hdirty
      · intro hclosed
        exact absurd (hopen.symm.trans hclosed) (by decide)
    | false =>
      rw [watch_of_not_edits hs hedits]
      intro t ht
      rcases Session.step_of_not_edits hedits with ⟨row, col, hstep⟩ | ⟨-, hstep⟩ |
        ⟨hopen, hev, hstep⟩
      · obtain rfl := Option.some.inj (hstep.symm.trans ht)
        exact ⟨htracked.current, htracked.saved, htracked.notice⟩
      · obtain rfl := Option.some.inj (hstep.symm.trans ht)
        exact ⟨htracked.current, htracked.saved, fun _ => rfl⟩
      · obtain rfl := Option.some.inj (hstep.symm.trans ht)
        have hnever : s.closed ≠ true := by simp [hopen]
        rcases s.save_eq with ⟨fs, hwrite, heq⟩ | ⟨⟨e, hname⟩, heq⟩
        · rw [heq]
          refine ⟨htracked.current, ?_, fun hclosed => absurd hclosed hnever⟩
          intro _ data hdata
          rw [htracked.current data hdata]
          exact RamFs.read_of_write hwrite
        · -- the name is rejected, so nothing was edited
          rw [heq]
          refine ⟨htracked.current, ?_, fun hclosed => absurd hclosed hnever⟩
          intro _ data hdata
          obtain ⟨key, hkey⟩ := hsave s hs hopen hev (by rw [hdata]; simp)
          rw [hname] at hkey
          cases hkey

/-- A save of edited text under a name that is rejected clears the flag all the same. -/
private theorem not_honest_watch {w : Watched} {ev : KeyEvent} (hno : ¬SaveAccepted w ev) :
    ¬Honest (watch w ev) := by
  simp only [SaveAccepted, not_forall] at hno
  obtain ⟨s, hs, hopen, hev, hedited, hrejected⟩ := hno
  have hedits : s.edits ev = false := by
    rcases hev with rfl | rfl <;> simp [Session.edits]
  have hstep : s.step ev = some s.save := by
    rcases hev with rfl | rfl <;> simp [Session.step, hopen]
  obtain ⟨data, hdata⟩ := Option.ne_none_iff_exists'.mp hedited
  rw [watch_of_not_edits hs hedits, hstep]
  intro hhonest
  rcases s.save_eq with ⟨fs, hwrite, -⟩ | ⟨⟨e, hname⟩, heq⟩
  · cases hname : RamFs.normalize s.path with
    | ok key => exact hrejected ⟨key, hname⟩
    | error e =>
      rw [RamFs.write_of_error hname] at hwrite
      cases hwrite
  · rw [heq] at hhonest
    have hread := (hhonest _ rfl).1 rfl data hdata
    rw [RamFs.read_of_error hname] at hread
    cases hread

/-- The flag is honest throughout a run exactly when every save of edited text is under a name that
    the file system accepts. -/
theorem honest_iff (fs : RamFs) (path : String) (events : List KeyEvent) :
    (∀ w ∈ states watch (watchOpened fs path) events, Honest w) ↔
      ∀ p ∈ steps watch (watchOpened fs path) events, SaveAccepted p.1 p.2 := by
  refine guardedRun_iff watch Watched.Ok Honest (fun _ => True) SaveAccepted ?_ ?_ ?_ _ events
    (ok_watchOpened fs path) fun _ _ => trivial
  · intro w hok
    exact hok.honest
  · intro w ev hok _ hsave
    exact ok_watch hok hsave
  · intro w ev _ _ hno
    exact not_honest_watch hno

/-- A character is typed and saved under `a/b`: the flag is clear, and there is no such file. -/
theorem slash_not_honest : ¬∀ w ∈ states watch (watchOpened ⟨fun _ => none⟩ "a/b")
    [.char 0x78, .ctrl 's'], Honest w := by
  intro hall
  have hname : RamFs.normalize "a/b" = .error .invalidName := by decide +kernel
  have hread : ∀ fs : RamFs, fs.read "a/b" = .error .invalidName := RamFs.read_of_error hname
  have hempty : openEditor ⟨fun _ => none⟩ "a/b" =
      ⟨⟨fun _ => none⟩, "a/b", [], 0, 0, 0, false, false, false⟩ := by
    simp [openEditor, loadText, hread, endLine]
  have hchar : charOf 0x78 = 'x' := by decide
  have htyped : (openEditor ⟨fun _ => none⟩ "a/b").step (.char 0x78) =
      some ((openEditor ⟨fun _ => none⟩ "a/b").edit ['x'] 1) := by
    rw [hempty]
    simp [Session.step, Session.insert, insertAt, hchar]
  have hedits : (openEditor ⟨fun _ => none⟩ "a/b").edits (.char 0x78) = true := by
    rw [hempty]
    rfl
  have hfirst := watch_of_edits (w := watchOpened ⟨fun _ => none⟩ "a/b") rfl hedits
  rw [htyped] at hfirst
  -- the name is rejected when the edited text is saved
  have hreject : ¬SaveAccepted (watch (watchOpened ⟨fun _ => none⟩ "a/b") (.char 0x78))
      (.ctrl 's') := by
    rw [hfirst]
    intro hsave
    obtain ⟨key, hkey⟩ := hsave _ rfl rfl (.inl rfl) (by simp)
    rw [show RamFs.normalize "a/b" = .ok key from hkey] at hname
    cases hname
  exact not_honest_watch hreject (hall _ (by simp [states]))

end RustKernel.Editor
