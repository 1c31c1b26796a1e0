import RustKernel.Fs.DirectoryCalls
import RustKernel.Lib.Run

/-!
# RustKernel.Fs.DirectoryRuns

Runs of `dir_add_entry` and `dir_remove_entry` on one directory, and what `read_dir_inode` lists
after them.

A `DirState` carries, beside the drive and the directory's inode, the entries that should be
listed. Two things go wrong in the code. An entry at offset 0 has no predecessor to absorb it: it
dies in place, and the reader stops at it, before the entries that follow. A removed last entry
dies in place too; the next entry is appended after it, where the reader does not come.

## Main result

`directory_lists_iff`: the reader lists what it should after every call of the run exactly when
every call keeps to `DirState.Guarded`.

## Proof strategy

`guardedRun_iff_of_legal` with the invariant `DirState.Tracked`: the contents are records, those
before the first dead one are named apart and in UTF-8, and they are the entries expected.
-/

namespace RustKernel.Fs

open Lib

/-! ### The entries that should be listed -/

/-- The entry a record stands for. -/
def Record.entry (r : Record) : Listing := (r.text, r.inode, r.fileType)

/-- Entries other than `.` and `..`. -/
def Named (e : Listing) : Prop := e.1 ≠ "." ∧ e.1 ≠ ".."

instance (e : Listing) : Decidable (Named e) := inferInstanceAs (Decidable (_ ∧ _))

/-- The entries of a directory minus `.` and `..`. -/
def entries (rs : List Record) : List Listing := (rs.map Record.entry).filter (Named ·)

/-- The records before the first dead one. -/
def visible (rs : List Record) : List Record := rs.takeWhile Record.live

inductive DirEvent
  | add (name : String) (ino : UInt32) (fileType : UInt8)
  | remove (name : String)

/-- What a call makes of the entries. -/
def DirEvent.apply (expected : List Listing) : DirEvent → List Listing
  | .add name ino fileType => expected ++ [(name, ino, fileType)]
  | .remove name => expected.filter (·.1 ≠ name)

/-- A directory under calls: the drive, the inode in memory, and the entries expected. -/
structure DirState where
  drive : Drive
  inode : Inode
  expected : List Listing

namespace DirState

variable (fs : Ext3Fs)

/-- The call of an event: the updated inode and the drive. -/
def call (s : DirState) : DirEvent → Except Failure Inode × Drive
  | .add name ino fileType => (fs.dirAddEntry s.inode name ino fileType).exec s.drive
  | .remove name =>
    let (r, d) := (fs.dirRemoveEntry s.inode name).exec s.drive
    (r.map Prod.fst, d)

def step (s : DirState) (e : DirEvent) : DirState :=
  match s.call fs e with
  | (.ok inode, d) => ⟨d, inode, e.apply s.expected⟩
  | (.error _, d) => { s with drive := d }

/-- The call succeeds, and a name that is added is fresh and not `.` or `..`. -/
def Legal (s : DirState) (e : DirEvent) : Prop :=
  (s.call fs e).1.isOk = true ∧
  match e with
  | .add name _ _ => name ≠ "." ∧ name ≠ ".." ∧ ∀ x ∈ s.expected, x.1 ≠ name
  | .remove _ => True

instance (s : DirState) : (e : DirEvent) → Decidable (s.Legal fs e)
  | .add name _ _ => inferInstanceAs
      (Decidable (_ ∧ name ≠ "." ∧ name ≠ ".." ∧ ∀ x ∈ s.expected, x.1 ≠ name))
  | .remove _ => inferInstanceAs (Decidable (_ ∧ True))

/-- The contents of the directory are the records `rs`. -/
def Holds (s : DirState) (rs : List Record) : Prop :=
  fs.readFileInode s.drive s.inode = .ok (encode rs)

/-- An entry is added under a name of at most 255 bytes, with an inode number, and while no record
    is dead. An entry at offset 0 is removed only when no listed entry follows it. -/
def Guarded (s : DirState) : DirEvent → Prop
  | .add name ino _ =>
    name.utf8ByteSize < 256 ∧ ino ≠ 0 ∧ ∀ rs, s.Holds fs rs → ∀ r ∈ rs, r.live
  | .remove name =>
    ∀ r after, s.Holds fs (r :: after) → r.text = name →
      ∀ q ∈ visible after, q.text = "." ∨ q.text = ".."

/-- The reader lists the entries expected. -/
def Lists (s : DirState) : Prop := fs.readDirInode s.drive s.inode = .ok s.expected

instance (s : DirState) : Decidable (s.Lists fs) := inferInstanceAs (Decidable (_ = _))

/-- The invariant: the contents are records, and the visible ones are the entries expected. -/
structure Tracked (s : DirState) (rs : List Record) : Prop where
  volume : fs.Volume s.drive
  sound : fs.Sound s.drive s.inode
  holds : s.Holds fs rs
  utf8 : ∀ r ∈ visible rs, (fromUtf8 r.name).isSome
  names : ((visible rs).map Record.text).Nodup
  expected : s.expected = entries (visible rs)

end DirState

/-! ### Visible records -/

/-- A record after a dead one is not visible. -/
private theorem visible_append_of_dead {rs : List Record} (h : ¬∀ q ∈ rs, q.live)
    (ss : List Record) :
    visible (rs ++ ss) = visible rs := by
  rw [visible, List.takeWhile_append, if_neg]
  · rfl
  · intro hlen
    exact h (List.takeWhile_eq_self_iff.mp ((List.takeWhile_prefix _).eq_of_length hlen))

/-- The name that is listed for an added record has fewer than 256 bytes. -/
private theorem utf8ByteSize_newRecord (name : String) (ino : UInt32) (fileType : UInt8)
    (fits : 8 + name.utf8ByteSize + 3 < 2 ^ 16) :
    ((fromUtf8 (newRecord name ino fileType fits).name).getD "<invalid>").utf8ByteSize < 256 := by
  rcases hname : fromUtf8 (newRecord name ino fileType fits).name with _ | t
  · decide
  · have hbytes := congrArg List.length (asBytes_of_fromUtf8 hname)
    rw [length_asBytes] at hbytes
    rw [Option.getD_some, hbytes]
    exact (newRecord name ino fileType fits).name_lt

/-- Removing the entries of one name leaves those of the other records. -/
private theorem filter_entries (qs : List Record) (name : String) :
    (entries qs).filter (·.1 ≠ name) = entries (qs.filter (·.text ≠ name)) := by
  rw [entries, entries, List.filter_filter, List.filter_map, List.filter_map, List.filter_filter]
  congr 2
  funext r
  exact Bool.and_comm _ _

/-- The visible records around a located one. -/
private theorem visible_locate {name : String} {rs before after : List Record} {r : Record}
    (h : locate name rs = some (before, r, after)) :
    visible rs = before ++ r :: visible after := by
  obtain ⟨rfl, hr, -, hbefore⟩ := locate_some h
  rw [visible, List.takeWhile_append_of_pos fun q hq => (hbefore q hq).1,
    List.takeWhile_cons_of_pos hr]
  rfl

/-- The records that stay visible when the removed one is not in front of others. -/
private theorem Removed.visible_eq {before after rs' : List Record} {r : Record}
    (h : Removed before r after rs') (hbefore : ∀ q ∈ before, q.live) :
    (before = [] ∧ visible rs' = []) ∨
      (¬(before = [] ∧ after ≠ []) ∧
        (visible rs').map Record.entry = (before ++ visible after).map Record.entry ∧
        (visible rs').map Record.name = (before ++ visible after).map Record.name) := by
  cases h with
  | last =>
    right
    have hvis : visible (before ++ [r.dead]) = before := by
      rw [visible, List.takeWhile_append_of_pos hbefore, List.takeWhile_cons_of_neg (by simp),
        List.append_nil]
    rw [hvis]
    exact ⟨fun h => h.2 rfl, by simp [visible], by simp [visible]⟩
  | first => exact .inl ⟨rfl, by rw [visible, List.takeWhile_cons_of_neg (by simp)]⟩
  | middle before p _ _ _ fits =>
    right
    have hp : p.live = true := hbefore p (by simp)
    have hvis : visible (before ++ absorb p r fits :: after) =
        before ++ absorb p r fits :: visible after := by
      rw [visible, List.takeWhile_append_of_pos fun q hq => hbefore q (List.mem_append_left _ hq),
        List.takeWhile_cons_of_pos (by exact hp)]
      rfl
    rw [hvis]
    exact ⟨by simp, by simp [absorb, Record.entry, Record.text], by simp [absorb]⟩

/-! ### Listing -/

private theorem Record.listing_eq {r : Record} (h : (fromUtf8 r.name).isSome) :
    r.listing = if Named r.entry then some r.entry else none := by
  obtain ⟨s, hs⟩ := Option.isSome_iff_exists.mp h
  simp only [Record.listing, Record.entry, Record.text, Named, hs, Option.getD_some]

theorem listed_eq {rs : List Record} (h : ∀ r ∈ visible rs, (fromUtf8 r.name).isSome) :
    listed rs = entries (visible rs) := by
  have hfilter : ∀ qs : List Record, (∀ r ∈ qs, (fromUtf8 r.name).isSome) →
      qs.filterMap Record.listing = entries qs := by
    intro qs hqs
    induction qs with
    | nil => rfl
    | cons r qs ih =>
      obtain ⟨hr, hqs⟩ := List.forall_mem_cons.mp hqs
      have hrest := ih hqs
      rw [entries] at hrest ⊢
      rw [List.filterMap_cons, Record.listing_eq hr, List.map_cons, List.filter_cons]
      by_cases hnamed : Named r.entry
      · simp only [if_pos hnamed, decide_eq_true hnamed, if_true, hrest]
      · simp only [if_neg hnamed, decide_eq_false hnamed, hrest]
        rfl
  exact hfilter _ h

namespace DirState

variable {fs : Ext3Fs} {s : DirState} {rs : List Record}

private theorem Tracked.lists (h : s.Tracked fs rs) : s.Lists fs := by
  rw [Lists, Ext3Fs.readDirInode_encode h.volume.sized h.holds, listed_eq h.utf8, h.expected]

/-! ### One call -/

/-- A successful `dir_add_entry`. -/
private theorem step_add (h : s.Tracked fs rs) {name : String} {ino : UInt32} {fileType : UInt8}
    (hlegal : s.Legal fs (.add name ino fileType)) :
    ∃ fits, fs.Volume (s.step fs (.add name ino fileType)).drive ∧
      fs.Sound (s.step fs (.add name ino fileType)).drive
        (s.step fs (.add name ino fileType)).inode ∧
      (s.step fs (.add name ino fileType)).Holds fs (rs ++ [newRecord name ino fileType fits]) ∧
      (s.step fs (.add name ino fileType)).expected = s.expected ++ [(name, ino, fileType)] := by
  obtain ⟨hok, -⟩ := hlegal
  rcases hcall : s.call fs (.add name ino fileType) with ⟨_ | inode', d'⟩
  · rw [hcall] at hok
    cases hok
  obtain ⟨fits, hgrow, hwrite⟩ :=
    (Ext3Fs.dirAddEntry_ends h.volume h.sound h.holds name ino fileType).ok hcall
  obtain ⟨hv, hs⟩ := hwrite.sound h.volume h.sound hgrow
  refine ⟨fits, ?_⟩
  rw [step, hcall]
  exact ⟨hv, hs, hwrite.contents, rfl⟩

/-- A successful `dir_remove_entry`. -/
private theorem step_remove (h : s.Tracked fs rs) {name : String}
    (hlegal : s.Legal fs (.remove name)) :
    ∃ before r after rs', locate name rs = some (before, r, after) ∧ Removed before r after rs' ∧
      fs.Volume (s.step fs (.remove name)).drive ∧
      fs.Sound (s.step fs (.remove name)).drive (s.step fs (.remove name)).inode ∧
      (s.step fs (.remove name)).Holds fs rs' ∧
      (s.step fs (.remove name)).expected = s.expected.filter (·.1 ≠ name) := by
  obtain ⟨hok, -⟩ := hlegal
  rcases hcall : (fs.dirRemoveEntry s.inode name).exec s.drive with ⟨_ | ⟨inode'', ino⟩, d'⟩
  · rw [call, hcall] at hok
    cases hok
  obtain ⟨before, r, after, rs', hloc, -, hremoved, hgrow, hwrite⟩ :=
    (Ext3Fs.dirRemoveEntry_ends h.volume h.sound h.holds name).ok hcall
  obtain ⟨hv, hs⟩ := hwrite.sound h.volume h.sound hgrow
  refine ⟨before, r, after, rs', hloc, hremoved, ?_⟩
  rw [step, call, hcall]
  exact ⟨hv, hs, hwrite.contents, rfl⟩

/-- After a call the reader lists the visible records. -/
private theorem lists_iff (hv : fs.Volume s.drive) (hs : s.Holds fs rs) :
    s.Lists fs ↔ listed rs = s.expected := by
  rw [Lists, Ext3Fs.readDirInode_encode hv.sized hs, Except.ok.injEq]

/-! ### Adding -/

private theorem Tracked.keep_add (h : s.Tracked fs rs) {name : String} {ino : UInt32}
    {fileType : UInt8}
    (hlegal : s.Legal fs (.add name ino fileType))
    (hguard : s.Guarded fs (.add name ino fileType)) :
    ∃ rs', (s.step fs (.add name ino fileType)).Tracked fs rs' := by
  obtain ⟨fits, hv, hs, hholds, hexp⟩ := step_add h hlegal
  obtain ⟨-, hdot, hdots, hfresh⟩ := hlegal
  obtain ⟨hlen, hino, hall⟩ := hguard
  have hlive := hall rs h.holds
  set r := newRecord name ino fileType fits with hr
  have hname : r.name = asBytes name := newRecord_name hlen
  have hutf8 : fromUtf8 r.name = some name := by rw [hname, fromUtf8_asBytes]
  have htext : r.text = name := by rw [Record.text, hutf8, Option.getD_some]
  have hentry : r.entry = (name, ino, fileType) := by
    rw [Record.entry, htext]
    rfl
  -- no dead record hides the ones behind it, before and after
  have hvis : visible rs = rs := List.takeWhile_eq_self_iff.mpr hlive
  have hvis' : visible (rs ++ [r]) = rs ++ [r] := by
    refine List.takeWhile_eq_self_iff.mpr fun q hq => ?_
    rcases List.mem_append.mp hq with hq | hq
    · exact hlive q hq
    · rw [List.mem_singleton.mp hq]
      simpa [Record.live, hr, newRecord] using hino
  refine ⟨rs ++ [r], hv, hs, hholds, ?_, ?_, ?_⟩
  · rw [hvis']
    intro q hq
    rcases List.mem_append.mp hq with hq | hq
    · exact h.utf8 q (hvis.symm ▸ hq)
    · rw [List.mem_singleton.mp hq, hutf8]
      rfl
  · have hnames := h.names
    rw [hvis] at hnames
    rw [hvis', List.map_append, List.map_singleton, htext, List.nodup_append]
    refine ⟨hnames, List.nodup_singleton _, fun t ht u hu => ?_⟩
    rw [List.mem_singleton.mp hu]
    rintro rfl
    obtain ⟨q, hq, hqt⟩ := List.mem_map.mp ht
    -- a record of the same name would be an entry of that name
    refine hfresh q.entry ?_ hqt
    rw [h.expected, entries, hvis]
    refine List.mem_filter.mpr ⟨List.mem_map_of_mem hq, decide_eq_true ⟨?_, ?_⟩⟩
    · exact fun h => hdot (hqt.symm.trans h)
    · exact fun h => hdots (hqt.symm.trans h)
  · rw [hexp, h.expected, hvis, hvis', entries, entries, List.map_append, List.filter_append,
      List.map_singleton, hentry, List.filter_singleton]
    rw [decide_eq_true (show Named (name, ino, fileType) from ⟨hdot, hdots⟩)]
    rfl

/-- Outside the guard the added entry is not listed. -/
private theorem Tracked.break_add (h : s.Tracked fs rs) {name : String} {ino : UInt32}
    {fileType : UInt8}
    (hlegal : s.Legal fs (.add name ino fileType))
    (hguard : ¬s.Guarded fs (.add name ino fileType)) :
    ¬(s.step fs (.add name ino fileType)).Lists fs := by
  obtain ⟨fits, hv, -, hholds, hexp⟩ := step_add h hlegal
  rw [lists_iff hv hholds, hexp, h.expected, ← listed_eq h.utf8]
  by_cases hlive : ∀ q ∈ rs, q.live
  case neg =>
    have hhidden : listed (rs ++ [newRecord name ino fileType fits]) = listed rs :=
      congrArg (List.filterMap Record.listing) (visible_append_of_dead hlive _)
    rw [hhidden]
    simp
  have hlist : listed (rs ++ [newRecord name ino fileType fits]) =
      listed rs ++ listed [newRecord name ino fileType fits] := by
    rw [listed, listed, listed, List.takeWhile_append_of_pos hlive, List.filterMap_append,
      List.takeWhile_eq_self_iff.mpr hlive]
  rw [hlist, List.append_cancel_left_eq]
  -- were the added record listed as it should be, the guard would hold
  intro heq
  have hino : ino ≠ 0 := by
    rintro rfl
    cases heq
  have hlisting : (newRecord name ino fileType fits).listing = some (name, ino, fileType) := by
    have hr : (newRecord name ino fileType fits).live = true := by
      simpa [Record.live, newRecord] using hino
    rw [listed, List.takeWhile_cons_of_pos hr, List.takeWhile_nil, List.filterMap_cons] at heq
    split at heq
    · cases heq
    case h_2 hsome => rw [hsome, (List.cons.inj heq).1]
  have hname := utf8ByteSize_newRecord name ino fileType fits
  rw [Record.listing] at hlisting
  split at hlisting
  case isFalse => cases hlisting
  case isTrue =>
    have htext := congrArg Prod.fst (Option.some.inj hlisting)
    simp only at htext
    rw [htext] at hname
    refine hguard ⟨hname, hino, fun rs' hrs' => ?_⟩
    obtain rfl := encode_injective (Except.ok.inj (h.holds.symm.trans hrs'))
    exact hlive

/-! ### Removing -/

/-- By the names being apart, removing the name takes out the located record only. -/
private theorem Tracked.filter_expected (h : s.Tracked fs rs) {name : String}
    {before after : List Record} {r : Record} (hloc : locate name rs = some (before, r, after)) :
    s.expected.filter (·.1 ≠ name) = entries (before ++ visible after) := by
  have hnames := h.names
  rw [visible_locate hloc, List.map_append, List.map_cons] at hnames
  obtain ⟨-, -, hr, hbefore⟩ := locate_some hloc
  rw [h.expected, filter_entries, visible_locate hloc, List.filter_append, List.filter_cons]
  have hkeep : ∀ q ∈ before, decide (q.text ≠ name) = true := fun q hq =>
    decide_eq_true (hbefore q hq).2
  have hkeep' : ∀ q ∈ visible after, decide (q.text ≠ name) = true := by
    intro q hq
    refine decide_eq_true fun hqn => ?_
    have hnot := (List.nodup_cons.mp (List.nodup_append.mp hnames).2.1).1
    exact hnot (hr.trans hqn.symm ▸ List.mem_map_of_mem hq)
  rw [List.filter_eq_self.mpr hkeep, List.filter_eq_self.mpr hkeep',
    if_neg (by simp [hr])]

private theorem Tracked.keep_remove (h : s.Tracked fs rs) {name : String}
    (hlegal : s.Legal fs (.remove name)) (hguard : s.Guarded fs (.remove name)) :
    ∃ rs', (s.step fs (.remove name)).Tracked fs rs' := by
  obtain ⟨before, r, after, rs', hloc, hremoved, hv, hs, hholds, hexp⟩ := step_remove h hlegal
  rw [h.filter_expected hloc] at hexp
  have hvis := visible_locate hloc
  obtain ⟨hrs, -, hr, hbefore⟩ := locate_some hloc
  rcases hremoved.visible_eq fun q hq => (hbefore q hq).1 with ⟨rfl, hnone⟩ | ⟨-, hentry, hname⟩
  · -- the first entry: nothing is visible any more, and nothing listed followed it
    have hdots := hguard r after (by rw [← List.nil_append (r :: after), ← hrs]; exact h.holds) hr
    have hempty : entries ([] ++ visible after) = [] := by
      refine List.filter_eq_nil_iff.mpr fun e he => ?_
      obtain ⟨q, hq, rfl⟩ := List.mem_map.mp he
      intro hnamed
      have hnamed := of_decide_eq_true hnamed
      rcases hdots q hq with hdot | hdot
      · exact hnamed.1 hdot
      · exact hnamed.2 hdot
    refine ⟨rs', hv, hs, hholds, ?_, ?_, ?_⟩
    · simp [hnone]
    · simp [hnone]
    · rw [hexp, hempty, hnone]
      rfl
  · have hsub : (before ++ visible after).Sublist (visible rs) := by
      rw [hvis]
      exact (List.sublist_cons_self r _).append_left before
    refine ⟨rs', hv, hs, hholds, fun q hq => ?_, ?_, ?_⟩
    · have hmem : q.name ∈ (before ++ visible after).map Record.name :=
        hname ▸ List.mem_map_of_mem hq
      obtain ⟨q', hq', heq⟩ := List.mem_map.mp hmem
      exact heq ▸ h.utf8 q' (hsub.subset hq')
    · have htext := congrArg (List.map fun n => (fromUtf8 n).getD "") hname
      rw [List.map_map, List.map_map] at htext
      exact htext ▸ h.names.sublist (hsub.map Record.text)
    · rw [hexp, entries, entries, hentry]

/-- Outside the guard every entry after the removed one is hidden. -/
private theorem Tracked.break_remove (h : s.Tracked fs rs) {name : String}
    (hlegal : s.Legal fs (.remove name)) (hguard : ¬s.Guarded fs (.remove name)) :
    ¬(s.step fs (.remove name)).Lists fs := by
  obtain ⟨before, r, after, rs', hloc, hremoved, hv, -, hholds, hexp⟩ := step_remove h hlegal
  rw [lists_iff hv hholds, hexp, h.filter_expected hloc]
  simp only [Guarded, not_forall, not_or] at hguard
  obtain ⟨r₀, after₀, hholds₀, htext, q, hq, hdot, hdots⟩ := hguard
  -- the first record is the one removed, and a named one follows it
  obtain rfl := encode_injective (Except.ok.inj (h.holds.symm.trans hholds₀))
  have hcons : locate name (r₀ :: after₀) = some ([], r₀, after₀) := by
    rw [locate] at hloc ⊢
    split at hloc
    · cases hloc
    case isFalse hlive => rw [if_neg hlive, if_pos htext]
  obtain ⟨rfl, rfl, rfl⟩ := Option.some.inj (hcons.symm.trans hloc)
  have hmem : q.entry ∈ entries ([] ++ visible after) :=
    List.mem_filter.mpr ⟨List.mem_map_of_mem hq, decide_eq_true ⟨hdot, hdots⟩⟩
  have hmore : after ≠ [] := by
    rintro rfl
    cases hq
  -- it is marked dead, and hides the named one
  rcases hremoved.visible_eq (by simp) with ⟨-, hnone⟩ | ⟨hnot, -⟩
  · intro heq
    have hlisted : listed rs' = [] := congrArg (List.filterMap Record.listing) hnone
    rw [← heq, hlisted] at hmem
    cases hmem
  · exact absurd ⟨rfl, hmore⟩ hnot

/-! ### Runs -/

/-- **Directory contents**: the reader lists what it should after every call of a run exactly when
    every call keeps to the guard. -/
theorem directory_lists_iff (fs : Ext3Fs) (d : Drive) (inode : Inode) (rs : List Record)
    (hv : fs.Volume d) (hs : fs.Sound d inode) (hraw : fs.readFileInode d inode = .ok (encode rs))
    (hlive : ∀ r ∈ rs, r.live) (hutf8 : ∀ r ∈ rs, (fromUtf8 r.name).isSome)
    (hnames : (rs.map Record.text).Nodup) (events : List DirEvent)
    (hlegal : ∀ p ∈ steps (DirState.step fs) ⟨d, inode, entries rs⟩ events, p.1.Legal fs p.2) :
    (∀ t ∈ states (DirState.step fs) ⟨d, inode, entries rs⟩ events, t.Lists fs) ↔
      ∀ p ∈ steps (DirState.step fs) ⟨d, inode, entries rs⟩ events, p.1.Guarded fs p.2 := by
  have hvis : visible rs = rs := List.takeWhile_eq_self_iff.mpr hlive
  -- a step within the guard keeps the listing, one outside breaks it
  refine guardedRun_iff_of_legal (DirState.step fs) (fun s => ∃ rs, s.Tracked fs rs)
    (DirState.Lists fs) (DirState.Legal fs) (DirState.Guarded fs) ?_ ?_ ?_ _ events ?_ hlegal
  · rintro s ⟨rs, h⟩
    exact h.lists
  · rintro s e ⟨rs, h⟩ hL hG
    cases e with
    | add => exact h.keep_add hL hG
    | remove => exact h.keep_remove hL hG
  · rintro s e ⟨rs, h⟩ hL hG
    cases e with
    | add => exact h.break_add hL hG
    | remove => exact h.break_remove hL hG
  · refine ⟨rs, hv, hs, hraw, ?_, ?_, ?_⟩
    · rwa [hvis]
    · rwa [hvis]
    · rw [hvis]

end DirState

/-! ### A run on a small volume -/

namespace Sample

/-- What holds of all members of a list is decided member by member, whatever their type. -/
scoped instance (priority := high) decidableMembers {α : Type} (p : α → Prop) [DecidablePred p]
    (l : List α) : Decidable (∀ x ∈ l, p x) :=
  List.decidableBAll p l

/-- A directory with its two dot entries: inode 11, a child of the root. -/
def dots : List Record :=
  [⟨11, FT_DIR, [46], [0, 0, 0], by decide, by decide⟩,
    ⟨2, FT_DIR, [46, 46], [0, 0], by decide, by decide⟩]

/-- The root, with the entry `d` for that directory. -/
def rootEntries : List Record :=
  [⟨2, FT_DIR, [46], [0, 0, 0], by decide, by decide⟩,
    ⟨2, FT_DIR, [46, 46], [0, 0], by decide, by decide⟩,
    ⟨11, FT_DIR, [100], [0, 0, 0], by decide, by decide⟩]

/-- A directory of one block. -/
def directory (contents : List Record) (block : UInt32) : Inode :=
  { Ext3Fs.emptyFile.setPointer 0 block with
    mode := S_IFDIR ||| 0o755, size := UInt32.ofNat (encode contents).length }

/-- Group descriptor, bitmaps, two blocks of inodes, and the two directories in blocks 9 and 10. -/
def image : Nat → List UInt8
  | 2 => leEncode 4 3 ++ leEncode 4 4 ++ leEncode 4 5
  | 3 => [0xFF, 0x03]
  | 4 => [0xFF, 0x07]
  | 5 => List.replicate 116 0 ++ (directory rootEntries 9).toBytes
  | 6 => List.replicate 232 0 ++ (directory dots 10).toBytes
  | 9 => encode rootEntries
  | 10 => encode dots
  | _ => []

def disk : Drive := .ofBlocks image

def fs : Ext3Fs := ⟨1024, 16, 8192, 2, 1⟩

private theorem marks_disk : (fs.descriptor disk).blockBitmap = 3 ∧
    (∀ b ∈ [2, 3, 10], fs.BlockUsed disk b) ∧ fs.refs disk (directory dots 10) = [10] := by
  decide +kernel

private theorem volume_disk : fs.Volume disk where
  sized := .inl rfl
  healthy := Drive.healthy_ofBlocks image
  descriptor_reached := by decide
  bitmap_reached := by
    rw [marks_disk.1]
    decide
  bitmap_ne := by
    rw [marks_disk.1]
    decide
  descriptor_used := marks_disk.2.1 2 (by decide)
  bitmap_used := by
    rw [marks_disk.1]
    exact marks_disk.2.1 3 (by decide)

private theorem sound_dots : fs.Sound disk (directory dots 10) where
  nodup := by
    rw [marks_disk.2.2]
    decide
  used := by
    rw [marks_disk.2.2]
    exact List.forall_mem_singleton.mpr (marks_disk.2.1 10 (by decide))
  apart := by
    rw [marks_disk.2.2, marks_disk.1]
    decide

end Sample

namespace DirState

open Sample

/-- The directory with its two dot entries. -/
private def emptyDir : DirState := ⟨disk, directory dots 10, entries dots⟩

/-- The only entry is removed, and another one is added. -/
private def readd : List DirEvent := [.add "x" 12 FT_REG, .remove "x", .add "y" 12 FT_REG]

/-- The entry added after the removed last one is not listed. -/
theorem readded_entry_hidden :
    (∀ p ∈ steps (DirState.step fs) emptyDir readd, p.1.Legal fs p.2) ∧
      ¬∀ t ∈ states (DirState.step fs) emptyDir readd, t.Lists fs := by
  constructor <;> decide +kernel

private def addRemove : List DirEvent := [.add "x" 12 FT_REG, .add "y" 13 FT_REG, .remove "x"]

theorem addRemove_lists_iff :
    (∀ t ∈ states (DirState.step fs) emptyDir addRemove, t.Lists fs) ↔
      ∀ p ∈ steps (DirState.step fs) emptyDir addRemove, p.1.Guarded fs p.2 :=
  directory_lists_iff fs disk (directory dots 10) dots volume_disk sound_dots
    (by decide +kernel) (by decide) (by decide +kernel) (by decide +kernel) addRemove
    (by decide +kernel)

end DirState

end RustKernel.Fs
