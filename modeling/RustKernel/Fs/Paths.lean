import Mathlib.Data.List.TakeWhile
import RustKernel.Fs.Ext3

/-!
# RustKernel.Fs.Paths

Paths as lists of components, and `walk` as the run over them.

## Main results

- `splitSlash_of_rsplit`: the last name of a path is its last component
- `walk_eq`, `walkComponents_append`: walking a path is walking its components one after the other
- `walk_append`: the walk over `p/q` goes on from where the walk over `p` arrives
- `Browsable.walk_mem`, `Browsable.walk_outgrown`: a path leads to a known inode, and goes on
  resolving while directories only gain entries
- `walk_ne_ok_of_dot`: no path with a component `.` or `..` resolves, because the reader of
  directories leaves these entries out
-/

namespace RustKernel.Fs

open Lib

/-! ### Components -/

theorem splitSlash_of_rsplit {path parent name : String}
    (h : rsplitSlash path = some (parent, name)) :
    splitSlash path = splitSlash parent ++ [name] := by
  rw [rsplitSlash] at h
  split at h
  · cases h
  case h_2 slash before hdrop =>
    obtain ⟨rfl, rfl⟩ := Prod.mk.inj (Option.some.inj h)
    set last := path.toList.reverse.takeWhile (· != '/') with hlast
    have hslash : slash = '/' := by
      have hhead := List.head_dropWhile_not (l := path.toList.reverse) (· != '/')
        (by rw [hdrop]; simp)
      simpa [hdrop] using hhead
    have hpath : path.toList = before.reverse ++ '/' :: last.reverse := by
      have hrev := List.takeWhile_append_dropWhile (p := (· != '/')) (l := path.toList.reverse)
      rw [hdrop, hslash, ← hlast] at hrev
      rw [← List.reverse_reverse path.toList, ← hrev]
      simp
    have hname : '/' ∉ last.reverse := by
      rw [List.mem_reverse, hlast]
      intro hmem
      simpa using List.mem_takeWhile_imp hmem
    rw [splitSlash, splitSlash, hpath, List.splitOn_append_cons_self,
      List.splitOn_eq_singleton hname, List.map_append, String.toList_ofList]
    rfl

/-- The last slash of `p/name` is the one before the name. -/
theorem rsplitSlash_append (p : String) {name : String} (hslash : '/' ∉ name.toList) :
    rsplitSlash (p ++ "/" ++ name) = some (p, name) := by
  have hreverse : (p ++ "/" ++ name).toList.reverse =
      name.toList.reverse ++ '/' :: p.toList.reverse := by
    rw [String.toList_append, String.toList_append, List.reverse_append, List.reverse_append]
    rfl
  have hname : ∀ c ∈ name.toList.reverse, (c != '/') = true := by
    intro c hc
    rw [bne_iff_ne]
    rintro rfl
    exact hslash (List.mem_reverse.mp hc)
  have hdrop : (p ++ "/" ++ name).toList.reverse.dropWhile (· != '/') =
      '/' :: p.toList.reverse := by
    rw [hreverse, List.dropWhile_append_of_pos hname, List.dropWhile_cons_of_neg (by decide)]
  have htake : (p ++ "/" ++ name).toList.reverse.takeWhile (· != '/') = name.toList.reverse := by
    rw [hreverse, List.takeWhile_append_of_pos hname, List.takeWhile_cons_of_neg (by decide),
      List.append_nil]
  rw [rsplitSlash, hdrop, htake]
  simp only [List.reverse_reverse, String.ofList_toList]

/-! ### Listings leave out the dot entries -/

private theorem listEntries_named (raw : List UInt8) (len offset : Nat) :
    ∀ e ∈ listEntries raw len offset, e.1 ≠ "." ∧ e.1 ≠ ".." := by
  fun_induction listEntries raw len offset with
  | case1 => simp
  | case2 _ _ _ _ _ _ _ _ _ hnamed ih =>
    intro e he
    rcases List.mem_cons.mp he with rfl | he
    · exact hnamed
    · exact ih e he
  | case3 _ _ _ _ _ _ _ _ _ _ ih => exact ih
  | case4 _ _ _ _ _ _ _ _ ih => exact ih
  | case5 => simp

namespace Ext3Fs

variable {fs : Ext3Fs} {d : Drive}

private theorem readDirInode_named {inode : Inode} {entries : List Listing}
    (h : fs.readDirInode d inode = .ok entries) : ∀ e ∈ entries, e.1 ≠ "." ∧ e.1 ≠ ".." := by
  rw [readDirInode] at h
  rcases hraw : fs.readFileInode d inode with e | raw
  · rw [hraw] at h
    cases h
  · rw [hraw] at h
    obtain rfl := Except.ok.inj h
    exact listEntries_named _ _ _

/-! ### The parent of a path -/

/-- `create_file` and `delete_file` refuse a path without a parent. -/
theorem splitParent_error {path : String} {e : Failure} (h : splitParent path = .error e) :
    e = .error "need absolute path" := by
  rw [splitParent] at h
  split at h
  · exact (Except.error.inj h).symm
  · split at h
    · exact (Except.error.inj h).symm
    · cases h

theorem splitSlash_of_splitParent {path parent name : String}
    (h : splitParent path = .ok (parent, name)) :
    splitSlash path = splitSlash parent ++ [name] := by
  rw [splitParent] at h
  split at h
  · cases h
  case h_2 parent' name' hsplit =>
    split at h
    · cases h
    · obtain ⟨rfl, rfl⟩ := Prod.mk.inj (Except.ok.inj h)
      exact splitSlash_of_rsplit hsplit

/-! ### Walking -/

/-- The entry that `walk` follows for a component. -/
def lookup (entries : List Listing) (component : String) : Option Listing :=
  entries.find? fun entry => entry.1 = component

theorem lookup_append (es es' : List Listing) (component : String) :
    lookup (es ++ es') component = (lookup es component).or (lookup es' component) :=
  List.find?_append

theorem lookup_singleton (e : Listing) : lookup [e] e.1 = some e := by
  rw [lookup, List.find?_cons_of_pos]
  simp

private theorem walkComponents_cons (component : String) (rest : List String) (ino : UInt32)
    (inode : Inode) (hne : component ≠ "") (hdir : inode.isDir = true) {entries : List Listing}
    (hread : fs.readDirInode d inode = .ok entries) :
    fs.walkComponents d (component :: rest) ino inode =
      match lookup entries component with
      | some (_, next, _) => do
        let node ← fs.readInode d next
        fs.walkComponents d rest next node
      | none => .error (.error "file not found") := by
  rw [walkComponents, if_neg hne, if_neg (by simp [hdir]), hread]
  rfl

theorem walkComponents_append (xs ys : List String) (ino : UInt32) (inode : Inode) :
    fs.walkComponents d (xs ++ ys) ino inode =
      (fs.walkComponents d xs ino inode).bind fun (i, n) => fs.walkComponents d ys i n := by
  induction xs generalizing ino inode with
  | nil => rfl
  | cons component xs ih =>
    rw [List.cons_append, walkComponents, walkComponents]
    split
    · exact ih ino inode
    split
    · rfl
    rcases fs.readDirInode d inode with e | entries
    · rfl
    simp only [bind, Except.bind]
    split
    · rcases fs.readInode d _ with e | node
      · rfl
      · exact ih _ node
    · rfl

/-- The empty path and `/` are no exception: they have no component that is not empty. -/
theorem walk_eq (start : UInt32) (path : String) :
    fs.walk d start path = (fs.readInode d start).bind fun current =>
      (fs.walkComponents d (splitSlash path) start current).bind fun (ino, inode) =>
        .ok (ino, inode, fileType inode) := by
  rw [walk]
  rcases fs.readInode d start with e | current
  · rfl
  simp only [bind, Except.bind]
  split
  case isTrue hroot =>
    rcases hroot with rfl | rfl <;> rfl
  case isFalse => rfl

/-- `read_file` on a path that resolves. -/
theorem readFile_of_walk {path : String} {j : UInt32} {n : Inode} {ft : UInt8}
    (hwalk : fs.walk d 2 path = .ok (j, n, ft)) :
    fs.readFile d path =
      if n.isDir = true then .error (.error "is a directory") else fs.readFileInode d n := by
  have hft : ft = fileType n := by
    rw [walk_eq] at hwalk
    cases hstart : fs.readInode d 2 with
    | error e => simp [hstart, Except.bind] at hwalk
    | ok current =>
      cases hcomps : fs.walkComponents d (splitSlash path) 2 current with
      | error e => simp [hstart, hcomps, Except.bind] at hwalk
      | ok found =>
        simp only [hstart, hcomps, Except.bind] at hwalk
        obtain ⟨rfl, rfl, rfl⟩ := Except.ok.inj hwalk
        rfl
  rw [readFile, hwalk, hft]
  simp only [bind, Except.bind, fileType]
  by_cases hdir : n.isDir = true
  · simp only [if_pos hdir]
    rfl
  · simp only [if_neg hdir]
    rfl

/-- The last step of a walk. -/
theorem walk_last {path parent name : String} {start p : UInt32} {n : Inode} {ft : UInt8}
    {entries : List Listing} (hsplit : splitSlash path = splitSlash parent ++ [name])
    (hne : name ≠ "") (hwalk : fs.walk d start parent = .ok (p, n, ft)) (hdir : n.isDir = true)
    (hread : fs.readDirInode d n = .ok entries) :
    fs.walk d start path =
      match lookup entries name with
      | some (_, next, _) => (fs.readInode d next).bind fun node => .ok (next, node, fileType node)
      | none => .error (.error "file not found") := by
  rw [walk_eq] at hwalk ⊢
  cases hstart : fs.readInode d start with
  | error e => simp [hstart, Except.bind] at hwalk
  | ok current =>
    cases hcomps : fs.walkComponents d (splitSlash parent) start current with
    | error e => simp [hstart, hcomps, Except.bind] at hwalk
    | ok found =>
      -- the walk to the parent ends where the last component starts
      obtain ⟨p', n'⟩ := found
      simp only [hstart, hcomps, Except.bind] at hwalk
      obtain ⟨rfl, rfl, -⟩ := Except.ok.inj hwalk
      simp only [Except.bind, hsplit, walkComponents_append, hcomps]
      rw [walkComponents_cons _ _ _ _ hne hdir hread]
      cases lookup entries name with
      | none => rfl
      | some e =>
        obtain ⟨_, next, _⟩ := e
        simp only [bind, Except.bind]
        cases fs.readInode d next <;> rfl

/-- A walk that succeeds has passed the parent. -/
theorem exists_walk_parent {path parent name : String} {start : UInt32}
    (hsplit : splitSlash path = splitSlash parent ++ [name]) {r : UInt32 × Inode × UInt8}
    (hpath : fs.walk d start path = .ok r) : ∃ r', fs.walk d start parent = .ok r' := by
  rw [walk_eq] at hpath ⊢
  cases hstart : fs.readInode d start with
  | error e => simp [hstart, Except.bind] at hpath
  | ok current =>
    cases hcomps : fs.walkComponents d (splitSlash parent) start current with
    | error e => simp [hstart, hsplit, walkComponents_append, hcomps, Except.bind] at hpath
    | ok found =>
      simp only [Except.bind, hcomps]
      exact ⟨_, rfl⟩

/-- A slash at the end changes nothing. -/
theorem walk_of_last_empty {path parent : String} (start : UInt32)
    (hsplit : splitSlash path = splitSlash parent ++ [""]) :
    fs.walk d start path = fs.walk d start parent := by
  rw [walk_eq, walk_eq, hsplit]
  cases fs.readInode d start with
  | error e => rfl
  | ok current =>
    simp only [Except.bind, walkComponents_append]
    cases fs.walkComponents d (splitSlash parent) start current with
    | error e => rfl
    | ok found =>
      simp only
      rw [walkComponents, if_pos rfl, walkComponents]

/-- The last step of a walk that succeeds is taken in a directory. -/
theorem isDir_of_walk_last {path parent name : String} {start p : UInt32} {n : Inode} {ft : UInt8}
    (hsplit : splitSlash path = splitSlash parent ++ [name]) (hne : name ≠ "")
    (hwalk : fs.walk d start parent = .ok (p, n, ft)) {r : UInt32 × Inode × UInt8}
    (hpath : fs.walk d start path = .ok r) : n.isDir = true := by
  rw [walk_eq] at hwalk hpath
  cases hstart : fs.readInode d start with
  | error e => simp [hstart, Except.bind] at hwalk
  | ok current =>
    cases hcomps : fs.walkComponents d (splitSlash parent) start current with
    | error e => simp [hstart, hcomps, Except.bind] at hwalk
    | ok found =>
      obtain ⟨p', n'⟩ := found
      simp only [hstart, hcomps, Except.bind] at hwalk
      obtain ⟨rfl, rfl, -⟩ := Except.ok.inj hwalk
      simp only [hstart, hsplit, walkComponents_append, hcomps, Except.bind] at hpath
      rw [walkComponents, if_neg hne] at hpath
      cases hdir : n.isDir with
      | true => rfl
      | false =>
        rw [if_pos hdir] at hpath
        cases hpath

/-! ### Composition -/

private theorem splitSlash_append (p q : String) :
    splitSlash (p ++ "/" ++ q) = splitSlash p ++ splitSlash q := by
  have hlist : (p ++ "/" ++ q).toList = p.toList ++ '/' :: q.toList := by
    rw [String.toList_append, String.toList_append, List.append_assoc]
    rfl
  rw [splitSlash, splitSlash, splitSlash, hlist, List.splitOn_append_cons_self, List.map_append]

/-- The inode at which a walk arrives is the one that its number is read as. -/
private theorem readInode_of_walkComponents (comps : List String) {ino i : UInt32} {inode n : Inode}
    (hread : fs.readInode d ino = .ok inode)
    (hwalk : fs.walkComponents d comps ino inode = .ok (i, n)) : fs.readInode d i = .ok n := by
  induction comps generalizing ino inode with
  | nil =>
    rw [walkComponents] at hwalk
    obtain ⟨rfl, rfl⟩ := Prod.mk.inj (Except.ok.inj hwalk)
    exact hread
  | cons component comps ih =>
    rw [walkComponents] at hwalk
    -- an empty component stays where it is; any other one reads the inode it leads to
    split at hwalk
    · exact ih hread hwalk
    split at hwalk
    · cases hwalk
    cases hentries : fs.readDirInode d inode with
    | error e =>
      rw [hentries] at hwalk
      cases hwalk
    | ok entries =>
      rw [hentries] at hwalk
      simp only [bind, Except.bind] at hwalk
      split at hwalk
      case h_2 => cases hwalk
      case h_1 next _ _ =>
        cases hnext : fs.readInode d next with
        | error e =>
          rw [hnext] at hwalk
          cases hwalk
        | ok node =>
          rw [hnext] at hwalk
          exact ih hnext hwalk

/-- The walk over `p/q` is the walk over `p` and, from the inode where it arrives, the walk over
    `q`; where the first one fails, the whole fails with its error. -/
theorem walk_append (fs : Ext3Fs) (d : Drive) (start : UInt32) (p q : String) :
    fs.walk d start (p ++ "/" ++ q) =
      match fs.walk d start p with
      | .ok (i, _, _) => fs.walk d i q
      | .error e => .error e := by
  rw [walk_eq, walk_eq, splitSlash_append]
  cases hstart : fs.readInode d start with
  | error e => rfl
  | ok current =>
    simp only [Except.bind, walkComponents_append]
    cases hcomps : fs.walkComponents d (splitSlash p) start current with
    | error e => rfl
    | ok found =>
      obtain ⟨i, n⟩ := found
      simp only
      rw [walk_eq, readInode_of_walkComponents _ hstart hcomps]
      rfl

/-! ### Directories that lead to known inodes -/

variable (fs) in
/-- The inodes in `live` are read as `node` has them, and the directories among them list inodes in
    `live`. -/
structure Browsable (live : Set UInt32) (d : Drive) (node : UInt32 → Inode) : Prop where
  root : 2 ∈ live
  inodes : ∀ i ∈ live, fs.readInode d i = .ok (node i)
  entries : ∀ i ∈ live, (node i).isDir = true →
    ∃ entries, fs.readDirInode d (node i) = .ok entries ∧ ∀ e ∈ entries, e.2.1 ∈ live

variable (fs) in
/-- `d'` has the directories of `d`, with at least their entries. -/
structure Outgrows (live : Set UInt32) (d : Drive) (node : UInt32 → Inode) (d' : Drive)
    (node' : UInt32 → Inode) : Prop where
  inodes : ∀ i ∈ live, fs.readInode d' i = .ok (node' i)
  kind : ∀ i ∈ live, (node' i).isDir = (node i).isDir
  lookups : ∀ i ∈ live, (node i).isDir = true → ∀ entries,
    fs.readDirInode d (node i) = .ok entries →
      ∃ entries', fs.readDirInode d' (node' i) = .ok entries' ∧
        ∀ component e, lookup entries component = some e → lookup entries' component = some e

theorem Outgrows.mono {live live' : Set UInt32} {d' : Drive} {node node' : UInt32 → Inode}
    (hsub : live ⊆ live') (h : fs.Outgrows live' d node d' node') :
    fs.Outgrows live d node d' node' where
  inodes := fun i hi => h.inodes i (hsub hi)
  kind := fun i hi => h.kind i (hsub hi)
  lookups := fun i hi => h.lookups i (hsub hi)

theorem Outgrows.trans {live : Set UInt32} {d' d'' : Drive} {node node' node'' : UInt32 → Inode}
    (h : fs.Outgrows live d node d' node') (h' : fs.Outgrows live d' node' d'' node'') :
    fs.Outgrows live d node d'' node'' where
  inodes := h'.inodes
  kind := fun i hi => (h'.kind i hi).trans (h.kind i hi)
  lookups := by
    intro i hi hdir entries hread
    obtain ⟨entries', hread', hsame⟩ := h.lookups i hi hdir entries hread
    obtain ⟨entries'', hread'', hsame'⟩ :=
      h'.lookups i hi ((h.kind i hi).trans hdir) entries' hread'
    exact ⟨entries'', hread'', fun c e he => hsame' c e (hsame c e he)⟩

namespace Browsable

variable {live : Set UInt32} {d' : Drive} {node node' : UInt32 → Inode} {i j : UInt32} {n : Inode}

/-- A walk from an inode in `live` ends in `live`. -/
private theorem walkComponents_mem (h : fs.Browsable live d node) (comps : List String)
    (hi : i ∈ live)
    (hwalk : fs.walkComponents d comps i (node i) = .ok (j, n)) : j ∈ live ∧ n = node j := by
  induction comps generalizing i with
  | nil =>
    obtain ⟨rfl, rfl⟩ := Prod.mk.inj (Except.ok.inj hwalk)
    exact ⟨hi, rfl⟩
  | cons component comps ih =>
    by_cases hne : component = ""
    · rw [walkComponents, if_pos hne] at hwalk
      exact ih hi hwalk
    by_cases hdir : (node i).isDir = true
    case neg =>
      rw [walkComponents, if_neg hne, if_pos (by simpa using hdir)] at hwalk
      cases hwalk
    obtain ⟨entries, hread, hlive⟩ := h.entries i hi hdir
    rw [walkComponents_cons _ _ _ _ hne hdir hread] at hwalk
    rcases hfound : lookup entries component with _ | ⟨name, next, ft⟩
    · rw [hfound] at hwalk
      cases hwalk
    have hnext : next ∈ live := hlive _ (List.mem_of_find?_eq_some hfound)
    simp only [hfound, bind, Except.bind, h.inodes next hnext] at hwalk
    exact ih hnext hwalk

theorem walk_mem (h : fs.Browsable live d node) {path : String} {ft : UInt8}
    (hwalk : fs.walk d 2 path = .ok (j, n, ft)) : j ∈ live ∧ n = node j ∧ ft = fileType n := by
  rw [walk_eq, h.inodes 2 h.root] at hwalk
  rcases hcomps : fs.walkComponents d (splitSlash path) 2 (node 2) with e | ⟨j', n'⟩
  · simp [Except.bind, hcomps] at hwalk
  · simp only [Except.bind, hcomps] at hwalk
    obtain ⟨rfl, rfl, rfl⟩ := Except.ok.inj hwalk
    obtain ⟨hj, hn⟩ := h.walkComponents_mem _ h.root hcomps
    exact ⟨hj, hn, rfl⟩

private theorem walkComponents_outgrown (h : fs.Browsable live d node)
    (hext : fs.Outgrows live d node d' node') (comps : List String) (hi : i ∈ live)
    (hwalk : fs.walkComponents d comps i (node i) = .ok (j, n)) :
    fs.walkComponents d' comps i (node' i) = .ok (j, node' j) := by
  induction comps generalizing i with
  | nil =>
    obtain ⟨rfl, -⟩ := Prod.mk.inj (Except.ok.inj hwalk)
    rfl
  | cons component comps ih =>
    by_cases hne : component = ""
    · rw [walkComponents, if_pos hne] at hwalk ⊢
      exact ih hi hwalk
    by_cases hdir : (node i).isDir = true
    case neg =>
      rw [walkComponents, if_neg hne, if_pos (by simpa using hdir)] at hwalk
      cases hwalk
    obtain ⟨entries, hread, hlive⟩ := h.entries i hi hdir
    obtain ⟨entries', hread', hsame⟩ := hext.lookups i hi hdir entries hread
    rw [walkComponents_cons _ _ _ _ hne hdir hread] at hwalk
    rw [walkComponents_cons _ _ _ _ hne ((hext.kind i hi).trans hdir) hread']
    rcases hfound : lookup entries component with _ | ⟨name, next, ft⟩
    · rw [hfound] at hwalk
      cases hwalk
    -- the entry that was found is still found, and its inode is live
    have hnext : next ∈ live := hlive _ (List.mem_of_find?_eq_some hfound)
    simp only [hfound, bind, Except.bind, h.inodes next hnext] at hwalk
    simp only [hsame _ _ hfound, bind, Except.bind, hext.inodes next hnext]
    exact ih hnext hwalk

/-- Paths that resolve go on resolving while directories only gain entries. -/
theorem walk_outgrown (h : fs.Browsable live d node) (hext : fs.Outgrows live d node d' node')
    {path : String} {ft : UInt8} (hwalk : fs.walk d 2 path = .ok (j, n, ft)) :
    fs.walk d' 2 path = .ok (j, node' j, fileType (node' j)) := by
  rw [walk_eq, h.inodes 2 h.root] at hwalk
  rw [walk_eq, hext.inodes 2 h.root]
  rcases hcomps : fs.walkComponents d (splitSlash path) 2 (node 2) with e | ⟨j', n'⟩
  · simp [Except.bind, hcomps] at hwalk
  · simp only [Except.bind, hcomps] at hwalk ⊢
    obtain ⟨rfl, rfl, rfl⟩ := Except.ok.inj hwalk
    rw [h.walkComponents_outgrown hext _ h.root hcomps]

end Browsable

/-! ### The dot entries -/

private theorem walkComponents_ne_ok_of_dot {component : String}
    (hdot : component = "." ∨ component = "..")
    (comps : List String) (hmem : component ∈ comps) (ino : UInt32) (inode : Inode)
    (r : UInt32 × Inode) : fs.walkComponents d comps ino inode ≠ .ok r := by
  induction comps generalizing ino inode with
  | nil => cases hmem
  | cons head comps ih =>
    rw [walkComponents]
    split
    case isTrue hempty =>
      have htail : component ∈ comps := by
        refine (List.mem_cons.mp hmem).resolve_left ?_
        rintro rfl
        rcases hdot with h | h <;> rw [hempty] at h <;> exact absurd h (by decide)
      exact ih htail ino inode
    split
    · simp
    rcases hread : fs.readDirInode d inode with e | entries
    · simp [bind, Except.bind]
    simp only [bind, Except.bind]
    split
    case h_2 => simp [throw, throwThe, MonadExceptOf.throw]
    case h_1 next _ hfound =>
      have hname := List.find?_some hfound
      simp only [decide_eq_true_eq] at hname
      -- no entry of a directory has the name of the component
      have hnamed := readDirInode_named hread _ (List.mem_of_find?_eq_some hfound)
      have htail : component ∈ comps := by
        refine (List.mem_cons.mp hmem).resolve_left ?_
        rintro rfl
        rw [hname] at hnamed
        exact hdot.elim hnamed.1 hnamed.2
      rcases fs.readInode d next with e | node
      · simp
      · exact ih htail next node

theorem walk_ne_ok_of_dot {path component : String} (hdot : component = "." ∨ component = "..")
    (hmem : component ∈ splitSlash path) (r : UInt32 × Inode × UInt8) :
    fs.walk d 2 path ≠ .ok r := by
  rw [walk_eq]
  rcases fs.readInode d 2 with e | current
  · simp [Except.bind]
  rcases hwalk : fs.walkComponents d (splitSlash path) 2 current with e | found
  · simp [Except.bind, hwalk]
  · exact absurd hwalk (walkComponents_ne_ok_of_dot hdot _ hmem _ _ found)

end Ext3Fs

end RustKernel.Fs
