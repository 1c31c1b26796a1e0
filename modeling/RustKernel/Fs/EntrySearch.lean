import RustKernel.Fs.Blocks
import RustKernel.Fs.Paths

/-!
# RustKernel.Fs.EntrySearch

The two searches for a name in the bytes of a directory: `walk` looks it up in the list that
`read_dir_inode` makes, and `dir_remove_entry` scans the bytes itself. Both go along the same chain
of records (`scan`) and differ in what they take an undecodable name for: `<invalid>` in the list,
the empty name in the scan.

## Main results

* `lookupInode_eq_scan`, `removeInode_eq_scan`: each search is a search in `scan`
* `searches_agree_iff`: they select the same inode exactly if no undecodable entry is taken for the
  name, and `delete_file` selects the entry of the inode it frees exactly under that condition
-/

namespace RustKernel.Fs

open Lib

/-! ### The chain of records -/

/-- An entry that both searches reach: its inode, and its name where the bytes are text. -/
structure ScanEntry where
  inode : UInt32
  text : Option String
deriving DecidableEq

/-- The entries that the searches reach from an offset on, of those whose name lies in the bytes. -/
def scan (raw : List UInt8) (len offset : Nat) : List ScanEntry :=
  if offset + 8 ≤ len then
    let de := DirEntry.ofBytes raw offset
    if de.inode = 0 ∨ de.recLen.toNat = 0 then []
    else
      let nameStart := offset + 8
      let rest := scan raw len (offset + de.recLen.toNat)
      if nameStart + de.nameLen.toNat ≤ raw.length then
        ⟨de.inode, fromUtf8 (window raw nameStart de.nameLen.toNat)⟩ :: rest
      else rest
  else []
termination_by len - offset
decreasing_by
  change len - (offset + de.recLen.toNat) < len - offset
  omega

namespace ScanEntry

/-- The name is exactly this one. -/
def named (name : String) (e : ScanEntry) : Bool := e.text = some name

/-- The name is this one, or undecodable. -/
def maybeNamed (name : String) (e : ScanEntry) : Bool := e.text = none ∨ e.text = some name

private theorem getD_eq_iff (e : ScanEntry) (fallback name : String) :
    e.text.getD fallback = name ↔ e.text = some name ∨ e.text = none ∧ fallback = name := by
  cases e.text with
  | none => simp
  | some text => simp

private theorem maybeNamed_of_named {e : ScanEntry} {name : String} (h : e.named name = true) :
    e.maybeNamed name = true := by
  simp only [named, maybeNamed, decide_eq_true_eq] at h ⊢
  exact .inr h

end ScanEntry

/-! ### The two searches -/

/-- The inode that `walk` finds for a name in the bytes of a directory. -/
def lookupInode (raw : List UInt8) (len : Nat) (name : String) : Option UInt32 :=
  (Ext3Fs.lookup (listEntries raw len 0) name).map fun entry => entry.2.1

/-- The inode of the entry that `dir_remove_entry` selects for a name. -/
def removeInode (raw : List UInt8) (len : Nat) (name : String) : Option UInt32 :=
  (findEntry raw len name 0).map Prod.snd

variable {raw : List UInt8} {len : Nat} {name : String}

/-- The search in the list is a search in the chain. -/
private theorem lookup_listEntries (raw : List UInt8) (len offset : Nat) (hdot : name ≠ ".")
    (hdots : name ≠ "..") :
    (Ext3Fs.lookup (listEntries raw len offset) name).map (fun entry => entry.2.1) =
      ((scan raw len offset).find? fun e => e.text.getD "<invalid>" = name).map
        ScanEntry.inode := by
  fun_induction scan raw len offset with
  | case1 offset hlt de hend =>
    rw [listEntries, if_pos ⟨by omega, hlt⟩, if_pos hend]
    rfl
  | case2 offset hlt de hend nameStart rest hname ih =>
    rw [listEntries, if_pos ⟨by omega, hlt⟩, if_neg hend, if_pos hname]
    by_cases hmatch : (fromUtf8 (window raw nameStart de.nameLen.toNat)).getD "<invalid>" = name
    · -- the entry has the name, which is not one of those that are left out
      rw [hmatch, if_pos ⟨hdot, hdots⟩, Ext3Fs.lookup, List.find?_cons_of_pos (by simp),
        List.find?_cons_of_pos (by simpa using hmatch)]
      rfl
    · -- the list leaves out `.` and `..`, which are not the name either
      rw [List.find?_cons_of_neg (by simpa using hmatch), ← ih]
      dsimp only
      split
      · rw [Ext3Fs.lookup, List.find?_cons_of_neg (by simpa using hmatch)]
        rfl
      · rfl
  | case3 offset hlt de hend nameStart rest hname ih =>
    rw [listEntries, if_pos ⟨by omega, hlt⟩, if_neg hend, if_neg hname]
    exact ih
  | case4 offset hge =>
    rw [listEntries, if_neg (fun h => hge h.2)]
    rfl

/-- The scan for a name is a search in the chain. -/
private theorem findEntry_eq_scan (raw : List UInt8) (len offset : Nat) (name : String) :
    (findEntry raw len name offset).map Prod.snd =
      ((scan raw len offset).find? fun e => e.text.getD "" = name).map ScanEntry.inode := by
  fun_induction scan raw len offset with
  | case1 offset hlt de hend =>
    rw [findEntry, if_neg (by omega), if_pos hend]
    rfl
  | case2 offset hlt de hend nameStart rest hname ih =>
    rw [findEntry, if_neg (by omega), if_neg hend]
    by_cases hmatch : (fromUtf8 (window raw nameStart de.nameLen.toNat)).getD "" = name
    · rw [if_pos ⟨hname, hmatch⟩, List.find?_cons_of_pos (by simpa using hmatch)]
      rfl
    · rw [if_neg (fun h => hmatch h.2), List.find?_cons_of_neg (by simpa using hmatch)]
      exact ih
  | case3 offset hlt de hend nameStart rest hname ih =>
    rw [findEntry, if_neg (by omega), if_neg hend, if_neg (fun h => hname h.1)]
    exact ih
  | case4 offset hge =>
    rw [findEntry, if_pos (by omega)]
    rfl

theorem lookupInode_eq_scan (raw : List UInt8) (len : Nat) (hdot : name ≠ ".")
    (hdots : name ≠ "..") :
    lookupInode raw len name =
      ((scan raw len 0).find? fun e => e.text.getD "<invalid>" = name).map ScanEntry.inode :=
  lookup_listEntries raw len 0 hdot hdots

theorem removeInode_eq_scan (raw : List UInt8) (len : Nat) (name : String) :
    removeInode raw len name =
      ((scan raw len 0).find? fun e => e.text.getD "" = name).map ScanEntry.inode :=
  findEntry_eq_scan raw len 0 name

/-! ### Names that an undecodable entry is taken for -/

/-- An undecodable entry is taken for the name by one of the searches: it comes before the entries
    that have the name, and the first of these, if there is one, has another inode. -/
def Confusable (entries : List ScanEntry) (name : String) : Prop :=
  (name = "" ∨ name = "<invalid>") ∧
    ∃ e, entries.find? (ScanEntry.maybeNamed name) = some e ∧ e.text = none ∧
      (entries.find? (ScanEntry.named name)).map ScanEntry.inode ≠ some e.inode

/-- The searches for the name itself and for the name or an undecodable one select different
    inodes exactly if the latter stops at an undecodable entry first. -/
private theorem find_named_iff (entries : List ScanEntry) (name : String) :
    (entries.find? (ScanEntry.maybeNamed name)).map ScanEntry.inode =
        (entries.find? (ScanEntry.named name)).map ScanEntry.inode ↔
      ¬∃ e, entries.find? (ScanEntry.maybeNamed name) = some e ∧ e.text = none ∧
        (entries.find? (ScanEntry.named name)).map ScanEntry.inode ≠ some e.inode := by
  induction entries with
  | nil => simp
  | cons e entries ih =>
    cases htext : e.text with
    | none =>
      -- only one of the searches stops here
      have hmaybe : e.maybeNamed name = true := by simp [ScanEntry.maybeNamed, htext]
      rw [List.find?_cons_of_pos hmaybe]
      constructor
      · rintro heq ⟨e', he', -, hne⟩
        obtain rfl := Option.some.inj he'
        exact hne heq.symm
      · intro hnot
        by_contra hne
        exact hnot ⟨e, rfl, htext, fun heq => hne heq.symm⟩
    | some text =>
      -- both searches stop here, or neither
      by_cases hname : text = name
      · have hnamed : e.named name = true := by simp [ScanEntry.named, htext, hname]
        rw [List.find?_cons_of_pos (ScanEntry.maybeNamed_of_named hnamed),
          List.find?_cons_of_pos hnamed]
        simp
      · have hmaybe : ¬e.maybeNamed name = true := by simp [ScanEntry.maybeNamed, htext, hname]
        have hnamed : ¬e.named name = true := by simp [ScanEntry.named, htext, hname]
        rw [List.find?_cons_of_neg hmaybe, List.find?_cons_of_neg hnamed]
        exact ih

/-- A search that takes undecodable names for `fallback`. -/
private theorem find_getD (entries : List ScanEntry) (fallback name : String) :
    (entries.find? fun e => e.text.getD fallback = name) =
      if fallback = name then entries.find? (ScanEntry.maybeNamed name)
      else entries.find? (ScanEntry.named name) := by
  split
  case isTrue heq =>
    congr 1
    funext e
    simp only [ScanEntry.getD_eq_iff, ScanEntry.maybeNamed, heq, and_true, or_comm]
  case isFalse hne =>
    congr 1
    funext e
    simp only [ScanEntry.getD_eq_iff, ScanEntry.named, hne, and_false, or_false]

/-- The two searches agree exactly if the name is not confusable. -/
private theorem lookupInode_eq_removeInode_iff (raw : List UInt8) (len : Nat) (hdot : name ≠ ".")
    (hdots : name ≠ "..") :
    lookupInode raw len name = removeInode raw len name ↔ ¬Confusable (scan raw len 0) name := by
  rw [lookupInode_eq_scan raw len hdot hdots, removeInode_eq_scan, find_getD, find_getD]
  by_cases hempty : "" = name
  · -- the scan takes undecodable names for this one
    have hne : ¬"<invalid>" = name := by
      rw [← hempty]
      decide
    rw [if_neg hne, if_pos hempty, eq_comm, find_named_iff, Confusable]
    simp only [hempty.symm, true_or, true_and]
  · by_cases hinvalid : "<invalid>" = name
    · -- the list takes them for this one
      rw [if_pos hinvalid, if_neg hempty, find_named_iff, Confusable]
      simp only [hinvalid.symm, or_true, true_and]
    · rw [if_neg hinvalid, if_neg hempty, Confusable]
      simp only [eq_comm (a := name), hempty, hinvalid, or_self, false_and, not_false_eq_true]

/-! ### Deletion -/

namespace Ext3Fs

variable (fs : Ext3Fs)

/-- `delete_file`, called with `path`, comes to free inode `i`, and `dir_remove_entry` is to search
    the bytes `raw` for `name`. -/
def Deletion (d : Drive) (path name : String) (i : UInt32) (raw : List UInt8) (len : Nat) : Prop :=
  ∃ parent p m pft n ft, splitParent path = .ok (parent, name) ∧
    fs.walk d 2 parent = .ok (p, m, pft) ∧ fs.walk d 2 path = .ok (i, n, ft) ∧ n.isDir = false ∧
    fs.readFileInode d m = .ok raw ∧ m.size.toNat = len

/-- The name is searched for as the walk has looked it up. Behind a slash at the end of a path there
    is no name that was looked up, and the file is searched as its own directory. -/
def DeletionGuard (entries : List ScanEntry) (name : String) (i : UInt32) : Prop :=
  if name = "" then (entries.find? (ScanEntry.maybeNamed "")).map ScanEntry.inode = some i
  else ¬Confusable entries name

variable {fs} {d : Drive} {path : String} {i : UInt32}

/-- The inode that is freed is the one that the walk has found in the directory. -/
theorem Deletion.lookup (h : fs.Deletion d path name i raw len) (hne : name ≠ "") :
    lookupInode raw len name = some i ∧ name ≠ "." ∧ name ≠ ".." := by
  obtain ⟨parent, p, m, pft, n, ft, hsplit, hparent, hpath, -, hraw, hlen⟩ := h
  have hcomps := splitSlash_of_splitParent hsplit
  have hmem : name ∈ splitSlash path := by
    rw [hcomps]
    exact List.mem_append_right _ List.mem_cons_self
  have hread : fs.readDirInode d m = .ok (listEntries raw len 0) := by
    rw [readDirInode, hraw, ← hlen]
    rfl
  -- the last step of the walk is a search in the list of the parent
  have hstep := hpath
  rw [walk_last hcomps hne hparent (isDir_of_walk_last hcomps hne hparent hpath) hread] at hstep
  refine ⟨?_, fun hdot => ?_, fun hdots => ?_⟩
  · rw [lookupInode]
    cases hfound : Ext3Fs.lookup (listEntries raw len 0) name with
    | none =>
      rw [hfound] at hstep
      cases hstep
    | some entry =>
      obtain ⟨entryName, next, entryType⟩ := entry
      rw [hfound] at hstep
      simp only at hstep
      cases hnode : fs.readInode d next with
      | error e =>
        rw [hnode] at hstep
        cases hstep
      | ok node =>
        rw [hnode] at hstep
        obtain ⟨rfl, -⟩ := Prod.mk.inj (Except.ok.inj hstep)
        rfl
  · exact walk_ne_ok_of_dot (.inl hdot) hmem _ hpath
  · exact walk_ne_ok_of_dot (.inr hdots) hmem _ hpath

/-- The entry that is removed is that of the inode that was freed exactly under the guard. -/
private theorem Deletion.removeInode_iff (h : fs.Deletion d path name i raw len) :
    removeInode raw len name = some i ↔ DeletionGuard (scan raw len 0) name i := by
  rw [DeletionGuard]
  split
  case isTrue hempty =>
    rw [hempty, removeInode_eq_scan, find_getD, if_pos rfl]
  case isFalse hne =>
    obtain ⟨hlookup, hdot, hdots⟩ := h.lookup hne
    rw [← lookupInode_eq_removeInode_iff raw len hdot hdots, hlookup, eq_comm]

end Ext3Fs

/-- The two searches select the same inode for a name exactly if the name is not confusable, and
    `delete_file` removes the entry of the inode that it frees exactly if the name it searches for is
    not confusable, or is the empty one and selects the inode. -/
theorem searches_agree_iff (fs : Ext3Fs) :
    (∀ (raw : List UInt8) (len : Nat) (name : String), name ≠ "." → name ≠ ".." →
      ((∀ k, lookupInode raw len name = some k ↔ removeInode raw len name = some k) ↔
        ¬Confusable (scan raw len 0) name)) ∧
    ∀ (d : Drive) (path name : String) (i : UInt32) (raw : List UInt8) (len : Nat),
      fs.Deletion d path name i raw len →
        (removeInode raw len name = some i ↔ Ext3Fs.DeletionGuard (scan raw len 0) name i) := by
  constructor
  · intro raw len name hdot hdots
    rw [← lookupInode_eq_removeInode_iff raw len hdot hdots]
    exact ⟨fun hsame => Option.ext hsame, fun heq k => by rw [heq]⟩
  · intro d path name i raw len h
    exact h.removeInode_iff

/-- A directory with one entry, whose name is the byte `0xFF`. -/
def undecodable : List UInt8 := [5, 0, 0, 0, 12, 0, 1, 1, 0xFF, 0, 0, 0]

/-- `walk` finds inode 5 under the name `<invalid>`, and `dir_remove_entry` finds nothing. -/
theorem invalid_not_removed :
    ¬∀ (raw : List UInt8) (len : Nat) (name : String), name ≠ "." → name ≠ ".." →
      ∀ k, lookupInode raw len name = some k ↔ removeInode raw len name = some k := by
  intro h
  have hlookup : lookupInode undecodable 12 "<invalid>" = some 5 := by decide +kernel
  have hremove : removeInode undecodable 12 "<invalid>" = none := by decide +kernel
  have hfound := (h undecodable 12 "<invalid>" (by decide) (by decide) 5).mp hlookup
  rw [hremove] at hfound
  cases hfound

/-- A root directory with the file `a`, inode 5. -/
def rootOfA : List UInt8 := [5, 0, 0, 0, 12, 0, 1, 1, 97, 0, 0, 0]

def rootInode : Inode := { Ext3Fs.emptyFile.setPointer 0 9 with mode := S_IFDIR, size := 12 }

def diskOfA : Drive := .ofBlocks fun b =>
  if b = 2 then leEncode 4 3 ++ leEncode 4 4 ++ leEncode 4 5
  else if b = 5 then
    List.replicate 116 0 ++ rootInode.toBytes ++ List.replicate 232 0 ++ Ext3Fs.emptyFile.toBytes
  else if b = 9 then rootOfA
  else []

def fsOfA : Ext3Fs := ⟨1024, 16, 64, 2, 1⟩

private theorem deletion_of_a : fsOfA.Deletion diskOfA "//a" "a" 5 rootOfA 12 :=
  ⟨"/", 2, rootInode, FT_DIR, Ext3Fs.emptyFile, FT_REG, by decide +kernel, by decide +kernel,
    by decide +kernel, by decide +kernel, by decide +kernel, by decide +kernel⟩

/-- Deleting `//a` frees inode 5 and removes its entry. -/
theorem a_removed : removeInode rootOfA 12 "a" = some 5 := by
  apply ((searches_agree_iff fsOfA).2 diskOfA "//a" "a" 5 rootOfA 12 deletion_of_a).mpr
  rw [Ext3Fs.DeletionGuard, if_neg (by decide)]
  rintro ⟨hname | hname, -⟩
  · exact absurd hname (by decide)
  · exact absurd hname (by decide)

end RustKernel.Fs
