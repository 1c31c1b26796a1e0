import RustKernel.Fs.Deleting
import RustKernel.Fs.RoundTrip

/-!
# RustKernel.Fs.Sharing

Runs of `create_file`, `write_file` and `delete_file`, and whether two files come to share a block.

They can: `free_block` clears the mark of the block after the one it is given, so the next block to
be allocated may be one that a file still has.

## Main results

- `no_sharing_of_guarded`: no block is shared in any state of a run whose calls keep to
  `FileCall.Guarded`
- `deleted_block_shared`: on a consistent filesystem two calls outside the guard make two files
  share a block

## Proof strategy

`SinglyLinked` is the invariant. `write_file` creates a file at most as often as it calls itself;
each of these calls starts from an empty file or from none at all, where the guard is void.
-/

namespace RustKernel.Fs

open Lib

namespace Ext3Fs

variable (fs : Ext3Fs)

/-- The inodes marked used. -/
def liveInodes (d : Drive) : Set UInt32 := {i | fs.ValidInode i ∧ fs.InodeUsed d i}

/-- No block is referred to by two live inodes or twice by one, and all that are referred to are
    marked used. -/
structure NoSharing (d : Drive) : Prop where
  apart : ∀ i ∈ fs.liveInodes d, ∀ j ∈ fs.liveInodes d, i ≠ j →
    (fs.refs d (fs.inodeAt d i)).Disjoint (fs.refs d (fs.inodeAt d j))
  once : ∀ i ∈ fs.liveInodes d, (fs.refs d (fs.inodeAt d i)).Nodup
  used : ∀ i ∈ fs.liveInodes d, ∀ b ∈ fs.refs d (fs.inodeAt d i), fs.BlockUsed d b

/-- What a write relies on when the path leads to a regular file: freeing the file's excess blocks
    clears no mark that is needed, neither by others nor by the file itself. -/
def WriteGuard (live : Set UInt32) (d : Drive) (path : String) (data : List UInt8) : Prop :=
  ∀ i n ft, fs.walk d 2 path = .ok (i, n, ft) → n.isDir = false →
    fs.Spares live d i (fs.freedBlocks n (fs.blocksNeeded data)) ∧
      ∀ b ∈ fs.freedBlocks n (fs.blocksNeeded data),
        (b + 1 ∈ fs.refs d n → b + 1 ∈ fs.freedBlocks n (fs.blocksNeeded data)) ∧
          (fs.BlockUsed d (b + 1) ∨ ∀ j < fs.blocksNeeded data, n.pointer j ≠ 0)

end Ext3Fs

/-- A call of the filesystem. -/
inductive FileCall
  | create (path : String)
  | write (depth : Nat) (path : String) (data : List UInt8)
  | delete (path : String)

namespace FileCall

variable (fs : Ext3Fs)

/-- The drive after the call, whether it succeeds or not. -/
def step (d : Drive) : FileCall → Drive
  | create path => ((fs.createFile path).exec d).2
  | write depth path data => ((fs.writeFile depth path data).exec d).2
  | delete path => ((fs.deleteFile path).exec d).2

/-- The call clears no mark that is needed, and a deletion that starts can be finished. -/
def Guarded (d : Drive) : FileCall → Prop
  | create _ => True
  | write _ path data => fs.WriteGuard (fs.liveInodes d) d path data
  | delete path => fs.DeleteGuard (fs.liveInodes d) d path

end FileCall

namespace Ext3Fs

variable {fs : Ext3Fs} {live : Set UInt32} {d d' : Drive} {i : UInt32}

theorem SinglyLinked.live_eq (h : fs.SinglyLinked live d) : live = fs.liveInodes d := by
  ext i
  constructor
  · exact fun hi => ⟨h.valid i hi, h.inode_used i hi⟩
  · rintro ⟨hvalid, hused⟩
    exact h.marked i hvalid hused

private theorem SinglyLinked.noSharing (h : fs.SinglyLinked live d) : fs.NoSharing d := by
  obtain rfl := h.live_eq
  exact ⟨h.disjoint, h.refs_nodup, h.block_used⟩

/-- Two live inodes have no pointer in common. -/
theorem NoSharing.pointer_ne {j : UInt32} {k l : Nat} (h : fs.NoSharing d)
    (hi : fs.ValidInode i ∧ fs.InodeUsed d i) (hj : fs.ValidInode j ∧ fs.InodeUsed d j)
    (hij : i ≠ j) (hk : k < 15) (hl : l < 15) (hset : (fs.inodeAt d i).pointer k ≠ 0) :
    (fs.inodeAt d i).pointer k ≠ (fs.inodeAt d j).pointer l := by
  intro heq
  have hmem : (fs.inodeAt d i).pointer k ∈ fs.refs d (fs.inodeAt d j) := by
    rw [heq] at hset ⊢
    exact pointer_mem_refs hl hset
  exact h.apart i hi j hj hij (pointer_mem_refs hk hset) hmem

/-! ### Writing -/

/-- An empty file has no excess blocks. -/
private theorem freedBlocks_emptyFile (lo : Nat) : fs.freedBlocks emptyFile lo = [] := by
  refine List.eq_nil_iff_forall_not_mem.mpr fun e he => ?_
  obtain ⟨hne, j, -, -, -, rfl⟩ := mem_freedBlocks.mp he
  exact hne (pointer_emptyFile j)

/-- The mark that a guarded write clears is not one of the file as it is afterwards. -/
theorem WriteGuard.unmarked {path : String} {data : List UInt8} {n inode' : Inode} {ft : UInt8}
    {d₁ : Drive} (hguard : fs.WriteGuard live d path data)
    (hwalk : fs.walk d 2 path = .ok (i, n, ft)) (hfile : n.isDir = false)
    (hr : fs.Rewritten d n data inode' d₁) {c : UInt32}
    (hc : fs.Unmarked n (fs.blocksNeeded data) c) : c ∉ fs.refs d₁ inode' := by
  obtain ⟨hspares, hown⟩ := hguard i n ft hwalk hfile
  obtain ⟨b, hb, hsucc⟩ := hc
  obtain rfl := eq_succ_of_toNat hsucc
  obtain ⟨hkept, hfree⟩ := hown b hb
  intro hmem
  rcases hr.fresh _ hmem with hold | ⟨hunused, j, hj, hzero⟩
  · -- a block the file had is either freed as well, or not there
    exact hr.released _ (hkept hold) hmem
  · -- a block it gets fills a hole and was free
    rcases hfree with hused | hfilled
    · exact hunused hused
    · exact hfilled j hj hzero

private theorem writeFile_ends {path : String} {data : List UInt8} (depth : Nat)
    (h : fs.SinglyLinked live d) (hguard : fs.WriteGuard live d path data) :
    Ends (fs.writeFile depth path data) d (fun _ d' => ∃ live', fs.SinglyLinked live' d')
      (fun d' => ∃ live', fs.SinglyLinked live' d') := by
  induction depth generalizing live d with
  | zero => exact Ends.throw ⟨live, h⟩
  | succ depth ih =>
    have hc := h.toConsistent
    cases hwalk : fs.walk d 2 path with
    | error e =>
      by_cases hmsg : ∃ msg, e = .error msg
      case neg =>
        exact Ends.of_exec_eq (writeFile_of_walk_panic hwalk (not_exists.mp hmsg) depth)
          (Ends.throw ⟨live, h⟩)
      case pos =>
      obtain ⟨msg, rfl⟩ := hmsg
      -- the file is created; the nested call finds it empty, or does not find it
      apply Ends.of_exec_eq (writeFile_of_walk_error hwalk depth)
      apply ((createFile_ends hc path).mono (fun _ _ hQ => hQ)
        fun _ hE => CreateFailed.singlyLinked h hE).bind
      rintro _ d' ⟨name, p, ino, rs, hcreated⟩
      apply ih (hcreated.singlyLinked h)
      intro i n ft hfound hfile
      rw [hcreated.walk_path] at hfound
      split at hfound
      · obtain ⟨rfl, rfl, rfl⟩ := Except.ok.inj hfound
        simp [freedBlocks_emptyFile, Spares]
      · cases hfound
    | ok found =>
      obtain ⟨i, n, ft⟩ := found
      obtain ⟨hi, rfl, rfl⟩ := hc.walk_live hwalk
      cases hfile : (fs.inodeAt d i).isDir with
      | true =>
        have hdir : fileType (fs.inodeAt d i) = FT_DIR := by rw [fileType, if_pos hfile]
        rw [writeFile]
        refine Ends.bind_read rfl ?_
        simp only [hwalk, if_pos hdir]
        exact Ends.throw ⟨live, h⟩
      | false =>
        have hreg : fileType (fs.inodeAt d i) ≠ FT_DIR := by
          rw [fileType, if_neg (by simp [hfile])]
          decide
        obtain ⟨hspares, -⟩ := hguard _ _ _ hwalk hfile
        apply Ends.of_exec_eq (writeFile_of_walk hwalk hreg depth)
        refine (saveFile_ends hc hi data).mono ?_ ?_
        · rintro _ d' ⟨inode', d₁, hsaved⟩
          refine ⟨live, Saved.singlyLinked h hsaved hfile fun c hun => ?_⟩
          obtain ⟨hmeta, hothers⟩ := hspares.unmarked hun
          exact ⟨hmeta, hothers, hguard.unmarked hwalk hfile hsaved.rewritten hun⟩
        · rintro d' (hleaked | ⟨e, he, hbig⟩)
          · exact ⟨live, h.leaked hleaked⟩
          · have hlt := (hspares e he).1
            omega

/-! ### Runs -/

/-- One call. -/
theorem SinglyLinked.step (h : fs.SinglyLinked live d) (call : FileCall)
    (hguard : call.Guarded fs d) : ∃ live', fs.SinglyLinked live' (call.step fs d) := by
  cases call with
  | create path =>
    refine Ends.final (E := fun t => ∃ live', fs.SinglyLinked live' t)
      ((createFile_ends h.toConsistent path).mono ?_ ?_)
    · rintro _ d' ⟨name, p, ino, rs, hcreated⟩
      exact ⟨_, hcreated.singlyLinked h⟩
    · exact fun _ hfailed => CreateFailed.singlyLinked h hfailed
  | write depth path data =>
    rw [FileCall.Guarded, ← h.live_eq] at hguard
    exact (writeFile_ends depth h hguard).final
  | delete path =>
    rw [FileCall.Guarded, ← h.live_eq] at hguard
    refine Ends.final (E := fun t => ∃ live', fs.SinglyLinked live' t)
      ((deleteFile_ends h hguard).mono ?_ ?_)
    · rintro _ d' ⟨name, i, p, rs, before, r, after, d₁, hdeleted⟩
      exact ⟨_, hdeleted.singlyLinked h⟩
    · rintro _ rfl
      exact ⟨live, h⟩

/-- **No block sharing**: in every run of guarded calls from a consistent filesystem no state shares
    a block. -/
theorem no_sharing_of_guarded (h : fs.SinglyLinked live d) (calls : List FileCall)
    (hguard : ∀ p ∈ steps (FileCall.step fs) d calls, p.2.Guarded fs p.1) :
    ∀ t ∈ states (FileCall.step fs) d calls, fs.NoSharing t := by
  intro t ht
  obtain ⟨live', hlinked⟩ := invariant_states (FileCall.step fs)
    (fun t => ∃ live, fs.SinglyLinked live t) (fun t call => call.Guarded fs t)
    (fun _ call hlinked hguarded => by
      obtain ⟨live', hlinked⟩ := hlinked
      exact hlinked.step call hguarded) d calls ⟨live, h⟩ hguard t ht
  exact hlinked.noSharing

end Ext3Fs

/-! ### Runs on a small volume -/

namespace Sample

private theorem entryInodes_diskWithFiles :
    ∀ p ∈ inodes, fs.entryInodes diskWithFiles p =
      if p = 2 then [11] else if p = 11 then [12, 13] else [] := by
  intro p hp
  by_cases hdir : (fs.inodeAt diskWithFiles p).isDir = true
  · rcases (isDir_diskWithFiles hp).mp hdir with rfl | rfl
    · exact (Ext3Fs.entryInodes_dir (.inl rfl) hdir read_root).trans (by rw [listed_rootEntries]; rfl)
    · exact (Ext3Fs.entryInodes_dir (.inl rfl) hdir read_files).trans (by rw [listed_files]; rfl)
  · have hother := mt (isDir_diskWithFiles hp).mpr hdir
    rw [Ext3Fs.entryInodes_file (by simpa using hdir), if_neg fun h => hother (.inl h),
      if_neg fun h => hother (.inr h)]

theorem singlyLinked_diskWithFiles : fs.SinglyLinked {i | i ∈ inodes} diskWithFiles where
  toConsistent := consistent_diskWithFiles
  marked := by
    intro i hvalid hused
    exact (inodeUsed_diskWithFiles hvalid.2).mp hused
  root_dir := (isDir_diskWithFiles (by decide)).mpr (.inl rfl)
  whole := by
    have hwhole : ∀ p ∈ ([2, 11] : List UInt32), ∀ j < 12,
        j * fs.blockSize < (nodeOf p).size.toNat → (nodeOf p).pointer j ≠ 0 := by
      decide
    intro p hp hdir
    rw [inodeAt_diskWithFiles hp]
    exact hwhole p (by simpa using (isDir_diskWithFiles hp).mp hdir)
  once := by
    intro p hp i _
    rw [entryInodes_diskWithFiles p hp]
    split
    · exact List.nodup_iff_count_le_one.mp (by decide) i
    split
    · exact List.nodup_iff_count_le_one.mp (by decide) i
    · simp
  apart := by
    intro p hp q hq hpq i hi hi'
    have hdis : ∀ p ∈ inodes, ∀ q ∈ inodes, p ≠ q →
        ∀ i ∈ if p = 2 then [11] else if p = 11 then [12, 13] else ([] : List UInt32),
          i ∉ if q = 2 then [11] else if q = 11 then [12, 13] else ([] : List UInt32) := by
      decide
    rw [entryInodes_diskWithFiles p hp] at hi
    rw [entryInodes_diskWithFiles q hq] at hi'
    exact absurd hi' (hdis p hp q hq hpq i hi)

/-- The deletion of `f` clears the mark of the block of `g`, and `h` is given that block. -/
def reuse : List FileCall := [.delete "/d/f", .write 2 "/d/h" [72]]

theorem deleted_block_shared :
    fs.SinglyLinked {i | i ∈ inodes} diskWithFiles ∧
      ¬∀ t ∈ states (FileCall.step fs) diskWithFiles reuse, fs.NoSharing t := by
  refine ⟨singlyLinked_diskWithFiles, fun hall => ?_⟩
  have hlast := hall _ (foldl_mem_states (FileCall.step fs) diskWithFiles reuse)
  set t := reuse.foldl (FileCall.step fs) diskWithFiles with ht
  -- the inodes 12, now of `h`, and 13 both point to the block 12
  obtain ⟨hh, hg, hset, heq⟩ : (fs.ValidInode 12 ∧ fs.InodeUsed t 12) ∧
      (fs.ValidInode 13 ∧ fs.InodeUsed t 13) ∧ (fs.inodeAt t 12).pointer 0 ≠ 0 ∧
        (fs.inodeAt t 12).pointer 0 = (fs.inodeAt t 13).pointer 0 := by
    rw [ht]
    decide +kernel
  exact hlast.pointer_ne hh hg (by decide) (by decide) (by decide) hset heq

/-- Where a path leads, from the inode number alone. -/
private theorem walk_diskWithFiles {path : String} {i j : UInt32} {n : Inode} {ft : UInt8}
    (hwalk : fs.walk diskWithFiles 2 path = .ok (i, n, ft))
    (hfirst : (fs.walk diskWithFiles 2 path).map Prod.fst = .ok j) :
    i = j ∧ n = fs.inodeAt diskWithFiles i := by
  rw [hwalk] at hfirst
  exact ⟨Except.ok.inj hfirst, (consistent_diskWithFiles.walk_live hwalk).2.1⟩

theorem deleteGuard_g : fs.DeleteGuard (fs.liveInodes diskWithFiles) diskWithFiles "/d/g" := by
  have hsplit₀ : Ext3Fs.splitParent "/d/g" = .ok ("/d", "g") := by decide
  have hfreed : fs.freedBlocks (fs.inodeAt diskWithFiles 13) 0 = [12] := by
    rw [inodeAt_diskWithFiles (by decide)]
    decide
  intro parent name p m ft i n ft' hsplit hparent hpath _
  obtain ⟨rfl, rfl⟩ := Prod.mk.inj (Except.ok.inj (hsplit₀.symm.trans hsplit))
  obtain ⟨rfl, rfl⟩ := walk_diskWithFiles (j := 11) hparent walks_diskWithFiles.2.1
  obtain ⟨rfl, rfl⟩ := walk_diskWithFiles (j := 13) hpath walks_diskWithFiles.2.2.2
  have hsize : (fs.inodeAt diskWithFiles 11).size.toNat ≤ 12 * fs.blockSize := by
    rw [inodeAt_diskWithFiles (by decide)]
    decide
  refine ⟨by decide, by decide, hsize, ?_⟩
  -- the block after 12 is free
  rw [hfreed, Ext3Fs.Spares, List.forall_mem_singleton, metadata_diskWithFiles]
  refine ⟨by decide, by decide, fun j hj _ => ?_⟩
  have hnone : ∀ j ∈ inodes, (12 : UInt32) + 1 ∉ blocksOf j := by decide
  rw [← singlyLinked_diskWithFiles.live_eq] at hj
  rw [refs_diskWithFiles hj]
  exact hnone j hj

/-- The file `g` is deleted, and another one created. -/
theorem no_sharing_after_delete :
    fs.NoSharing ([.delete "/d/g", .create "/d/h"].foldl (FileCall.step fs) diskWithFiles) :=
  Ext3Fs.no_sharing_of_guarded singlyLinked_diskWithFiles [.delete "/d/g", .create "/d/h"]
    (List.forall_mem_cons.mpr ⟨deleteGuard_g, List.forall_mem_cons.mpr ⟨trivial, by simp [steps]⟩⟩)
    _ (foldl_mem_states ..)

end Sample

end RustKernel.Fs
