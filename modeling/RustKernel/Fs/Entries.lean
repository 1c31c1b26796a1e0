import RustKernel.Fs.Creating

/-!
# RustKernel.Fs.Entries

Filesystems in which every regular file has one entry, and the changes that keep them so.

`SinglyLinked live d` adds to consistency what deleting a file relies on: the inodes in `live` are
all that are marked used, the root is a directory, no block of a directory is missing, and a
regular file is listed at most once, over all directories.

## Main results

- `SinglyLinked.of_sublist`: a change that lists nothing new
- `Created.singlyLinked`, `CreateFailed.singlyLinked`: what `create_file` leaves
- `Saved.singlyLinked`: what saving a regular file leaves
-/

namespace RustKernel.Fs

open Lib

namespace Ext3Fs

variable (fs : Ext3Fs)

/-- The inode numbers a directory lists; a file lists none. -/
def entryInodes (d : Drive) (p : UInt32) : List UInt32 :=
  if (fs.inodeAt d p).isDir then
    match fs.readDirInode d (fs.inodeAt d p) with
    | .ok entries => entries.map (·.2.1)
    | .error _ => []
  else []

/-- No direct block within the size is missing. -/
def Whole (inode : Inode) : Prop :=
  ∀ j < 12, j * fs.blockSize < inode.size.toNat → inode.pointer j ≠ 0

/-- A consistent filesystem in which every regular file is listed at most once. -/
structure SinglyLinked (live : Set UInt32) (d : Drive) : Prop extends fs.Consistent live d where
  marked : ∀ i, fs.ValidInode i → fs.InodeUsed d i → i ∈ live
  root_dir : (fs.inodeAt d 2).isDir = true
  whole : ∀ p ∈ live, (fs.inodeAt d p).isDir = true → fs.Whole (fs.inodeAt d p)
  once : ∀ p ∈ live, ∀ i, (fs.inodeAt d i).isDir = false → (fs.entryInodes d p).count i ≤ 1
  apart : ∀ p ∈ live, ∀ q ∈ live, p ≠ q → ∀ i, i ∈ fs.entryInodes d p → i ∈ fs.entryInodes d q →
    (fs.inodeAt d i).isDir = true

variable {fs} {live live' : Set UInt32} {d d' : Drive} {i p ino : UInt32}

/-! ### Listed inodes -/

theorem entryInodes_file (hfile : (fs.inodeAt d p).isDir = false) : fs.entryInodes d p = [] := by
  rw [entryInodes, if_neg]
  simp [hfile]

theorem entryInodes_dir {rs : List Record} (h : fs.Sized)
    (hdir : (fs.inodeAt d p).isDir = true)
    (hread : fs.readFileInode d (fs.inodeAt d p) = .ok (encode rs)) :
    fs.entryInodes d p = (listed rs).map (·.2.1) := by
  rw [entryInodes, if_pos hdir, readDirInode_encode h hread]

theorem entryInodes_congr (hinode : fs.inodeAt d' p = fs.inodeAt d p)
    (hread : fs.readFileInode d' (fs.inodeAt d p) = fs.readFileInode d (fs.inodeAt d p)) :
    fs.entryInodes d' p = fs.entryInodes d p := by
  rw [entryInodes, entryInodes, hinode, readDirInode, readDirInode, hread]

private theorem Consistent.entryInodes_live (hc : fs.Consistent live d) (hp : p ∈ live) :
    ∀ i ∈ fs.entryInodes d p, i ∈ live := by
  intro i hi
  cases hdir : (fs.inodeAt d p).isDir with
  | false =>
    rw [entryInodes_file hdir] at hi
    cases hi
  | true =>
    obtain ⟨rs, hread, hlive⟩ := hc.dirs p hp hdir
    rw [entryInodes_dir hc.sized hdir hread] at hi
    obtain ⟨e, he, rfl⟩ := List.mem_map.mp hi
    exact hlive e he

private theorem Kept.entryInodes_eq (hc : fs.Consistent live d) (h : fs.Kept live d d')
    (hp : p ∈ live) :
    fs.entryInodes d' p = fs.entryInodes d p := by
  have hread := h.contents hc hp
  rw [h.inodes p hp] at hread
  exact entryInodes_congr (h.inodes p hp) hread

/-! ### Changes of the entries -/

/-- Nothing new is listed. -/
theorem SinglyLinked.of_sublist (h : fs.SinglyLinked live d) (hc : fs.Consistent live' d')
    (hmarked : ∀ i, fs.ValidInode i → fs.InodeUsed d' i → i ∈ live')
    (hkind : ∀ i ∈ live, i ∈ live' → (fs.inodeAt d' i).isDir = (fs.inodeAt d i).isDir)
    (hwhole : ∀ p ∈ live', (fs.inodeAt d' p).isDir = true → fs.Whole (fs.inodeAt d' p))
    (hentries : ∀ p ∈ live', fs.entryInodes d' p = [] ∨
      p ∈ live ∧ (fs.entryInodes d' p).Sublist (fs.entryInodes d p)) :
    fs.SinglyLinked live' d' where
  toConsistent := hc
  marked := hmarked
  root_dir := (hkind 2 h.root hc.root).trans h.root_dir
  whole := hwhole
  once := by
    intro p hp i hfile
    rcases hentries p hp with hnone | ⟨hlive, hsub⟩
    · simp [hnone]
    by_cases hi : i ∈ fs.entryInodes d' p
    · have hold := h.entryInodes_live hlive i (hsub.subset hi)
      have hsame := hkind i hold (hc.entryInodes_live hp i hi)
      exact (hsub.count_le i).trans (h.once p hlive i (hsame.symm.trans hfile))
    · rw [List.count_eq_zero_of_not_mem hi]
      exact Nat.zero_le 1
  apart := by
    intro p hp q hq hpq i hi hi'
    rcases hentries p hp with hnone | ⟨hlive, hsub⟩
    · rw [hnone] at hi
      cases hi
    rcases hentries q hq with hnone | ⟨hlive', hsub'⟩
    · rw [hnone] at hi'
      cases hi'
    -- two directories that share a file now shared it before
    have hold := hsub.subset hi
    rw [hkind i (h.entryInodes_live hlive i hold) (hc.entryInodes_live hp i hi)]
    exact h.apart p hlive q hlive' hpq i hold (hsub'.subset hi')

/-- The inode `ino` may join the live ones, and the directory `q` list it. -/
private theorem SinglyLinked.add_entry (h : fs.SinglyLinked live d) (q ino : UInt32)
    (hc : fs.Consistent (insert ino live) d') (hnew : ino ∉ live)
    (hfile : (fs.inodeAt d' ino).isDir = false)
    (hmarked : ∀ i, fs.ValidInode i → fs.InodeUsed d' i → i ∈ insert ino live)
    (hkind : ∀ i ∈ live, (fs.inodeAt d' i).isDir = (fs.inodeAt d i).isDir)
    (hwhole : ∀ p ∈ live, (fs.inodeAt d' p).isDir = true → fs.Whole (fs.inodeAt d' p))
    (hothers : ∀ p ∈ live, p ≠ q → fs.entryInodes d' p = fs.entryInodes d p)
    (hself : (fs.entryInodes d' q).Sublist (fs.entryInodes d q ++ [ino])) :
    fs.SinglyLinked (insert ino live) d' := by
  have hnone : fs.entryInodes d' ino = [] := entryInodes_file hfile
  -- what is listed was listed before, or is the new inode in `q`
  have hold : ∀ p ∈ live, ∀ i ∈ fs.entryInodes d' p,
      i ∈ fs.entryInodes d p ∨ p = q ∧ i = ino := by
    intro p hp i hi
    by_cases hpq : p = q
    · subst hpq
      rcases List.mem_append.mp (hself.subset hi) with hi | hi
      · exact .inl hi
      · exact .inr ⟨rfl, List.mem_singleton.mp hi⟩
    · rw [hothers p hp hpq] at hi
      exact .inl hi
  have hunlisted : ∀ p ∈ live, ino ∉ fs.entryInodes d p :=
    fun p hp hmem => hnew (h.entryInodes_live hp ino hmem)
  refine
    { toConsistent := hc
      marked := hmarked
      root_dir := (hkind 2 h.root).trans h.root_dir
      whole := ?_
      once := ?_
      apart := ?_ }
  · rintro p (rfl | hp) hdir
    · rw [hfile] at hdir
      cases hdir
    · exact hwhole p hp hdir
  · rintro p (rfl | hp) i hifile
    · rw [hnone]
      exact Nat.zero_le 1
    have hcount : (fs.entryInodes d' p).count i ≤ (fs.entryInodes d p).count i + [ino].count i := by
      by_cases hpq : p = q
      · subst hpq
        rw [← List.count_append]
        exact hself.count_le i
      · rw [hothers p hp hpq]
        exact Nat.le_add_right _ _
    by_cases hi : i ∈ fs.entryInodes d' p
    · by_cases hino : i = ino
      · subst hino
        rw [List.count_eq_zero_of_not_mem (hunlisted p hp)] at hcount
        simpa using hcount
      · have hbefore := (hold p hp i hi).resolve_right fun heq => hino heq.2
        have hlive := h.entryInodes_live hp i hbefore
        have hle := h.once p hp i ((hkind i hlive).symm.trans hifile)
        have hzero : [ino].count i = 0 := List.count_eq_zero_of_not_mem (by simpa using hino)
        omega
    · rw [List.count_eq_zero_of_not_mem hi]
      exact Nat.zero_le 1
  · rintro p (rfl | hp) r (rfl | hr) hpr i hi hi'
    · exact absurd rfl hpr
    · rw [hnone] at hi
      cases hi
    · rw [hnone] at hi'
      cases hi'
    rcases hold p hp i hi with hi | ⟨rfl, rfl⟩
    · rcases hold r hr i hi' with hi' | ⟨rfl, rfl⟩
      · rw [hkind i (h.entryInodes_live hp i hi)]
        exact h.apart p hp r hr hpr i hi hi'
      · exact absurd hi (hunlisted p hp)
    · rw [hothers r hr (Ne.symm hpr)] at hi'
      exact absurd hi' (hunlisted r hr)

/-- Nothing happens to the live inodes, and none joins them. -/
theorem SinglyLinked.kept (h : fs.SinglyLinked live d) (hk : fs.Kept live d d')
    (hmarks : ∀ i, fs.InodeUsed d' i → fs.InodeUsed d i) : fs.SinglyLinked live d' := by
  apply h.of_sublist (hk.consistent h.toConsistent)
  · exact fun i hvalid hused => h.marked i hvalid (hmarks i hused)
  · exact fun i hi _ => by rw [hk.inodes i hi]
  · intro p hp hdir
    rw [hk.inodes p hp] at hdir ⊢
    exact h.whole p hp hdir
  · exact fun p hp => .inr ⟨hp, by rw [hk.entryInodes_eq h.toConsistent hp]⟩

/-! ### Blocks marked used and nothing else -/

private theorem Leaked.kept_live (hc : fs.Consistent live d) (h : fs.Leaked d d') :
    fs.Kept live d d' := by
  have hdesc := h.step.others _ hc.bitmap_ne.symm
  refine ⟨h.step.healthy, hdesc, fun i hi => ?_, fun i hi b hb => ?_, h.kept, fun i hi => ?_⟩
  · exact inodeAt_congr (descriptor_congr hdesc)
      (h.step.others _ (hc.toLayout.slotBlock_ne (hc.valid i hi)).2.1)
  · exact h.step.others b ((hc.sound hi).apart b hb).2
  · rwa [InodeUsed, descriptor_congr hdesc, h.step.others _ hc.toLayout.inodeBitmap_ne.2]

theorem Leaked.inodeUsed_iff (hc : fs.Consistent live d) (h : fs.Leaked d d') (i : UInt32) :
    fs.InodeUsed d' i ↔ fs.InodeUsed d i := by
  rw [InodeUsed, InodeUsed, descriptor_congr (h.step.others _ hc.bitmap_ne.symm),
    h.step.others _ hc.toLayout.inodeBitmap_ne.2]

theorem SinglyLinked.leaked (h : fs.SinglyLinked live d) (hl : fs.Leaked d d') :
    fs.SinglyLinked live d' :=
  h.kept (hl.kept_live h.toConsistent) fun i hi => (hl.inodeUsed_iff h.toConsistent i).mp hi

/-! ### Creating a file -/

namespace Joined

variable {changed : Set UInt32}

private theorem marked (h : fs.SinglyLinked live d) (hj : fs.Joined changed live d ino d') :
    ∀ i, fs.ValidInode i → fs.InodeUsed d' i → i ∈ insert ino live := by
  intro i hvalid hused
  rcases (hj.inode_used i).mp hused with hold | rfl
  · exact .inr (h.marked i hvalid hold)
  · exact .inl rfl

private theorem isDir_new (hj : fs.Joined changed live d ino d') :
    (fs.inodeAt d' ino).isDir = false := by
  rw [hj.empty]
  rfl

private theorem entryInodes_eq (hj : fs.Joined changed live d ino d') (hp : p ∈ live)
    (hsame : p ∉ changed) : fs.entryInodes d' p = fs.entryInodes d p := by
  have hread := hj.contents p hp hsame
  rw [hj.inodes p hp hsame] at hread
  exact entryInodes_congr (hj.inodes p hp hsame) hread

/-- The inode that has been taken is live; nothing lists it. -/
theorem singlyLinked (h : fs.SinglyLinked live d) (hj : fs.Joined ∅ live d ino d') :
    fs.SinglyLinked (insert ino live) d' := by
  have hinode : ∀ i ∈ live, fs.inodeAt d' i = fs.inodeAt d i :=
    fun i hi => hj.inodes i hi (Set.notMem_empty i)
  apply h.of_sublist hj.consistent (hj.marked h)
  · exact fun i hi _ => by rw [hinode i hi]
  · rintro p (rfl | hp) hdir
    · rw [hj.isDir_new] at hdir
      cases hdir
    · rw [hinode p hp] at hdir ⊢
      exact h.whole p hp hdir
  · rintro p (rfl | hp)
    · exact .inl (entryInodes_file hj.isDir_new)
    · exact .inr ⟨hp, by rw [hj.entryInodes_eq hp (Set.notMem_empty p)]⟩

end Joined

theorem Created.singlyLinked {path name : String} {rs : List Record} (h : fs.SinglyLinked live d)
    (hcr : fs.Created live d path name p ino rs d') : fs.SinglyLinked (insert ino live) d' := by
  have hj := hcr.toJoined
  have hkind : ∀ i ∈ live, (fs.inodeAt d' i).isDir = (fs.inodeAt d i).isDir := hcr.outgrows.kind
  apply h.add_entry p ino hcr.consistent hcr.notMem hj.isDir_new (hj.marked h) hkind
  · intro q hq hdir
    by_cases hqp : q = p
    · subst hqp
      exact fun j _ hin => hcr.filled j hin
    · rw [hcr.inodes q hq hqp] at hdir ⊢
      exact h.whole q hq hdir
  · exact fun q hq hne => hj.entryInodes_eq hq hne
  · obtain ⟨rs', hread, hlisted⟩ := hcr.raw_after
    rw [entryInodes_dir h.sized ((hkind p hcr.mem).trans hcr.dir) hread,
      entryInodes_dir h.sized hcr.dir hcr.raw, hlisted, List.map_append]
    apply List.Sublist.append_left
    split
    · exact List.Sublist.refl _
    · exact List.nil_sublist _

theorem CreateFailed.singlyLinked (h : fs.SinglyLinked live d) (hf : fs.CreateFailed live d d') :
    ∃ live', fs.SinglyLinked live' d' := by
  rcases hf with rfl | ⟨ino, hj⟩
  · exact ⟨live, h⟩
  · exact ⟨_, hj.singlyLinked h⟩

/-! ### Saving a file -/

theorem Rewritten.whole {inode inode' : Inode} {data : List UInt8} (h : fs.Sized)
    (hr : fs.Rewritten d inode data inode' d') : fs.Whole inode' := by
  intro j hj hin
  have hlen := hr.length
  apply hr.filled
  have hbounds := h.bounds
  rw [hr.size, UInt32.toNat_ofNat', Nat.mod_eq_of_lt (by omega)] at hin
  rw [blocksNeeded, h.lt_blocks_iff]
  exact hin

namespace Replaced

variable {data : List UInt8} {inode' : Inode} {d₁ d₂ : Drive}

/-- A directory that is saved has all its blocks. -/
theorem whole (h : fs.Replaced live d i data inode' d₁ d₂)
    (hw : ∀ p ∈ live, (fs.inodeAt d p).isDir = true → fs.Whole (fs.inodeAt d p)) :
    ∀ p ∈ live, (fs.inodeAt d₂ p).isDir = true → fs.Whole (fs.inodeAt d₂ p) := by
  intro p hp hdir
  by_cases hpi : p = i
  · subst hpi
    rw [h.inodeAt_self]
    exact h.rewritten.whole h.before.sized
  · rw [h.isDir_eq hp] at hdir
    rw [h.inodeAt_other (h.before.valid p hp) hpi]
    exact hw p hp hdir

theorem entryInodes_other (h : fs.Replaced live d i data inode' d₁ d₂) (hp : p ∈ live)
    (hne : p ≠ i) : fs.entryInodes d₂ p = fs.entryInodes d p := by
  have hinode := h.inodeAt_other (h.before.valid p hp) hne
  have hread := h.contents_other hp hne
  rw [hinode] at hread
  exact entryInodes_congr hinode hread

end Replaced

/-- Saving a regular file. -/
theorem Saved.singlyLinked {data : List UInt8} {inode' : Inode} {d₁ d₂ : Drive}
    (h : fs.SinglyLinked live d) (hs : fs.Saved live d i data inode' d₁ d₂)
    (hfile : (fs.inodeAt d i).isDir = false)
    (hsafe : ∀ b, fs.Unmarked (fs.inodeAt d i) (fs.blocksNeeded data) b →
      b ∉ fs.metadata d ∧ (∀ j ∈ live, j ≠ i → b ∉ fs.refs d (fs.inodeAt d j)) ∧
        b ∉ fs.refs d₁ inode') : fs.SinglyLinked live d₂ := by
  have hr := hs.replaced
  have hdir : ∀ p ∈ live, (fs.inodeAt d₂ p).isDir = (fs.inodeAt d p).isDir :=
    fun p hp => hr.isDir_eq hp
  apply h.of_sublist
  · apply hs.consistent hsafe
    intro hisdir
    rw [hfile] at hisdir
    cases hisdir
  · exact fun j hvalid hused => h.marked j hvalid ((hr.inodeUsed_iff j).mp hused)
  · exact fun p hp _ => hdir p hp
  · exact hr.whole h.whole
  · intro p hp
    by_cases hpi : p = i
    · subst hpi
      exact .inl (entryInodes_file ((hdir p hp).trans hfile))
    · exact .inr ⟨hp, by rw [hr.entryInodes_other hp hpi]⟩

end Ext3Fs

end RustKernel.Fs
