import RustKernel.Fs.Directory
import RustKernel.Fs.Writing

/-!
# RustKernel.Fs.DirectoryCalls

The functions of the code that read and write a directory, on a directory made of records.

Neither `dir_add_entry` nor `dir_remove_entry` makes the contents shorter, so the write they end
with frees no block: it leaves the volume and the directory sound, and when it fails it has only
marked blocks used.
-/

namespace RustKernel.Fs

open Lib

namespace Ext3Fs

variable {fs : Ext3Fs} {d d' : Drive} {inode inode' : Inode} {rs : List Record}

theorem readDirInode_encode (h : fs.Sized)
    (hread : fs.readFileInode d inode = .ok (encode rs)) :
    fs.readDirInode d inode = .ok (listed rs) := by
  have hlen := length_readFileInode h hread
  have hlist := listEntries_encode [] rs
  rw [readDirInode, hread, ← hlen]
  exact congrArg Except.ok hlist

theorem Leaked.refl (hd : d.Healthy) : fs.Leaked d d := ⟨BitmapStep.refl hd, fun _ hb => hb⟩

/-- A write that does not shrink the file frees no block, so it cannot panic. -/
theorem WriteFailed.leaked {data : List UInt8} (hgrow : inode.size.toNat ≤ data.length)
    (h : fs.WriteFailed d inode data d') : fs.Leaked d d' := by
  refine h.resolve_right ?_
  rintro ⟨e, he, -⟩
  rw [freedBlocks_eq_nil hgrow] at he
  cases he

theorem dirAddEntry_ends (hv : fs.Volume d) (hs : fs.Sound d inode)
    (hread : fs.readFileInode d inode = .ok (encode rs)) (name : String) (ino : UInt32)
    (fileType : UInt8) :
    Ends (fs.dirAddEntry inode name ino fileType) d
      (fun inode' d' => ∃ fits, inode.size.toNat ≤
          (encode (rs ++ [newRecord name ino fileType fits])).length ∧
        fs.Rewritten d inode (encode (rs ++ [newRecord name ino fileType fits])) inode' d')
      (fs.Leaked d) := by
  have hlen := length_readFileInode hv.sized hread
  refine Ends.bind_read hread (Ends.bind_reading (fun raw' hadd => ?_)
    fun _ _ => Leaked.refl hv.healthy)
  obtain ⟨fits, rfl⟩ := addEntry_encode hadd
  have hgrow : inode.size.toNat ≤ (encode (rs ++ [newRecord name ino fileType fits])).length := by
    rw [← hlen, encode_append, List.length_append]
    omega
  exact (writeFileData_ends hv hs _).mono (fun _ _ h => ⟨fits, hgrow, h⟩) fun _ h => h.leaked hgrow

theorem dirRemoveEntry_ends (hv : fs.Volume d) (hs : fs.Sound d inode)
    (hread : fs.readFileInode d inode = .ok (encode rs)) (name : String) :
    Ends (fs.dirRemoveEntry inode name) d
      (fun r d' => ∃ before s after rs', locate name rs = some (before, s, after) ∧
        r.2 = s.inode ∧ Removed before s after rs' ∧
        inode.size.toNat ≤ (encode rs').length ∧ fs.Rewritten d inode (encode rs') r.1 d')
      (fs.Leaked d) := by
  have hlen := length_readFileInode hv.sized hread
  refine Ends.bind_read hread (Ends.bind_reading (fun ⟨raw', ino⟩ hremove => ?_)
    fun _ _ => Leaked.refl hv.healthy)
  rw [← hlen] at hremove
  have hle := le_length_removeEntry hremove
  refine ((writeFileData_ends hv hs raw').mono (fun _ _ h => h)
    fun _ h => h.leaked (hlen ▸ hle)).bind fun inode' d' hw => Ends.pure ?_
  -- a directory that was written fits in 12 blocks, so no `rec_len` overflows
  have hsmall : (encode rs).length < 2 ^ 16 := by
    have hraw := hw.length
    have hbounds := hv.sized.bounds
    omega
  obtain ⟨before, s, after, rs', hloc, hino, hremoved, rfl⟩ := removeEntry_encode hsmall hremove
  exact ⟨before, s, after, rs', hloc, hino, hremoved, hlen ▸ hle, hw⟩

/-- Removing an entry that is there, from a directory of direct blocks none of which is missing. -/
theorem dirRemoveEntry_returns (hv : fs.Volume d) (hs : fs.Sound d inode)
    (hread : fs.readFileInode d inode = .ok (encode rs))
    (hsmall : inode.size.toNat ≤ 12 * fs.blockSize)
    (hfilled : ∀ j < 12, j * fs.blockSize < inode.size.toNat → inode.pointer j ≠ 0) {name : String}
    {before after : List Record} {s : Record} (hloc : locate name rs = some (before, s, after)) :
    Ends (fs.dirRemoveEntry inode name) d
      (fun r d' => ∃ rs', Removed before s after rs' ∧
        fs.Rewritten d inode (encode rs') r.1 d') (fun _ => False) := by
  have hlen := length_readFileInode hv.sized hread
  have hbounds := hv.sized.bounds
  obtain ⟨rs', hremoved, hremove⟩ := removeEntry_located (by omega) hloc
  obtain ⟨rfl, -⟩ := locate_some hloc
  have hsame := hremoved.length_encode
  have hblocks : ∀ j, j < fs.blocksNeeded (encode rs') ↔ j * fs.blockSize < inode.size.toNat := by
    intro j
    rw [blocksNeeded, hsame, hlen, hv.sized.lt_blocks_iff]
  rw [hlen] at hremove
  refine Ends.bind_read hread (Ends.bind_read hremove ?_)
  have hroom : fs.blocksNeeded (encode rs') ≤ 12 := by
    by_contra hmany
    have hlast := (hblocks 12).mp (by omega)
    omega
  refine (writeFileData_returns hv hs hroom (fun j hj => ?_) (by omega)).bind ?_
  · exact hfilled j (by omega) ((hblocks j).mp hj)
  · exact fun inode' d' hw => Ends.pure ⟨rs', hremoved, hw⟩

end Ext3Fs

end RustKernel.Fs
