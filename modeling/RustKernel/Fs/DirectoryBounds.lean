import RustKernel.Fs.Directory
import RustKernel.Lib.Buffer

/-!
# RustKernel.Fs.DirectoryBounds

The four loops over the entries of a directory, with the bounds of every read: an entry header and a
name have to lie in the buffer. `raw` can be any bytes, so every `rec_len` is untrusted.

## Main result

`scans_safe`: for every content and every name of 1 to 255 bytes the four loops end, with no read
out of bounds, and with the results of the functions that the other modules reason about.
-/

namespace RustKernel.Fs

open Lib

/-! ### Reads -/

/-- `&*(raw.as_ptr().add(off) as *const DirEntry)` -/
def headerAt (raw : List UInt8) (off : Nat) : Checked DirEntry :=
  if off + DIR_ENTRY_LEN ≤ raw.length then .ok (.ofBytes raw off) else .error .range

/-- A change of the `rec_len` of the header at `off`. -/
def setRecLen (raw : List UInt8) (off n : Nat) : Checked (List UInt8) :=
  if off + DIR_ENTRY_LEN ≤ raw.length then .ok (overwrite raw (off + 4) (leEncode 2 n))
  else .error .range

private theorem headerAt_ok {raw : List UInt8} {off : Nat} (h : off + 8 ≤ raw.length) :
    headerAt raw off = .ok (.ofBytes raw off) := if_pos h

private theorem setRecLen_ok {raw : List UInt8} {off : Nat} (h : off + 8 ≤ raw.length) (n : Nat) :
    setRecLen raw off n = .ok (overwrite raw (off + 4) (leEncode 2 n)) := if_pos h

private theorem slice_window {raw : List UInt8} {off n : Nat} (h : off + n ≤ raw.length) :
    slice raw off (off + n) = .ok (window raw off n) := by
  rw [slice, if_pos ⟨Nat.le_add_right _ _, h⟩, window, List.drop_take, Nat.add_sub_cancel_left]

/-! ### The loops -/

/-- A turn of the loop of `read_dir_inode`: the offset, and the entries so far. -/
def readDirTurn (raw : List UInt8) (len : Nat) (s : Nat × List Listing) :
    Checked (Turn (Nat × List Listing) (List Listing)) :=
  if s.1 < len ∧ s.1 + 8 ≤ len then do
    let de ← headerAt raw s.1
    if de.inode = 0 ∨ de.recLen.toNat = 0 then return .done s.2
    else
      let nameStart := s.1 + 8
      let nameEnd := nameStart + de.nameLen.toNat
      if nameEnd ≤ raw.length then do
        let bytes ← slice raw nameStart nameEnd
        let name := (fromUtf8 bytes).getD "<invalid>"
        let entries :=
          if name ≠ "." ∧ name ≠ ".." then s.2 ++ [(name, de.inode, de.fileType)] else s.2
        return .next (s.1 + de.recLen.toNat, entries)
      else return .next (s.1 + de.recLen.toNat, s.2)
  else return .done s.2

/-- A turn of the search of `dir_remove_entry`. -/
def searchTurn (raw : List UInt8) (len : Nat) (name : String) (prevOffset : Nat) :
    Checked (Turn Nat (Option (Nat × UInt32))) :=
  if prevOffset + 8 > len then return .done none
  else do
    let de ← headerAt raw prevOffset
    if de.inode = 0 ∨ de.recLen.toNat = 0 then return .done none
    else
      let nameOff := prevOffset + 8
      let nameEnd := nameOff + de.nameLen.toNat
      if nameEnd ≤ raw.length then do
        let bytes ← slice raw nameOff nameEnd
        if (fromUtf8 bytes).getD "" = name then return .done (some (prevOffset, de.inode))
        else return .next (prevOffset + de.recLen.toNat)
      else return .next (prevOffset + de.recLen.toNat)

/-- A turn of the loop of `dir_remove_entry` that looks for the entry in front of `foundAt`. -/
def predecessorTurn (raw : List UInt8) (foundAt : Nat) (recLen : UInt16) (scan : Nat) :
    Checked (Turn Nat (List UInt8)) := do
  let sde ← headerAt raw scan
  if sde.recLen.toNat = 0 then return .done raw
  else
    let nxt := scan + sde.recLen.toNat
    if nxt = foundAt then do
      let raw ← setRecLen raw scan (sde.recLen + recLen).toNat
      return .done raw
    else if nxt > foundAt then return .done raw
    else return .next nxt

/-- A turn of the loop of `dir_add_entry` that looks for the last entry before `newOffset`. -/
def lastTurn (raw : List UInt8) (newOffset prevOffset : Nat) : Checked (Turn Nat (List UInt8)) := do
  let de ← headerAt raw prevOffset
  if de.recLen.toNat = 0 then return .done raw
  else
    let next := prevOffset + de.recLen.toNat
    if next = newOffset then do
      let raw ← setRecLen raw prevOffset (newOffset - prevOffset)
      return .done raw
    else if next > newOffset then return .done raw
    else return .next next

/-! ### Each loop ends in its bounds -/

private theorem runLoop_readDir {raw : List UInt8} {len : Nat} (hlen : len ≤ raw.length)
    (offset : Nat)
    (entries : List Listing) {fuel : Nat} (hfuel : len - offset < fuel) :
    runLoop (readDirTurn raw len) fuel (offset, entries) =
      some (.ok (entries ++ listEntries raw len offset)) := by
  refine runLoop_eq (fun _ => True) (fun s : Nat × List Listing => len - s.1)
    (fun s => s.2 ++ listEntries raw len s.1) ?_ trivial hfuel
  rintro ⟨offset, entries⟩ -
  rw [readDirTurn]
  dsimp only
  by_cases hin : offset < len ∧ offset + 8 ≤ len
  · rw [if_pos hin, headerAt_ok (by omega), ok_bind, listEntries, if_pos hin]
    dsimp only
    by_cases hstop : (DirEntry.ofBytes raw offset).inode = 0 ∨
        (DirEntry.ofBytes raw offset).recLen.toNat = 0
    · rw [if_pos hstop, if_pos hstop, List.append_nil]
      exact .inl rfl
    · rw [if_neg hstop, if_neg hstop]
      right
      -- `rec_len` is not 0, so fewer bytes are left, with or without an entry
      have hdown : len - (offset + (DirEntry.ofBytes raw offset).recLen.toNat) < len - offset := by
        omega
      by_cases hname : offset + 8 + (DirEntry.ofBytes raw offset).nameLen.toNat ≤ raw.length
      · rw [if_pos hname, if_pos hname, slice_window hname, ok_bind]
        refine ⟨_, rfl, trivial, hdown, ?_⟩
        dsimp only
        split <;> simp
      · rw [if_neg hname, if_neg hname]
        exact ⟨_, rfl, trivial, hdown, rfl⟩
  · rw [if_neg hin, listEntries, if_neg hin, List.append_nil]
    exact .inl rfl

private theorem runLoop_search {raw : List UInt8} {len : Nat} (hlen : len ≤ raw.length)
    (name : String)
    (prevOffset : Nat) {fuel : Nat} (hfuel : len - prevOffset < fuel) :
    runLoop (searchTurn raw len name) fuel prevOffset =
      some (.ok (findEntry raw len name prevOffset)) := by
  refine runLoop_eq (fun _ => True) (fun off => len - off) (findEntry raw len name) ?_ trivial hfuel
  rintro off -
  rw [searchTurn]
  by_cases hout : off + 8 > len
  · rw [if_pos hout, findEntry, if_pos hout]
    exact .inl rfl
  · rw [if_neg hout, headerAt_ok (by omega), ok_bind, findEntry, if_neg hout]
    dsimp only
    by_cases hstop : (DirEntry.ofBytes raw off).inode = 0 ∨
        (DirEntry.ofBytes raw off).recLen.toNat = 0
    · rw [if_pos hstop, if_pos hstop]
      exact .inl rfl
    · rw [if_neg hstop, if_neg hstop]
      -- the entry is another one, or its name is cut off
      have hdown : len - (off + (DirEntry.ofBytes raw off).recLen.toNat) < len - off := by omega
      by_cases hname : off + 8 + (DirEntry.ofBytes raw off).nameLen.toNat ≤ raw.length
      · rw [if_pos hname, slice_window hname, ok_bind]
        by_cases hfound : (fromUtf8 (window raw (off + 8)
            (DirEntry.ofBytes raw off).nameLen.toNat)).getD "" = name
        · rw [if_pos hfound, if_pos ⟨hname, hfound⟩]
          exact .inl rfl
        · rw [if_neg hfound, if_neg fun h => hfound h.2]
          exact .inr ⟨_, rfl, trivial, hdown, rfl⟩
      · rw [if_neg hname, if_neg fun h => hname h.1]
        exact .inr ⟨_, rfl, trivial, hdown, rfl⟩

/-- The turn of both scans for the entry in front of `target`, whose `rec_len` becomes `newLen`. -/
def scanTurn (raw : List UInt8) (target : Nat) (newLen : Nat → DirEntry → Nat) (scan : Nat) :
    Checked (Turn Nat (List UInt8)) := do
  let de ← headerAt raw scan
  if de.recLen.toNat = 0 then return .done raw
  else
    let next := scan + de.recLen.toNat
    if next = target then do
      let raw ← setRecLen raw scan (newLen scan de)
      return .done raw
    else if next > target then return .done raw
    else return .next next

/-- A scan stays in front of the target, whose header is in the buffer. -/
private theorem runLoop_scan {raw : List UInt8} {target : Nat} (htarget : target + 8 ≤ raw.length)
    (newLen : Nat → DirEntry → Nat) {result : Nat → List UInt8}
    (hresult : ∀ scan, result scan =
      let de := DirEntry.ofBytes raw scan
      if de.recLen.toNat = 0 then raw
      else if scan + de.recLen.toNat = target then
        overwrite raw (scan + 4) (leEncode 2 (newLen scan de))
      else if scan + de.recLen.toNat > target then raw
      else result (scan + de.recLen.toNat))
    {scan : Nat} (hscan : scan ≤ target) {fuel : Nat} (hfuel : target - scan < fuel) :
    runLoop (scanTurn raw target newLen) fuel scan = some (.ok (result scan)) := by
  refine runLoop_eq (· ≤ target) (target - ·) result ?_ hscan hfuel
  intro scan hscan
  -- the header read is no further than that of the target
  have hin : scan + 8 ≤ raw.length := by omega
  rw [scanTurn, headerAt_ok hin, ok_bind, hresult]
  dsimp only
  by_cases hzero : (DirEntry.ofBytes raw scan).recLen.toNat = 0
  · rw [if_pos hzero, if_pos hzero]
    exact .inl rfl
  rw [if_neg hzero, if_neg hzero]
  by_cases heq : scan + (DirEntry.ofBytes raw scan).recLen.toNat = target
  · rw [if_pos heq, if_pos heq, setRecLen_ok hin]
    exact .inl rfl
  rw [if_neg heq, if_neg heq]
  by_cases hgt : scan + (DirEntry.ofBytes raw scan).recLen.toNat > target
  · rw [if_pos hgt, if_pos hgt]
    exact .inl rfl
  · rw [if_neg hgt, if_neg hgt]
    exact .inr ⟨_, rfl, by omega, by omega, rfl⟩

private theorem runLoop_predecessor {raw : List UInt8} {foundAt : Nat}
    (hfound : foundAt + 8 ≤ raw.length)
    (recLen : UInt16) {scan : Nat} (hscan : scan ≤ foundAt) {fuel : Nat}
    (hfuel : foundAt - scan < fuel) :
    runLoop (predecessorTurn raw foundAt recLen) fuel scan =
      some (.ok (mergePredecessor raw foundAt recLen scan)) := by
  have hresult := fun scan => mergePredecessor.eq_1 raw foundAt recLen scan
  exact runLoop_scan hfound (fun _ sde => (sde.recLen + recLen).toNat) hresult hscan hfuel

private theorem runLoop_last {raw : List UInt8} {newOffset : Nat}
    (hnew : newOffset + 8 ≤ raw.length)
    {prevOffset : Nat} (hprev : prevOffset ≤ newOffset) {fuel : Nat}
    (hfuel : newOffset - prevOffset < fuel) :
    runLoop (lastTurn raw newOffset) fuel prevOffset =
      some (.ok (relinkLast raw newOffset prevOffset)) := by
  have hresult := fun prevOffset => relinkLast.eq_1 raw newOffset prevOffset
  exact runLoop_scan hnew (fun prevOffset _ => newOffset - prevOffset) hresult hprev hfuel

/-! ### All four -/

/-- The buffer of `dir_add_entry` with the new entry, before the entry in front of it is changed. -/
def grownWith (raw : List UInt8) (name : String) (inodeNum : UInt32) (fileType : UInt8) :
    List UInt8 :=
  let recLen := UInt16.ofNat ((8 + name.utf8ByteSize + 3) / 4 * 4)
  let de : DirEntry := ⟨inodeNum, recLen, UInt8.ofNat name.utf8ByteSize, fileType⟩
  overwrite (overwrite (raw ++ List.replicate recLen.toNat 0) raw.length de.toBytes)
    (raw.length + 8) (asBytes name)

/-- The length of the new entry, for a name that is not too long. -/
private theorem entryLen_toNat {name : String} (hname : name.utf8ByteSize ≤ 255) :
    (UInt16.ofNat ((8 + name.utf8ByteSize + 3) / 4 * 4)).toNat =
      (8 + name.utf8ByteSize + 3) / 4 * 4 := by
  rw [UInt16.toNat_ofNat']
  omega

theorem DirEntry.length_toBytes (de : DirEntry) : de.toBytes.length = 8 := by
  simp [DirEntry.toBytes]

private theorem length_grownWith (raw : List UInt8) {name : String}
    (hname : name.utf8ByteSize ≤ 255)
    (inodeNum : UInt32) (fileType : UInt8) :
    (grownWith raw name inodeNum fileType).length =
      raw.length + (8 + name.utf8ByteSize + 3) / 4 * 4 := by
  have hlen := entryLen_toNat hname
  have hgrown : (raw ++ List.replicate
      (UInt16.ofNat ((8 + name.utf8ByteSize + 3) / 4 * 4)).toNat (0 : UInt8)).length =
      raw.length + (8 + name.utf8ByteSize + 3) / 4 * 4 := by
    rw [List.length_append, List.length_replicate, hlen]
  rw [grownWith, length_overwrite, length_overwrite, hgrown]
  · rw [hgrown, DirEntry.length_toBytes]
    omega
  · rw [length_overwrite, hgrown, length_asBytes]
    · omega
    · rw [hgrown, DirEntry.length_toBytes]
      omega

/-- `dir_add_entry` accepts the name, and changes the buffer with the new entry only by the scan. -/
private theorem addEntry_eq (raw : List UInt8) {name : String} (hpos : 1 ≤ name.utf8ByteSize)
    (hname : name.utf8ByteSize ≤ 255) (inodeNum : UInt32) (fileType : UInt8) :
    addEntry raw name inodeNum fileType = .ok (
      if raw.length > 0 then relinkLast (grownWith raw name inodeNum fileType) raw.length 0
      else grownWith raw name inodeNum fileType) := by
  have hlen := entryLen_toNat hname
  have hsmall : ¬UInt16.ofNat ((8 + name.utf8ByteSize + 3) / 4 * 4) < 12 := by
    rw [UInt16.lt_iff_toNat_lt, hlen]
    change ¬_ < 12
    omega
  rw [addEntry, if_neg hsmall, if_neg (by rw [hlen]; omega)]
  rfl

/-- The four loops over a directory with the contents `raw`: each ends within as many turns as there
    are bytes and one more, and no read is out of bounds. -/
structure ScansSafe (raw : List UInt8) (name : String) (inodeNum : UInt32) (fileType : UInt8) :
    Prop where
  readDir : runLoop (readDirTurn raw raw.length) (raw.length + 1) (0, []) =
    some (.ok (listEntries raw raw.length 0))
  search : runLoop (searchTurn raw raw.length name) (raw.length + 1) 0 =
    some (.ok (findEntry raw raw.length name 0))
  predecessor : ∀ foundAt ino, findEntry raw raw.length name 0 = some (foundAt, ino) →
    ∃ de, headerAt raw foundAt = .ok de ∧
      runLoop (predecessorTurn raw foundAt de.recLen) (raw.length + 1) 0 =
        some (.ok (mergePredecessor raw foundAt de.recLen 0))
  add : addEntry raw name inodeNum fileType =
    .ok (if raw.length > 0 then relinkLast (grownWith raw name inodeNum fileType) raw.length 0
      else grownWith raw name inodeNum fileType)
  last : runLoop (lastTurn (grownWith raw name inodeNum fileType) raw.length) (raw.length + 1) 0 =
    some (.ok (relinkLast (grownWith raw name inodeNum fileType) raw.length 0))

/-- Directory scans are safe for all bytes. -/
theorem scans_safe (raw : List UInt8) (name : String) (inodeNum : UInt32) (fileType : UInt8)
    (hpos : 1 ≤ name.utf8ByteSize) (hname : name.utf8ByteSize ≤ 255) :
    ScansSafe raw name inodeNum fileType where
  readDir := runLoop_readDir le_rfl 0 [] (by omega)
  search := runLoop_search le_rfl name 0 (by omega)
  predecessor := by
    intro foundAt ino hfound
    have hin : foundAt + 8 ≤ raw.length := findEntry_le hfound
    exact ⟨_, headerAt_ok hin, runLoop_predecessor hin _ (Nat.zero_le _) (by omega)⟩
  add := addEntry_eq raw hpos hname inodeNum fileType
  last := by
    have hlen := length_grownWith raw hname inodeNum fileType
    exact runLoop_last (by omega) (Nat.zero_le _) (by omega)

/-- An entry that reaches beyond the end, and five bytes behind it. -/
theorem scans_safe_hostile :
    ScansSafe [2, 0, 0, 0, 0xFF, 0xFF, 0xFF, 1, 0x61, 0x62, 0x63, 0x64, 0x65] "a" 3 1 := by
  have hsize : "a".utf8ByteSize = 1 := by decide +kernel
  exact scans_safe _ "a" 3 1 hsize.ge (by omega)

end RustKernel.Fs
