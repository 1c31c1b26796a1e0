import Mathlib.Data.List.TakeWhile
import RustKernel.Fs.Ext3

/-!
# RustKernel.Fs.Directory

The contents of a directory as a list of records, and what the three loops of the code over the
raw bytes do to that list.

A `Record` is a directory entry with its name and the slack up to the next entry; `encode` lays
records out one after the other, so a directory whose bytes are `encode rs` is a `rec_len` chain
that ends exactly at its size. A record with inode number 0 is dead.

## Main results

- `listEntries_encode`: the reader lists the entries before the first dead record
- `findEntry_encode`: the search finds the first entry of that name before the first dead record
- `addEntry_encode`: an added entry is a new last record
- `removeEntry_encode`: a removed record is absorbed by its predecessor, unless it is the first
  or the last one, which dies in place

## Proof strategy

Each loop is run on `as ++ encode rs` from offset `as.length`, by induction on `rs`: the bytes
`as` already passed are arbitrary.
-/

namespace RustKernel.Fs

open Lib

/-! ### Text -/

theorem length_asBytes (s : String) : (asBytes s).length = s.utf8ByteSize := by
  rfl

theorem fromUtf8_asBytes (s : String) : fromUtf8 (asBytes s) = some s := by
  simp only [fromUtf8, asBytes, String.fromUTF8?]
  exact dif_pos s.isValidUTF8

theorem asBytes_of_fromUtf8 {bytes : List UInt8} {s : String} (h : fromUtf8 bytes = some s) :
    asBytes s = bytes := by
  rw [fromUtf8, String.fromUTF8?] at h
  split at h
  · obtain rfl := Option.some.inj h
    rfl
  · cases h

/-! ### Records -/

/-- A directory entry with its name and the bytes up to the next entry. The bounds are those of the
    header fields `name_len` and `rec_len`. -/
@[ext]
structure Record where
  inode : UInt32
  fileType : UInt8
  name : List UInt8
  slack : List UInt8
  name_lt : name.length < 2 ^ 8
  len_lt : 8 + name.length + slack.length < 2 ^ 16

namespace Record

/-- The value of `rec_len`. -/
def len (r : Record) : Nat := 8 + r.name.length + r.slack.length

def header (r : Record) : DirEntry :=
  ⟨r.inode, UInt16.ofNat r.len, UInt8.ofNat r.name.length, r.fileType⟩

def toBytes (r : Record) : List UInt8 := r.header.toBytes ++ (r.name ++ r.slack)

/-- The entry is in use. -/
def live (r : Record) : Bool := r.inode != 0

/-- The record with its inode number cleared. -/
def dead (r : Record) : Record := { r with inode := 0 }

/-- The name as the search of `dir_remove_entry` reads it. -/
def text (r : Record) : String := (fromUtf8 r.name).getD ""

/-- The entry as `read_dir_inode` lists it; `.` and `..` are left out. -/
def listing (r : Record) : Option Listing :=
  let name := (fromUtf8 r.name).getD "<invalid>"
  if name ≠ "." ∧ name ≠ ".." then some (name, r.inode, r.fileType) else none

private theorem len_pos (r : Record) : 8 ≤ r.len := by
  simp only [len]
  omega

@[simp] theorem toNat_recLen (r : Record) : r.header.recLen.toNat = r.len := by
  simp only [header, UInt16.toNat_ofNat']
  exact Nat.mod_eq_of_lt r.len_lt

@[simp] theorem toNat_nameLen (r : Record) : r.header.nameLen.toNat = r.name.length := by
  simp only [header, UInt8.toNat_ofNat']
  exact Nat.mod_eq_of_lt r.name_lt

@[simp] theorem length_toBytes (r : Record) : r.toBytes.length = r.len := by
  simp [toBytes, DirEntry.toBytes, len]
  omega

@[simp] theorem len_dead (r : Record) : r.dead.len = r.len := rfl

@[simp] theorem live_dead (r : Record) : r.dead.live = false := rfl

private theorem live_eq_false_iff (r : Record) : r.live = false ↔ r.header.inode = 0 := by
  simp [live, header]

end Record

/-- The bytes of a directory whose records are `rs`. -/
def encode (rs : List Record) : List UInt8 := rs.flatMap Record.toBytes

@[simp] theorem encode_nil : encode [] = [] := rfl

@[simp] theorem encode_cons (r : Record) (rs : List Record) :
    encode (r :: rs) = r.toBytes ++ encode rs := rfl

theorem encode_append (rs ss : List Record) : encode (rs ++ ss) = encode rs ++ encode ss :=
  List.flatMap_append

/-- The entries the reader lists: those before the first dead record. -/
def listed (rs : List Record) : List Listing := (rs.takeWhile Record.live).filterMap Record.listing

private theorem listed_append {rs : List Record} (h : ∀ r ∈ rs, r.live = true) (ss : List Record) :
    listed (rs ++ ss) = listed rs ++ listed ss := by
  rw [listed, listed, listed, List.takeWhile_append_of_pos h, List.filterMap_append,
    List.takeWhile_eq_self_iff.mpr h]

/-- What follows a dead record is not listed. -/
private theorem listed_append_of_dead {rs : List Record} (h : ¬∀ r ∈ rs, r.live = true)
    (ss : List Record) : listed (rs ++ ss) = listed rs := by
  rw [listed, listed, List.takeWhile_append, if_neg]
  intro hlen
  exact h (List.takeWhile_eq_self_iff.mp ((List.takeWhile_prefix _).eq_of_length hlen))

/-! ### One record in the middle of the bytes -/

section AtOffset

variable (as bs : List UInt8) (r : Record)

private theorem DirEntry.ofBytes_append (de : DirEntry) :
    DirEntry.ofBytes (as ++ (de.toBytes ++ bs)) as.length = de := by
  have hinode : u32At (as ++ (de.toBytes ++ bs)) as.length = de.inode := by
    have h := u32At_append_right as (de.toBytes ++ bs) 0
    rw [Nat.add_zero] at h
    rw [h, DirEntry.toBytes, List.append_assoc, u32At_leEncode]
  have hrecLen : u16At (as ++ (de.toBytes ++ bs)) (as.length + 4) = de.recLen := by
    have h := u16At_append_right (leEncode 4 de.inode.toNat)
      (leEncode 2 de.recLen.toNat ++ [de.nameLen, de.fileType] ++ bs) 0
    rw [length_leEncode, Nat.add_zero] at h
    rw [u16At_append_right, DirEntry.toBytes, List.append_assoc, h, List.append_assoc,
      u16At_leEncode]
  have hlast : ∀ k, (as ++ (de.toBytes ++ bs)).getD (as.length + (6 + k)) 0 =
      ([de.nameLen, de.fileType] ++ bs).getD k 0 := by
    intro k
    have h := getD_append_right (leEncode 4 de.inode.toNat ++ leEncode 2 de.recLen.toNat)
      ([de.nameLen, de.fileType] ++ bs) k
    rw [getD_append_right, DirEntry.toBytes, List.append_assoc, ← h]
    simp only [List.append_assoc, List.length_append, length_leEncode]
  have hnameLen := hlast 0
  have hfileType := hlast 1
  rw [DirEntry.ofBytes, hinode, hrecLen, hnameLen, hfileType]
  rfl

private theorem header_at : DirEntry.ofBytes (as ++ (r.toBytes ++ bs)) as.length = r.header := by
  rw [Record.toBytes, List.append_assoc]
  exact DirEntry.ofBytes_append as _ r.header

private theorem name_at : window (as ++ (r.toBytes ++ bs))
    (as.length + 8) r.name.length = r.name := by
  have hlen : (as ++ r.header.toBytes).length = as.length + 8 := by simp [DirEntry.toBytes]
  rw [Record.toBytes, List.append_assoc, ← List.append_assoc, ← hlen,
    ← Nat.add_zero (as ++ r.header.toBytes).length, window_append_right, List.append_assoc,
    window_append_left _ _ _ _ (by omega), window_all]

end AtOffset

/-! ### The reader -/

/-- The reader's loop lists the entries up to the first dead record. -/
theorem listEntries_encode (as : List UInt8) (rs : List Record) :
    listEntries (as ++ encode rs) (as ++ encode rs).length as.length = listed rs := by
  induction rs generalizing as with
  | nil =>
    rw [listEntries, if_neg (by simp)]
    rfl
  | cons r rs ih =>
    have hpos := r.len_pos
    have hnext := ih (as ++ r.toBytes)
    rw [List.append_assoc, ← encode_cons,
      show (as ++ r.toBytes).length = as.length + r.len by simp] at hnext
    have hroom : as.length < (as ++ encode (r :: rs)).length ∧
        as.length + 8 ≤ (as ++ encode (r :: rs)).length := by
      simp only [encode_cons, List.length_append, Record.length_toBytes]
      omega
    have hname : as.length + 8 + r.name.length ≤ (as ++ encode (r :: rs)).length := by
      simp only [encode_cons, List.length_append, Record.length_toBytes, Record.len]
      omega
    have hheader : DirEntry.ofBytes (as ++ encode (r :: rs)) as.length = r.header := header_at ..
    have htext : window (as ++ encode (r :: rs)) (as.length + 8) r.name.length = r.name :=
      name_at ..
    rw [listEntries, if_pos hroom]
    simp only [hheader, Record.toNat_recLen, Record.toNat_nameLen, if_pos hname, htext, hnext]
    -- the loop ends at a dead record
    by_cases hlive : r.header.inode = 0
    · have hdead := r.live_eq_false_iff.mpr hlive
      rw [if_pos (.inl hlive), listed, List.takeWhile_cons_of_neg (by simp [hdead])]
      rfl
    · have hnot := mt r.live_eq_false_iff.mp hlive
      rw [if_neg (not_or.mpr ⟨hlive, by omega⟩), listed, listed,
        List.takeWhile_cons_of_pos (by simpa using hnot), List.filterMap_cons, Record.listing]
      split <;> rfl

/-! ### The search -/

/-- The first entry named `name` before the first dead record, with the records around it. -/
def locate (name : String) : List Record → Option (List Record × Record × List Record)
  | [] => none
  | r :: rs =>
    if r.live = false then none
    else if r.text = name then some ([], r, rs)
    else (locate name rs).map fun (before, s, after) => (r :: before, s, after)

theorem locate_some {name : String} {rs before after : List Record} {r : Record}
    (h : locate name rs = some (before, r, after)) :
    rs = before ++ r :: after ∧ r.live = true ∧ r.text = name ∧
      ∀ s ∈ before, s.live = true ∧ s.text ≠ name := by
  induction rs generalizing before with
  | nil => cases h
  | cons s rs ih =>
    rw [locate] at h
    by_cases hlive : s.live = true
    case neg => rw [if_pos (by simpa using hlive)] at h; cases h
    rw [if_neg (by simp [hlive])] at h
    by_cases htext : s.text = name
    · rw [if_pos htext] at h
      obtain ⟨rfl, rfl, rfl⟩ := Option.some.inj h
      exact ⟨rfl, hlive, htext, by simp⟩
    · rw [if_neg htext] at h
      obtain ⟨⟨before', s', after'⟩, hrec, heq⟩ := Option.map_eq_some_iff.mp h
      obtain ⟨rfl, rfl, rfl⟩ := heq
      obtain ⟨rfl, hr, hname, hall⟩ := ih hrec
      exact ⟨rfl, hr, hname, List.forall_mem_cons.mpr ⟨⟨hlive, htext⟩, hall⟩⟩

/-- The search loop of `dir_remove_entry`. -/
theorem findEntry_encode (as : List UInt8) (rs : List Record) (name : String) :
    findEntry (as ++ encode rs) (as ++ encode rs).length name as.length =
      (locate name rs).map fun (before, r, _) => (as.length + (encode before).length, r.inode) := by
  induction rs generalizing as with
  | nil =>
    rw [findEntry, if_pos (by simp)]
    rfl
  | cons r rs ih =>
    have hpos := r.len_pos
    have hnext := ih (as ++ r.toBytes)
    rw [List.append_assoc, ← encode_cons,
      show (as ++ r.toBytes).length = as.length + r.len by simp] at hnext
    have hroom : ¬as.length + 8 > (as ++ encode (r :: rs)).length := by
      simp only [encode_cons, List.length_append, Record.length_toBytes]
      omega
    have hname : as.length + 8 + r.name.length ≤ (as ++ encode (r :: rs)).length := by
      simp only [encode_cons, List.length_append, Record.length_toBytes, Record.len]
      omega
    have hheader : DirEntry.ofBytes (as ++ encode (r :: rs)) as.length = r.header := header_at ..
    have htext : window (as ++ encode (r :: rs)) (as.length + 8) r.name.length = r.name :=
      name_at ..
    rw [findEntry, if_neg hroom]
    simp only [hheader, Record.toNat_recLen, Record.toNat_nameLen, htext, hnext, locate]
    -- a dead record ends the search
    by_cases hlive : r.header.inode = 0
    · rw [if_pos (.inl hlive), if_pos (r.live_eq_false_iff.mpr hlive)]
      rfl
    rw [if_neg (not_or.mpr ⟨hlive, by omega⟩), if_neg (mt r.live_eq_false_iff.mp hlive)]
    -- a live one is compared, and stepped over when it is another name
    by_cases hfound : r.text = name
    · rw [if_pos ⟨hname, hfound⟩, if_pos hfound]
      rfl
    · rw [if_neg (fun h => hfound h.2), if_neg hfound, Option.map_map]
      congr 1
      funext ⟨before, s, after⟩
      simp only [Function.comp, encode_cons, List.length_append, Record.length_toBytes,
        Nat.add_assoc]

/-! ### Adding an entry -/

/-- The record of a new entry: `name_len` keeps the low byte of the name's length, and `rec_len`
    is the length of header and name, rounded up to a multiple of 4. -/
def newRecord (name : String) (ino : UInt32) (fileType : UInt8)
    (fits : 8 + name.utf8ByteSize + 3 < 2 ^ 16) : Record where
  inode := ino
  fileType := fileType
  name := (asBytes name).take (name.utf8ByteSize % 2 ^ 8)
  slack := (asBytes name).drop (name.utf8ByteSize % 2 ^ 8) ++
    List.replicate ((8 + name.utf8ByteSize + 3) / 4 * 4 - (8 + name.utf8ByteSize)) 0
  name_lt := by
    rw [List.length_take]
    omega
  len_lt := by
    rw [List.length_take, List.length_append, List.length_drop, List.length_replicate,
      length_asBytes]
    omega

/-- The text of an added record is the name, as long as `name_len` can hold its length. -/
theorem newRecord_name {name : String} {ino : UInt32} {fileType : UInt8}
    {fits : 8 + name.utf8ByteSize + 3 < 2 ^ 16} (h : name.utf8ByteSize < 256) :
    (newRecord name ino fileType fits).name = asBytes name := by
  have hmod : name.utf8ByteSize % 2 ^ 8 = name.utf8ByteSize := Nat.mod_eq_of_lt h
  simp only [newRecord, hmod]
  exact List.take_of_length_le (by rw [length_asBytes])

/-- An added entry is listed under its name, unless that is `.` or `..`. -/
private theorem newRecord_listing {name : String} {ino : UInt32} {fileType : UInt8}
    {fits : 8 + name.utf8ByteSize + 3 < 2 ^ 16} (h : name.utf8ByteSize < 256) :
    (newRecord name ino fileType fits).listing =
      if name ≠ "." ∧ name ≠ ".." then some (name, ino, fileType) else none := by
  rw [Record.listing, newRecord_name h, fromUtf8_asBytes]
  rfl

theorem len_newRecord (name : String) (ino : UInt32) (fileType : UInt8)
    (fits : 8 + name.utf8ByteSize + 3 < 2 ^ 16) :
    (newRecord name ino fileType fits).len = (8 + name.utf8ByteSize + 3) / 4 * 4 := by
  simp only [Record.len, newRecord, List.length_take, List.length_append, List.length_drop,
    List.length_replicate, length_asBytes]
  omega

/-- An entry that is added is not listed behind a dead record, nor is one called `.` or `..`. -/
theorem listed_newRecord (rs : List Record) {name : String} {ino : UInt32} {fileType : UInt8}
    {fits : 8 + name.utf8ByteSize + 3 < 2 ^ 16} (hname : name.utf8ByteSize < 256) (hino : ino ≠ 0) :
    listed (rs ++ [newRecord name ino fileType fits]) =
      listed rs ++ if (∀ r ∈ rs, r.live = true) ∧ name ≠ "." ∧ name ≠ ".." then
        [(name, ino, fileType)] else [] := by
  have hnew : (newRecord name ino fileType fits).live = true := by
    simpa [Record.live, newRecord] using hino
  by_cases hlive : ∀ r ∈ rs, r.live = true
  · rw [listed_append hlive]
    congr 1
    rw [listed, List.takeWhile_cons_of_pos hnew, List.filterMap_cons, newRecord_listing hname]
    by_cases hdot : name ≠ "." ∧ name ≠ ".."
    · rw [if_pos hdot, if_pos ⟨hlive, hdot⟩]
      rfl
    · rw [if_neg hdot, if_neg fun hboth => hdot hboth.2]
      rfl
  · rw [listed_append_of_dead hlive, if_neg fun hboth => hlive hboth.1, List.append_nil]

/-- The last record already reaches the end, so relinking it changes nothing. -/
private theorem relinkLast_encode (as tail : List UInt8) (rs : List Record) :
    relinkLast (as ++ (encode rs ++ tail)) (as ++ encode rs).length as.length =
      as ++ (encode rs ++ tail) ∨ rs = [] := by
  induction rs generalizing as with
  | nil => exact .inr rfl
  | cons r rs ih =>
    left
    have hpos := r.len_pos
    have hheader : DirEntry.ofBytes (as ++ (encode (r :: rs) ++ tail)) as.length = r.header := by
      rw [encode_cons, List.append_assoc]
      exact header_at ..
    have hstop : (as ++ encode (r :: rs)).length = as.length + r.len + (encode rs).length := by
      simp only [encode_cons, List.length_append, Record.length_toBytes]
      omega
    rw [relinkLast]
    simp only [hheader, Record.toNat_recLen]
    rw [if_neg (by omega)]
    rcases rs with _ | ⟨s, rs⟩
    · -- the last record: its `rec_len` is written again
      have hend : as.length + r.len = (as ++ encode [r]).length := by rw [hstop]; rfl
      have hsub : (as ++ encode [r]).length - as.length = r.header.recLen.toNat := by
        rw [← hend, Record.toNat_recLen]
        omega
      rw [if_pos hend, hsub]
      have h := overwrite_append (leEncode 2 r.header.recLen.toNat)
        (as ++ leEncode 4 r.inode.toNat)
        ([r.header.nameLen, r.fileType] ++ (r.name ++ r.slack) ++ tail)
        (leEncode 2 r.header.recLen.toNat) rfl
      simp only [List.length_append, length_leEncode] at h
      simpa [Record.toBytes, DirEntry.toBytes, Record.header] using h
    · have hs := s.len_pos
      have hmore : (as ++ encode (r :: s :: rs)).length =
          as.length + r.len + (s.len + (encode rs).length) := by
        rw [hstop, encode_cons, List.length_append, Record.length_toBytes]
      rw [if_neg (by omega), if_neg (by omega)]
      have h := (ih (as ++ r.toBytes)).resolve_right (by simp)
      rw [show (as ++ r.toBytes).length = as.length + r.len by simp] at h
      simpa only [encode_cons, List.append_assoc] using h

private theorem toBytes_newRecord (name : String) (ino : UInt32) (fileType : UInt8)
    (fits : 8 + name.utf8ByteSize + 3 < 2 ^ 16) :
    (newRecord name ino fileType fits).toBytes =
      (⟨ino, UInt16.ofNat ((8 + name.utf8ByteSize + 3) / 4 * 4),
        UInt8.ofNat name.utf8ByteSize, fileType⟩ : DirEntry).toBytes ++
      (asBytes name ++
        List.replicate ((8 + name.utf8ByteSize + 3) / 4 * 4 - (8 + name.utf8ByteSize)) 0) := by
  have htake : ((asBytes name).take (name.utf8ByteSize % 2 ^ 8)).length =
      name.utf8ByteSize % 2 ^ 8 := by
    rw [List.length_take, length_asBytes]
    omega
  have hnameLen : UInt8.ofNat (name.utf8ByteSize % 2 ^ 8) = UInt8.ofNat name.utf8ByteSize := by
    apply UInt8.toNat_inj.mp
    simp
  rw [Record.toBytes, Record.header, len_newRecord]
  simp only [newRecord, htake, hnameLen]
  rw [← List.append_assoc (List.take _ _), List.take_append_drop]

/-- Adding an entry appends its record. -/
theorem addEntry_encode {rs : List Record} {name : String} {ino : UInt32} {fileType : UInt8}
    {raw : List UInt8} (h : addEntry (encode rs) name ino fileType = .ok raw) :
    ∃ fits, raw = encode (rs ++ [newRecord name ino fileType fits]) := by
  set rounded := (8 + name.utf8ByteSize + 3) / 4 * 4 with hrounded
  rw [addEntry] at h
  split at h
  · cases h
  split at h
  · cases h
  case isFalse.isFalse hpanic =>
    rw [UInt16.toNat_ofNat', ← hrounded] at hpanic
    have fits : 8 + name.utf8ByteSize + 3 < 2 ^ 16 := by omega
    have hrecLen : (UInt16.ofNat rounded).toNat = rounded := by
      rw [UInt16.toNat_ofNat']
      omega
    set de : DirEntry :=
      ⟨ino, UInt16.ofNat rounded, UInt8.ofNat name.utf8ByteSize, fileType⟩ with hde
    have hdeLen : de.toBytes.length = 8 := by simp [DirEntry.toBytes]
    set pad : List UInt8 := List.replicate (rounded - (8 + name.utf8ByteSize)) 0 with hpad
    -- the zeroed space is the room of the header, of the name and of the padding
    have hzeros : List.replicate (UInt16.ofNat rounded).toNat (0 : UInt8) =
        List.replicate 8 0 ++ (List.replicate name.utf8ByteSize 0 ++ pad) := by
      rw [hpad, List.replicate_append_replicate, List.replicate_append_replicate, hrecLen]
      congr 1
      omega
    have hheader : overwrite (encode rs ++ List.replicate (UInt16.ofNat rounded).toNat 0)
        (encode rs).length de.toBytes =
        encode rs ++ (de.toBytes ++ (List.replicate name.utf8ByteSize 0 ++ pad)) := by
      rw [hzeros]
      exact overwrite_append _ _ _ _ (by rw [List.length_replicate, hdeLen])
    have hname : overwrite (encode rs ++ (de.toBytes ++ (List.replicate name.utf8ByteSize 0 ++ pad)))
        ((encode rs).length + 8) (asBytes name) =
        encode rs ++ (de.toBytes ++ (asBytes name ++ pad)) := by
      have h := overwrite_append (asBytes name) (encode rs ++ de.toBytes) pad
        (List.replicate name.utf8ByteSize 0) (by rw [List.length_replicate, length_asBytes])
      rwa [List.length_append, hdeLen, List.append_assoc, List.append_assoc] at h
    have hrecord : de.toBytes ++ (asBytes name ++ pad) =
        (newRecord name ino fileType fits).toBytes := (toBytes_newRecord ..).symm
    refine ⟨fits, ?_⟩
    obtain rfl := Except.ok.inj h
    rw [← hrounded, hheader, hname, hrecord, encode_append, encode_cons, encode_nil,
      List.append_nil]
    split
    case isFalse => rfl
    case isTrue hpos =>
      have hrelink := relinkLast_encode [] (newRecord name ino fileType fits).toBytes rs
      refine hrelink.resolve_right fun hnil => ?_
      rw [hnil] at hpos
      exact absurd hpos (by simp)

/-- An entry whose name is neither empty nor too long is added. -/
theorem addEntry_ok (rs : List Record) {name : String} (ino : UInt32) (fileType : UInt8)
    (hpos : 0 < name.utf8ByteSize) (hname : name.utf8ByteSize < 256) :
    ∃ fits, addEntry (encode rs) name ino fileType =
      .ok (encode (rs ++ [newRecord name ino fileType fits])) := by
  have hrecLen : (UInt16.ofNat ((8 + name.utf8ByteSize + 3) / 4 * 4)).toNat =
      (8 + name.utf8ByteSize + 3) / 4 * 4 := by
    rw [UInt16.toNat_ofNat']
    omega
  have hsmall : ¬UInt16.ofNat ((8 + name.utf8ByteSize + 3) / 4 * 4) < 12 := by
    rw [UInt16.lt_iff_toNat_lt, hrecLen]
    change ¬_ < 12
    omega
  cases hadd : addEntry (encode rs) name ino fileType with
  | ok raw =>
    obtain ⟨fits, rfl⟩ := addEntry_encode hadd
    exact ⟨fits, rfl⟩
  | error e =>
    rw [addEntry, if_neg hsmall, if_neg (by rw [hrecLen]; omega)] at hadd
    cases hadd

/-! ### Removing an entry -/

/-- The record `p` extended over its successor `r`, which dies. -/
def absorb (p r : Record) (fits : p.len + r.len < 2 ^ 16) : Record where
  inode := p.inode
  fileType := p.fileType
  name := p.name
  slack := p.slack ++ r.dead.toBytes
  name_lt := p.name_lt
  len_lt := by
    rw [List.length_append, Record.length_toBytes, Record.len_dead]
    simp only [Record.len] at fits ⊢
    omega

private theorem toBytes_absorb (p r : Record) (fits : p.len + r.len < 2 ^ 16) :
    (absorb p r fits).toBytes =
      leEncode 4 p.inode.toNat ++ (leEncode 2 (p.header.recLen + r.header.recLen).toNat ++
        ([p.header.nameLen, p.fileType] ++ (p.name ++ p.slack))) ++ r.dead.toBytes := by
  have hlen : (absorb p r fits).len = p.len + r.len := by
    simp only [absorb, Record.len, List.length_append, Record.length_toBytes, Record.dead]
    omega
  have hsum : UInt16.ofNat (p.len + r.len) = p.header.recLen + r.header.recLen := by
    apply UInt16.toNat_inj.mp
    rw [UInt16.toNat_add, Record.toNat_recLen, Record.toNat_recLen, UInt16.toNat_ofNat']
  rw [Record.toBytes, Record.header, hlen, hsum]
  simp only [absorb, DirEntry.toBytes, Record.header, List.append_assoc]

/-- The walk to the predecessor `p` of the record `r`, which is extended over it. -/
private theorem mergePredecessor_encode (as : List UInt8) (before : List Record) (p r : Record)
    (bs : List UInt8) :
    mergePredecessor (as ++ (encode (before ++ [p]) ++ bs)) (as ++ encode (before ++ [p])).length
        r.header.recLen as.length =
      as ++ (encode before ++ (leEncode 4 p.inode.toNat ++
        (leEncode 2 (p.header.recLen + r.header.recLen).toNat ++
          ([p.header.nameLen, p.fileType] ++ (p.name ++ p.slack))) ++ bs)) := by
  induction before generalizing as with
  | nil =>
    have hpos := p.len_pos
    have hheader : DirEntry.ofBytes (as ++ (encode [p] ++ bs)) as.length = p.header := by
      rw [encode_cons, encode_nil, List.append_nil]
      exact header_at ..
    rw [List.nil_append, mergePredecessor]
    simp only [hheader, Record.toNat_recLen]
    rw [if_neg (by omega), if_pos (by simp)]
    -- the predecessor is at the start: its length field is overwritten
    have h := overwrite_append (leEncode 2 (p.header.recLen + r.header.recLen).toNat)
      (as ++ leEncode 4 p.inode.toNat)
      ([p.header.nameLen, p.fileType] ++ (p.name ++ p.slack) ++ bs)
      (leEncode 2 p.header.recLen.toNat) (by simp)
    simp only [List.length_append, length_leEncode] at h
    simpa [Record.toBytes, DirEntry.toBytes, Record.header] using h
  | cons s before ih =>
    have hpos := s.len_pos
    have hheader : DirEntry.ofBytes (as ++ (encode (s :: before ++ [p]) ++ bs)) as.length =
        s.header := by
      rw [List.cons_append, encode_cons, List.append_assoc]
      exact header_at ..
    have hp := p.len_pos
    have hstop : (as ++ encode (s :: before ++ [p])).length =
        as.length + s.len + ((encode before).length + p.len) := by
      simp only [List.cons_append, encode_cons, encode_append, encode_nil, List.append_nil,
        List.length_append, Record.length_toBytes]
      omega
    rw [mergePredecessor]
    simp only [hheader, Record.toNat_recLen]
    rw [if_neg (by omega), if_neg (by omega), if_neg (by omega)]
    -- the loop steps over `s`
    have h := ih (as ++ s.toBytes)
    rw [show (as ++ s.toBytes).length = as.length + s.len by simp] at h
    simpa only [List.cons_append, encode_cons, List.append_assoc] using h

/-- Clearing the inode number of a record. -/
private theorem overwrite_dead (as bs : List UInt8) (r : Record) :
    overwrite (as ++ (r.toBytes ++ bs)) as.length (leEncode 4 0) =
      as ++ (r.dead.toBytes ++ bs) := by
  have h := overwrite_append (leEncode 4 0) as
    (leEncode 2 r.header.recLen.toNat ++ [r.header.nameLen, r.fileType] ++ (r.name ++ r.slack) ++ bs)
    (leEncode 4 r.inode.toNat) (by simp)
  simpa [Record.toBytes, Record.dead, Record.header, Record.len, DirEntry.toBytes] using h

/-- What removing `r` makes of the records. -/
inductive Removed : List Record → Record → List Record → List Record → Prop
  | last (before : List Record) (r : Record) : Removed before r [] (before ++ [r.dead])
  | first (r : Record) (after : List Record) (hmore : after ≠ []) :
      Removed [] r after (r.dead :: after)
  | middle (before : List Record) (p r : Record) (after : List Record) (hmore : after ≠ [])
      (fits : p.len + r.len < 2 ^ 16) :
      Removed (before ++ [p]) r after (before ++ absorb p r fits :: after)

private theorem encode_pos {rs : List Record} (h : rs ≠ []) : 0 < (encode rs).length := by
  obtain ⟨r, rs, rfl⟩ := List.exists_cons_of_ne_nil h
  have hpos := r.len_pos
  rw [encode_cons, List.length_append, Record.length_toBytes]
  omega

/-- The bytes that `dir_remove_entry` builds once it has found the record `r`. -/
private theorem exists_removed (before : List Record) (r : Record) (after : List Record)
    (hlen : (encode (before ++ r :: after)).length < 2 ^ 16) :
    ∃ rs, Removed before r after rs ∧
      overwrite (if (encode before).length + r.len < (encode (before ++ r :: after)).length then
          mergePredecessor (encode (before ++ r :: after)) (encode before).length r.header.recLen 0
        else encode (before ++ r :: after)) (encode before).length (leEncode 4 0) = encode rs := by
  have hsplit : encode (before ++ r :: after) = encode before ++ (r.toBytes ++ encode after) := by
    rw [encode_append, encode_cons]
  have htotal : (encode (before ++ r :: after)).length =
      (encode before).length + r.len + (encode after).length := by
    rw [hsplit]
    simp only [List.length_append, Record.length_toBytes]
    omega
  by_cases hafter : after = []
  · subst hafter
    refine ⟨_, .last before r, ?_⟩
    rw [if_neg (by rw [htotal]; simp), hsplit, overwrite_dead, encode_append, encode_cons]
  have hpos := encode_pos hafter
  rw [if_pos (by omega), hsplit]
  rcases List.eq_nil_or_concat' before with rfl | ⟨before, p, rfl⟩
  · -- nothing points to the first record, so nothing is merged
    refine ⟨_, .first r after hafter, ?_⟩
    have hr := r.len_pos
    have hheader : DirEntry.ofBytes (encode [] ++ (r.toBytes ++ encode after)) 0 = r.header :=
      header_at [] _ r
    have hkeep : mergePredecessor (encode [] ++ (r.toBytes ++ encode after)) (encode []).length
        r.header.recLen 0 = encode [] ++ (r.toBytes ++ encode after) := by
      rw [mergePredecessor]
      simp only [hheader, Record.toNat_recLen]
      rw [if_neg (by omega), if_neg (by simp; omega), if_pos (by simp; omega)]
    rw [hkeep, overwrite_dead]
    rfl
  · have hfits : p.len + r.len < 2 ^ 16 := by
      rw [htotal, encode_append, encode_cons, encode_nil, List.append_nil, List.length_append,
        Record.length_toBytes] at hlen
      omega
    refine ⟨_, .middle before p r after hafter hfits, ?_⟩
    have hmerge := mergePredecessor_encode [] before p r (r.toBytes ++ encode after)
    simp only [List.nil_append, List.length_nil] at hmerge
    set extended := leEncode 4 p.inode.toNat ++ (leEncode 2 (p.header.recLen +
      r.header.recLen).toNat ++ ([p.header.nameLen, p.fileType] ++ (p.name ++ p.slack)))
      with hextended
    have hextLen : (encode before ++ extended).length = (encode (before ++ [p])).length := by
      simp only [hextended, encode_append, encode_cons, encode_nil, List.append_nil,
        List.length_append, length_leEncode, List.length_cons, List.length_nil,
        Record.length_toBytes, Record.len]
      omega
    rw [hmerge, ← List.append_assoc, ← hextLen, overwrite_dead, encode_append, encode_cons,
      toBytes_absorb, ← hextended]
    simp only [List.append_assoc]

private theorem le_length_mergePredecessor (raw : List UInt8) (foundAt : Nat) (recLen : UInt16)
    (scan : Nat) : raw.length ≤ (mergePredecessor raw foundAt recLen scan).length := by
  fun_induction mergePredecessor raw foundAt recLen scan with
  | case1 => exact le_rfl
  | case2 => exact le_length_overwrite _ _ _
  | case3 => exact le_rfl
  | case4 scan _ _ _ _ _ ih => exact ih

/-- Removing an entry never makes the contents shorter. -/
theorem le_length_removeEntry {raw raw' : List UInt8} {len : Nat} {name : String} {ino : UInt32}
    (h : removeEntry raw len name = .ok (raw', ino)) : raw.length ≤ raw'.length := by
  rw [removeEntry] at h
  split at h
  · cases h
  · obtain ⟨rfl, -⟩ := Prod.mk.inj (Except.ok.inj h)
    refine le_trans ?_ (le_length_overwrite _ _ _)
    split
    · exact le_length_mergePredecessor _ _ _ _
    · exact le_rfl

theorem findEntry_le {raw : List UInt8} {len off foundAt : Nat} {name : String} {ino : UInt32}
    (h : findEntry raw len name off = some (foundAt, ino)) : foundAt + 8 ≤ len := by
  fun_induction findEntry raw len name off with
  | case1 => cases h
  | case2 => cases h
  | case3 off hroom =>
    obtain ⟨rfl, -⟩ := Prod.mk.inj (Option.some.inj h)
    omega
  | case4 _ _ _ _ _ _ _ ih => exact ih h

private theorem length_mergePredecessor (raw : List UInt8) (foundAt : Nat) (recLen : UInt16)
    (scan : Nat)
    (hroom : foundAt + 8 ≤ raw.length) :
    (mergePredecessor raw foundAt recLen scan).length = raw.length := by
  fun_induction mergePredecessor raw foundAt recLen scan with
  | case1 => rfl
  | case2 scan sde nxt hpos hfound =>
    apply length_overwrite
    rw [length_leEncode]
    omega
  | case3 => rfl
  | case4 scan _ _ _ _ _ ih => exact ih

/-- Removing an entry keeps the length of the contents. -/
theorem length_removeEntry {raw raw' : List UInt8} {name : String} {ino : UInt32}
    (h : removeEntry raw raw.length name = .ok (raw', ino)) : raw'.length = raw.length := by
  rw [removeEntry] at h
  split at h
  case h_1 => cases h
  case h_2 foundAt _ hfound =>
    obtain ⟨rfl, -⟩ := Prod.mk.inj (Except.ok.inj h)
    have hroom := findEntry_le hfound
    have hmerged := length_mergePredecessor raw foundAt (DirEntry.ofBytes raw foundAt).recLen 0 hroom
    rw [length_overwrite]
    · split
      · exact hmerged
      · rfl
    · rw [length_leEncode]
      split <;> omega

/-- Removing a record keeps the length of the directory. -/
theorem Removed.length_encode {before after rs : List Record} {r : Record}
    (h : Removed before r after rs) :
    (encode rs).length = (encode (before ++ r :: after)).length := by
  cases h with
  | last => simp [encode_append]
  | first => simp
  | middle before p r after hmore fits =>
    have habsorb : (absorb p r fits).len = p.len + r.len := by
      simp only [absorb, Record.len, List.length_append, Record.length_toBytes, Record.dead]
      omega
    simp only [encode_append, encode_cons, encode_nil, List.length_append, Record.length_toBytes,
      habsorb, List.length_nil]
    omega

/-- What `dir_remove_entry` builds once the search has found the entry. -/
theorem removeEntry_located {rs before after : List Record} {r : Record} {name : String}
    (hlen : (encode rs).length < 2 ^ 16) (hloc : locate name rs = some (before, r, after)) :
    ∃ rs', Removed before r after rs' ∧
      removeEntry (encode rs) (encode rs).length name = .ok (encode rs', r.inode) := by
  have hfind := findEntry_encode [] rs name
  simp only [List.nil_append, List.length_nil, Nat.zero_add] at hfind
  obtain ⟨rfl, -⟩ := locate_some hloc
  have hheader : DirEntry.ofBytes (encode (before ++ r :: after)) (encode before).length =
      r.header := by
    rw [encode_append, encode_cons]
    exact header_at ..
  obtain ⟨rs', hremoved, hbytes⟩ := exists_removed before r after hlen
  refine ⟨rs', hremoved, ?_⟩
  rw [removeEntry, hfind, hloc]
  simp only [Option.map_some, hheader, Record.toNat_recLen, hbytes]

theorem removeEntry_encode {rs : List Record} {name : String} {raw : List UInt8} {ino : UInt32}
    (hlen : (encode rs).length < 2 ^ 16)
    (h : removeEntry (encode rs) (encode rs).length name = .ok (raw, ino)) :
    ∃ before r after rs', locate name rs = some (before, r, after) ∧ ino = r.inode ∧
      Removed before r after rs' ∧ raw = encode rs' := by
  rcases hloc : locate name rs with _ | ⟨before, r, after⟩
  · have hfind := findEntry_encode [] rs name
    simp only [List.nil_append, List.length_nil, hloc] at hfind
    rw [removeEntry, hfind] at h
    cases h
  · obtain ⟨rs', hremoved, hresult⟩ := removeEntry_located hlen hloc
    obtain ⟨rfl, rfl⟩ := Prod.mk.inj (Except.ok.inj (h.symm.trans hresult))
    exact ⟨before, r, after, rs', rfl, rfl, hremoved, rfl⟩

/-- The listing around a located record. -/
theorem listed_located {rs before after : List Record} {r : Record} {name : String}
    (hloc : locate name rs = some (before, r, after)) :
    listed rs = before.filterMap Record.listing ++ (r.listing.toList ++ listed after) := by
  obtain ⟨rfl, hr, -, hbefore⟩ := locate_some hloc
  rw [listed, List.takeWhile_append_of_pos fun q hq => (hbefore q hq).1,
    List.takeWhile_cons_of_pos hr, List.filterMap_append, List.filterMap_cons, listed]
  cases r.listing <;> rfl

/-- Removing a record lists nothing new. -/
theorem Removed.listed_sublist {before after rs' : List Record} {r : Record}
    (h : Removed before r after rs') (hbefore : ∀ q ∈ before, q.live = true) :
    (listed rs').Sublist (before.filterMap Record.listing ++ listed after) := by
  cases h with
  | last =>
    rw [listed, List.takeWhile_append_of_pos hbefore, List.takeWhile_cons_of_neg (by simp),
      List.append_nil]
    exact List.sublist_append_left _ _
  | first =>
    rw [listed, List.takeWhile_cons_of_neg (by simp)]
    exact List.nil_sublist _
  | middle before p _ _ _ fits =>
    -- the predecessor is listed as it was, with the removed record in its slack
    have hp : (absorb p r fits).live = true := hbefore p (by simp)
    have hlisting : (absorb p r fits).listing = p.listing := rfl
    rw [listed, List.takeWhile_append_of_pos fun q hq => hbefore q (List.mem_append_left _ hq),
      List.takeWhile_cons_of_pos hp, List.filterMap_append, List.filterMap_cons, hlisting,
      List.filterMap_append, List.append_assoc, List.filterMap_cons, listed]
    cases p.listing <;> exact List.Sublist.refl _

/-! ### The records are determined by the bytes -/

theorem encode_injective {rs ss : List Record} (h : encode rs = encode ss) : rs = ss := by
  induction rs generalizing ss with
  | nil =>
    by_contra hne
    have hpos := encode_pos (Ne.symm hne)
    rw [← h] at hpos
    exact absurd hpos (by simp)
  | cons r rs ih =>
    rcases ss with _ | ⟨s, ss⟩
    · have hpos := encode_pos (List.cons_ne_nil r rs)
      rw [h] at hpos
      exact absurd hpos (by simp)
    -- the header gives the lengths, and the lengths cut the bytes
    have hheader : r.header = s.header := by
      rw [← header_at [] (encode rs) r, ← header_at [] (encode ss) s]
      exact congrArg (fun bytes => DirEntry.ofBytes ([] ++ bytes) 0) h
    have hlen : r.len = s.len := by rw [← Record.toNat_recLen, hheader, Record.toNat_recLen]
    have hname : r.name.length = s.name.length := by
      rw [← Record.toNat_nameLen, hheader, Record.toNat_nameLen]
    simp only [encode_cons] at h
    obtain ⟨hbytes, hrest⟩ := List.append_inj h (by simp [hlen])
    rw [Record.toBytes, Record.toBytes, hheader, List.append_cancel_left_eq] at hbytes
    obtain ⟨hn, hs⟩ := List.append_inj hbytes hname
    have hrs : r = s := by
      refine Record.ext ?_ ?_ hn hs
      · exact congrArg DirEntry.inode hheader
      · exact congrArg DirEntry.fileType hheader
    rw [hrs, ih hrest]

end RustKernel.Fs
