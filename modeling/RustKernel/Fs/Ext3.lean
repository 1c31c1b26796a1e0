import RustKernel.Fs.Ata

/-!
# RustKernel.Fs.Ext3

The ext2/3 filesystem of the kernel (`fs/ext3.rs`), function by function.

A function that only reads takes the drive and returns a result; one that writes is an `Access`:
it changes the drive, and what it wrote before it failed stays written. A failure carries the text
the code returns; `panic` stands for a division by zero or an index out of range. Arithmetic on
`u16` and `u32` wraps, as in the release build.
-/

namespace RustKernel.Fs

open Lib

/-- How a call fails. -/
inductive Failure
  | error (message : String)
  /-- The kernel stops: a division by zero or an index out of range. -/
  | panic
  /-- The call had not returned within the given number of nested calls. -/
  | unfinished
deriving DecidableEq, Repr

/-- A computation that may write to the drive. -/
abbrev Access := Fallible Failure Drive

/-- `a / b` and `a % b` on `u32`. -/
def divRem (a b : UInt32) : Except Failure (UInt32 × UInt32) :=
  if b = 0 then .error .panic else .ok (a / b, a % b)

/-! ### Constants -/

def EXT_MAGIC : UInt16 := 0xEF53
def S_IFDIR : UInt16 := 0x4000
def S_IFREG : UInt16 := 0x8000
def INDIRECT_BLOCK : Nat := 12
def FT_REG : UInt8 := 1
def FT_DIR : UInt8 := 2

/-! ### Text -/

/-- `str::as_bytes`. -/
def asBytes (s : String) : List UInt8 := s.toByteArray.data.toList

/-- `core::str::from_utf8`. -/
def fromUtf8 (bytes : List UInt8) : Option String := String.fromUTF8? ⟨bytes.toArray⟩

/-- `path.split('/')`. -/
def splitSlash (path : String) : List String := (path.toList.splitOn '/').map String.ofList

/-- The text before and after `path.rfind('/')`. -/
def rsplitSlash (path : String) : Option (String × String) :=
  match path.toList.reverse.dropWhile (· != '/') with
  | [] => none
  | _ :: parent =>
    some (.ofList parent.reverse, .ofList (path.toList.reverse.takeWhile (· != '/')).reverse)

/-! ### On-disk structures -/

/-- The fields of the block group descriptor that the code reads. -/
structure BgDescriptor where
  blockBitmap : UInt32
  inodeBitmap : UInt32
  inodeTable : UInt32
deriving DecidableEq, Repr

/-- `size_of::<BgDescriptor>()`. -/
def BG_DESCRIPTOR_LEN : Nat := 32

def BgDescriptor.ofBytes (bs : List UInt8) (off : Nat) : BgDescriptor where
  blockBitmap := u32At bs off
  inodeBitmap := u32At bs (off + 4)
  inodeTable := u32At bs (off + 8)

/-- An inode: 12 direct block pointers, then the indirect, double and triple indirect ones. -/
structure Inode where
  mode : UInt16
  uid : UInt16
  size : UInt32
  atime : UInt32
  ctime : UInt32
  mtime : UInt32
  dtime : UInt32
  gid : UInt16
  linksCount : UInt16
  sectors : UInt32
  flags : UInt32
  osd1 : UInt32
  block : Vector UInt32 15
  generation : UInt32
  fileAcl : UInt32
  sizeHigh : UInt32
  faddr : UInt32
deriving DecidableEq

/-- `size_of::<Inode>()`, the struct being packed. -/
def INODE_LEN : Nat := 116

namespace Inode

/-- `inode.block[i]`. -/
def pointer (inode : Inode) (i : Nat) : UInt32 := inode.block[i]?.getD 0

/-- `inode.block[i] = block`. -/
def setPointer (inode : Inode) (i : Nat) (block : UInt32) : Inode :=
  { inode with block := inode.block.setIfInBounds i block }

/-- `inode.mode & S_IFDIR != 0`. -/
def isDir (inode : Inode) : Bool := inode.mode &&& S_IFDIR != 0

def toBytes (inode : Inode) : List UInt8 :=
  leEncode 2 inode.mode.toNat ++ (leEncode 2 inode.uid.toNat ++ (leEncode 4 inode.size.toNat ++
  (leEncode 4 inode.atime.toNat ++ (leEncode 4 inode.ctime.toNat ++
  (leEncode 4 inode.mtime.toNat ++ (leEncode 4 inode.dtime.toNat ++
  (leEncode 2 inode.gid.toNat ++ (leEncode 2 inode.linksCount.toNat ++
  (leEncode 4 inode.sectors.toNat ++ (leEncode 4 inode.flags.toNat ++
  (leEncode 4 inode.osd1.toNat ++ (inode.block.toList.flatMap (fun b => leEncode 4 b.toNat) ++
  (leEncode 4 inode.generation.toNat ++ (leEncode 4 inode.fileAcl.toNat ++
  (leEncode 4 inode.sizeHigh.toNat ++ leEncode 4 inode.faddr.toNat)))))))))))))))

def ofBytes (bs : List UInt8) (off : Nat) : Inode where
  mode := u16At bs off
  uid := u16At bs (off + 2)
  size := u32At bs (off + 4)
  atime := u32At bs (off + 8)
  ctime := u32At bs (off + 12)
  mtime := u32At bs (off + 16)
  dtime := u32At bs (off + 20)
  gid := u16At bs (off + 24)
  linksCount := u16At bs (off + 26)
  sectors := u32At bs (off + 28)
  flags := u32At bs (off + 32)
  osd1 := u32At bs (off + 36)
  block := Vector.ofFn fun i => u32At bs (off + 40 + 4 * i)
  generation := u32At bs (off + 100)
  fileAcl := u32At bs (off + 104)
  sizeHigh := u32At bs (off + 108)
  faddr := u32At bs (off + 112)

end Inode

/-- The header of a directory entry; the name follows it. -/
structure DirEntry where
  inode : UInt32
  recLen : UInt16
  nameLen : UInt8
  fileType : UInt8
deriving DecidableEq, Repr

/-- `size_of::<DirEntry>()`. -/
def DIR_ENTRY_LEN : Nat := 8

namespace DirEntry

def toBytes (de : DirEntry) : List UInt8 :=
  leEncode 4 de.inode.toNat ++ (leEncode 2 de.recLen.toNat ++ [de.nameLen, de.fileType])

def ofBytes (raw : List UInt8) (off : Nat) : DirEntry where
  inode := u32At raw off
  recLen := u16At raw (off + 4)
  nameLen := raw.getD (off + 6) 0
  fileType := raw.getD (off + 7) 0

end DirEntry

/-! ### The mounted filesystem -/

structure Ext3Fs where
  blockSize : Nat
  inodesPerGroup : UInt32
  blocksPerGroup : UInt32
  bgDescTableBlock : UInt32
  bgCount : UInt32

/-- `Ext3Fs::mount`, with the superblock fields it reads. -/
def mount (d : Drive) : Except Failure Ext3Fs := do
  let sb ← (Ata.read d 2 2 1024).mapError fun _ => .error "ATA read error"
  if u16At sb 0x38 ≠ EXT_MAGIC then
    throw (.error "not an ext2/3/4 filesystem")
  let blockSize := 1024 <<< ((u32At sb 0x18).toNat % 64) % 2 ^ 64
  let blocksPerGroup := u32At sb 0x20
  let bgCount ← divRem (u32At sb 0x04 + blocksPerGroup - 1) blocksPerGroup
  return {
    blockSize := blockSize
    inodesPerGroup := u32At sb 0x28
    blocksPerGroup := blocksPerGroup
    bgDescTableBlock := if blockSize = 1024 then 2 else 1
    bgCount := bgCount.1 }

namespace Ext3Fs

variable (fs : Ext3Fs)

/-! ### Blocks -/

def sectorsPerBlock : UInt8 := UInt8.ofNat (fs.blockSize / 512)

/-- `read_block` into a buffer of one block, zero where the sectors do not reach. -/
def readBlock (d : Drive) (block : UInt32) : Except Failure (List UInt8) := do
  let lba := block * fs.sectorsPerBlock.toUInt32
  let bytes ← (Ata.read d lba fs.sectorsPerBlock fs.blockSize).mapError fun _ =>
    .error "ATA read error"
  return bytes.takeD fs.blockSize 0

def writeBlock (block : UInt32) (buf : List UInt8) : Access Unit :=
  let lba := block * fs.sectorsPerBlock.toUInt32
  ExceptT.adapt (fun _ => .error "ATA write error") (Ata.write lba fs.sectorsPerBlock buf)

def readBgDesc (d : Drive) (group : UInt32) : Except Failure BgDescriptor := do
  let gdPerBlock := UInt32.ofNat (fs.blockSize / BG_DESCRIPTOR_LEN)
  let (quotient, idx) ← divRem group gdPerBlock
  let buf ← fs.readBlock d (fs.bgDescTableBlock + quotient)
  return .ofBytes buf (idx.toNat * BG_DESCRIPTOR_LEN)

/-! ### Bitmaps -/

/-- Read-modify-write a single bit in a bitmap block. -/
def bitmapSet (bitmapBlock bit : UInt32) (value : Bool) : Access Unit := do
  let buf ← Fallible.reading fun d => fs.readBlock d bitmapBlock
  let byteIdx := bit.toNat / 8
  let bitMask : UInt8 := 1 <<< UInt8.ofNat (bit.toNat % 8)
  if buf.length ≤ byteIdx then
    throw .panic
  let byte := buf.getD byteIdx 0
  let byte := if value then byte ||| bitMask else byte &&& ~~~bitMask
  fs.writeBlock bitmapBlock (buf.set byteIdx byte)

/-- The first free bit of a bitmap: a byte of `0xFF` is skipped, and the bits of a byte are tried
    until `max_bits`. -/
def findFree (buf : List UInt8) (maxBits : Nat) : Option Nat :=
  (List.range buf.length).findSome? fun byteIdx =>
    let byte := buf.getD byteIdx 0
    if byte = 0xFF then none
    else ((List.range 8).takeWhile fun bit => byteIdx * 8 + bit < maxBits).findSome? fun bit =>
      if byte &&& (1 <<< UInt8.ofNat bit) = 0 then some (byteIdx * 8 + bit) else none

/-- Find a free bit in a bitmap, mark it used, return the bit index. -/
def bitmapAlloc (bitmapBlock maxBits : UInt32) : Access UInt32 := do
  let buf ← Fallible.reading fun d => fs.readBlock d bitmapBlock
  match findFree buf maxBits.toNat with
  | some bitIdx =>
    let byte := buf.getD (bitIdx / 8) 0 ||| (1 <<< UInt8.ofNat (bitIdx % 8))
    fs.writeBlock bitmapBlock (buf.set (bitIdx / 8) byte)
    return UInt32.ofNat bitIdx
  | none => throw (.error "no free bits in bitmap")

def allocBlock : Access UInt32 := do
  let bg ← Fallible.reading fun d => fs.readBgDesc d 0
  fs.bitmapAlloc bg.blockBitmap fs.blocksPerGroup

def freeBlock (block : UInt32) : Access Unit := do
  let bg ← Fallible.reading fun d => fs.readBgDesc d 0
  fs.bitmapSet bg.blockBitmap block false

/-- Allocate a free inode: inode numbers start at 1. -/
def allocInode : Access UInt32 := do
  let bg ← Fallible.reading fun d => fs.readBgDesc d 0
  let ino ← fs.bitmapAlloc bg.inodeBitmap fs.inodesPerGroup
  return ino + 1

def freeInode (inodeNum : UInt32) : Access Unit := do
  let (group, idx) ← Fallible.reading fun _ => divRem (inodeNum - 1) fs.inodesPerGroup
  let bg ← Fallible.reading fun d => fs.readBgDesc d group
  fs.bitmapSet bg.inodeBitmap idx false

/-! ### Inodes -/

/-- The block that holds an inode, and the offset of the inode in it. -/
def inodeSlot (d : Drive) (inodeNum : UInt32) : Except Failure (UInt32 × Nat) := do
  let (group, idx) ← divRem (inodeNum - 1) fs.inodesPerGroup
  let bg ← fs.readBgDesc d group
  let (quotient, slot) ← divRem idx (UInt32.ofNat (fs.blockSize / INODE_LEN))
  return (bg.inodeTable + quotient, slot.toNat * INODE_LEN)

def readInode (d : Drive) (inodeNum : UInt32) : Except Failure Inode := do
  let (block, offset) ← fs.inodeSlot d inodeNum
  let buf ← fs.readBlock d block
  return .ofBytes buf offset

def writeInode (inodeNum : UInt32) (inode : Inode) : Access Unit := do
  let (block, offset) ← Fallible.reading fun d => fs.inodeSlot d inodeNum
  let buf ← Fallible.reading fun d => fs.readBlock d block
  fs.writeBlock block (overwrite buf offset inode.toBytes)

/-! ### File contents -/

/-- Resolve a block number from an inode (direct and single indirect). -/
def inodeBlock (d : Drive) (inode : Inode) (blkIdx : Nat) : Except Failure UInt32 := do
  if blkIdx < 12 then
    return inode.pointer blkIdx
  if blkIdx < 12 + fs.blockSize / 4 then
    let indirectBlk := inode.pointer INDIRECT_BLOCK
    if indirectBlk = 0 then
      throw (.error "hole in file")
    let buf ← fs.readBlock d indirectBlk
    return u32At buf ((blkIdx - 12) * 4)
  throw (.error "double indirect not supported")

/-- One turn of `read_file_inode`: the bytes of the file that lie in block `blkIdx`. -/
def readFileBlock (d : Drive) (inode : Inode) (blkIdx : Nat) : Except Failure (List UInt8) := do
  let copy := min (inode.size.toNat - blkIdx * fs.blockSize) fs.blockSize
  let diskBlock ← fs.inodeBlock d inode blkIdx
  if diskBlock = 0 then
    return List.replicate copy 0
  let buf ← fs.readBlock d diskBlock
  return buf.take copy

def readFileInode (d : Drive) (inode : Inode) : Except Failure (List UInt8) := do
  let blocks := (inode.size.toNat + fs.blockSize - 1) / fs.blockSize
  let chunks ← (List.range blocks).mapM (fs.readFileBlock d inode)
  return chunks.flatten

/-- One turn of the first loop of `write_file_data`: a missing block is allocated. -/
def growBlock (inode : Inode) (blkIdx : Nat) : Access Inode := do
  let existing := if blkIdx < 12 then inode.pointer blkIdx else 0
  if existing = 0 then
    let newBlock ← fs.allocBlock
    let firstDataBlock : UInt32 := 1
    if blkIdx < 12 then
      return inode.setPointer blkIdx (newBlock + firstDataBlock)
    else throw (.error "no indirect block write support")
  else return inode

/-- One turn of the second loop: a block of data is written. -/
def writeDataBlock (inode : Inode) (data : List UInt8) (blkIdx : Nat) : Access Unit := do
  if blkIdx < 12 then
    let offset := blkIdx * fs.blockSize
    let copy := min (data.length - offset) fs.blockSize
    fs.writeBlock (inode.pointer blkIdx) ((window data offset copy).takeD fs.blockSize 0)
  else throw (.error "indirect not writable")

/-- One turn of the third loop: an excess block is freed. -/
def freeExcess (inode : Inode) (blkIdx : Nat) : Access Inode := do
  if blkIdx < 12 ∧ inode.pointer blkIdx ≠ 0 then
    fs.freeBlock (inode.pointer blkIdx)
    return inode.setPointer blkIdx 0
  else return inode

/-- Write data to a file (overwrite existing data). Returns the updated inode. -/
def writeFileData (inode : Inode) (data : List UInt8) : Access Inode := do
  let blocksNeeded := (data.length + fs.blockSize - 1) / fs.blockSize
  let inode ← (List.range' 0 blocksNeeded).foldlM fs.growBlock inode
  (List.range' 0 blocksNeeded).foldlM (fun _ blkIdx => fs.writeDataBlock inode data blkIdx) ()
  let oldBlocks := (inode.size.toNat + fs.blockSize - 1) / fs.blockSize
  let inode ← (List.range' blocksNeeded (oldBlocks - blocksNeeded)).foldlM fs.freeExcess inode
  return { inode with size := UInt32.ofNat data.length }

end Ext3Fs

/-! ### Directory contents -/

/-- An entry as `read_dir_inode` lists it: name, inode number and file type. -/
abbrev Listing := String × UInt32 × UInt8

/-- The loop of `read_dir_inode` from `offset` on. -/
def listEntries (raw : List UInt8) (len offset : Nat) : List Listing :=
  if offset < len ∧ offset + 8 ≤ len then
    let de := DirEntry.ofBytes raw offset
    if de.inode = 0 ∨ de.recLen.toNat = 0 then []
    else
      let nameStart := offset + 8
      let nameEnd := nameStart + de.nameLen.toNat
      let rest := listEntries raw len (offset + de.recLen.toNat)
      if nameEnd ≤ raw.length then
        let name := (fromUtf8 (window raw nameStart de.nameLen.toNat)).getD "<invalid>"
        if name ≠ "." ∧ name ≠ ".." then (name, de.inode, de.fileType) :: rest else rest
      else rest
  else []
termination_by len - offset
decreasing_by
  change len - (offset + de.recLen.toNat) < len - offset
  omega

/-- The loop of `dir_add_entry` that walks to the entry before `newOffset` and makes its
    `rec_len` reach there. -/
def relinkLast (raw : List UInt8) (newOffset prevOffset : Nat) : List UInt8 :=
  let de := DirEntry.ofBytes raw prevOffset
  let next := prevOffset + de.recLen.toNat
  if de.recLen.toNat = 0 then raw
  else if next = newOffset then overwrite raw (prevOffset + 4) (leEncode 2 (newOffset - prevOffset))
  else if next > newOffset then raw
  else relinkLast raw newOffset next
termination_by newOffset - prevOffset
decreasing_by
  change newOffset - next < newOffset - prevOffset
  omega

/-- The new contents that `dir_add_entry` builds. -/
def addEntry (raw : List UInt8) (name : String) (inodeNum : UInt32) (fileType : UInt8) :
    Except Failure (List UInt8) := do
  let entrySize := 8 + name.utf8ByteSize
  let recLen := UInt16.ofNat ((entrySize + 3) / 4 * 4)  -- align to 4 bytes
  if recLen < 12 then
    throw (.error "entry too small")
  -- the slice that receives the name must lie in the resized buffer
  if recLen.toNat < entrySize then
    throw .panic
  let newOffset := raw.length
  let raw := raw ++ List.replicate recLen.toNat 0
  let de : DirEntry := ⟨inodeNum, recLen, UInt8.ofNat name.utf8ByteSize, fileType⟩
  let raw := overwrite raw newOffset de.toBytes
  let raw := overwrite raw (newOffset + 8) (asBytes name)
  return if newOffset > 0 then relinkLast raw newOffset 0 else raw

/-- The search loop of `dir_remove_entry`: the offset and the inode number of the entry. -/
def findEntry (raw : List UInt8) (len : Nat) (name : String) (prevOffset : Nat) :
    Option (Nat × UInt32) :=
  if prevOffset + 8 > len then none
  else
    let de := DirEntry.ofBytes raw prevOffset
    if de.inode = 0 ∨ de.recLen.toNat = 0 then none
    else
      let nameOff := prevOffset + 8
      let nameEnd := nameOff + de.nameLen.toNat
      if nameEnd ≤ raw.length ∧ (fromUtf8 (window raw nameOff de.nameLen.toNat)).getD "" = name then
        some (prevOffset, de.inode)
      else findEntry raw len name (prevOffset + de.recLen.toNat)
termination_by len - prevOffset
decreasing_by
  change len - (prevOffset + de.recLen.toNat) < len - prevOffset
  omega

/-- The loop of `dir_remove_entry` that walks to the entry pointing to `foundAt` and extends it by
    the removed entry's `rec_len`. -/
def mergePredecessor (raw : List UInt8) (foundAt : Nat) (recLen : UInt16) (scan : Nat) :
    List UInt8 :=
  let sde := DirEntry.ofBytes raw scan
  let nxt := scan + sde.recLen.toNat
  if sde.recLen.toNat = 0 then raw
  else if nxt = foundAt then overwrite raw (scan + 4) (leEncode 2 (sde.recLen + recLen).toNat)
  else if nxt > foundAt then raw
  else mergePredecessor raw foundAt recLen nxt
termination_by foundAt - scan
decreasing_by
  change foundAt - nxt < foundAt - scan
  omega

/-- The new contents that `dir_remove_entry` builds, with the removed entry's inode number. -/
def removeEntry (raw : List UInt8) (len : Nat) (name : String) :
    Except Failure (List UInt8 × UInt32) :=
  match findEntry raw len name 0 with
  | none => .error (.error "file not found in directory")
  | some (foundAt, ino) =>
    let recLen := (DirEntry.ofBytes raw foundAt).recLen
    let nextOffset := foundAt + recLen.toNat
    let raw := if nextOffset < len then mergePredecessor raw foundAt recLen 0 else raw
    .ok (overwrite raw foundAt (leEncode 4 0), ino)

namespace Ext3Fs

variable (fs : Ext3Fs)

/-- List entries in a directory inode. -/
def readDirInode (d : Drive) (inode : Inode) : Except Failure (List Listing) := do
  let raw ← fs.readFileInode d inode
  return listEntries raw inode.size.toNat 0

/-- Create a directory entry in a directory inode. Returns the updated inode. -/
def dirAddEntry (dirInode : Inode) (name : String) (inodeNum : UInt32) (fileType : UInt8) :
    Access Inode := do
  let raw ← Fallible.reading fun d => fs.readFileInode d dirInode
  let raw ← Fallible.reading fun _ => addEntry raw name inodeNum fileType
  fs.writeFileData dirInode raw

/-- Remove a directory entry by name. Returns the updated inode and the entry's inode number. -/
def dirRemoveEntry (dirInode : Inode) (name : String) : Access (Inode × UInt32) := do
  let raw ← Fallible.reading fun d => fs.readFileInode d dirInode
  let (raw, ino) ← Fallible.reading fun _ => removeEntry raw dirInode.size.toNat name
  let dirInode ← fs.writeFileData dirInode raw
  return (dirInode, ino)

/-! ### Paths -/

/-- The file type `walk` reports. -/
def fileType (inode : Inode) : UInt8 := if inode.isDir then FT_DIR else FT_REG

/-- The loop of `walk` over the components of a path. -/
def walkComponents (d : Drive) :
    List String → UInt32 → Inode → Except Failure (UInt32 × Inode)
  | [], currentInode, current => .ok (currentInode, current)
  | component :: rest, currentInode, current =>
    if component = "" then walkComponents d rest currentInode current
    else if current.isDir = false then .error (.error "not a directory")
    else do
      let entries ← fs.readDirInode d current
      match entries.find? (fun entry => entry.1 = component) with
      | some (_, ino, _) =>
        let next ← fs.readInode d ino
        walkComponents d rest ino next
      | none => throw (.error "file not found")

/-- Walk a path from inode `start`. -/
def walk (d : Drive) (start : UInt32) (path : String) :
    Except Failure (UInt32 × Inode × UInt8) := do
  let current ← fs.readInode d start
  if path = "" ∨ path = "/" then
    return (start, current, fileType current)
  let (ino, inode) ← fs.walkComponents d (splitSlash path) start current
  return (ino, inode, fileType inode)

/-- List directory entries at `path`. -/
def listDir (d : Drive) (path : String) : Except Failure (List Listing) := do
  let (_, inode, _) ← fs.walk d 2 path
  if inode.isDir = false then
    throw (.error "not a directory")
  fs.readDirInode d inode

/-- Read file contents at `path`. -/
def readFile (d : Drive) (path : String) : Except Failure (List UInt8) := do
  let (_, inode, ft) ← fs.walk d 2 path
  if ft = FT_DIR then
    throw (.error "is a directory")
  fs.readFileInode d inode

/-- The inode of a file just created. -/
def emptyFile : Inode where
  mode := S_IFREG ||| 0o644
  uid := 0
  size := 0
  atime := 0
  ctime := 0
  mtime := 0
  dtime := 0
  gid := 0
  linksCount := 1
  sectors := 0
  flags := 0
  osd1 := 0
  block := Vector.replicate 15 0
  generation := 0
  fileAcl := 0
  sizeHigh := 0
  faddr := 0

/-- The parent's path and the last name of a path, or the error of `create_file` and
    `delete_file`. -/
def splitParent (path : String) : Except Failure (String × String) :=
  match rsplitSlash path with
  | none => .error (.error "need absolute path")
  | some (parentPath, name) =>
    if parentPath = "" then .error (.error "need absolute path") else .ok (parentPath, name)

/-- Create a new file (regular file) in the filesystem. -/
def createFile (path : String) : Access Unit := do
  let (parent, name) ← Fallible.reading fun _ => splitParent path
  if name = "" ∨ name.utf8ByteSize > 255 then
    throw (.error "invalid name")
  let (parentIno, parentInode, _) ← Fallible.reading fun d => fs.walk d 2 parent
  if parentInode.isDir = false then
    throw (.error "parent not a directory")
  let entries ← Fallible.reading fun d => fs.readDirInode d parentInode
  if entries.any (fun entry => entry.1 = name) then
    throw (.error "file exists")
  let ino ← fs.allocInode
  fs.writeInode ino emptyFile
  let parentInode ← fs.dirAddEntry parentInode name ino FT_REG
  fs.writeInode parentIno parentInode

/-- Write data to a file (creating it if needed), with at most `depth` nested calls. -/
def writeFile (depth : Nat) (path : String) (data : List UInt8) : Access Unit :=
  match depth with
  | 0 => throw .unfinished
  | depth + 1 => do
    let found ← Fallible.reading fun d => .ok (fs.walk d 2 path)
    match found with
    | .error (.error _) =>
      fs.createFile path
      writeFile depth path data
    -- a panic inside `walk` is not caught
    | .error e => throw e
    | .ok (ino, inode, ft) =>
      if ft = FT_DIR then
        throw (.error "cannot write to directory")
      let inode ← fs.writeFileData inode data
      fs.writeInode ino inode

/-- One turn of the loop of `delete_file` over the blocks of the file. -/
def freeDataBlock (fileInode : Inode) (blkIdx : Nat) : Access Unit := do
  if blkIdx < 12 ∧ fileInode.pointer blkIdx ≠ 0 then
    fs.freeBlock (fileInode.pointer blkIdx)

/-- Delete a file. -/
def deleteFile (path : String) : Access Unit := do
  let (parent, name) ← Fallible.reading fun _ => splitParent path
  let (parentIno, parentInode, _) ← Fallible.reading fun d => fs.walk d 2 parent
  let (ino, fileInode, _) ← Fallible.reading fun d => fs.walk d 2 path
  if fileInode.isDir then
    throw (.error "cannot delete directory (not implemented)")
  let blocks := (fileInode.size.toNat + fs.blockSize - 1) / fs.blockSize
  (List.range' 0 blocks).foldlM (fun _ blkIdx => fs.freeDataBlock fileInode blkIdx) ()
  fs.freeInode ino
  let (parentInode, _) ← fs.dirRemoveEntry parentInode name
  fs.writeInode parentIno parentInode

end Ext3Fs

end RustKernel.Fs
