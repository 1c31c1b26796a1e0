import RustKernel.Lib.Layout
import RustKernel.Lib.Fallible

/-!
# RustKernel.Fs.Ata

The disk and the ATA driver (`drivers/ata.rs`): sectors of 512 bytes with 28-bit addresses.

The drive itself is outside the kernel. It is modelled by its contents and by the set of sectors
on which it reports an error (or times out, or has no data): `read` and `write` fail when they
reach one.
-/

namespace RustKernel.Fs

open Lib

/-- A disk: the bytes of each sector, and the sectors on which the drive reports an error. -/
structure Drive where
  sector : Nat → List UInt8
  length_sector : ∀ lba, (sector lba).length = 512
  faulty : Nat → Bool

namespace Drive

/-- No sector is faulty. -/
def Healthy (d : Drive) : Prop := ∀ lba, d.faulty lba = false

/-- Replaces one sector. -/
def setSector (d : Drive) (lba : Nat) (bytes : List UInt8) : Drive where
  sector := fun i => if i = lba then bytes.takeD 512 0 else d.sector i
  length_sector := by
    intro i
    split
    · exact List.takeD_length ..
    · exact d.length_sector i
  faulty := d.faulty

@[simp] theorem healthy_setSector (d : Drive) (lba : Nat) (bytes : List UInt8) :
    (d.setSector lba bytes).Healthy ↔ d.Healthy := Iff.rfl

theorem sector_setSector (d : Drive) (lba i : Nat) (bytes : List UInt8)
    (h : bytes.length = 512) :
    (d.setSector lba bytes).sector i = if i = lba then bytes else d.sector i := by
  simp only [setSector, List.takeD_eq_take _ h.ge, List.take_of_length_le h.le]

end Drive

namespace Ata

/-- The sector the drive is addressed at: the address registers hold 28 bits. -/
def address (lba : UInt32) : Nat := lba.toNat % 2 ^ 28

/-- `read(lba, count, buf)`: the bytes it puts at the start of a buffer of `capacity` bytes. -/
def read (d : Drive) (lba : UInt32) (count : UInt8) (capacity : Nat) :
    Except String (List UInt8) := do
  if count = 0 ∨ capacity < count.toNat * 512 then
    throw "ATA: buffer too small"
  let sectors ← (List.range count.toNat).mapM fun i =>
    if d.faulty (address lba + i) then throw "ATA error"
    else pure (d.sector (address lba + i))
  return sectors.flatten

/-- One sector of `write`. -/
def writeSector (lba : Nat) (bytes : List UInt8) : Fallible String Drive Unit := do
  let faulty ← Fallible.reading fun d => .ok (d.faulty lba)
  if faulty then throw "ATA error"
  Fallible.writing fun d => d.setSector lba bytes

/-- `write(lba, count, buf)`. The sectors before a faulty one have been written. -/
def write (lba : UInt32) (count : UInt8) (buf : List UInt8) : Fallible String Drive Unit := do
  if count = 0 ∨ buf.length < count.toNat * 512 then
    throw "ATA: buffer too small"
  (List.range count.toNat).foldlM (fun _ i =>
    writeSector (address lba + i) (window buf (i * 512) 512)) ()

end Ata

end RustKernel.Fs
