import RustKernel.Lib.Text

/-!
# RustKernel.Fs.RamFs

The file system in memory, a map from names to contents, whose calls trim the name first, and the
shell's `mv` on it.

## Main result

`cmdMv_moves_iff`: `mv` moves a file, or leaves everything as it was, exactly when the two names are
not one existing file. The write to the destination then does nothing, and the removal of the source
loses the file.
-/

namespace RustKernel.Ram

open Lib.Text

inductive FsError
  | notFound
  | exists
  | invalidName
  | io
  deriving DecidableEq, Repr

/-- `fmt` of `Display` -/
def FsError.message : FsError → String
  | .notFound => "not found"
  | .exists => "already exists"
  | .invalidName => "invalid name"
  | .io => "I/O error"

structure RamFs where
  files : String → Option (List UInt8)

namespace RamFs

def normalize (path : String) : Except FsError String :=
  let path := trim path.toList
  if path = [] ∨ '/' ∈ path ∨ '\\' ∈ path then .error .invalidName
  else .ok (String.ofList path)

/-- The map with `key` bound to `content`, or unbound. -/
def bind (fs : RamFs) (key : String) (content : Option (List UInt8)) : RamFs :=
  ⟨fun k => if k = key then content else fs.files k⟩

def read (fs : RamFs) (path : String) : Except FsError (List UInt8) := do
  let key ← normalize path
  match fs.files key with
  | none => .error .notFound
  | some data => .ok data

def write (fs : RamFs) (path : String) (data : List UInt8) : Except FsError RamFs := do
  let key ← normalize path
  .ok (fs.bind key (some data))

def delete (fs : RamFs) (path : String) : Except FsError RamFs := do
  let key ← normalize path
  match fs.files key with
  | none => .error .notFound
  | some _ => .ok (fs.bind key none)

@[simp] theorem bind_files_self (fs : RamFs) (key : String) (content : Option (List UInt8)) :
    (fs.bind key content).files key = content := by
  simp [bind]

theorem bind_files_of_ne (fs : RamFs) {k key : String} (h : k ≠ key)
    (content : Option (List UInt8)) : (fs.bind key content).files k = fs.files k := by
  simp [bind, h]

theorem read_eq {path key : String} (h : normalize path = .ok key) (fs : RamFs) :
    fs.read path = (fs.files key).elim (.error .notFound) .ok := by
  simp only [read, h]
  change (match fs.files key with | none => _ | some data => _) = _
  cases fs.files key <;> rfl

theorem write_eq {path key : String} (h : normalize path = .ok key) (fs : RamFs)
    (data : List UInt8) : fs.write path data = .ok (fs.bind key (some data)) := by
  simp only [write, h]
  rfl

theorem delete_eq {path key : String} (h : normalize path = .ok key) (fs : RamFs) :
    fs.delete path =
      (fs.files key).elim (.error .notFound) fun _ => .ok (fs.bind key none) := by
  simp only [delete, h]
  change (match fs.files key with | none => _ | some _ => _) = _
  cases fs.files key <;> rfl

theorem read_of_error {path : String} {e : FsError} (h : normalize path = .error e) (fs : RamFs) :
    fs.read path = .error e := by
  simp only [read, h]
  rfl

theorem write_of_error {path : String} {e : FsError} (h : normalize path = .error e) (fs : RamFs)
    (data : List UInt8) : fs.write path data = .error e := by
  simp only [write, h]
  rfl

/-- What was written is read. -/
theorem read_of_write {fs fs' : RamFs} {path : String} {data : List UInt8}
    (h : fs.write path data = .ok fs') : fs'.read path = .ok data := by
  cases hkey : normalize path with
  | error e =>
    rw [write_of_error hkey] at h
    cases h
  | ok key =>
    rw [write_eq hkey] at h
    obtain rfl := Except.ok.inj h
    rw [read_eq hkey, bind_files_self]
    rfl

end RamFs

/-! ### `mv` -/

def isValidFilename (name : String) : Bool :=
  decide (name ≠ "" ∧ '/' ∉ name.toList ∧ '\\' ∉ name.toList ∧ '\x00' ∉ name.toList ∧
    name.utf8ByteSize ≤ 255)

/-- What `cmd_mv` prints: that it moved the file, or an error. -/
inductive Printed
  | moved (src dst : String)
  | failed (message : String)
  deriving DecidableEq, Repr

def cmdMv (fs : RamFs) (src dst : String) : Printed × RamFs :=
  if ¬isValidFilename src ∨ ¬isValidFilename dst then (.failed "mv: invalid filename", fs)
  else
    match fs.read src with
    | .error e => (.failed ("mv: " ++ e.message), fs)
    | .ok data =>
      match fs.write dst data with
      | .error e => (.failed ("mv: " ++ e.message), fs)
      | .ok fs =>
        match fs.delete src with
        | .error e => (.failed ("mv: failed to delete source: " ++ e.message), fs)
        | .ok fs => (.moved src dst, fs)

/-- A move that loses nothing: after success the destination has the content of the source, the
    source is gone if it is another file, and no third file changed; after an error nothing did. -/
def Moves (fs : RamFs) (src dst : String) : Prop :=
  match cmdMv fs src dst with
  | (.moved .., fs') =>
    fs'.read dst = fs.read src ∧
      (RamFs.normalize src ≠ RamFs.normalize dst → fs'.read src = .error .notFound) ∧
      ∀ key, .ok key ≠ RamFs.normalize src → .ok key ≠ RamFs.normalize dst →
        fs'.files key = fs.files key
  | (.failed _, fs') => fs' = fs

/-- What a move does, by the names and the file that they stand for. -/
private theorem cmdMv_eq {fs : RamFs} {src dst source target : String} {data : List UInt8}
    (hsrc : isValidFilename src) (hdst : isValidFilename dst)
    (hfrom : RamFs.normalize src = .ok source) (hto : RamFs.normalize dst = .ok target)
    (hdata : fs.files source = some data) :
    cmdMv fs src dst = (.moved src dst, (fs.bind target (some data)).bind source none) := by
  have hkept : ∃ data', (fs.bind target (some data)).files source = some data' := by
    by_cases heq : source = target
    · exact ⟨data, by rw [heq, RamFs.bind_files_self]⟩
    · exact ⟨data, by rw [RamFs.bind_files_of_ne _ heq, hdata]⟩
  obtain ⟨data', hdata'⟩ := hkept
  simp [cmdMv, hsrc, hdst, RamFs.read_eq hfrom, hdata, RamFs.write_eq hto, RamFs.delete_eq hfrom,
    hdata']

private theorem cmdMv_of_read_error {fs : RamFs} {src dst : String} {e : FsError}
    (h : fs.read src = .error e) : ∃ message, cmdMv fs src dst = (.failed message, fs) := by
  unfold cmdMv
  split
  · exact ⟨_, rfl⟩
  · exact ⟨_, by rw [h]⟩

private theorem cmdMv_of_name_error {fs : RamFs} {src dst : String} {e : FsError}
    (h : RamFs.normalize dst = .error e) :
    ∃ message, cmdMv fs src dst = (.failed message, fs) := by
  cases hread : fs.read src with
  | error e => exact cmdMv_of_read_error hread
  | ok data =>
    unfold cmdMv
    split
    · exact ⟨_, rfl⟩
    · refine ⟨"mv: " ++ e.message, ?_⟩
      simp only [hread, RamFs.write_of_error h]

private theorem moves_of_failed {fs : RamFs} {src dst : String}
    (h : ∃ message, cmdMv fs src dst = (.failed message, fs)) : Moves fs src dst := by
  obtain ⟨message, h⟩ := h
  rw [Moves, h]

/-- Both names stand for one file, which exists. -/
def SameFile (fs : RamFs) (src dst : String) : Prop :=
  ∃ key, RamFs.normalize src = .ok key ∧ RamFs.normalize dst = .ok key ∧
    ∃ data, fs.files key = some data

/-- A move loses nothing exactly when the two names are not one existing file. -/
theorem cmdMv_moves_iff (fs : RamFs) (src dst : String) (hsrc : isValidFilename src)
    (hdst : isValidFilename dst) : Moves fs src dst ↔ ¬SameFile fs src dst := by
  cases hfrom : RamFs.normalize src with
  | error e =>
    have hmv : ∃ message, cmdMv fs src dst = (.failed message, fs) :=
      cmdMv_of_read_error (RamFs.read_of_error hfrom fs)
    have hmoves := moves_of_failed hmv
    refine iff_of_true hmoves ?_
    rintro ⟨key, hkey, -⟩
    simp [hfrom] at hkey
  | ok source =>
    cases hto : RamFs.normalize dst with
    | error e =>
      refine iff_of_true (moves_of_failed (cmdMv_of_name_error hto)) ?_
      rintro ⟨key, -, hkey, -⟩
      simp [hto] at hkey
    | ok target =>
      cases hdata : fs.files source with
      | none =>
        have hread : fs.read src = .error .notFound := by
          rw [RamFs.read_eq hfrom, hdata]
          rfl
        refine iff_of_true (moves_of_failed (cmdMv_of_read_error hread)) ?_
        rintro ⟨key, hkey, -, data, hsome⟩
        obtain rfl := Except.ok.inj (hfrom.symm.trans hkey)
        simp [hdata] at hsome
      | some data =>
        have hsame : SameFile fs src dst ↔ source = target := by
          constructor
          · rintro ⟨key, hkey, hkey', -⟩
            exact (Except.ok.inj (hfrom.symm.trans hkey)).trans
              (Except.ok.inj (hto.symm.trans hkey')).symm
          · rintro rfl
            exact ⟨source, hfrom, hto, data, hdata⟩
        simp only [Moves, cmdMv_eq hsrc hdst hfrom hto hdata, hsame, RamFs.read_eq hfrom,
          RamFs.read_eq hto, hdata, hfrom, hto]
        constructor
        · -- the removal takes away what the write left
          rintro ⟨hcontent, -, -⟩ rfl
          simp at hcontent
        · intro hne
          refine ⟨?_, fun _ => by simp, ?_⟩
          · rw [RamFs.bind_files_of_ne _ (Ne.symm hne), RamFs.bind_files_self]
          · intro key hkey hkey'
            rw [RamFs.bind_files_of_ne _ fun h => hkey (congrArg Except.ok h),
              RamFs.bind_files_of_ne _ fun h => hkey' (congrArg Except.ok h)]

/-- One file, `a`. -/
def oneFile : RamFs := ⟨fun key => if key = "a" then some [1] else none⟩

private theorem normalize_a : RamFs.normalize "a" = .ok "a" := by decide +kernel

/-- `mv a a` reports success and leaves no file. -/
theorem cmdMv_loses : isValidFilename "a" ∧ ¬Moves oneFile "a" "a" ∧
    (cmdMv oneFile "a" "a").1 = .moved "a" "a" ∧
    (cmdMv oneFile "a" "a").2.read "a" = .error .notFound := by
  have hvalid : isValidFilename "a" := by decide +kernel
  have hfile : oneFile.files "a" = some [1] := rfl
  have hmv := cmdMv_eq hvalid hvalid normalize_a normalize_a hfile
  have hgone : (cmdMv oneFile "a" "a").2.read "a" = .error .notFound := by
    rw [hmv, RamFs.read_eq normalize_a, RamFs.bind_files_self]
    rfl
  refine ⟨hvalid, ?_, by rw [hmv], hgone⟩
  intro hmoves
  rw [Moves, hmv] at hmoves
  obtain ⟨hcontent, -, -⟩ := hmoves
  rw [hmv] at hgone
  rw [hgone, RamFs.read_eq normalize_a] at hcontent
  cases hcontent

/-- To another name, the file is moved. -/
theorem cmdMv_moves : Moves oneFile "a" "b" := by
  refine (cmdMv_moves_iff oneFile "a" "b" (by decide +kernel) (by decide +kernel)).mpr ?_
  rintro ⟨key, hkey, hkey', -⟩
  obtain rfl := Except.ok.inj (normalize_a.symm.trans hkey)
  revert hkey'
  decide +kernel

end RustKernel.Ram
