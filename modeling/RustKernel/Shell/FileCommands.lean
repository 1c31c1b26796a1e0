import RustKernel.Fs.Directory
import RustKernel.Lib.Words
import RustKernel.Shell.Saving

/-!
# RustKernel.Shell.FileCommands

The commands of the shell on files: a line is cut into words, the first one is the command, and the
names of the files are among the others.

## Main result

`cat_prints_written`: what is written to a file is printed by `cat`, whatever commands are run in
between that do not have the name among their words, and whatever is typed into the editor for other
files.

## Proof strategy

A word is not changed by the trimming of the file system (`normalize_solid`), so each command
changes only files that are words of its line (`dispatch_frame`).
-/

namespace RustKernel.Shell

open Lib Lib.Text Ram Editor
open Fs (asBytes fromUtf8)
open Keyboard (KeyEvent)

/-! ### The commands -/

/-- `ramfs::create` -/
def create (fs : RamFs) (path : String) : Except FsError RamFs := do
  let key ← RamFs.normalize path
  match fs.files key with
  | some _ => .error .exists
  | none => .ok (fs.bind key (some []))

def cmdTouch (fs : RamFs) (path : String) : String × RamFs :=
  if ¬isValidFilename path then
    ("touch: invalid filename (max 255 chars, no / \\ or null bytes)", fs)
  else
    match create fs path with
    | .ok fs => ("created " ++ path, fs)
    | .error e => ("touch: " ++ e.message, fs)

/-- `parse_write_args` -/
def parseWriteArgs (s : List Char) : Option (String × String) :=
  let s := trim s
  if s = [] then none
  else
    let path := trim (s.takeWhile fun c => !isWhitespace c)
    -- `find(char::is_whitespace)?`
    if s.dropWhile (fun c => !isWhitespace c) = [] then none
    else if ¬isValidFilename (String.ofList path) then none
    else
      let content := trim (s.dropWhile fun c => !isWhitespace c)
      if content = [] then none
      else if content.head? = some '"' ∧ content.getLast? = some '"' ∧ 2 ≤ byteLen content then
        some (String.ofList path, String.ofList content.tail.dropLast)
      else some (String.ofList path, String.ofList content)

/-- `line.strip_prefix(prefix).unwrap_or("")` -/
def stripPrefix (word line : List Char) : List Char :=
  if word <+: line then line.drop word.length else []

def cmdWrite (fs : RamFs) (line : List Char) : String × RamFs :=
  match parseWriteArgs (trim (stripPrefix "write".toList line)) with
  | none => ("usage: write <file> \"content\" (filename must be valid)", fs)
  | some (path, content) =>
    match fs.write path (asBytes content) with
    | .ok fs => ("wrote " ++ toString content.utf8ByteSize ++ " bytes to " ++ path, fs)
    | .error e => ("write: " ++ e.message, fs)

def cmdCat (fs : RamFs) (path : String) : String × RamFs :=
  if ¬isValidFilename path then ("cat: invalid filename", fs)
  else
    match fs.read path with
    | .ok data =>
      match fromUtf8 data with
      | some s => (s, fs)
      | none => ("(binary " ++ toString data.length ++ " bytes)", fs)
    | .error e => ("cat: " ++ e.message, fs)

def cmdRm (fs : RamFs) (path : String) : String × RamFs :=
  if ¬isValidFilename path then ("rm: invalid filename", fs)
  else
    match fs.delete path with
    | .ok fs => ("removed " ++ path, fs)
    | .error e => ("rm: " ++ e.message, fs)

def cmdCp (fs : RamFs) (src dst : String) : String × RamFs :=
  if ¬isValidFilename src ∨ ¬isValidFilename dst then ("cp: invalid filename", fs)
  else
    match fs.read src with
    | .ok data =>
      match fs.write dst data with
      | .ok fs =>
        ("copied " ++ src ++ " to " ++ dst ++ " (" ++ toString data.length ++ " bytes)", fs)
      | .error e => ("cp: " ++ e.message, fs)
    | .error e => ("cp: " ++ e.message, fs)

/-- What `cmd_mv` prints. -/
def mvText : Printed → String
  | .moved src dst => "moved " ++ src ++ " to " ++ dst
  | .failed message => message

def cmdMvText (fs : RamFs) (src dst : String) : String × RamFs :=
  (mvText (cmdMv fs src dst).1, (cmdMv fs src dst).2)

/-! ### `dispatch` -/

/-- A command with the name of a file. -/
def oneFile (usage : String) (cmd : RamFs → String → String × RamFs) (fs : RamFs) :
    List (List Char) → String × RamFs
  | [] => (usage, fs)
  | path :: _ => cmd fs (String.ofList path)

/-- A command with two names. -/
def twoFiles (usage : String) (cmd : RamFs → String → String → String × RamFs) (fs : RamFs) :
    List (List Char) → String × RamFs
  | src :: dst :: _ => cmd fs (String.ofList src) (String.ofList dst)
  | _ => (usage, fs)

/-- `edit`: the editor on the keys that are typed into it, none if it panics. -/
def cmdEdit (fs : RamFs) (keys : List KeyEvent) : List (List Char) → Option (String × RamFs)
  | [] => some ("usage: edit <file>", fs)
  | path :: _ =>
    (keys.foldl turn (some (openEditor fs (String.ofList path)))).map fun s => ("", s.fs)

/-- `dispatch`, with the keys that are typed while the command runs, none if it panics. The other
    commands change no files; what else they do is left out. -/
def dispatch (fs : RamFs) (line : List Char) (keys : List KeyEvent) : Option (String × RamFs) :=
  let line := trim line
  match words line with
  | [] => some ("", fs)
  | cmd :: args =>
    if cmd = "touch".toList then some (oneFile "usage: touch <file>" cmdTouch fs args)
    else if cmd = "write".toList then some (cmdWrite fs line)
    else if cmd = "cat".toList then some (oneFile "usage: cat <file>" cmdCat fs args)
    else if cmd = "rm".toList then some (oneFile "usage: rm <file>" cmdRm fs args)
    else if cmd = "cp".toList then some (twoFiles "usage: cp <source> <dest>" cmdCp fs args)
    else if cmd = "mv".toList then some (twoFiles "usage: mv <source> <dest>" cmdMvText fs args)
    else if cmd = "edit".toList then cmdEdit fs keys args
    else if cmd = "panic".toList then none
    else some ("", fs)

/-- A line that is entered, and the keys that are typed while its command runs. -/
structure Entered where
  line : List Char
  keys : List KeyEvent

/-- The files behind a command, if it does not panic. -/
def enter (fs : RamFs) (e : Entered) : Option RamFs := (dispatch fs e.line e.keys).map Prod.snd

/-! ### What a command leaves alone -/

variable {fs fs' : RamFs} {path key : String}

theorem normalize_solid (hpath : Solid path.toList) (h : RamFs.normalize path = .ok key) :
    key = path := by
  rw [RamFs.normalize, hpath.trim_eq] at h
  split at h
  · cases h
  · rw [← Except.ok.inj h, String.ofList_toList]

private theorem write_frame {data : List UInt8} (hpath : Solid path.toList)
    (h : fs.write path data = .ok fs') (hkey : key ≠ path) : fs'.files key = fs.files key := by
  cases hnorm : RamFs.normalize path with
  | error e =>
    rw [RamFs.write_of_error hnorm] at h
    cases h
  | ok target =>
    rw [RamFs.write_eq hnorm] at h
    rw [← Except.ok.inj h, normalize_solid hpath hnorm, RamFs.bind_files_of_ne _ hkey]

private theorem create_frame (hpath : Solid path.toList) (h : create fs path = .ok fs')
    (hkey : key ≠ path) : fs'.files key = fs.files key := by
  cases hnorm : RamFs.normalize path with
  | error e =>
    simp only [create, hnorm] at h
    cases h
  | ok target =>
    simp only [create, hnorm] at h
    change (match fs.files target with | some _ => _ | none => _) = _ at h
    split at h
    · cases h
    · rw [← Except.ok.inj h, normalize_solid hpath hnorm, RamFs.bind_files_of_ne _ hkey]

private theorem delete_frame (hpath : Solid path.toList) (h : fs.delete path = .ok fs')
    (hkey : key ≠ path) : fs'.files key = fs.files key := by
  cases hnorm : RamFs.normalize path with
  | error e =>
    simp only [RamFs.delete, hnorm] at h
    cases h
  | ok target =>
    rw [RamFs.delete_eq hnorm] at h
    cases hfile : fs.files target with
    | none =>
      rw [hfile] at h
      cases h
    | some data =>
      rw [hfile] at h
      rw [← Except.ok.inj h, normalize_solid hpath hnorm, RamFs.bind_files_of_ne _ hkey]

private theorem cmdTouch_frame (hpath : Solid path.toList) (hkey : key ≠ path) :
    (cmdTouch fs path).2.files key = fs.files key := by
  rw [cmdTouch]
  split
  · rfl
  · cases hcreate : create fs path with
    | error e => rfl
    | ok fs' => exact create_frame hpath hcreate hkey

private theorem cmdRm_frame (hpath : Solid path.toList) (hkey : key ≠ path) :
    (cmdRm fs path).2.files key = fs.files key := by
  rw [cmdRm]
  split
  · rfl
  · cases hdelete : fs.delete path with
    | error e => rfl
    | ok fs' => exact delete_frame hpath hdelete hkey

private theorem cmdCat_files (fs : RamFs) (path : String) : (cmdCat fs path).2 = fs := by
  rw [cmdCat]
  split
  · rfl
  · split
    · split
      · rfl
      · rfl
    · rfl

private theorem cmdCp_frame {src dst : String} (hdst : Solid dst.toList) (hkey : key ≠ dst) :
    (cmdCp fs src dst).2.files key = fs.files key := by
  rw [cmdCp]
  split
  · rfl
  · cases hread : fs.read src with
    | error e => rfl
    | ok data =>
      cases hwrite : fs.write dst data with
      | error e => simp only [hwrite]
      | ok fs' =>
        simp only [hwrite]
        exact write_frame hdst hwrite hkey

private theorem cmdMv_frame {src dst : String} (hsrc : Solid src.toList) (hdst : Solid dst.toList)
    (hsrc' : key ≠ src) (hdst' : key ≠ dst) : (cmdMv fs src dst).2.files key = fs.files key := by
  rw [cmdMv]
  split
  · rfl
  · cases hread : fs.read src with
    | error e => rfl
    | ok data =>
      cases hwrite : fs.write dst data with
      | error e => simp only [hwrite]
      | ok fs' =>
        have hwritten := write_frame hdst hwrite hdst'
        cases hdelete : fs'.delete src with
        | error e => simpa only [hwrite, hdelete] using hwritten
        | ok fs'' =>
          simp only [hwrite, hdelete]
          rw [delete_frame hsrc hdelete hsrc', hwritten]

/-- The editor changes its own file only. -/
private theorem step_frame {s t : Session} {ev : KeyEvent} (h : s.step ev = some t)
    (hpath : Solid s.path.toList) (hkey : key ≠ s.path) :
    t.path = s.path ∧ t.fs.files key = s.fs.files key := by
  cases hedits : s.edits ev with
  | true =>
    obtain ⟨buffer, cursor, rfl⟩ := Session.step_of_edits hedits h
    exact ⟨rfl, rfl⟩
  | false =>
    rcases Session.step_of_not_edits hedits with ⟨row, col, hstep⟩ | ⟨-, hstep⟩ | ⟨-, -, hstep⟩
    · obtain rfl := Option.some.inj (h.symm.trans hstep)
      exact ⟨rfl, rfl⟩
    · obtain rfl := Option.some.inj (h.symm.trans hstep)
      exact ⟨rfl, rfl⟩
    · obtain rfl := Option.some.inj (h.symm.trans hstep)
      refine ⟨rfl, ?_⟩
      rw [Session.save]
      cases hwrite : s.fs.write s.path (bytes s.buffer) with
      | error e => rfl
      | ok fs' => exact write_frame hpath hwrite hkey

private theorem turn_none (keys : List KeyEvent) : keys.foldl turn none = none := by
  induction keys with
  | nil => rfl
  | cons ev keys ih => exact ih

private theorem turn_frame (keys : List KeyEvent) {s t : Session}
    (h : keys.foldl turn (some s) = some t) (hpath : Solid s.path.toList) (hkey : key ≠ s.path) :
    t.fs.files key = s.fs.files key := by
  induction keys generalizing s with
  | nil =>
    obtain rfl := Option.some.inj h
    rfl
  | cons ev keys ih =>
    rw [List.foldl_cons, turn, Option.bind_some] at h
    cases hstep : s.step ev with
    | none =>
      rw [hstep, turn_none] at h
      cases h
    | some s' =>
      obtain ⟨hname, hfiles⟩ := step_frame hstep hpath hkey
      rw [hstep] at h
      rw [ih h (by rwa [hname]) (by rwa [hname]), hfiles]

private theorem ne_of_not_mem {w : List Char} {args : List (List Char)} (hkey : key.toList ∉ args)
    (hw : w ∈ args) : key ≠ String.ofList w := by
  rintro rfl
  exact hkey (by rwa [String.toList_ofList])

private theorem cmdEdit_frame {keys : List KeyEvent} {args : List (List Char)} {printed : String}
    (h : cmdEdit fs keys args = some (printed, fs')) (hargs : ∀ w ∈ args, Solid w)
    (hkey : key.toList ∉ args) : fs'.files key = fs.files key := by
  cases args with
  | nil =>
    obtain ⟨-, rfl⟩ := Prod.mk.inj (Option.some.inj h)
    rfl
  | cons path args =>
    obtain ⟨t, ht, hresult⟩ := Option.map_eq_some_iff.mp h
    obtain ⟨-, rfl⟩ := Prod.mk.inj hresult
    have hsolid : Solid (String.ofList path).toList := by
      rw [String.toList_ofList]
      exact hargs path List.mem_cons_self
    exact turn_frame keys ht hsolid (ne_of_not_mem hkey List.mem_cons_self)

/-- A command with the name of a file, that changes this file only. -/
private theorem oneFile_frame {usage : String} {cmd : RamFs → String → String × RamFs}
    (hcmd : ∀ path, Solid path.toList → key ≠ path → (cmd fs path).2.files key = fs.files key)
    {args : List (List Char)} (hargs : ∀ w ∈ args, Solid w) (hkey : key.toList ∉ args) :
    (oneFile usage cmd fs args).2.files key = fs.files key := by
  cases args with
  | nil => rfl
  | cons path args =>
    apply hcmd
    · rw [String.toList_ofList]
      exact hargs path List.mem_cons_self
    · exact ne_of_not_mem hkey List.mem_cons_self

private theorem twoFiles_frame {usage : String} {cmd : RamFs → String → String → String × RamFs}
    (hcmd : ∀ src dst, Solid src.toList → Solid dst.toList → key ≠ src → key ≠ dst →
      (cmd fs src dst).2.files key = fs.files key)
    {args : List (List Char)} (hargs : ∀ w ∈ args, Solid w) (hkey : key.toList ∉ args) :
    (twoFiles usage cmd fs args).2.files key = fs.files key := by
  cases args with
  | nil => rfl
  | cons src args =>
    cases args with
    | nil => rfl
    | cons dst args =>
      have hdst : dst ∈ src :: dst :: args := List.mem_cons_of_mem _ List.mem_cons_self
      apply hcmd
      · rw [String.toList_ofList]
        exact hargs src List.mem_cons_self
      · rw [String.toList_ofList]
        exact hargs dst hdst
      · exact ne_of_not_mem hkey List.mem_cons_self
      · exact ne_of_not_mem hkey hdst

/-! ### `write` -/

private theorem takeWhile_solid (cs : List Char) :
    Solid (cs.takeWhile fun c => !isWhitespace c) := by
  intro c hc
  have hnot := List.mem_takeWhile_imp hc
  simpa using hnot

/-- The name is the first word. -/
private theorem parse_path {s : List Char} {content : String}
    (h : parseWriteArgs s = some (path, content)) : path.toList ∈ words s := by
  simp only [parseWriteArgs, (takeWhile_solid _).trim_eq] at h
  rw [← words_trim s]
  generalize trim s = cs at *
  -- the path is the first word, and ends at a space since a text follows it
  have hsplit := List.takeWhile_append_dropWhile (p := fun c => !isWhitespace c) (l := cs)
  have hspace := List.head?_dropWhile_not (fun c => !isWhitespace c) cs
  have hsolid := takeWhile_solid cs
  generalize (cs.takeWhile fun c => !isWhitespace c) = word at *
  generalize (cs.dropWhile fun c => !isWhitespace c) = rest at *
  split at h
  · cases h
  split at h
  · cases h
  split at h
  · cases h
  case isFalse hvalid =>
    have hne : word ≠ [] := by
      rintro rfl
      exact hvalid (by decide)
    have hpath : path = String.ofList word := by
      split at h
      · cases h
      split at h
      · exact (congrArg Prod.fst (Option.some.inj h)).symm
      · exact (congrArg Prod.fst (Option.some.inj h)).symm
    cases rest with
    | nil => contradiction
    | cons c rest =>
      have hc : isWhitespace c = true := by simpa using hspace
      rw [hpath, String.toList_ofList, ← hsplit, words_append_space hsolid hne hc]
      exact List.mem_cons_self

/-- The line without `write` has the words behind it. -/
private theorem words_stripPrefix {line : List Char} {cmd : List Char} {args : List (List Char)}
    (h : words line = cmd :: args) (hstart : ∀ c ∈ line.head?, isWhitespace c = false) :
    words (stripPrefix cmd line) = args := by
  obtain ⟨rest, rfl, rfl⟩ := words_eq_cons h hstart
  rw [stripPrefix, if_pos (List.prefix_append cmd rest), List.drop_left]

private theorem cmdWrite_frame {line : List Char} {args : List (List Char)}
    (h : words line = "write".toList :: args)
    (hstart : ∀ c ∈ line.head?, isWhitespace c = false) (hkey : key.toList ∉ args) :
    (cmdWrite fs line).2.files key = fs.files key := by
  rw [cmdWrite]
  cases hparse : parseWriteArgs (trim (stripPrefix "write".toList line)) with
  | none => rfl
  | some parsed =>
    obtain ⟨path, content⟩ := parsed
    have hmem := parse_path hparse
    rw [words_trim, words_stripPrefix h hstart] at hmem
    have hsolid : Solid path.toList := by
      have hword : path.toList ∈ words line := by
        rw [h]
        exact List.mem_cons_of_mem _ hmem
      exact (mem_words hword).2
    have hne : key ≠ path := fun heq => hkey (by rwa [heq])
    cases hwrite : fs.write path (asBytes content) with
    | error e => simp only [hwrite]
    | ok fs' =>
      simp only [hwrite]
      exact write_frame hsolid hwrite hne

/-! ### Runs -/

/-- A command changes only files that are words of its line. -/
theorem dispatch_frame {line : List Char} {keys : List KeyEvent} {printed : String}
    (h : dispatch fs line keys = some (printed, fs')) (hkey : key.toList ∉ words line) :
    fs'.files key = fs.files key := by
  rw [← words_trim] at hkey
  rw [dispatch] at h
  have hstart := head_trim line
  generalize trim line = line at *
  cases hwords : words line with
  | nil =>
    rw [hwords] at h
    obtain ⟨-, rfl⟩ := Prod.mk.inj (Option.some.inj h)
    rfl
  | cons cmd args =>
    have hargs : ∀ w ∈ args, Solid w := fun w hw =>
      (mem_words (hwords ▸ List.mem_cons_of_mem cmd hw : w ∈ words line)).2
    have hnot : key.toList ∉ args := fun hmem => hkey (by
      rw [hwords]
      exact List.mem_cons_of_mem _ hmem)
    rw [hwords] at h
    -- every command but `edit` answers with the store and the text to print
    have hfiles : ∀ {result : String × RamFs}, some result = some (printed, fs') →
        result.2.files key = fs.files key → fs'.files key = fs.files key := by
      intro result hresult hframe
      rwa [Option.some.inj hresult] at hframe
    simp only at h
    split at h
    · exact hfiles h (oneFile_frame (fun _ => cmdTouch_frame) hargs hnot)
    split at h
    case isTrue hcmd => exact hfiles h (cmdWrite_frame (hcmd ▸ hwords) hstart hnot)
    split at h
    · exact hfiles h (oneFile_frame (fun path _ _ => by rw [cmdCat_files]) hargs hnot)
    split at h
    · exact hfiles h (oneFile_frame (fun _ => cmdRm_frame) hargs hnot)
    split at h
    · exact hfiles h (twoFiles_frame (fun _ _ _ hdst _ hkey => cmdCp_frame hdst hkey) hargs hnot)
    split at h
    · exact hfiles h (twoFiles_frame (fun _ _ => cmdMv_frame) hargs hnot)
    split at h
    · exact cmdEdit_frame h hargs hnot
    split at h
    · cases h
    · exact hfiles h rfl

private theorem enter_frame (inputs : List Entered) (hkey : ∀ e ∈ inputs, key.toList ∉ words e.line)
    (h : inputs.foldlM enter fs = some fs') : fs'.files key = fs.files key := by
  induction inputs generalizing fs with
  | nil =>
    obtain rfl := Option.some.inj h
    rfl
  | cons e inputs ih =>
    rw [List.foldlM_cons] at h
    obtain ⟨next, hnext, hrest⟩ := Option.bind_eq_some_iff.mp h
    obtain ⟨⟨printed, _⟩, hdispatch, rfl⟩ := Option.map_eq_some_iff.mp hnext
    rw [ih (fun e he => hkey e (List.mem_cons_of_mem _ he)) hrest]
    exact dispatch_frame hdispatch (hkey e List.mem_cons_self)

/-! ### Writing and printing -/

def quoted (text : String) : List Char := '"' :: text.toList ++ ['"']

/-- `write <name> "<text>"` -/
def writeLine (name text : String) : List Char :=
  "write".toList ++ ' ' :: (name.toList ++ ' ' :: quoted text)

/-- `cat <name>` -/
def catLine (name : String) : List Char := "cat".toList ++ ' ' :: name.toList

variable {name : String}

private theorem toList_ne_nil (h : isValidFilename name) : name.toList ≠ [] := by
  have hne : name ≠ "" := (of_decide_eq_true h).1
  intro hnil
  exact hne (String.toList_inj.mp hnil)

private theorem normalize_valid (hvalid : isValidFilename name) (hsolid : Solid name.toList) :
    RamFs.normalize name = .ok name := by
  obtain ⟨-, hslash, hback, -⟩ := of_decide_eq_true hvalid
  have hgood : ¬(name.toList = [] ∨ '/' ∈ name.toList ∨ '\\' ∈ name.toList) := by
    rintro (hnil | hmem | hmem)
    · exact toList_ne_nil hvalid hnil
    · exact hslash hmem
    · exact hback hmem
  rw [RamFs.normalize, hsolid.trim_eq, if_neg hgood, String.ofList_toList]

private theorem getLast_quoted (text : String) : (quoted text).getLast? = some '"' :=
  List.getLast?_concat

private theorem quoted_ne_nil (text : String) : quoted text ≠ [] := List.cons_ne_nil _ _

private theorem quote_solid : ∀ c ∈ some '"', isWhitespace c = false := by
  intro c hc
  rw [← Option.mem_some_iff.mp hc]
  decide

private theorem trim_quoted (text : String) : trim (quoted text) = quoted text :=
  trim_eq_self quote_solid (by rw [getLast_quoted]; exact quote_solid)

/-- A text that starts with a word and ends with a quoted one. -/
private theorem trim_append_quoted {xs : List Char}
    (hsolid : ∀ c ∈ xs.head?, isWhitespace c = false)
    (hne : xs ≠ []) (c : Char) (text : String) :
    trim (xs ++ c :: quoted text) = xs ++ c :: quoted text := by
  apply trim_eq_self
  · rwa [List.head?_append_of_ne_nil _ hne]
  · rw [List.getLast?_append_of_ne_nil _ (List.cons_ne_nil _ _), List.getLast?_cons_of_ne_nil
      (quoted_ne_nil text), getLast_quoted]
    exact quote_solid

/-- Quotes around a text are taken off, whatever the text is. -/
private theorem parse_quoted (hvalid : isValidFilename name) (hsolid : Solid name.toList)
    (text : String) :
    parseWriteArgs (name.toList ++ ' ' :: quoted text) = some (name, text) := by
  have hne := toList_ne_nil hvalid
  have hhead : ∀ c ∈ name.toList.head?, isWhitespace c = false :=
    fun c hc => hsolid c (List.mem_of_mem_head? hc)
  have hword : ∀ c ∈ name.toList, (!isWhitespace c) = true := fun c hc => by simp [hsolid c hc]
  have htake : (name.toList ++ ' ' :: quoted text).takeWhile (fun c => !isWhitespace c) =
      name.toList := by
    rw [List.takeWhile_append_of_pos hword, List.takeWhile_cons_of_neg (by decide), List.append_nil]
  have hdrop : (name.toList ++ ' ' :: quoted text).dropWhile (fun c => !isWhitespace c) =
      ' ' :: quoted text := by
    rw [List.dropWhile_append_of_pos hword, List.dropWhile_cons_of_neg (by decide)]
  have hcontent : trim (' ' :: quoted text) = quoted text := by
    rw [trim_space (by decide), trim_quoted]
  have hlength : 2 ≤ byteLen (quoted text) := by
    have hquote : byteLen ['"'] = 1 := rfl
    rw [quoted, byteLen_append, byteLen_cons, hquote]
    have hpos := Char.utf8Size_pos '"'
    omega
  have hinner : (quoted text).tail.dropLast = text.toList := List.dropLast_concat
  simp only [parseWriteArgs, trim_append_quoted hhead hne, htake, hdrop, hsolid.trim_eq, hcontent,
    String.ofList_toList]
  rw [if_neg (by simp), if_neg (List.cons_ne_nil _ _), if_neg (not_not.mpr hvalid),
    if_neg (quoted_ne_nil text), if_pos ⟨rfl, getLast_quoted text, hlength⟩, hinner,
    String.ofList_toList]

private theorem write_solid : Solid "write".toList := solid_of_all (by decide +kernel)

private theorem cat_solid : Solid "cat".toList := solid_of_all (by decide +kernel)

private theorem dispatch_write (hvalid : isValidFilename name) (hsolid : Solid name.toList)
    (text : String)
    (keys : List KeyEvent) : dispatch fs (writeLine name text) keys =
      some ("wrote " ++ toString text.utf8ByteSize ++ " bytes to " ++ name,
        fs.bind name (some (asBytes text))) := by
  -- the line is split twice: into words for the command, and behind its name for the arguments
  have hhead : ∀ c ∈ name.toList.head?, isWhitespace c = false :=
    fun c hc => hsolid c (List.mem_of_mem_head? hc)
  have hline : trim (writeLine name text) = writeLine name text := by
    have hassoc : writeLine name text =
        ("write".toList ++ ' ' :: name.toList) ++ ' ' :: quoted text := by
      rw [writeLine, List.append_assoc, List.cons_append]
    rw [hassoc]
    refine trim_append_quoted ?_ (List.cons_ne_nil _ _) ' ' text
    intro c hc
    exact write_solid c (List.mem_of_mem_head? hc)
  have hwords : words (writeLine name text) =
      "write".toList :: words (name.toList ++ ' ' :: quoted text) :=
    words_append_space write_solid (List.cons_ne_nil _ _) (by decide) _
  have hrest : trim (stripPrefix "write".toList (writeLine name text)) =
      name.toList ++ ' ' :: quoted text := by
    rw [writeLine, stripPrefix, if_pos (List.prefix_append _ _), List.drop_left,
      trim_space (by decide), trim_append_quoted hhead (toList_ne_nil hvalid)]
  have hwrite : cmdWrite fs (writeLine name text) =
      ("wrote " ++ toString text.utf8ByteSize ++ " bytes to " ++ name,
        fs.bind name (some (asBytes text))) := by
    rw [cmdWrite, hrest, parse_quoted hvalid hsolid]
    simp only [RamFs.write_eq (normalize_valid hvalid hsolid)]
  simp only [dispatch, hline, hwords]
  rw [if_neg (by decide), if_pos trivial, hwrite]

private theorem dispatch_cat (hvalid : isValidFilename name) (hsolid : Solid name.toList)
    (keys : List KeyEvent) : dispatch fs (catLine name) keys = some (cmdCat fs name) := by
  have hne := toList_ne_nil hvalid
  have hline : trim (catLine name) = catLine name := by
    apply trim_eq_self
    · intro c hc
      exact cat_solid c (List.mem_of_mem_head? hc)
    · intro c hc
      rw [catLine, List.getLast?_append_of_ne_nil _ (List.cons_ne_nil _ _),
        List.getLast?_cons_of_ne_nil hne] at hc
      exact hsolid c (List.mem_of_getLast? hc)
  have hwords : words (catLine name) = ["cat".toList, name.toList] := by
    rw [catLine, words_append_space cat_solid (List.cons_ne_nil _ _) (by decide),
      words_solid hsolid hne]
  simp only [dispatch, hline, hwords]
  rw [if_neg (by decide), if_neg (by decide), if_pos trivial, oneFile, String.ofList_toList]

theorem cat_prints_written (fs : RamFs) (name text : String) (hvalid : isValidFilename name)
    (hsolid : Solid name.toList) (keys keys' : List KeyEvent) (inputs : List Entered)
    (hother : ∀ e ∈ inputs, name.toList ∉ words e.line) (fs' : RamFs)
    (hrun : (⟨writeLine name text, keys⟩ :: inputs).foldlM enter fs = some fs') :
    dispatch fs' (catLine name) keys' = some (text, fs') := by
  have hwrite := @dispatch_write fs name hvalid hsolid text keys
  rw [List.foldlM_cons] at hrun
  obtain ⟨next, hnext, hrest⟩ := Option.bind_eq_some_iff.mp hrun
  have hbound : fs'.files name = some (asBytes text) := by
    rw [enter, hwrite, Option.map_some, Option.some.injEq] at hnext
    rw [enter_frame inputs hother hrest, ← hnext, RamFs.bind_files_self]
  rw [dispatch_cat hvalid hsolid, cmdCat, if_neg (not_not.mpr hvalid),
    RamFs.read_eq (normalize_valid hvalid hsolid), hbound]
  simp only [Option.elim_some, Fs.fromUtf8_asBytes]

/-- The file `a` with a greeting. -/
def greeting : RamFs := RamFs.bind ⟨fun _ => none⟩ "a" (some (asBytes "hi  there"))

theorem cat_prints_greeting : dispatch greeting (catLine "a") [] = some ("hi  there", greeting) :=
  cat_prints_written ⟨fun _ => none⟩ "a" "hi  there" (by decide +kernel)
    (solid_of_all (by decide +kernel)) [] [] [⟨"rm b".toList, []⟩]
    (by
      intro e he
      rw [List.mem_singleton.mp he]
      decide +kernel) greeting (by
      have hwrite := @dispatch_write ⟨fun _ => none⟩ "a" (by decide +kernel)
        (solid_of_all (by decide +kernel)) "hi  there" []
      have hrm : dispatch greeting "rm b".toList [] = some ("rm: not found", greeting) := rfl
      simp only [List.foldlM_cons, List.foldlM_nil, enter, hwrite]
      exact congrArg (Option.map Prod.snd) hrm)

end RustKernel.Shell
