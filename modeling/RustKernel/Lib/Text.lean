import Mathlib.Data.List.Basic
import Mathlib.Tactic

/-!
# RustKernel.Lib.Text

Text as a list of characters, addressed by the byte offsets of its UTF-8 form: insertion and removal
at an offset, lines, white space at the ends, and the reading of bytes that need not be UTF-8.

`insertAt` and `removeAt` fail at an offset inside a character. The lemmas are about the end of the
text.
-/

namespace RustKernel.Lib.Text

/-- The UTF-8 form. -/
def bytes (cs : List Char) : List UInt8 := cs.flatMap String.utf8EncodeChar

def byteLen (cs : List Char) : Nat := (cs.map Char.utf8Size).sum

@[simp] theorem byteLen_nil : byteLen [] = 0 := rfl

@[simp] theorem byteLen_cons (c : Char) (cs : List Char) :
    byteLen (c :: cs) = c.utf8Size + byteLen cs := rfl

@[simp] theorem byteLen_append (cs ds : List Char) :
    byteLen (cs ++ ds) = byteLen cs + byteLen ds := by
  simp [byteLen]

theorem length_bytes (cs : List Char) : (bytes cs).length = byteLen cs := by
  induction cs with
  | nil => rfl
  | cons c cs ih => simp [bytes, byteLen, List.length_flatMap]

theorem bytes_append (cs ds : List Char) : bytes (cs ++ ds) = bytes cs ++ bytes ds :=
  List.flatMap_append

theorem byteLen_eq_zero {cs : List Char} (h : byteLen cs = 0) : cs = [] := by
  cases cs with
  | nil => rfl
  | cons c cs =>
    have hpos := c.utf8Size_pos
    rw [byteLen_cons] at h
    omega

/-! ### Editing at an offset -/

/-- `String::insert`, none where it panics: the offset has to be the start of a character or the end
    of the text. -/
def insertAt : List Char → Nat → Char → Option (List Char)
  | cs, 0, ch => some (ch :: cs)
  | [], _ + 1, _ => none
  | c :: cs, n, ch =>
    if c.utf8Size ≤ n then (insertAt cs (n - c.utf8Size) ch).map (c :: ·) else none

/-- `String::remove`, none where it panics: the offset has to be the start of a character. -/
def removeAt : List Char → Nat → Option (List Char)
  | [], _ => none
  | _ :: cs, 0 => some cs
  | c :: cs, n => if c.utf8Size ≤ n then (removeAt cs (n - c.utf8Size)).map (c :: ·) else none

theorem insertAt_cons (c : Char) (cs : List Char) {n : Nat} (hn : 0 < n) (ch : Char) :
    insertAt (c :: cs) n ch =
      if c.utf8Size ≤ n then (insertAt cs (n - c.utf8Size) ch).map (c :: ·) else none := by
  obtain ⟨m, rfl⟩ := Nat.exists_eq_succ_of_ne_zero hn.ne'
  rfl

theorem removeAt_cons (c : Char) (cs : List Char) {n : Nat} (hn : 0 < n) :
    removeAt (c :: cs) n =
      if c.utf8Size ≤ n then (removeAt cs (n - c.utf8Size)).map (c :: ·) else none := by
  obtain ⟨m, rfl⟩ := Nat.exists_eq_succ_of_ne_zero hn.ne'
  rfl

/-- Insertion at the end always works. -/
theorem insertAt_end (cs : List Char) (ch : Char) :
    insertAt cs (byteLen cs) ch = some (cs ++ [ch]) := by
  induction cs with
  | nil => rfl
  | cons c cs ih =>
    have hpos := c.utf8Size_pos
    rw [byteLen_cons, insertAt_cons c cs (by omega), if_pos (by omega), Nat.add_sub_cancel_left, ih]
    rfl

/-- Removal at `k` bytes behind the start of the last character works if there are none. -/
theorem removeAt_last (cs : List Char) (c : Char) (k : Nat) :
    removeAt (cs ++ [c]) (byteLen cs + k) = if k = 0 then some cs else none := by
  induction cs with
  | nil =>
    cases k with
    | zero => rfl
    | succ k =>
      rw [List.nil_append, byteLen_nil, Nat.zero_add, removeAt_cons c [] (Nat.succ_pos k)]
      split <;> rfl
  | cons d cs ih =>
    have hpos := d.utf8Size_pos
    have hsub : d.utf8Size + byteLen cs + k - d.utf8Size = byteLen cs + k := by omega
    rw [List.cons_append, byteLen_cons, removeAt_cons d _ (by omega), if_pos (by omega), hsub, ih]
    split <;> rfl

/-! ### Lines -/

/-- The line without a carriage return at its end. -/
def stripCr (line : List Char) : List Char :=
  if line.getLast? = some '\r' then line.dropLast else line

/-- The lines of `line ++ rest`, where `line` has no line feed. -/
def linesFrom (line : List Char) : List Char → List (List Char)
  | [] => if line = [] then [] else [line]
  | c :: rest =>
    if c = '\n' then stripCr line :: linesFrom [] rest else linesFrom (line ++ [c]) rest

/-- `str::lines`: a line feed ends a line, also the last one; a carriage return in front of it is
    not part of the line. -/
def lines (cs : List Char) : List (List Char) := linesFrom [] cs

theorem linesFrom_append (line : List Char) {cs : List Char} (h : '\n' ∉ cs) (rest : List Char) :
    linesFrom line (cs ++ rest) = linesFrom (line ++ cs) rest := by
  induction cs generalizing line with
  | nil => simp
  | cons c cs ih =>
    have hc : c ≠ '\n' := fun hc => h (hc ▸ List.mem_cons_self)
    rw [List.cons_append, linesFrom, if_neg hc, ih _ fun hmem => h (List.mem_cons_of_mem _ hmem)]
    simp

/-- A text without line feeds is one line, or none. -/
theorem lines_of_not_mem {cs : List Char} (h : '\n' ∉ cs) :
    lines cs = if cs = [] then [] else [cs] := by
  have happend := linesFrom_append [] h []
  rw [List.append_nil] at happend
  rw [lines, happend]
  rfl

theorem lines_concat_newline {cs : List Char} (h : '\n' ∉ cs) :
    lines (cs ++ ['\n']) = [stripCr cs] := by
  rw [lines, linesFrom_append [] h]
  rfl

/-! ### White space -/

/-- `char::is_whitespace`, the Unicode property `White_Space`. -/
def isWhitespace (c : Char) : Bool :=
  let n := c.toNat
  decide ((0x09 ≤ n ∧ n ≤ 0x0D) ∨ n = 0x20 ∨ n = 0x85 ∨ n = 0xA0 ∨ n = 0x1680 ∨
    (0x2000 ≤ n ∧ n ≤ 0x200A) ∨ n = 0x2028 ∨ n = 0x2029 ∨ n = 0x202F ∨ n = 0x205F ∨ n = 0x3000)

/-- `str::trim` -/
def trim (cs : List Char) : List Char :=
  ((cs.dropWhile isWhitespace).reverse.dropWhile isWhitespace).reverse

/-! ### Bytes that need not be UTF-8 -/

/-- For the first byte of a character: how many bytes follow, the least and the greatest that the
    next one can be, and the bits that the first byte holds. -/
def leadByte (b : UInt8) : Option (Nat × UInt8 × UInt8 × Nat) :=
  if b ≤ 0x7F then some (0, 0x80, 0xBF, b.toNat)
  else if 0xC2 ≤ b ∧ b ≤ 0xDF then some (1, 0x80, 0xBF, b.toNat % 32)
  else if b = 0xE0 then some (2, 0xA0, 0xBF, b.toNat % 16)
  else if b = 0xED then some (2, 0x80, 0x9F, b.toNat % 16)
  else if 0xE1 ≤ b ∧ b ≤ 0xEF then some (2, 0x80, 0xBF, b.toNat % 16)
  else if b = 0xF0 then some (3, 0x90, 0xBF, b.toNat % 8)
  else if 0xF1 ≤ b ∧ b ≤ 0xF3 then some (3, 0x80, 0xBF, b.toNat % 8)
  else if b = 0xF4 then some (3, 0x80, 0x8F, b.toNat % 8)
  else none

/-- The bytes behind the first one that are accepted, and the code point if all are there. -/
def followBytes : Nat → UInt8 → UInt8 → Nat → List UInt8 → Nat × Option Nat
  | 0, _, _, code, _ => (0, some code)
  | _ + 1, _, _, _, [] => (0, none)
  | n + 1, lo, hi, code, b :: rest =>
    if lo ≤ b ∧ b ≤ hi then
      let (k, result) := followBytes n 0x80 0xBF (code * 64 + b.toNat % 64) rest
      (k + 1, result)
    else (0, none)

/-- `String::from_utf8_lossy`: each longest start of a character that is not continued is replaced
    by one U+FFFD. -/
def decodeLossy (data : List UInt8) : List Char :=
  match data with
  | [] => []
  | b :: rest =>
    match leadByte b with
    | none => '\uFFFD' :: decodeLossy rest
    | some (n, lo, hi, code) =>
      let (k, result) := followBytes n lo hi code rest
      result.elim '\uFFFD' Char.ofNat :: decodeLossy (rest.drop k)
termination_by data.length
decreasing_by
  · simp
  · simp only [List.length_cons, List.length_drop]
    omega

theorem decodeLossy_eq_nil {data : List UInt8} : decodeLossy data = [] ↔ data = [] := by
  cases data with
  | nil => simp [decodeLossy]
  | cons b rest =>
    rw [decodeLossy]
    cases leadByte b <;> simp

example : decodeLossy [0x61, 0xC3, 0xA9, 0xE2, 0x82, 0x62] = ['a', 'é', '\uFFFD', 'b'] := by
  decide +kernel

end RustKernel.Lib.Text
