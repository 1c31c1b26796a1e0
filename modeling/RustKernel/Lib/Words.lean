import Mathlib.Data.List.TakeWhile
import RustKernel.Lib.Text

/-!
# RustKernel.Lib.Words

The words of a text, which white space separates, and texts that trimming leaves as they are.
-/

namespace RustKernel.Lib.Text

/-- The words of `word ++ rest`, where `word` has no white space. -/
def wordsFrom (word : List Char) : List Char → List (List Char)
  | [] => if word = [] then [] else [word]
  | c :: rest =>
    if isWhitespace c then (if word = [] then [] else [word]) ++ wordsFrom [] rest
    else wordsFrom (word ++ [c]) rest

/-- `str::split_whitespace` -/
def words (cs : List Char) : List (List Char) := wordsFrom [] cs

/-- A text without white space. -/
def Solid (cs : List Char) : Prop := ∀ c ∈ cs, isWhitespace c = false

variable {cs xs word : List Char} {c : Char}

theorem Solid.cons (hc : isWhitespace c = false) (h : Solid cs) : Solid (c :: cs) := by
  intro d hd
  rcases List.mem_cons.mp hd with rfl | hd
  · exact hc
  · exact h d hd

theorem Solid.append (hxs : Solid xs) (hcs : Solid cs) : Solid (xs ++ cs) := by
  intro c hc
  rcases List.mem_append.mp hc with hc | hc
  · exact hxs c hc
  · exact hcs c hc

theorem solid_of_all (h : cs.all (fun c => !isWhitespace c) = true) : Solid cs := by
  intro c hc
  simpa using List.all_eq_true.mp h c hc

/-! ### Words -/

theorem wordsFrom_append (word : List Char) (h : Solid xs) (rest : List Char) :
    wordsFrom word (xs ++ rest) = wordsFrom (word ++ xs) rest := by
  induction xs generalizing word with
  | nil => simp
  | cons c xs ih =>
    have hc : ¬isWhitespace c = true := by simp [h c List.mem_cons_self]
    rw [List.cons_append, wordsFrom, if_neg hc, ih _ fun d hd => h d (List.mem_cons_of_mem _ hd)]
    simp

theorem words_solid (h : Solid xs) (hne : xs ≠ []) : words xs = [xs] := by
  have happend := wordsFrom_append [] h []
  rw [List.append_nil, List.nil_append] at happend
  rw [words, happend, wordsFrom, if_neg hne]

/-- A word, white space, and the words behind it. -/
theorem words_append_space (h : Solid xs) (hne : xs ≠ []) (hc : isWhitespace c = true)
    (rest : List Char) : words (xs ++ c :: rest) = xs :: words rest := by
  rw [words, wordsFrom_append [] h, List.nil_append, wordsFrom, if_pos hc, if_neg hne]
  rfl

theorem words_space (hc : isWhitespace c = true) (rest : List Char) :
    words (c :: rest) = words rest := by
  rw [words, wordsFrom, if_pos hc]
  rfl

theorem words_dropWhile (cs : List Char) : words (cs.dropWhile isWhitespace) = words cs := by
  induction cs with
  | nil => rfl
  | cons c cs ih =>
    cases hc : isWhitespace c with
    | true => rw [List.dropWhile_cons_of_pos hc, words_space hc, ih]
    | false => rw [List.dropWhile_cons_of_neg (by simp [hc])]

theorem wordsFrom_spaces (word : List Char) (h : ∀ c ∈ xs, isWhitespace c = true) :
    wordsFrom word xs = wordsFrom word [] := by
  induction xs generalizing word with
  | nil => rfl
  | cons c xs ih =>
    have hrest := ih [] fun d hd => h d (List.mem_cons_of_mem _ hd)
    have hstep : wordsFrom word (c :: xs) = (if word = [] then [] else [word]) ++ wordsFrom [] xs :=
      if_pos (h c List.mem_cons_self)
    rw [hstep, hrest]
    simp [wordsFrom]

theorem wordsFrom_append_spaces (word : List Char) (h : ∀ c ∈ xs, isWhitespace c = true) :
    wordsFrom word (cs ++ xs) = wordsFrom word cs := by
  induction cs generalizing word with
  | nil => exact wordsFrom_spaces word h
  | cons c cs ih => rw [List.cons_append, wordsFrom, wordsFrom, ih, ih]

/-- What trimming cuts off at the end. -/
theorem trim_append (cs : List Char) : ∃ xs, (∀ c ∈ xs, isWhitespace c = true) ∧
    cs.dropWhile isWhitespace = trim cs ++ xs := by
  rw [trim]
  generalize cs.dropWhile isWhitespace = ds
  refine ⟨(ds.reverse.takeWhile isWhitespace).reverse, ?_, ?_⟩
  · intro c hc
    exact List.mem_takeWhile_imp (List.mem_reverse.mp hc)
  · rw [← List.reverse_append, List.takeWhile_append_dropWhile, List.reverse_reverse]

theorem words_trim (cs : List Char) : words (trim cs) = words cs := by
  obtain ⟨xs, hxs, hcs⟩ := trim_append cs
  rw [← words_dropWhile cs, hcs]
  exact (wordsFrom_append_spaces [] hxs).symm

theorem mem_wordsFrom (hword : Solid word) (h : xs ∈ wordsFrom word cs) : xs ≠ [] ∧ Solid xs := by
  induction cs generalizing word with
  | nil =>
    rw [wordsFrom] at h
    split at h
    · cases h
    case isFalse hne =>
      rw [List.mem_singleton.mp h]
      exact ⟨hne, hword⟩
  | cons c cs ih =>
    rw [wordsFrom] at h
    cases hc : isWhitespace c with
    | true =>
      rw [if_pos hc] at h
      rcases List.mem_append.mp h with h | h
      · split at h
        · cases h
        case isFalse hne =>
          rw [List.mem_singleton.mp h]
          exact ⟨hne, hword⟩
      · exact ih (List.forall_mem_nil _) h
    | false =>
      rw [if_neg (by simp [hc])] at h
      exact ih (hword.append (Solid.cons hc (List.forall_mem_nil _))) h

theorem mem_words (h : xs ∈ words cs) : xs ≠ [] ∧ Solid xs :=
  mem_wordsFrom (List.forall_mem_nil _) h

/-- A text in front of which there is no white space starts with its first word. -/
theorem wordsFrom_eq_cons {w : List Char} {ws : List (List Char)} (h : wordsFrom word cs = w :: ws)
    (hstart : word ≠ [] ∨ ∀ c ∈ cs.head?, isWhitespace c = false) :
    ∃ ys rest, cs = ys ++ rest ∧ w = word ++ ys ∧ ws = words rest := by
  induction cs generalizing word with
  | nil =>
    rw [wordsFrom] at h
    split at h
    · cases h
    · obtain ⟨rfl, rfl⟩ := List.cons.inj h
      exact ⟨[], [], rfl, (List.append_nil _).symm, rfl⟩
  | cons c cs ih =>
    rw [wordsFrom] at h
    cases hc : isWhitespace c with
    | true =>
      have hne : word ≠ [] := by
        rcases hstart with hne | hstart
        · exact hne
        · exact absurd (hstart c rfl) (by simp [hc])
      rw [if_pos hc, if_neg hne, List.singleton_append] at h
      obtain ⟨rfl, rfl⟩ := List.cons.inj h
      exact ⟨[], c :: cs, rfl, (List.append_nil _).symm, (words_space hc cs).symm⟩
    | false =>
      rw [if_neg (by simp [hc])] at h
      obtain ⟨ys, rest, rfl, rfl, rfl⟩ := ih h (.inl (by simp))
      exact ⟨c :: ys, rest, rfl, by simp, rfl⟩

theorem words_eq_cons {w : List Char} {ws : List (List Char)} (h : words cs = w :: ws)
    (hstart : ∀ c ∈ cs.head?, isWhitespace c = false) :
    ∃ rest, cs = w ++ rest ∧ ws = words rest := by
  obtain ⟨ys, rest, hcs, hw, hws⟩ := wordsFrom_eq_cons h (.inr hstart)
  exact ⟨rest, by rw [hcs, hw, List.nil_append], hws⟩

/-! ### Trimming -/

theorem dropWhile_eq_self (h : ∀ c ∈ cs.head?, isWhitespace c = false) :
    cs.dropWhile isWhitespace = cs := by
  cases cs with
  | nil => rfl
  | cons c cs => rw [List.dropWhile_cons_of_neg (by simp [h c rfl])]

/-- A text without white space at its ends. -/
theorem trim_eq_self (hstart : ∀ c ∈ cs.head?, isWhitespace c = false)
    (hend : ∀ c ∈ cs.getLast?, isWhitespace c = false) : trim cs = cs := by
  rw [trim, dropWhile_eq_self hstart, dropWhile_eq_self (by rwa [List.head?_reverse]),
    List.reverse_reverse]

theorem Solid.trim_eq (h : Solid cs) : trim cs = cs :=
  trim_eq_self (fun c hc => h c (List.mem_of_mem_head? hc))
    fun c hc => h c (List.mem_of_getLast? hc)

theorem trim_space (hc : isWhitespace c = true) (cs : List Char) : trim (c :: cs) = trim cs := by
  rw [trim, List.dropWhile_cons_of_pos hc, trim]

/-- A trimmed text has no white space in front. -/
theorem head_trim (cs : List Char) : ∀ c ∈ (trim cs).head?, isWhitespace c = false := by
  obtain ⟨xs, -, hcs⟩ := trim_append cs
  intro c hc
  have hhead := List.head?_dropWhile_not isWhitespace cs
  rw [hcs, List.head?_append_of_ne_nil _ (fun hnil => by simp [hnil] at hc), hc] at hhead
  exact hhead

end RustKernel.Lib.Text
