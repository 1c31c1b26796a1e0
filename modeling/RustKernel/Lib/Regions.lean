import RustKernel.Lib.Extent

/-!
# RustKernel.Lib.Regions

Address-ordered lists of extents that do not touch, as a coalescing free list keeps them.

`Separated` says that each extent ends before the next one begins, with an address in between.
`coalesce` puts an extent back between two parts of such a list and unites it with the neighbours
it touches: the list stays separated (`Separated.coalesce`) and no address is lost
(`totalLen_coalesce`). A separated list as long as its range is one extent
(`Separated.eq_wholeRange`).
-/

namespace RustKernel.Lib

variable {lo hi : Nat} {e f c : Extent} {es pre post : List Extent}

/-! ### Total length -/

/-- The number of addresses of a family of extents. -/
def totalLen (es : List Extent) : Nat := (es.map Extent.len).sum

@[simp] theorem totalLen_nil : totalLen [] = 0 := rfl

@[simp] theorem totalLen_cons : totalLen (e :: es) = e.len + totalLen es := by
  rw [totalLen, totalLen, List.map_cons, List.sum_cons]

@[simp] theorem totalLen_append : totalLen (es ++ pre) = totalLen es + totalLen pre := by
  rw [totalLen, totalLen, totalLen, List.map_append, List.sum_append]

theorem totalLen_perm (h : es.Perm pre) : totalLen es = totalLen pre := (h.map _).sum_eq

theorem length_mul_le_totalLen {n : Nat} (h : ∀ e ∈ es, n ≤ e.len) :
    n * es.length ≤ totalLen es := by
  induction es with
  | nil => simp
  | cons e es ih =>
    obtain ⟨he, hes⟩ := List.forall_mem_cons.mp h
    have hrest := ih hes
    rw [List.length_cons, totalLen_cons, Nat.mul_add]
    omega

/-- The addresses of a family of extents. -/
def cover (es : List Extent) : Finset Nat :=
  es.foldr (fun e covered => Finset.Ico e.start e.stop ∪ covered) ∅

theorem mem_cover {a : Nat} : a ∈ cover es ↔ ∃ e ∈ es, e.start ≤ a ∧ a < e.stop := by
  induction es with
  | nil => simp [cover]
  | cons e es ih =>
    rw [cover, List.foldr_cons, Finset.mem_union, Finset.mem_Ico, ← cover, ih]
    simp

theorem cover_cons : cover (e :: es) = Finset.Ico e.start e.stop ∪ cover es := rfl

theorem cover_append : cover (es ++ pre) = cover es ∪ cover pre := by
  ext a
  simp only [Finset.mem_union, mem_cover, List.mem_append, or_and_right, exists_or]

theorem card_cover (h : es.Pairwise Extent.Apart) : (cover es).card = totalLen es := by
  induction es with
  | nil => rfl
  | cons e es ih =>
    obtain ⟨hhead, htail⟩ := List.pairwise_cons.mp h
    have hdisjoint : Disjoint (Finset.Ico e.start e.stop) (cover es) := by
      rw [Finset.disjoint_left]
      intro a ha hcovered
      obtain ⟨f, hf, hfa⟩ := mem_cover.mp hcovered
      have hea := Finset.mem_Ico.mp ha
      have hapart := hhead f hf
      simp only [Extent.Apart] at hapart
      omega
    rw [cover, List.foldr_cons, ← cover, Finset.card_union_of_disjoint hdisjoint, ih htail,
      Nat.card_Ico, totalLen_cons, Extent.stop, Nat.add_sub_cancel_left]

/-- Extents that share no address are not longer than their range. -/
theorem Packed.totalLen_le (h : Packed lo hi es) : totalLen es ≤ hi - lo := by
  rw [← card_cover h.apart, ← Nat.card_Ico]
  apply Finset.card_le_card
  intro a ha
  obtain ⟨e, he, hlo, hhi⟩ := mem_cover.mp ha
  have hwithin := h.within e he
  simp only [Extent.Within] at hwithin
  exact Finset.mem_Ico.mpr (by omega)

/-! ### Separated lists -/

/-- In address order, with an address between any two. -/
def Separated (es : List Extent) : Prop := es.Pairwise fun e f => e.stop < f.start

/-- In address order, pairwise disjoint, and no two touching. -/
structure Coalesced (es : List Extent) : Prop where
  ordered : es.Pairwise fun e f => e.start < f.start
  apart : es.Pairwise Extent.Apart
  gaps : es.Pairwise fun e f => e.stop ≠ f.start ∧ f.stop ≠ e.start

theorem coalesced_iff : Coalesced es ↔ Separated es := by
  constructor
  · rintro ⟨hordered, hapart, hgaps⟩
    refine (hordered.and (hapart.and hgaps)).imp ?_
    rintro e f ⟨hlt, hside, hgap, -⟩
    simp only [Extent.Apart, Extent.stop] at hside hgap ⊢
    omega
  · intro h
    refine ⟨h.imp ?_, h.imp ?_, h.imp ?_⟩ <;>
    · intro e f hlt
      simp only [Extent.Apart, Extent.stop] at hlt ⊢
      omega

/-- Put an extent in front of a list, united with the first one if they touch. -/
def absorb (e : Extent) : List Extent → List Extent
  | [] => [e]
  | c :: post => if e.stop = c.start then ⟨e.start, e.len + c.len⟩ :: post else e :: c :: post

/-- Put an extent between two lists, united with the neighbours it touches. -/
def coalesce (pre : List Extent) (e : Extent) (post : List Extent) : List Extent :=
  match pre.getLast? with
  | some p =>
    if p.stop = e.start then pre.dropLast ++ absorb ⟨p.start, p.len + e.len⟩ post
    else pre ++ absorb e post
  | none => absorb e post

@[simp] theorem totalLen_absorb : totalLen (absorb e es) = e.len + totalLen es := by
  cases es with
  | nil => rfl
  | cons c es =>
    rw [absorb]
    split
    · simp only [totalLen_cons, Nat.add_assoc]
    · simp only [totalLen_cons]

theorem totalLen_coalesce (pre : List Extent) (e : Extent) (post : List Extent) :
    totalLen (coalesce pre e post) = totalLen pre + e.len + totalLen post := by
  rcases List.eq_nil_or_concat' pre with rfl | ⟨front, p, rfl⟩
  · simp [coalesce]
  · rw [coalesce, List.getLast?_concat]
    dsimp only
    split
    · simp only [List.dropLast_concat, totalLen_append, totalLen_absorb, totalLen_cons,
        totalLen_nil]
      omega
    · simp only [totalLen_append, totalLen_absorb]
      omega

theorem cover_absorb : cover (absorb e es) = Finset.Ico e.start e.stop ∪ cover es := by
  cases es with
  | nil => rfl
  | cons c es =>
    rw [absorb]
    split
    case isTrue htouch =>
      have hunion : Finset.Ico e.start (e.start + (e.len + c.len)) =
          Finset.Ico e.start e.stop ∪ Finset.Ico c.start c.stop := by
        ext a
        simp only [Extent.stop] at htouch ⊢
        simp only [Finset.mem_union, Finset.mem_Ico]
        omega
      rw [cover_cons, cover_cons, ← Finset.union_assoc, ← hunion]
      rfl
    case isFalse => rfl

/-- Uniting extents neither loses an address nor gains one. -/
theorem cover_coalesce (pre : List Extent) (e : Extent) (post : List Extent) :
    cover (coalesce pre e post) = cover (pre ++ post) ∪ Finset.Ico e.start e.stop := by
  rcases List.eq_nil_or_concat' pre with rfl | ⟨front, p, rfl⟩
  · rw [coalesce, List.nil_append, Finset.union_comm]
    exact cover_absorb
  · rw [coalesce, List.getLast?_concat]
    dsimp only
    split
    case isTrue htouch =>
      have hunion : Finset.Ico p.start (p.start + (p.len + e.len)) =
          Finset.Ico p.start p.stop ∪ Finset.Ico e.start e.stop := by
        ext a
        simp only [Extent.stop] at htouch ⊢
        simp only [Finset.mem_union, Finset.mem_Ico]
        omega
      have hgrown : Finset.Ico (⟨p.start, p.len + e.len⟩ : Extent).start
          (⟨p.start, p.len + e.len⟩ : Extent).stop =
          Finset.Ico p.start p.stop ∪ Finset.Ico e.start e.stop := hunion
      rw [List.dropLast_concat, cover_append, cover_absorb, hgrown, cover_append, cover_append]
      ext a
      simp only [Finset.mem_union, cover_cons, show cover [] = ∅ from rfl, Finset.notMem_empty]
      tauto
    case isFalse =>
      rw [cover_append, cover_absorb, cover_append]
      ext a
      simp only [Finset.mem_union, cover_append]
      tauto

theorem separated_append : Separated (pre ++ post) ↔
    Separated pre ∧ Separated post ∧ ∀ e ∈ pre, ∀ f ∈ post, e.stop < f.start :=
  List.pairwise_append

theorem separated_cons : Separated (e :: es) ↔ (∀ f ∈ es, e.stop < f.start) ∧ Separated es :=
  List.pairwise_cons

/-- What begins behind the first extent of a separated list begins behind all of them. -/
theorem Separated.absorb (h : Separated es) (hafter : ∀ f ∈ es, e.stop ≤ f.start) :
    Separated (absorb e es) := by
  cases es with
  | nil => exact List.pairwise_singleton _ _
  | cons c es =>
    obtain ⟨hhead, htail⟩ := separated_cons.mp h
    rw [Lib.absorb]
    split
    case isTrue htouch =>
      refine separated_cons.mpr ⟨fun f hf => ?_, htail⟩
      have hf' := hhead f hf
      simp only [Extent.stop] at htouch hf' ⊢
      omega
    case isFalse hgap =>
      refine separated_cons.mpr ⟨fun f hf => ?_, h⟩
      have hc := hafter c List.mem_cons_self
      rcases List.mem_cons.mp hf with rfl | hf
      · omega
      · have hf' := hhead f hf
        simp only [Extent.stop] at hf' hc hgap ⊢
        omega

theorem start_absorb (h : ∀ f ∈ es, e.start ≤ f.start) : ∀ f ∈ absorb e es, e.start ≤ f.start := by
  cases es with
  | nil => simp [absorb]
  | cons c es =>
    intro f hf
    rw [absorb] at hf
    split at hf
    · rcases List.mem_cons.mp hf with rfl | hf
      · exact le_rfl
      · exact h f (List.mem_cons_of_mem _ hf)
    · rcases List.mem_cons.mp hf with rfl | hf
      · exact le_rfl
      · exact h f hf

/-- An extent between two parts of a separated list goes back into it. -/
theorem Separated.coalesce (h : Separated (pre ++ post)) (hbefore : ∀ p ∈ pre, p.stop ≤ e.start)
    (hafter : ∀ f ∈ post, e.stop ≤ f.start) : Separated (coalesce pre e post) := by
  obtain ⟨hpre, hpost, hcross⟩ := separated_append.mp h
  rcases List.eq_nil_or_concat' pre with rfl | ⟨front, p, rfl⟩
  · exact hpost.absorb hafter
  obtain ⟨hfront, -, hlast⟩ := separated_append.mp hpre
  have hp := hbefore p (by simp)
  rw [Lib.coalesce, List.getLast?_concat]
  dsimp only
  split
  case isTrue htouch =>
    -- the last extent before it grows over it
    have hgrown : ∀ f ∈ post, (⟨p.start, p.len + e.len⟩ : Extent).stop ≤ f.start := by
      intro f hf
      have hf' := hafter f hf
      simp only [Extent.stop] at htouch hf' ⊢
      omega
    rw [List.dropLast_concat]
    refine separated_append.mpr ⟨hfront, hpost.absorb hgrown, fun q hq f hf => ?_⟩
    have hq' := hlast q hq p (List.mem_singleton_self p)
    have hf' := start_absorb (e := ⟨p.start, p.len + e.len⟩) (fun g hg => by
      have hg' := hgrown g hg
      simp only [Extent.stop] at hg' ⊢
      omega) f hf
    dsimp only at hf'
    omega
  case isFalse hgap =>
    refine separated_append.mpr ⟨hpre, hpost.absorb hafter, fun q hq f hf => ?_⟩
    have hf' := start_absorb (e := e) (fun g hg => by
      have hg' := hafter g hg
      simp only [Extent.stop] at hg' ⊢
      omega) f hf
    rcases List.mem_append.mp hq with hq' | hq'
    · have hlt := hlast q hq' p (List.mem_singleton_self p)
      simp only [Extent.stop] at hlt hp hf' ⊢
      omega
    · rw [List.mem_singleton.mp hq'] at *
      omega

/-- An extent of a separated list may be replaced by separated pieces of itself. -/
theorem Separated.split {pieces : List Extent} (h : Separated (pre ++ e :: post))
    (hpieces : Separated pieces) (hwithin : ∀ f ∈ pieces, f.Within e.start e.stop) :
    Separated (pre ++ (pieces ++ post)) := by
  obtain ⟨hpre, hrest, hcross⟩ := separated_append.mp h
  obtain ⟨hhead, hpost⟩ := separated_cons.mp hrest
  refine separated_append.mpr ⟨hpre, separated_append.mpr ⟨hpieces, hpost, ?_⟩, ?_⟩
  · intro f hf g hg
    exact (hwithin f hf).2.trans_lt (hhead g hg)
  · intro p hp f hf
    rcases List.mem_append.mp hf with hf | hf
    · exact (hcross p hp e List.mem_cons_self).trans_le (hwithin f hf).1
    · exact hcross p hp f (List.mem_cons_of_mem e hf)

theorem within_absorb (he : e.Within lo hi) (h : ∀ f ∈ es, f.Within lo hi) :
    ∀ f ∈ absorb e es, f.Within lo hi := by
  cases es with
  | nil => simpa [absorb] using he
  | cons c es =>
    obtain ⟨hc, hes⟩ := List.forall_mem_cons.mp h
    rw [absorb]
    split
    case isTrue htouch =>
      refine List.forall_mem_cons.mpr ⟨⟨he.1, ?_⟩, hes⟩
      have hstop := hc.2
      simp only [Extent.stop] at htouch hstop ⊢
      omega
    case isFalse => exact List.forall_mem_cons.mpr ⟨he, h⟩

/-- Uniting extents does not leave the range they lie in. -/
theorem within_coalesce (hpre : ∀ f ∈ pre, f.Within lo hi) (he : e.Within lo hi)
    (hpost : ∀ f ∈ post, f.Within lo hi) : ∀ f ∈ coalesce pre e post, f.Within lo hi := by
  rcases List.eq_nil_or_concat' pre with rfl | ⟨front, p, rfl⟩
  · exact within_absorb he hpost
  obtain ⟨hfront, hp⟩ := List.forall_mem_append.mp hpre
  have hp := hp p (List.mem_singleton_self p)
  rw [coalesce, List.getLast?_concat]
  dsimp only
  split
  case isTrue htouch =>
    have hgrown : (⟨p.start, p.len + e.len⟩ : Extent).Within lo hi := by
      refine ⟨hp.1, ?_⟩
      have hstop := he.2
      simp only [Extent.stop] at htouch hstop ⊢
      omega
    rw [List.dropLast_concat]
    exact List.forall_mem_append.mpr ⟨hfront, within_absorb hgrown hpost⟩
  case isFalse => exact List.forall_mem_append.mpr ⟨hpre, within_absorb he hpost⟩

/-- A separated list is shorter than its range, unless it is one extent. -/
theorem Separated.totalLen_lt (h : Separated (e :: f :: es))
    (hpacked : Packed lo hi (e :: f :: es)) :
    totalLen (e :: f :: es) < hi - lo := by
  -- the address behind the first extent belongs to none
  obtain ⟨hhead, -⟩ := separated_cons.mp h
  have hgap : Packed lo hi (⟨e.stop, 1⟩ :: e :: f :: es) := by
    obtain ⟨he, hpos, -, -⟩ := Packed.cons_iff.mp hpacked
    have hf := hhead f List.mem_cons_self
    have hfhi := hpacked.within f (by simp)
    refine Packed.cons_iff.mpr ⟨?_, Nat.one_pos, ?_, hpacked⟩
    · simp only [Extent.Within, Extent.stop] at he hf hfhi ⊢
      omega
    · intro g hg
      rcases List.mem_cons.mp hg with rfl | hg
      · exact .inr le_rfl
      · exact .inl (hhead g hg)
  have hle := hgap.totalLen_le
  rw [totalLen_cons] at hle
  dsimp only at hle
  omega

/-- The range as a list of extents. -/
def wholeRange (lo hi : Nat) : List Extent := if lo < hi then [⟨lo, hi - lo⟩] else []

theorem Packed.range_pos (h : Packed lo hi (e :: es)) : lo < hi := by
  obtain ⟨hwithin, hpos, -⟩ := Packed.cons_iff.mp h
  simp only [Extent.Within, Extent.stop] at hwithin
  omega

/-- A separated list as long as its range is the range. -/
theorem Separated.eq_wholeRange (h : Separated es) (hpacked : Packed lo hi es)
    (htotal : totalLen es = hi - lo) : es = wholeRange lo hi := by
  match es, h, hpacked, htotal with
  | [], _, _, htotal =>
    rw [totalLen_nil] at htotal
    rw [wholeRange, if_neg (by omega)]
  | [e], _, hpacked, htotal =>
    have hrange := hpacked.range_pos
    obtain ⟨hwithin, -⟩ := Packed.cons_iff.mp hpacked
    rw [totalLen_cons, totalLen_nil] at htotal
    simp only [Extent.Within, Extent.stop] at hwithin
    have hstart : e.start = lo := by omega
    have hlen : e.len = hi - lo := by omega
    rw [wholeRange, if_pos hrange, ← hlen, ← hstart]
  | e :: f :: es, h, hpacked, htotal => exact absurd htotal (h.totalLen_lt hpacked).ne

/-- At most one extent is the range it spans. -/
theorem exists_wholeRange (hle : es.length ≤ 1) (hpos : ∀ e ∈ es, 0 < e.len) :
    ∃ lo hi, es = wholeRange lo hi := by
  match es, hle, hpos with
  | [], _, _ => exact ⟨0, 0, rfl⟩
  | [e], _, hpos =>
    have hlen := hpos e (List.mem_singleton_self e)
    have hrange : e.start < e.stop := Nat.lt_add_of_pos_right hlen
    refine ⟨e.start, e.stop, ?_⟩
    rw [wholeRange, if_pos hrange, Extent.stop, Nat.add_sub_cancel_left]

theorem within_wholeRange : ∀ e ∈ wholeRange lo hi, e.Within lo hi := by
  rw [wholeRange]
  split
  · simp only [List.mem_singleton, forall_eq, Extent.Within, Extent.stop]
    omega
  · simp

theorem totalLen_wholeRange : totalLen (wholeRange lo hi) = hi - lo := by
  rw [wholeRange]
  split
  · rfl
  · rw [totalLen_nil]
    omega

theorem separated_wholeRange : Separated (wholeRange lo hi) := by
  rw [wholeRange]
  split
  · exact List.pairwise_singleton _ _
  · exact .nil

end RustKernel.Lib
