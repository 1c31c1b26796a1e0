import Mathlib.Data.List.Perm.Basic
import Mathlib.Tactic

/-!
# RustKernel.Lib.Extent

Families of address intervals that share no address.

`Packed lo hi es` says that the extents `es` are nonempty, lie in `[lo, hi)` and are
pairwise apart. The order of the list does not matter (`Packed.perm`); an extent may be
replaced by pieces of itself (`Packed.split`), and two adjacent extents by their
union (`Packed.merge`).
-/

namespace RustKernel.Lib

/-- The addresses `[start, start + len)`. -/
structure Extent where
  start : Nat
  len : Nat
  deriving DecidableEq, Repr

/-- The first address after the extent. -/
def Extent.stop (e : Extent) : Nat := e.start + e.len

/-- One extent ends before the other begins. -/
def Extent.Apart (e f : Extent) : Prop := e.stop ≤ f.start ∨ f.stop ≤ e.start

/-- The extent lies in `[lo, hi)`. -/
def Extent.Within (lo hi : Nat) (e : Extent) : Prop := lo ≤ e.start ∧ e.stop ≤ hi

instance (e f : Extent) : Decidable (e.Apart f) := by
  unfold Extent.Apart
  infer_instance

instance (lo hi : Nat) (e : Extent) : Decidable (e.Within lo hi) := by
  unfold Extent.Within
  infer_instance

theorem Extent.Apart.symm {e f : Extent} (h : e.Apart f) : f.Apart e := Or.symm h

instance : Std.Symm Extent.Apart := ⟨fun _ _ h => h.symm⟩

/-- Parts of apart extents are apart. -/
theorem Extent.Apart.mono {e f e' f' : Extent} (h : e.Apart f)
    (he : e'.Within e.start e.stop) (hf : f'.Within f.start f.stop) : e'.Apart f' := by
  unfold Extent.Apart Extent.Within at *
  omega

/-- Extents with different starts are not more than the addresses they start at. -/
theorem length_le_of_starts {es : List Extent} {hi : Nat} (hnodup : (es.map Extent.start).Nodup)
    (hlt : ∀ e ∈ es, e.start < hi) : es.length ≤ hi := by
  have hsubset : es.map Extent.start ⊆ List.range hi := by
    intro a ha
    obtain ⟨e, he, rfl⟩ := List.mem_map.mp ha
    exact List.mem_range.mpr (hlt e he)
  have hle := (hnodup.subperm hsubset).length_le
  rwa [List.length_map, List.length_range] at hle

structure Packed (lo hi : Nat) (es : List Extent) : Prop where
  within : ∀ e ∈ es, e.Within lo hi
  pos : ∀ e ∈ es, 0 < e.len
  apart : es.Pairwise Extent.Apart

namespace Packed

variable {lo hi : Nat} {e f : Extent} {es es' pieces : List Extent}

theorem nil : Packed lo hi [] := ⟨by simp, by simp, .nil⟩

theorem perm (h : Packed lo hi es) (hperm : es.Perm es') : Packed lo hi es' :=
  ⟨fun e he => h.within e (hperm.mem_iff.mpr he), fun e he => h.pos e (hperm.mem_iff.mpr he),
    (hperm.pairwise_iff fun h => h.symm).mp h.apart⟩

theorem sublist (h : Packed lo hi es) (hsub : es'.Sublist es) : Packed lo hi es' :=
  ⟨fun e he => h.within e (hsub.subset he), fun e he => h.pos e (hsub.subset he),
    h.apart.sublist hsub⟩

theorem cons_iff : Packed lo hi (e :: es) ↔
    e.Within lo hi ∧ 0 < e.len ∧ (∀ f ∈ es, e.Apart f) ∧ Packed lo hi es := by
  constructor
  · rintro ⟨hwithin, hpos, hapart⟩
    obtain ⟨hhead, htail⟩ := List.pairwise_cons.mp hapart
    exact ⟨hwithin e List.mem_cons_self, hpos e List.mem_cons_self, hhead,
      fun f hf => hwithin f (List.mem_cons_of_mem e hf),
      fun f hf => hpos f (List.mem_cons_of_mem e hf), htail⟩
  · rintro ⟨hhead, hlen, hapart, htail⟩
    refine ⟨?_, ?_, List.pairwise_cons.mpr ⟨hapart, htail.apart⟩⟩
    · exact List.forall_mem_cons.mpr ⟨hhead, htail.within⟩
    · exact List.forall_mem_cons.mpr ⟨hlen, htail.pos⟩

theorem append_iff : Packed lo hi (es ++ es') ↔
    Packed lo hi es ∧ Packed lo hi es' ∧ ∀ e ∈ es, ∀ f ∈ es', e.Apart f := by
  constructor
  · rintro ⟨hwithin, hpos, hapart⟩
    obtain ⟨hleft, hright, hcross⟩ := List.pairwise_append.mp hapart
    obtain ⟨hwithin, hwithin'⟩ := List.forall_mem_append.mp hwithin
    obtain ⟨hpos, hpos'⟩ := List.forall_mem_append.mp hpos
    exact ⟨⟨hwithin, hpos, hleft⟩, ⟨hwithin', hpos', hright⟩, hcross⟩
  · rintro ⟨hleft, hright, hcross⟩
    exact ⟨List.forall_mem_append.mpr ⟨hleft.within, hright.within⟩,
      List.forall_mem_append.mpr ⟨hleft.pos, hright.pos⟩,
      List.pairwise_append.mpr ⟨hleft.apart, hright.apart, hcross⟩⟩

/-- An extent may be replaced by pieces of itself. -/
theorem split (h : Packed lo hi (e :: es)) (hpieces : Packed e.start e.stop pieces) :
    Packed lo hi (pieces ++ es) := by
  obtain ⟨hhead, -, hapart, htail⟩ := cons_iff.mp h
  refine append_iff.mpr ⟨⟨?_, hpieces.pos, hpieces.apart⟩, htail, ?_⟩
  · intro p hp
    have hin := hpieces.within p hp
    unfold Extent.Within at *
    omega
  · intro p hp f hf
    exact (hapart f hf).mono (hpieces.within p hp) ⟨le_rfl, le_rfl⟩

/-- An extent may shrink. -/
theorem shrink (h : Packed lo hi (e :: es)) (hin : f.Within e.start e.stop) (hpos : 0 < f.len) :
    Packed lo hi (f :: es) :=
  h.split (show Packed e.start e.stop [f] from
    ⟨by simpa using hin, by simpa using hpos, List.pairwise_singleton _ _⟩)

/-- Two adjacent extents may be replaced by their union. -/
theorem merge (h : Packed lo hi (e :: f :: es)) (hadj : e.stop = f.start) :
    Packed lo hi (⟨e.start, e.len + f.len⟩ :: es) := by
  obtain ⟨hhead, hpos, hapart, htail⟩ := cons_iff.mp h
  obtain ⟨hhead', hpos', hapart', htail'⟩ := cons_iff.mp htail
  refine cons_iff.mpr ⟨?_, ?_, ?_, htail'⟩
  · simp only [Extent.Within, Extent.stop] at *
    omega
  · dsimp only
    omega
  · intro g hg
    have hgpos := htail'.pos g hg
    have h₁ := hapart g (List.mem_cons_of_mem _ hg)
    have h₂ := hapart' g hg
    simp only [Extent.Apart, Extent.stop] at *
    omega

/-- Extents over adjoining ranges. -/
theorem concat {mid : Nat} (h : Packed lo mid es)
    (h' : Packed mid hi es') (hlo : lo ≤ mid) (hhi : mid ≤ hi) : Packed lo hi (es ++ es') := by
  refine append_iff.mpr
    ⟨⟨fun e he => ?_, h.pos, h.apart⟩, ⟨fun e he => ?_, h'.pos, h'.apart⟩, fun e he f hf => ?_⟩
  · have hwithin := h.within e he
    simp only [Extent.Within] at hwithin ⊢
    omega
  · have hwithin := h'.within e he
    simp only [Extent.Within] at hwithin ⊢
    omega
  · have hwithin := h.within e he
    have hwithin' := h'.within f hf
    simp only [Extent.Within, Extent.Apart] at hwithin hwithin' ⊢
    omega

/-- There are no more extents than addresses. -/
theorem length_le (h : Packed lo hi es) : es.length ≤ hi := by
  have hnodup : (es.map Extent.start).Nodup := by
    rw [List.Nodup, List.pairwise_map]
    refine h.apart.imp_of_mem ?_
    intro e f he hf hapart
    have hepos := h.pos e he
    have hfpos := h.pos f hf
    simp only [Extent.Apart, Extent.stop] at hapart
    omega
  refine length_le_of_starts hnodup fun e he => ?_
  have hwithin := h.within e he
  have hpos := h.pos e he
  simp only [Extent.Within, Extent.stop] at hwithin
  omega

end Packed

end RustKernel.Lib
