import RustKernel.Lib.ByteStore

/-!
# RustKernel.Lib.Raster

Pixels in a linear framebuffer: lines of `pitch` bytes, with some bytes for each pixel.

As long as the pixels of a line fit in its pitch, no two pixels share a byte (`offset_disjoint`), so
a pixel that is painted changes itself only (`pixel_paint`) and a list of them those in the list
(`pixel_paintAll`). Moving the bytes of some lines up moves their pixels (`pixel_moveBytes`).
-/

namespace RustKernel.Lib

/-- Bytes stored one behind the other. -/
def writeBytes (mem : ByteStore) (addr : Nat) (bs : List UInt8) : ByteStore := fun b =>
  if addr ≤ b ∧ b < addr + bs.length then bs.getD (b - addr) 0 else mem b

theorem writeBytes_agree (mem : ByteStore) (addr : Nat) (bs : List UInt8) :
    AgreeOutside addr (addr + bs.length) mem (writeBytes mem addr bs) := by
  intro b hb
  rw [writeBytes, if_neg (by omega)]

/-- The first `n` bytes get those `d` further on, one byte after the other. -/
def moveBytes (mem : ByteStore) (d n : Nat) : ByteStore :=
  (List.range n).foldl (fun mem i => writeBytes mem i [mem (i + d)]) mem

/-- A byte that is read has not been written yet. -/
theorem moveBytes_eq (mem : ByteStore) {d : Nat} (hd : 0 < d) (n : Nat) :
    moveBytes mem d n = fun b => if b < n then mem (b + d) else mem b := by
  induction n with
  | zero => rfl
  | succ n ih =>
    funext b
    rw [moveBytes, List.range_succ, List.foldl_append, ← moveBytes, ih, List.foldl_cons,
      List.foldl_nil, writeBytes]
    have hread : ¬n + d < n := by omega
    by_cases hb : b = n
    · subst hb
      simp [hread]
    · have hiff : b < n + 1 ↔ b < n := by omega
      rw [List.length_singleton, if_neg (by omega)]
      simp only [hiff]

theorem moveBytes_agree (mem : ByteStore) {d : Nat} (hd : 0 < d) (n : Nat) :
    AgreeOutside 0 n mem (moveBytes mem d n) := by
  intro b hb
  rw [moveBytes_eq mem hd]
  exact if_neg (by omega)

/-- The shape of a framebuffer. -/
structure Raster where
  width : Nat
  height : Nat
  pitch : Nat
  bytes : Nat
  bytes_pos : 0 < bytes
  fits : width * bytes ≤ pitch

namespace Raster

variable (s : Raster)

/-- Where a pixel begins. -/
def offset (x y : Nat) : Nat := y * s.pitch + x * s.bytes

/-- The bytes of a pixel. -/
def pixel (mem : ByteStore) (x y : Nat) : List UInt8 :=
  (List.range s.bytes).map fun k => mem (s.offset x y + k)

def paint (mem : ByteStore) (x y : Nat) (v : List UInt8) : ByteStore :=
  writeBytes mem (s.offset x y) v

/-- Pixels painted one after the other, each in its own color. -/
def paintAll (mem : ByteStore) (v : Nat × Nat → List UInt8) (ps : List (Nat × Nat)) : ByteStore :=
  ps.foldl (fun mem p => s.paint mem p.1 p.2 (v p)) mem

variable {s}

/-- A pixel of a line ends in the line. -/
theorem end_le {x : Nat} (hx : x < s.width) : x * s.bytes + s.bytes ≤ s.pitch := by
  have hle : (x + 1) * s.bytes ≤ s.width * s.bytes := Nat.mul_le_mul_right _ hx
  have hfits := s.fits
  rw [Nat.succ_mul] at hle
  omega

theorem pitch_pos {x : Nat} (hx : x < s.width) : 0 < s.pitch := by
  have hend := end_le hx
  have hbytes := s.bytes_pos
  omega

/-- Two pixels share no byte. -/
theorem offset_disjoint {x y x' y' k k' : Nat} (hx : x < s.width) (hx' : x' < s.width)
    (hk : k < s.bytes) (hk' : k' < s.bytes) (h : s.offset x y + k = s.offset x' y' + k') :
    x = x' ∧ y = y' := by
  have hend := end_le hx
  have hend' := end_le hx'
  rw [offset, offset] at h
  have hpitch := pitch_pos hx
  -- the line is the quotient by the pitch, and the pixel that of the remainder by its bytes
  have hy : y = y' := by
    have hdiv : (y * s.pitch + (x * s.bytes + k)) / s.pitch =
        (y' * s.pitch + (x' * s.bytes + k')) / s.pitch := by rw [← Nat.add_assoc, h, Nat.add_assoc]
    rw [Nat.mul_comm y, Nat.mul_comm y', Nat.mul_add_div hpitch, Nat.mul_add_div hpitch,
      Nat.div_eq_of_lt (by omega), Nat.div_eq_of_lt (by omega)] at hdiv
    exact hdiv
  subst hy
  have hrest : x * s.bytes + k = x' * s.bytes + k' := by omega
  have hdiv : (x * s.bytes + k) / s.bytes = (x' * s.bytes + k') / s.bytes := by rw [hrest]
  rw [Nat.mul_comm x, Nat.mul_comm x', Nat.mul_add_div s.bytes_pos, Nat.mul_add_div s.bytes_pos,
    Nat.div_eq_of_lt hk, Nat.div_eq_of_lt hk'] at hdiv
  exact ⟨hdiv, rfl⟩

theorem length_pixel (mem : ByteStore) (x y : Nat) : (s.pixel mem x y).length = s.bytes := by
  simp [pixel]

/-- A pixel depends on its own bytes only. -/
theorem pixel_congr {mem mem' : ByteStore} {x y x' y' : Nat}
    (h : ∀ k, k < s.bytes → mem' (s.offset x' y' + k) = mem (s.offset x y + k)) :
    s.pixel mem' x' y' = s.pixel mem x y := by
  apply List.map_congr_left
  intro k hk
  exact h k (List.mem_range.mp hk)

theorem pixel_paint (mem : ByteStore) {x y x' y' : Nat} (hx : x < s.width) (hx' : x' < s.width)
    {v : List UInt8} (hv : v.length = s.bytes) :
    s.pixel (s.paint mem x y v) x' y' = if x' = x ∧ y' = y then v else s.pixel mem x' y' := by
  split
  case isTrue hsame =>
    obtain ⟨rfl, rfl⟩ := hsame
    apply List.ext_getElem
    · rw [length_pixel, hv]
    · intro k hk hk'
      simp only [pixel, List.getElem_map, List.getElem_range, paint, writeBytes]
      rw [if_pos (by omega), Nat.add_sub_cancel_left, List.getD_eq_getElem _ _ hk']
  case isFalse hother =>
    apply pixel_congr
    intro k hk
    apply writeBytes_agree mem (s.offset x y) v
    by_contra hin
    obtain ⟨j, hj⟩ : ∃ j, s.offset x' y' + k = s.offset x y + j ∧ j < s.bytes :=
      ⟨s.offset x' y' + k - s.offset x y, by omega, by omega⟩
    exact hother (offset_disjoint hx' hx hk hj.2 hj.1)

/-- What is painted is in the framebuffer. -/
theorem paint_agree (mem : ByteStore) {x y : Nat} (hx : x < s.width) (hy : y < s.height)
    {v : List UInt8} (hv : v.length = s.bytes) :
    AgreeOutside 0 (s.height * s.pitch) mem (s.paint mem x y v) := by
  have hend := end_le hx
  have hline : (y + 1) * s.pitch ≤ s.height * s.pitch := Nat.mul_le_mul_right _ hy
  rw [Nat.succ_mul] at hline
  apply (writeBytes_agree mem (s.offset x y) v).mono (Nat.zero_le _)
  rw [hv, offset]
  omega

theorem pixel_paintAll (mem : ByteStore) (v : Nat × Nat → List UInt8) {ps : List (Nat × Nat)}
    (hps : ∀ p ∈ ps, p.1 < s.width) (hv : ∀ p, (v p).length = s.bytes) {x y : Nat}
    (hx : x < s.width) :
    s.pixel (s.paintAll mem v ps) x y = if (x, y) ∈ ps then v (x, y) else s.pixel mem x y := by
  induction ps generalizing mem with
  | nil => rfl
  | cons p ps ih =>
    rw [paintAll, List.foldl_cons, ← paintAll, ih _ fun q hq => hps q (List.mem_cons_of_mem _ hq),
      pixel_paint mem (hps p List.mem_cons_self) hx (hv p)]
    by_cases hlater : (x, y) ∈ ps
    · rw [if_pos hlater, if_pos (List.mem_cons_of_mem _ hlater)]
    · by_cases hhere : (x, y) = p
      · subst hhere
        rw [if_neg hlater, if_pos ⟨rfl, rfl⟩, if_pos List.mem_cons_self]
      · have hnot : ¬(x = p.1 ∧ y = p.2) := fun h => hhere (Prod.ext h.1 h.2)
        rw [if_neg hlater, if_neg hnot, if_neg (List.not_mem_cons_of_ne_of_not_mem hhere hlater)]

theorem paintAll_agree (mem : ByteStore) (v : Nat × Nat → List UInt8) {ps : List (Nat × Nat)}
    (hps : ∀ p ∈ ps, p.1 < s.width ∧ p.2 < s.height) (hv : ∀ p, (v p).length = s.bytes) :
    AgreeOutside 0 (s.height * s.pitch) mem (s.paintAll mem v ps) := by
  induction ps generalizing mem with
  | nil => exact AgreeOutside.refl mem
  | cons p ps ih =>
    obtain ⟨hx, hy⟩ := hps p List.mem_cons_self
    exact (paint_agree mem hx hy (hv p)).trans (ih _ fun q hq => hps q (List.mem_cons_of_mem _ hq))

/-- The first lines get the pixels of the lines `d` further down. -/
theorem pixel_moveBytes (mem : ByteStore) {d n : Nat} (hd : 0 < d) {x y : Nat}
    (hx : x < s.width) :
    s.pixel (moveBytes mem (d * s.pitch) (n * s.pitch)) x y =
      if y < n then s.pixel mem x (y + d) else s.pixel mem x y := by
  have hend := end_le hx
  have hpos : 0 < d * s.pitch := Nat.mul_pos hd (pitch_pos hx)
  rw [moveBytes_eq mem hpos]
  split
  case isTrue hy =>
    apply pixel_congr
    intro k hk
    have hline : (y + 1) * s.pitch ≤ n * s.pitch := Nat.mul_le_mul_right _ hy
    rw [Nat.succ_mul] at hline
    have hplace : s.offset x y + k + d * s.pitch = s.offset x (y + d) + k := by
      rw [offset, offset, Nat.add_mul]
      omega
    rw [if_pos (by rw [offset]; omega), hplace]
  case isFalse hy =>
    apply pixel_congr
    intro k hk
    have hline : n * s.pitch ≤ y * s.pitch := Nat.mul_le_mul_right _ (not_lt.mp hy)
    rw [if_neg (by rw [offset]; omega)]

end Raster

end RustKernel.Lib
