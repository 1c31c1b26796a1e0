import Mathlib.Data.List.TakeWhile
import RustKernel.Console.Font
import RustKernel.Lib.Paper
import RustKernel.Lib.Raster

/-!
# RustKernel.Console.Framebuffer

The framebuffer console: glyphs of 8 by 16 pixels, drawn into video memory pixel by pixel, and a
scroll that copies the memory byte by byte.

## Main result

`framebuffer_types`: in every mode of 24 or 32 bits with room for a character and lines that hold
their pixels, a text with a tilde ends in a panic, and after any other one the pixels are those of
the glyphs on the last lines typed, and no byte behind the framebuffer has changed. `setup_fb` itself
tests no more than that the address, the width and the height are not 0.

## Proof strategy

`pixel_drawGlyph` and `pixel_scroll` say what the two primitives do to the pixels of a cell. The
console is then a device for the rules of `Lib.Window`, like the text console.
-/

namespace RustKernel.Console

open Lib

/-- What the boot loader reports: the size in pixels, the bytes from line to line, and the bits of a
    pixel. -/
structure Mode where
  width : Nat
  height : Nat
  pitch : Nat
  bpp : Nat
  deriving DecidableEq, Repr

def Mode.cols (mode : Mode) : Nat := mode.width / 8
def Mode.rows (mode : Mode) : Nat := mode.height / 16

/-- The bytes of a pixel. -/
def Mode.bytes (mode : Mode) : Nat := mode.bpp / 8

/-- A mode with at least one character, of three or four bytes a pixel, whose lines hold their
    pixels. -/
structure Mode.Drawable (mode : Mode) : Prop where
  depth : mode.bpp = 32 ∨ mode.bpp = 24
  cols_pos : 8 ≤ mode.width
  rows_pos : 16 ≤ mode.height
  fits : mode.width * mode.bytes ≤ mode.pitch

/-- The console, with the video memory from `fb` on. -/
structure FbConsole where
  mode : Mode
  fb : ByteStore
  curX : Nat
  curY : Nat
  fg : UInt32
  bg : UInt32

/-- A pixel is written with all four bytes of the color, or with the lower three; at another depth
    nothing is written. -/
def Mode.putPixel (mode : Mode) (fb : ByteStore) (x y : Nat) (color : UInt32) : ByteStore :=
  let off := y * mode.pitch + x * (mode.bpp / 8)
  if mode.bpp = 32 then writeBytes fb off (leEncode 4 color.toNat)
  else if mode.bpp = 24 then writeBytes fb off (leEncode 3 color.toNat)
  else fb

/-- A pixel of a row of a glyph. -/
def glyphBit (bits : UInt8) (col : Nat) : Bool := (bits >>> (7 - UInt8.ofNat col)) &&& 1 ≠ 0

namespace FbConsole

/-- The loops of `draw_glyph` end at the edges of the screen. -/
def drawGlyph (c : FbConsole) (gx gy : Nat) (fg bg : UInt32) (g : Glyph) : FbConsole :=
  { c with fb :=
      ((List.range 16).takeWhile fun row => gy + row < c.mode.height).foldl (fun fb row =>
        ((List.range 8).takeWhile fun col => gx + col < c.mode.width).foldl (fun fb col =>
          c.mode.putPixel fb (gx + col) (gy + row)
            (if glyphBit (g.getD row 0) col then fg else bg)) fb) c.fb }

/-- A blank in each of the first columns of a row. -/
def blankRow (c : FbConsole) (row : Nat) : Nat → FbConsole
  | 0 => c
  | x + 1 => (c.blankRow row x).drawGlyph (x * 8) (row * 16) c.fg c.bg (FONT.getD 0 [])

/-- The copy of `scroll`: the rows of characters one after the other, byte by byte. -/
def copyRows (fb : ByteStore) (rowBytes rows : Nat) : ByteStore :=
  (List.range' 1 (rows - 1)).foldl (fun fb row =>
    (List.range rowBytes).foldl (fun fb i =>
      writeBytes fb ((row - 1) * rowBytes + i) [fb (row * rowBytes + i)]) fb) fb

def scroll (c : FbConsole) : FbConsole :=
  let rowBytes := c.mode.pitch * 16
  let c := { c with fb := copyRows c.fb rowBytes c.mode.rows }
  let c := { c with curY := c.mode.rows - 1, curX := 0 }
  c.blankRow c.curY c.mode.cols

def newline (c : FbConsole) : FbConsole :=
  let c := { c with curX := 0, curY := c.curY + 1 }
  if c.curY ≥ c.mode.rows then c.scroll else c

/-- `write_byte`; `none` stands for the panic in `glyph`. -/
def writeByte (c : FbConsole) (byte : UInt8) : Option FbConsole :=
  if byte = 10 then some c.newline
  else if byte = 13 then some { c with curX := 0 }
  else if byte = 9 then
    let c := { c with curX := (c.curX + 8) / 8 * 8 }
    some (if c.curX ≥ c.mode.cols then c.newline else c)
  else
    let c := if c.curX ≥ c.mode.cols then c.newline else c
    (glyph byte).map fun g =>
      let c := c.drawGlyph (c.curX * 8) (c.curY * 16) c.fg c.bg g
      { c with curX := c.curX + 1 }

def writeStr (c : FbConsole) (s : List UInt8) : Option FbConsole := s.foldlM writeByte c

/-- The zero fill of `setup_fb`, eight bytes at a time. -/
def zeroFill (fb : ByteStore) (fbDwords : Nat) : ByteStore :=
  (List.range fbDwords).foldl (fun fb i => writeBytes fb (i * 8) (List.replicate 8 0)) fb

/-- The console that `setup_fb` makes; `none` stands for `false`. -/
def setupFb (addr : UInt64) (mode : Mode) (fb : ByteStore) : Option FbConsole :=
  if addr = 0 ∨ mode.width = 0 ∨ mode.height = 0 then none
  else some
    { mode := mode
      fb := zeroFill fb (mode.pitch * mode.height / 8)
      curX := 0
      curY := 0
      fg := 0x00AAAAAA
      bg := 0x00000000 }

end FbConsole

/-- What a byte of a text types. -/
def fbKey (byte : UInt8) : Key UInt8 :=
  if byte = 10 then .newline
  else if byte = 13 then .carriageReturn
  else if byte = 9 then .tab
  else .char byte

/-- The bytes of a color in a pixel. -/
def Mode.color (mode : Mode) (c : UInt32) : List UInt8 := leEncode mode.bytes c.toNat

/-- The bytes of a pixel in the video memory. -/
def Mode.pixel (mode : Mode) (fb : ByteStore) (x y : Nat) : List UInt8 :=
  (List.range mode.bytes).map fun k => fb (y * mode.pitch + x * mode.bytes + k)

namespace FbConsole

/-- A cell has the pixels of the glyph of a character. -/
def Draws (c : FbConsole) (row col : Nat) (a : UInt8) : Prop :=
  ∀ g, glyph a = some g → ∀ i j, i < 16 → j < 8 →
    c.mode.pixel c.fb (col * 8 + j) (row * 16 + i) =
      c.mode.color (if glyphBit (g.getD i 0) j then c.fg else c.bg)

/-- The screen is the window of a paper, and no byte behind the framebuffer `fb` has changed. -/
structure Shows (mode : Mode) (fb : ByteStore) (c : FbConsole) (p : Paper UInt8) : Prop where
  mode_eq : c.mode = mode
  window : Window mode.rows mode.cols 32 c.Draws c.curY c.curX p
  behind : AgreeOutside 0 (mode.height * mode.pitch) fb c.fb

end FbConsole

variable {mode : Mode} {fb : ByteStore} {c : FbConsole} {p : Paper UInt8}

/-! ### Pixels -/

theorem Mode.Drawable.bytes_pos (h : mode.Drawable) : 0 < mode.bytes := by
  rcases h.depth with hbpp | hbpp <;> simp [Mode.bytes, hbpp]

/-- The pixels of a mode, as a raster. -/
def Mode.Drawable.raster (h : mode.Drawable) : Raster :=
  ⟨mode.width, mode.height, mode.pitch, mode.bytes, h.bytes_pos, h.fits⟩

private theorem pixel_raster (h : mode.Drawable) (fb : ByteStore) (x y : Nat) :
    h.raster.pixel fb x y = mode.pixel fb x y := rfl

/-- Writing a pixel paints it. -/
private theorem putPixel_eq (h : mode.Drawable) (fb : ByteStore) (x y : Nat) (color : UInt32) :
    mode.putPixel fb x y color = h.raster.paint fb x y (mode.color color) := by
  rcases h.depth with hbpp | hbpp
  · simp [Mode.putPixel, Mode.color, Raster.paint, Raster.offset, Mode.Drawable.raster, Mode.bytes,
      hbpp]
  · simp [Mode.putPixel, Mode.color, Raster.paint, Raster.offset, Mode.Drawable.raster, Mode.bytes,
      hbpp]

private theorem length_color (mode : Mode) (v : UInt32) : (mode.color v).length = mode.bytes :=
  length_leEncode _ _

/-- A cell of the screen ends in the screen. -/
private theorem cell_in (mode : Mode) {row col i j : Nat} (hrow : row < mode.rows)
    (hcol : col < mode.cols)
    (hi : i < 16) (hj : j < 8) : col * 8 + j < mode.width ∧ row * 16 + i < mode.height := by
  rw [Mode.rows] at hrow
  rw [Mode.cols] at hcol
  omega

/-- The pixels that `draw_glyph` goes through. -/
def glyphPixels (mode : Mode) (gx gy : Nat) : List (Nat × Nat) :=
  ((List.range 16).takeWhile fun row => gy + row < mode.height).flatMap fun row =>
    ((List.range 8).takeWhile fun col => gx + col < mode.width).map fun col => (gx + col, gy + row)

/-- The color of a pixel of a glyph. -/
def glyphColor (mode : Mode) (gx gy : Nat) (fg bg : UInt32) (g : Glyph) (p : Nat × Nat) :
    List UInt8 :=
  mode.color (if glyphBit (g.getD (p.2 - gy) 0) (p.1 - gx) then fg else bg)

private theorem length_glyphColor (mode : Mode) (gx gy : Nat) (fg bg : UInt32) (g : Glyph)
    (p : Nat × Nat) :
    (glyphColor mode gx gy fg bg g p).length = mode.bytes := length_color mode _

private theorem drawGlyph_eq (c : FbConsole) (h : c.mode.Drawable) (gx gy : Nat) (fg bg : UInt32)
    (g : Glyph) :
    c.drawGlyph gx gy fg bg g =
      let v := glyphColor c.mode gx gy fg bg g
      { c with fb := h.raster.paintAll c.fb v (glyphPixels c.mode gx gy) } := by
  simp only [FbConsole.drawGlyph, Raster.paintAll, glyphPixels, List.foldl_flatMap, List.foldl_map,
    glyphColor, Nat.add_sub_cancel_left, putPixel_eq h]

private theorem mem_glyphPixels_lt {gx gy : Nat} {p : Nat × Nat}
    (h : p ∈ glyphPixels mode gx gy) : p.1 < mode.width ∧ p.2 < mode.height := by
  rw [glyphPixels, List.mem_flatMap] at h
  obtain ⟨row, hrow, hp⟩ := h
  obtain ⟨col, hcol, rfl⟩ := List.mem_map.mp hp
  have hrow' := List.mem_takeWhile_imp hrow
  have hcol' := List.mem_takeWhile_imp hcol
  exact ⟨of_decide_eq_true hcol', of_decide_eq_true hrow'⟩

/-- In a cell of the screen these are all pixels of the cell. -/
private theorem mem_glyphPixels {row col : Nat} (hrow : row < mode.rows)
    (hcol : col < mode.cols) (x y : Nat) :
    (x, y) ∈ glyphPixels mode (col * 8) (row * 16) ↔ x / 8 = col ∧ y / 16 = row := by
  have hrows : (List.range 16).takeWhile (fun i => decide (row * 16 + i < mode.height)) =
      List.range 16 := by
    rw [List.takeWhile_eq_self_iff]
    intro i hi
    exact decide_eq_true (cell_in mode hrow hcol (List.mem_range.mp hi) (by decide : 0 < 8)).2
  have hcols : (List.range 8).takeWhile (fun j => decide (col * 8 + j < mode.width)) =
      List.range 8 := by
    rw [List.takeWhile_eq_self_iff]
    intro j hj
    exact decide_eq_true (cell_in mode hrow hcol (by decide : 0 < 16) (List.mem_range.mp hj)).1
  rw [glyphPixels, hrows, hcols]
  simp only [List.mem_flatMap, List.mem_range, List.mem_map, Prod.mk.injEq]
  constructor
  · rintro ⟨i, hi, j, hj, rfl, rfl⟩
    omega
  · rintro ⟨rfl, rfl⟩
    exact ⟨y % 16, Nat.mod_lt _ (by decide), x % 8, Nat.mod_lt _ (by decide), by omega, by omega⟩

/-- What `draw_glyph` does to the pixels of the cells. -/
theorem pixel_drawGlyph (c : FbConsole) (h : c.mode.Drawable) {row col : Nat}
    (hrow : row < c.mode.rows)
    (hcol : col < c.mode.cols) (fg bg : UInt32) (g : Glyph) {row' col' i j : Nat}
    (hrow' : row' < c.mode.rows) (hcol' : col' < c.mode.cols) (hi : i < 16) (hj : j < 8) :
    c.mode.pixel (c.drawGlyph (col * 8) (row * 16) fg bg g).fb (col' * 8 + j) (row' * 16 + i) =
      if row' = row ∧ col' = col then c.mode.color (if glyphBit (g.getD i 0) j then fg else bg)
      else c.mode.pixel c.fb (col' * 8 + j) (row' * 16 + i) := by
  have hin := cell_in c.mode hrow' hcol' hi hj
  rw [drawGlyph_eq c h]
  dsimp only
  refine (Raster.pixel_paintAll (s := h.raster) c.fb _ (fun p hp => (mem_glyphPixels_lt hp).1)
    (fun p => length_glyphColor c.mode _ _ fg bg g p) hin.1).trans ?_
  have hmem := mem_glyphPixels hrow hcol (col' * 8 + j) (row' * 16 + i)
  by_cases hhere : row' = row ∧ col' = col
  · obtain ⟨rfl, rfl⟩ := hhere
    rw [if_pos (hmem.mpr (by omega)), if_pos ⟨rfl, rfl⟩, glyphColor, Nat.add_sub_cancel_left,
      Nat.add_sub_cancel_left]
  · rw [if_neg hhere, if_neg, pixel_raster]
    intro hin'
    have hcell := hmem.mp hin'
    omega

private theorem drawGlyph_agree (c : FbConsole) (h : c.mode.Drawable) (gx gy : Nat) (fg bg : UInt32)
    (g : Glyph) :
    AgreeOutside 0 (c.mode.height * c.mode.pitch) c.fb (c.drawGlyph gx gy fg bg g).fb := by
  rw [drawGlyph_eq c h]
  exact Raster.paintAll_agree (s := h.raster) c.fb _ (fun p hp => mem_glyphPixels_lt hp)
    fun p => length_glyphColor c.mode gx gy fg bg g p

/-- The blank has no pixel of the foreground. -/
private theorem glyphBit_blank (i j : Nat) :
    glyphBit (List.getD (FONT.getD 0 []) i 0) j = false := by
  have hblank : FONT.getD 0 [] = List.replicate 16 0 := rfl
  have hzero : List.getD (List.replicate 16 (0 : UInt8)) i 0 = 0 := by
    rw [List.getD_eq_getElem?_getD, List.getElem?_replicate]
    split <;> rfl
  rw [hblank, hzero]
  simp [glyphBit]

/-- The rows of characters are copied as one block of memory. -/
private theorem copyRows_eq (fb : ByteStore) (rowBytes rows : Nat) :
    FbConsole.copyRows fb rowBytes rows = moveBytes fb rowBytes ((rows - 1) * rowBytes) := by
  rw [FbConsole.copyRows]
  generalize rows - 1 = n
  induction n with
  | zero => simp [moveBytes]
  | succ n ih =>
    rw [List.range'_1_concat, List.foldl_append, ih, List.foldl_cons, List.foldl_nil, moveBytes,
      moveBytes, Nat.succ_mul, List.range_add, List.foldl_append, List.foldl_map]
    have hplace : ∀ i, (1 + n) * rowBytes + i = n * rowBytes + i + rowBytes := by
      intro i
      rw [Nat.add_mul]
      omega
    simp only [Nat.add_sub_cancel_left, hplace]

/-- What the blanks in a row do to the pixels of the cells. -/
private theorem pixel_blankRow (c : FbConsole) (h : c.mode.Drawable) {row : Nat}
    (hrow : row < c.mode.rows) {cols : Nat}
    (hcols : cols ≤ c.mode.cols) :
    ∃ fb, c.blankRow row cols = { c with fb } ∧
      AgreeOutside 0 (c.mode.height * c.mode.pitch) c.fb fb ∧
      ∀ row' col' i j, row' < c.mode.rows → col' < c.mode.cols → i < 16 → j < 8 →
        c.mode.pixel fb (col' * 8 + j) (row' * 16 + i) =
          if row' = row ∧ col' < cols then c.mode.color c.bg
          else c.mode.pixel c.fb (col' * 8 + j) (row' * 16 + i) := by
  induction cols with
  | zero => exact ⟨c.fb, rfl, AgreeOutside.refl _, by simp⟩
  | succ cols ih =>
    obtain ⟨fb, heq, hagree, hpixel⟩ := ih (Nat.le_of_succ_le hcols)
    have hdraw := drawGlyph_agree { c with fb } h (cols * 8) (row * 16) c.fg c.bg (FONT.getD 0 [])
    refine ⟨_, ?_, hagree.trans hdraw, ?_⟩
    · rw [FbConsole.blankRow, heq]
      rfl
    · intro row' col' i j hrow' hcol' hi hj
      have hpixels := pixel_drawGlyph { c with fb } h hrow hcols c.fg c.bg
        (FONT.getD 0 []) hrow' hcol' hi hj
      dsimp only at hpixels
      rw [hpixels, glyphBit_blank, hpixel row' col' i j hrow' hcol' hi hj]
      by_cases hhere : row' = row ∧ col' = cols
      · obtain ⟨rfl, rfl⟩ := hhere
        simp
      · have hiff : row' = row ∧ col' < cols + 1 ↔ row' = row ∧ col' < cols := by omega
        simp only [hhere, hiff, if_false]

/-- What `scroll` does to the pixels of the cells. -/
theorem pixel_scroll (c : FbConsole) (h : c.mode.Drawable) :
    ∃ fb, c.scroll = { c with fb, curX := 0, curY := c.mode.rows - 1 } ∧
      AgreeOutside 0 (c.mode.height * c.mode.pitch) c.fb fb ∧
      ∀ row col i j, row < c.mode.rows → col < c.mode.cols → i < 16 → j < 8 →
        c.mode.pixel fb (col * 8 + j) (row * 16 + i) =
          if row + 1 < c.mode.rows then c.mode.pixel c.fb (col * 8 + j) ((row + 1) * 16 + i)
          else c.mode.color c.bg := by
  have hrows : 0 < c.mode.rows := Nat.div_pos h.rows_pos (by decide)
  have hbottom : c.mode.rows - 1 < c.mode.rows := Nat.sub_lt hrows Nat.one_pos
  have hheight : c.mode.rows * 16 ≤ c.mode.height := Nat.div_mul_le_self _ _
  -- the copy moves lines of pixels up by the height of a character
  have hcopy : FbConsole.copyRows c.fb (c.mode.pitch * 16) c.mode.rows =
      moveBytes c.fb (16 * c.mode.pitch) ((c.mode.rows - 1) * 16 * c.mode.pitch) := by
    rw [copyRows_eq, Nat.mul_comm c.mode.pitch, Nat.mul_assoc]
  have hmoved : AgreeOutside 0 (c.mode.height * c.mode.pitch) c.fb
      (moveBytes c.fb (16 * c.mode.pitch) ((c.mode.rows - 1) * 16 * c.mode.pitch)) := by
    have hblock : (c.mode.rows - 1) * 16 * c.mode.pitch ≤ c.mode.height * c.mode.pitch :=
      Nat.mul_le_mul_right _ (by omega)
    have hpitch : 0 < c.mode.pitch := Raster.pitch_pos (s := h.raster)
      (Nat.lt_of_lt_of_le (by decide : 0 < 8) h.cols_pos)
    exact (moveBytes_agree c.fb (by omega) _).mono le_rfl hblock
  obtain ⟨fb, heq, hagree, hpixel⟩ := pixel_blankRow
    { c with
      fb := moveBytes c.fb (16 * c.mode.pitch) ((c.mode.rows - 1) * 16 * c.mode.pitch)
      curY := c.mode.rows - 1
      curX := 0 } h hbottom (Nat.le_refl c.mode.cols)
  refine ⟨fb, ?_, hmoved.trans hagree, ?_⟩
  · rw [FbConsole.scroll, hcopy]
    exact heq
  · intro row col i j hrow hcol hi hj
    have hin := cell_in c.mode hrow hcol hi hj
    rw [hpixel row col i j hrow hcol hi hj]
    by_cases hlast : row + 1 < c.mode.rows
    · have hmoves := Raster.pixel_moveBytes (s := h.raster) c.fb (n := (c.mode.rows - 1) * 16)
        (by decide : 0 < 16) hin.1 (y := row * 16 + i)
      rw [if_neg (by omega), if_pos hlast]
      refine hmoves.trans ?_
      rw [if_pos (by omega), pixel_raster, Nat.succ_mul, Nat.add_right_comm]
    · rw [if_pos ⟨by omega, hcol⟩, if_neg hlast]

/-! ### The writer -/

/-- A cell of the background shows a blank. -/
private theorem draws_blank {row col : Nat}
    (h : ∀ i j, i < 16 → j < 8 →
      c.mode.pixel c.fb (col * 8 + j) (row * 16 + i) = c.mode.color c.bg) :
    c.Draws row col 32 := by
  intro g hg i j hi hj
  have hblank : g = FONT.getD 0 [] := (Option.some.inj hg).symm
  rw [hblank, glyphBit_blank, h i j hi hj]
  rfl

private theorem newline_shows (hmode : mode.Drawable) (h : c.Shows mode fb p) :
    c.newline.Shows mode fb (p.newline mode.rows) := by
  obtain ⟨rfl, hwindow, hbehind⟩ := h
  simp only [FbConsole.newline]
  split
  case isTrue hlast =>
    obtain ⟨fb', heq, hagree, hpixel⟩ := pixel_scroll { c with curX := 0, curY := c.curY + 1 } hmode
    have hrow := hwindow.row_lt
    have hy : c.mode.rows - 1 = c.curY := by omega
    rw [heq]
    refine ⟨rfl, ?_, hbehind.trans hagree⟩
    dsimp only
    rw [hy]
    apply Window.scroll hwindow hlast
    · intro row col a hmoved hcol hcell g hg i j hi hj
      rw [← hcell g hg i j hi hj]
      exact (hpixel row col i j (Nat.lt_of_succ_lt hmoved) hcol hi hj).trans (if_pos hmoved)
    · intro col hcol
      apply draws_blank
      intro i j hi hj
      have hbottom : c.mode.rows - 1 < c.mode.rows := by omega
      have hlower : ¬c.mode.rows - 1 + 1 < c.mode.rows := by omega
      exact (hpixel _ col i j hbottom hcol hi hj).trans (if_neg hlower)
  case isFalse hmore => exact ⟨rfl, hwindow.nextRow (not_le.mp hmore), hbehind⟩

/-- After a line break there is room in the line. -/
private theorem newline_curX (h : c.mode.Drawable) : c.newline.curX = 0 := by
  simp only [FbConsole.newline]
  split
  · obtain ⟨fb', heq, -⟩ := pixel_scroll { c with curX := 0, curY := c.curY + 1 } h
    rw [heq]
  · rfl

/-- A character at the cursor, which is not behind the last column. -/
private theorem put_shows (hmode : mode.Drawable) (h : c.Shows mode fb p)
    (hcol : c.curX < mode.cols) {byte : UInt8} {g : Glyph}
    (hg : glyph byte = some g) :
    let c' := c.drawGlyph (c.curX * 8) (c.curY * 16) c.fg c.bg g
    FbConsole.Shows mode fb { c' with curX := c'.curX + 1 } (p.put byte) := by
  obtain ⟨rfl, hwindow, hbehind⟩ := h
  have hrow := hwindow.row_lt
  refine ⟨rfl, ?_, hbehind.trans (drawGlyph_agree c hmode _ _ c.fg c.bg g)⟩
  have hput : p.put byte = (p.set c.curY c.curX byte).toCol (c.curX + 1) := by
    rw [Paper.put, hwindow.row_eq, hwindow.col_eq]
  rw [hput]
  suffices hset : Window c.mode.rows c.mode.cols 32
      (FbConsole.Draws (c.drawGlyph (c.curX * 8) (c.curY * 16) c.fg c.bg g)) c.curY c.curX
      (p.set c.curY c.curX byte) from hset.toCol hcol
  apply Window.set hwindow hrow
  · intro _ g' hg' i j hi hj
    have hpixel := pixel_drawGlyph c hmode hrow hcol c.fg c.bg g hrow hcol hi hj
    rw [if_pos ⟨rfl, rfl⟩] at hpixel
    obtain rfl : g = g' := Option.some.inj (hg.symm.trans hg')
    exact hpixel
  · intro row col a hrow' hcol' hother hcell g' hg' i j hi hj
    have hpixel := pixel_drawGlyph c hmode hrow hcol c.fg c.bg g hrow' hcol' hi hj
    rw [if_neg hother] at hpixel
    exact hpixel.trans (hcell g' hg' i j hi hj)

/-- A byte of a text types its key, or there is no glyph for it. -/
private theorem writeByte_shows (hmode : mode.Drawable) (h : c.Shows mode fb p) {byte : UInt8}
    (hbyte : byte ≠ 126) :
    ∃ c', c.writeByte byte = some c' ∧
      c'.Shows mode fb (p.press mode.rows mode.cols (fbKey byte)) := by
  obtain rfl := h.mode_eq
  have hwindow := h.window
  simp only [FbConsole.writeByte, fbKey]
  by_cases hnewline : byte = 10
  · rw [if_pos hnewline, if_pos hnewline]
    exact ⟨_, rfl, newline_shows hmode h⟩
  rw [if_neg hnewline, if_neg hnewline]
  by_cases hreturn : byte = 13
  · rw [if_pos hreturn, if_pos hreturn]
    exact ⟨_, rfl, rfl, hwindow.toCol (Nat.zero_le _), h.behind⟩
  rw [if_neg hreturn, if_neg hreturn]
  by_cases htab : byte = 9
  · rw [if_pos htab, if_pos htab, Paper.press, Paper.tab, Paper.tabStop, ← hwindow.col_eq]
    by_cases hwrap : (c.curX + 8) / 8 * 8 ≥ c.mode.cols
    · -- the column that a line break starts from does not matter
      rw [if_pos hwrap, if_pos hwrap]
      exact ⟨c.newline, rfl, newline_shows hmode h⟩
    · rw [if_neg hwrap, if_neg hwrap]
      exact ⟨_, rfl, rfl, hwindow.toCol (Nat.le_of_lt (not_le.mp hwrap)), h.behind⟩
  rw [if_neg htab, if_neg htab, Paper.press, Paper.char, ← hwindow.col_eq]
  obtain ⟨g, hg⟩ : ∃ g, glyph byte = some g :=
    Option.ne_none_iff_exists'.mp fun hnone => hbyte ((glyph_eq_none_iff byte).mp hnone)
  rw [hg]
  by_cases hwrap : c.curX ≥ c.mode.cols
  · -- the line is full: the character goes on the next one
    have hline := newline_shows hmode h
    have hroom : 0 < c.mode.cols := Nat.div_pos hmode.cols_pos (by decide)
    rw [if_pos hwrap, if_pos hwrap]
    exact ⟨_, rfl, put_shows hmode hline (by rw [newline_curX hmode]; exact hroom) hg⟩
  · rw [if_neg hwrap, if_neg hwrap]
    exact ⟨_, rfl, put_shows hmode h (not_le.mp hwrap) hg⟩

private theorem writeStr_shows (hmode : mode.Drawable) (h : c.Shows mode fb p) (text : List UInt8) :
    if 126 ∈ text then c.writeStr text = none
    else ∃ c', c.writeStr text = some c' ∧
      c'.Shows mode fb (p.type mode.rows mode.cols (text.map fbKey)) := by
  induction text generalizing c p with
  | nil => exact ⟨c, rfl, h⟩
  | cons byte text ih =>
    rw [FbConsole.writeStr, List.foldlM_cons]
    by_cases hbyte : byte = 126
    · subst hbyte
      rw [if_pos List.mem_cons_self]
      rfl
    · obtain ⟨c', hc', hshows⟩ := writeByte_shows hmode h hbyte
      have hrest := ih hshows
      have hiff : 126 ∈ byte :: text ↔ 126 ∈ text := by
        rw [List.mem_cons, or_iff_right (Ne.symm hbyte)]
      simp only [hiff]
      rw [hc']
      exact hrest

/-! ### The start -/

private theorem zeroFill_eq (fb : ByteStore) (n : Nat) :
    FbConsole.zeroFill fb n = fun b => if b < n * 8 then 0 else fb b := by
  induction n with
  | zero => rfl
  | succ n ih =>
    funext b
    rw [FbConsole.zeroFill, List.range_succ, List.foldl_append, ← FbConsole.zeroFill, ih,
      List.foldl_cons, List.foldl_nil, writeBytes, List.length_replicate]
    by_cases hnew : n * 8 ≤ b ∧ b < n * 8 + 8
    · rw [if_pos hnew, if_pos (by omega), List.getD_eq_getElem?_getD, List.getElem?_replicate,
        if_pos (by omega)]
      rfl
    · have hiff : b < n * 8 ↔ b < (n + 1) * 8 := by omega
      rw [if_neg hnew]
      simp only [hiff]

/-- Whatever was in the video memory, a new console shows blanks. -/
private theorem setupFb_shows (hmode : mode.Drawable) {addr : UInt64} (haddr : addr ≠ 0)
    (fb : ByteStore) :
    ∃ c, FbConsole.setupFb addr mode fb = some c ∧ c.Shows mode fb ⟨fun _ _ => 32, 0, 0, 0⟩ := by
  have hwidth := hmode.cols_pos
  have hheight := hmode.rows_pos
  have haccepted : ¬(addr = 0 ∨ mode.width = 0 ∨ mode.height = 0) := by
    rintro (h | h | h)
    · exact haddr h
    · omega
    · omega
  refine ⟨_, if_neg haccepted, rfl, ?_, ?_⟩
  · have hrows : 0 < mode.rows := Nat.div_pos hmode.rows_pos (by decide)
    apply Window.start hrows
    · intro row col hrow hcol
      apply draws_blank
      intro i j hi hj
      have hin := cell_in mode hrow hcol hi hj
      have hend : (col * 8 + j) * mode.bytes + mode.bytes ≤ mode.pitch :=
        Raster.end_le (s := hmode.raster) hin.1
      have hdark : mode.color 0 = List.replicate mode.bytes 0 := by
        rcases hmode.depth with hbpp | hbpp <;> simp [Mode.color, Mode.bytes, hbpp, leEncode]
      change mode.pixel (FbConsole.zeroFill fb (mode.pitch * mode.height / 8)) _ _ = mode.color 0
      rw [hdark, zeroFill_eq, List.eq_replicate_iff]
      refine ⟨by simp [Mode.pixel], ?_⟩
      intro v hv
      obtain ⟨k, hk, rfl⟩ := List.mem_map.mp hv
      -- the rows of characters are a multiple of eight bytes
      have hscreen : mode.rows * 16 * mode.pitch ≤ mode.height * mode.pitch :=
        Nat.mul_le_mul_right _ (Nat.div_mul_le_self _ _)
      have hline : (row * 16 + i + 1) * mode.pitch ≤ mode.rows * 16 * mode.pitch :=
        Nat.mul_le_mul_right _ (by omega)
      have heights : mode.rows * 16 * mode.pitch = mode.rows * mode.pitch * 2 * 8 := by ring
      have hoffset := List.mem_range.mp hk
      rw [Nat.succ_mul] at hline
      rw [Nat.mul_comm mode.height] at hscreen
      apply if_pos
      omega
    · exact fun _ _ _ => rfl
  · intro b hb
    change (FbConsole.zeroFill fb (mode.pitch * mode.height / 8)) b = fb b
    have hcomm := Nat.mul_comm mode.height mode.pitch
    rw [zeroFill_eq]
    exact if_neg (by omega)

/-- **Typing**: in every mode that can be drawn in, on any video memory, a text with a tilde ends in
    a panic, and any other one is typed: the pixels of the cells are those of the characters in the
    window of the paper, and nothing behind the framebuffer changes. -/
theorem framebuffer_types (mode : Mode) (hmode : mode.Drawable) (addr : UInt64) (haddr : addr ≠ 0)
    (fb : ByteStore) (text : List UInt8) :
    ∃ c, FbConsole.setupFb addr mode fb = some c ∧
      if 126 ∈ text then c.writeStr text = none
      else ∃ c', c.writeStr text = some c' ∧
        c'.Shows mode fb
          (Paper.type mode.rows mode.cols ⟨fun _ _ => 32, 0, 0, 0⟩ (text.map fbKey)) := by
  obtain ⟨c, hsetup, hshows⟩ := setupFb_shows hmode haddr fb
  exact ⟨c, hsetup, writeStr_shows hmode hshows text⟩

/-- The mode that `probe_fallback` looks for. -/
def probedMode : Mode := ⟨1024, 768, 4096, 32⟩

theorem framebuffer_types_probed :
    ∃ c c', FbConsole.setupFb 0xFD000000 probedMode (fun _ => 0xFF) = some c ∧
      c.writeStr [72, 105, 9, 33, 10] = some c' ∧
      c'.Shows probedMode (fun _ => 0xFF) (Paper.type 48 128 ⟨fun _ _ => 32, 0, 0, 0⟩
        [.char 72, .char 105, .tab, .char 33, .newline]) := by
  obtain ⟨c, hsetup, htypes⟩ := framebuffer_types probedMode
    ⟨.inl rfl, by decide, by decide, by decide⟩ 0xFD000000 (by decide) (fun _ => 0xFF)
    [72, 105, 9, 33, 10]
  rw [if_neg (by decide)] at htypes
  obtain ⟨c', hwrite, hshows⟩ := htypes
  exact ⟨c, c', hsetup, hwrite, hshows⟩

end RustKernel.Console
