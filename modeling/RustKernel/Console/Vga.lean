import RustKernel.Lib.Ring
import RustKernel.Lib.Run

/-!
# RustKernel.Console.Vga

The text console: a writer on the video memory, which wraps and scrolls, and the scrollback buffer,
to which a call of `write_fmt` commits the line that `scroll` left in a deferred slot.

The hardware cursor is output only and is left out.
-/

namespace RustKernel.Console

open Lib

def WIDTH : Nat := 80
def HEIGHT : Nat := 25
/-- The last row is the status bar. -/
def CONTENT_ROWS : Nat := HEIGHT - 1
def SCROLLBACK_LINES : Nat := 500

/-- A row of the screen: a character and a color for each cell. -/
abbrev Line : Type := List UInt8

/-- Addition of `usize`, which wraps in a release build. -/
def usizeAdd (a b : Nat) : Nat := (a + b) % 2 ^ 64

/-! ### The scrollback buffer -/

structure ScrollbackBuffer where
  lines : Nat → Line
  currentLine : Nat
  scrollOffset : Nat

def ScrollbackBuffer.new : ScrollbackBuffer := ⟨fun _ => List.replicate (WIDTH * 2) 0, 0, 0⟩

def ScrollbackBuffer.addLine (sb : ScrollbackBuffer) (lineData : Line) : ScrollbackBuffer where
  lines := fun i => if i = sb.currentLine % SCROLLBACK_LINES then lineData else sb.lines i
  currentLine := sb.currentLine + 1
  scrollOffset := if 0 < sb.scrollOffset then 0 else sb.scrollOffset

def ScrollbackBuffer.scrollUp (sb : ScrollbackBuffer) (lines : Nat) : ScrollbackBuffer :=
  let maxScroll := sb.currentLine - CONTENT_ROWS
  { sb with scrollOffset := min (usizeAdd sb.scrollOffset lines) maxScroll }

def ScrollbackBuffer.scrollDown (sb : ScrollbackBuffer) (lines : Nat) : ScrollbackBuffer :=
  { sb with scrollOffset := sb.scrollOffset - lines }

def ScrollbackBuffer.getLine (sb : ScrollbackBuffer) (visibleRow : Nat) : Option Line :=
  if sb.currentLine < CONTENT_ROWS then none
  else
    let historyLine := sb.currentLine - CONTENT_ROWS - sb.scrollOffset + visibleRow
    if historyLine ≥ sb.currentLine then none
    else some (sb.lines (historyLine % SCROLLBACK_LINES))

/-! ### The writer -/

inductive Color where
  | black
  | blue
  | green
  | cyan
  | red
  | magenta
  | brown
  | lightGray
  | darkGray
  | lightBlue
  | lightGreen
  | lightCyan
  | lightRed
  | pink
  | yellow
  | white
  deriving DecidableEq, Repr

/-- `Color as u8` -/
def Color.code (c : Color) : UInt8 := UInt8.ofNat c.ctorIdx

/-- `ColorCode::new` -/
def colorCode (fg bg : Color) : UInt8 := bg.code <<< 4 ||| fg.code

structure Writer where
  row : Nat
  col : Nat
  color : UInt8
  deriving DecidableEq, Repr

def Writer.new : Writer := ⟨0, 0, colorCode .lightGray .black⟩

/-- The video memory and the statics of the console, with the lines that scrolled off the screen
    and those added to the scrollback buffer so far. -/
structure Vga where
  buffer : Nat → UInt8
  writer : Writer
  deferredScrollLine : Option Line
  scrollback : ScrollbackBuffer
  scrolled : List Line
  appended : List Line

def Vga.writeAt (c : Vga) (row col : Nat) (byte color : UInt8) : Vga :=
  let offset := (row * WIDTH + col) * 2
  { c with buffer := fun i =>
      if i = offset then byte else if i = offset + 1 then color else c.buffer i }

/-- `write_at` on the columns from 0 on. -/
def Vga.fillRow (c : Vga) (row : Nat) (byte color : UInt8) : Nat → Vga
  | 0 => c
  | col + 1 => (c.fillRow row byte color col).writeAt row col byte color

/-- The first row of the screen. -/
def Vga.topLine (c : Vga) : Line := (List.range (WIDTH * 2)).map c.buffer

def Vga.scroll (c : Vga) : Vga :=
  let lineData := c.topLine
  let c := { c with
    -- the rows move up by one
    buffer := fun i =>
      if i < (CONTENT_ROWS - 1) * WIDTH * 2 then c.buffer (i + WIDTH * 2) else c.buffer i
    deferredScrollLine := some lineData
    scrolled := c.scrolled ++ [lineData] }
  c.fillRow (CONTENT_ROWS - 1) 32 (colorCode .lightGray .black) WIDTH

def Vga.newline (c : Vga) : Vga :=
  let c := { c with writer := { c.writer with col := 0 } }
  if c.writer.row + 1 ≥ CONTENT_ROWS then c.scroll
  else { c with writer := { c.writer with row := c.writer.row + 1 } }

def Vga.writeByte (c : Vga) (byte : UInt8) : Vga :=
  if byte = 10 then c.newline
  else if byte = 13 then { c with writer := { c.writer with col := 0 } }
  else if byte = 9 then
    let c := { c with writer := { c.writer with col := (c.writer.col + 8) / 8 * 8 } }
    if c.writer.col ≥ WIDTH then c.newline else c
  else
    let byte := if byte < 128 ∧ byte ≠ 0x7F then byte else 63
    let c := if c.writer.col ≥ WIDTH then c.newline else c
    let c := c.writeAt c.writer.row c.writer.col byte c.writer.color
    { c with writer := { c.writer with col := c.writer.col + 1 } }

/-- `write_str`, on the bytes of the string. -/
def Vga.writeStr (c : Vga) (s : List UInt8) : Vga := s.foldl writeByte c

def Vga.commitScrollback (c : Vga) : Vga :=
  match c.deferredScrollLine with
  | some line => { c with
      deferredScrollLine := none
      scrollback := c.scrollback.addLine line
      appended := c.appended ++ [line] }
  | none => c

/-- `write_fmt`: the writer gets the pieces of the text one by one. -/
def Vga.writeFmt (c : Vga) (pieces : List (List UInt8)) : Vga :=
  (pieces.foldl writeStr c).commitScrollback

/-- `Writer::clear` -/
def Vga.clear (c : Vga) : Vga :=
  let c := (List.range CONTENT_ROWS).foldl (fun c row => c.fillRow row 32 c.writer.color WIDTH) c
  { c with writer := { c.writer with row := 0, col := 0 } }

/-- The console after `init`, whatever the video memory held. -/
def Vga.init (buffer : Nat → UInt8) : Vga :=
  { buffer := buffer
    writer := .new
    deferredScrollLine := none
    scrollback := .new
    scrolled := []
    appended := [] : Vga }.clear

end RustKernel.Console
