import RustKernel.Lib.Ring

/-!
# RustKernel.Input.Keyboard

Key events, how scan codes become events, and the lock-free ring between the keyboard interrupt and
the shell.

## Main result

`decode_encode`: an event that the interrupt handler pushes is decoded to itself. An event is stored
in a word with one byte of data, so this needs that its character is below 256 (`Produced`).
-/

namespace RustKernel.Keyboard

open Lib

def BUF_SIZE : Nat := 64

inductive KeyEvent where
  | char (c : UInt8)
  | up
  | down
  | left
  | right
  | backspace
  | enter
  | escape
  | ctrl (c : Char)
  | pageUp
  | pageDown
  deriving DecidableEq, Repr

def encode : KeyEvent → UInt32
  | .char c => (1 : UInt32) <<< 8 ||| c.toUInt32
  | .up => (2 : UInt32) <<< 8
  | .down => (3 : UInt32) <<< 8
  | .left => (4 : UInt32) <<< 8
  | .right => (5 : UInt32) <<< 8
  | .backspace => (6 : UInt32) <<< 8
  | .enter => (7 : UInt32) <<< 8
  | .escape => (8 : UInt32) <<< 8
  | .ctrl c => (9 : UInt32) <<< 8 ||| c.val
  | .pageUp => (10 : UInt32) <<< 8
  | .pageDown => (11 : UInt32) <<< 8

/-- `u8 as char` -/
def charOf (c : UInt8) : Char := Char.ofNat c.toNat

def decode (val : UInt32) : Option KeyEvent :=
  if val = 0 then none
  else
    let typ := val >>> 8
    let data := val.toUInt8
    if typ = 1 then some (.char data)
    else if typ = 2 then some .up
    else if typ = 3 then some .down
    else if typ = 4 then some .left
    else if typ = 5 then some .right
    else if typ = 6 then some .backspace
    else if typ = 7 then some .enter
    else if typ = 8 then some .escape
    else if typ = 9 then some (.ctrl (charOf data))
    else if typ = 10 then some .pageUp
    else if typ = 11 then some .pageDown
    else none

/-! ### Scan codes -/

def LOWER : List UInt8 :=
  [0, 27, 49, 50, 51, 52, 53, 54, 55, 56, 57, 48, 45, 61, 8, 9, 113, 119, 101, 114, 116, 121,
    117, 105, 111, 112, 91, 93, 10, 0, 97, 115, 100, 102, 103, 104, 106, 107, 108, 59, 39, 96,
    0, 92, 122, 120, 99, 118, 98, 110, 109, 44, 46, 47, 0, 42, 0, 32]

def UPPER : List UInt8 :=
  [0, 27, 33, 64, 35, 36, 37, 94, 38, 42, 40, 41, 95, 43, 8, 9, 81, 87, 69, 82, 84, 89, 85, 73,
    79, 80, 123, 125, 10, 0, 65, 83, 68, 70, 71, 72, 74, 75, 76, 58, 34, 126, 0, 124, 90, 88,
    67, 86, 66, 78, 77, 60, 62, 63, 0, 42, 0, 32]

def scancodeToAscii (sc : UInt8) (shift : Bool) : Option UInt8 :=
  match (if shift then UPPER else LOWER)[sc.toNat]? with
  | none => none
  | some c => if c = 0 ∨ c = 27 then none else some c

/-- `SHIFT`, `CTRL` and `EXTENDED`. -/
structure Keys where
  shift : Bool
  ctrl : Bool
  extended : Bool
  deriving DecidableEq, Repr

def translateExtended (sc : UInt8) : Option KeyEvent :=
  if sc = 0x48 then some .up
  else if sc = 0x50 then some .down
  else if sc = 0x4B then some .left
  else if sc = 0x4D then some .right
  else if sc = 0x49 then some .pageUp
  else if sc = 0x51 then some .pageDown
  else none

def translate (sc : UInt8) (k : Keys) : Option KeyEvent × Keys :=
  if sc = 0x2A ∨ sc = 0x36 then (none, { k with shift := true })
  else if sc = 0x1D then (none, { k with ctrl := true })
  else if sc = 0x0E then (some .backspace, k)
  else if sc = 0x1C then (some .enter, k)
  else if sc = 0x01 then (some .escape, k)
  else
    ((scancodeToAscii sc k.shift).map fun c => if k.ctrl then .ctrl (charOf c) else .char c, k)

def handleRelease (sc : UInt8) (k : Keys) : Keys :=
  if sc = 0x2A ∨ sc = 0x36 then { k with shift := false }
  else if sc = 0x1D then { k with ctrl := false }
  else k

/-- `handle_irq`: the event it pushes, for the status and the data that the controller gives. -/
def handleIrq (status sc : UInt8) (k : Keys) : Option KeyEvent × Keys :=
  if status &&& 0x20 ≠ 0 then (none, k)
  else if sc = 0xE0 then (none, { k with extended := true })
  else if k.extended then (translateExtended sc, { k with extended := false })
  else if sc &&& 0x80 ≠ 0 then (none, handleRelease (sc &&& 0x7F) k)
  else translate sc k

/-- The events that `translate` and `translate_extended` produce. -/
def Produced (ev : KeyEvent) : Prop :=
  (∃ sc, translateExtended sc = some ev) ∨ ∃ sc k, (translate sc k).1 = some ev

/-- The interrupt handler pushes nothing else. -/
theorem produced_of_handleIrq {status sc : UInt8} {k : Keys} {ev : KeyEvent}
    (h : (handleIrq status sc k).1 = some ev) : Produced ev := by
  rw [handleIrq] at h
  split at h
  · cases h
  split at h
  · cases h
  split at h
  · exact .inl ⟨sc, h⟩
  split at h
  · cases h
  · exact .inr ⟨sc, k, h⟩

/-! ### Events in a word -/

private theorem decode_encode_char (c : UInt8) : decode (encode (.char c)) = some (.char c) := by
  have hall : ∀ n : Fin 256, decode (encode (.char (.ofNat n))) = some (.char (.ofNat n)) := by
    decide +kernel
  have h := hall ⟨c.toNat, c.toNat_lt⟩
  rwa [UInt8.ofNat_toNat] at h

private theorem decode_encode_ctrl (c : UInt8) :
    decode (encode (.ctrl (charOf c))) = some (.ctrl (charOf c)) := by
  have hall : ∀ n : Fin 256,
      decode (encode (.ctrl (Char.ofNat n))) = some (.ctrl (Char.ofNat n)) := by
    decide +kernel
  exact hall ⟨c.toNat, c.toNat_lt⟩

theorem decode_encode {ev : KeyEvent} (h : Produced ev) : decode (encode ev) = some ev := by
  cases ev with
  | char c => exact decode_encode_char c
  | ctrl c =>
    -- the character comes from a table of bytes
    rcases h with ⟨sc, hsc⟩ | ⟨sc, k, hsc⟩
    · simp only [translateExtended] at hsc
      repeat (split at hsc; · cases hsc)
      cases hsc
    · simp only [translate] at hsc
      repeat (split at hsc; · cases hsc)
      obtain ⟨b, -, hb⟩ := Option.map_eq_some_iff.mp hsc
      split at hb
      · obtain rfl := KeyEvent.ctrl.inj hb
        exact decode_encode_ctrl b
      · cases hb
  | _ => rfl

/-! ### The ring -/

structure LockFreeRing where
  buf : Nat → UInt32
  head : Nat
  tail : Nat

/-- `KEYBUF` -/
def LockFreeRing.empty : LockFreeRing := ⟨fun _ => 0, 0, 0⟩

/-- `push`, and whether the event was stored. The interrupt runs it as a whole. -/
def LockFreeRing.push (r : LockFreeRing) (ev : KeyEvent) : Bool × LockFreeRing :=
  let next := (r.head + 1) % BUF_SIZE
  if next = r.tail then (false, r)
  else (true, { r with
    buf := fun c => if c = r.head then encode ev else r.buf c
    head := next })

/-- The number of slots from `tail` to `h`. -/
def LockFreeRing.upTo (r : LockFreeRing) (h : Nat) : Nat := (h + BUF_SIZE - r.tail) % BUF_SIZE

/-- The words between `tail` and `head`, decoded as `pop` will decode them. -/
def LockFreeRing.pending (r : LockFreeRing) : List (Option KeyEvent) :=
  (ringRead r.buf BUF_SIZE r.tail (r.upTo r.head)).map decode

/-- Where the consumer is between two atomic steps of `pop` or `clear`. -/
inductive Consumer where
  | idle
  /-- `pop` has loaded the tail. -/
  | popHead (t : Nat)
  /-- `pop` has loaded the head, which differs from the tail. -/
  | popSlot (t : Nat)
  /-- `pop` has loaded the slot. -/
  | popStore (t : Nat) (val : UInt32)
  /-- `clear` has loaded the head. -/
  | clearStore (h : Nat)

end RustKernel.Keyboard
