import Mathlib.Tactic

/-!
# RustKernel.Rtc

The driver of the CMOS clock, which reads one register after the other while the clock goes on.

## Main result

`read_linearizable`: if the clock ticks at most once while it is read, the result is a time that it
had at one instant of the reading, as the driver converts it. Hours, minutes and seconds are never
those of different times, also when the tick carries from the seconds into the minutes and hours.

The hours are right in all formats but one (`displayed_hours`): with twelve hours in BCD, the bit
for the afternoon is taken for eight tens.

## Proof strategy

The tick is either before the first reading of the seconds, or behind the second one, or in between,
and then the two readings differ and everything is read again, behind the tick.
-/

namespace RustKernel.Rtc

/-! ### The driver -/

structure RtcTime where
  hours : UInt8
  minutes : UInt8
  seconds : UInt8
  deriving DecidableEq, Repr

def bcdToBin (bcd : UInt8) : UInt8 := bcd / 16 * 10 + bcd % 16

/-- What the registers contain at each instant; each call of `read_reg` takes one instant. -/
abbrev Chip : Type := Nat → UInt8 → UInt8

/-- `for _ in 0..n`: wait until the update is over. The instant behind the loop. -/
def waitUpdate (chip : Chip) : Nat → Nat → Nat
  | 0, i => i
  | n + 1, i => if chip i 0x0A &&& 0x80 = 0 then i + 1 else waitUpdate chip n (i + 1)

/-- `if !is_binary`: a number in BCD is converted. -/
def fromBcd (isBinary : Bool) (n : UInt8) : UInt8 := if isBinary then n else bcdToBin n

/-- `if !is_24h`: twelve hours are converted. -/
def to24h (is24h : Bool) (hour : UInt8) : UInt8 :=
  if is24h then hour
  else
    let pm := hour &&& 0x80 ≠ 0
    let hour := hour &&& 0x7F
    if pm then
      let hour := hour + 12
      if hour = 24 then 12 else hour
    else if hour = 12 then 0
    else hour

/-- The conversions at the end of `read`. -/
def convert (isBinary is24h : Bool) (hour min sec : UInt8) : RtcTime :=
  ⟨to24h is24h (fromBcd isBinary hour), fromBcd isBinary min, fromBcd isBinary sec⟩

/-- `read`, from an instant on, and the instant behind it. -/
def read (chip : Chip) (start : Nat) : RtcTime × Nat :=
  let regB := chip start 0x0B
  let isBinary := regB &&& 0x04 != 0
  let is24h := regB &&& 0x02 != 0
  let i := waitUpdate chip 100000 (start + 1)
  let sec := chip i 0x00
  let min := chip (i + 1) 0x02
  let hour := chip (i + 2) 0x04
  let sec2 := chip (i + 3) 0x00
  if sec2 ≠ sec then
    let i := waitUpdate chip 100000 (i + 4)
    let sec := chip i 0x00
    let min := chip (i + 1) 0x02
    let hour := chip (i + 2) 0x04
    (convert isBinary is24h hour min sec, i + 3)
  else (convert isBinary is24h hour min sec, i + 4)

/-! ### The clock -/

/-- A time of the day. -/
structure Time where
  hours : Fin 24
  minutes : Fin 60
  seconds : Fin 60
  deriving DecidableEq

/-- One second later. -/
def Time.next (t : Time) : Time where
  seconds := t.seconds + 1
  minutes := if t.seconds.val = 59 then t.minutes + 1 else t.minutes
  hours := if t.seconds.val = 59 ∧ t.minutes.val = 59 then t.hours + 1 else t.hours

/-- How the registers are written: register B of the chip. -/
structure Format where
  binary : Bool
  hours24 : Bool
  deriving DecidableEq

/-- A number below 100 in a register. -/
def Format.number (f : Format) (n : Nat) : UInt8 :=
  UInt8.ofNat (if f.binary then n else n / 10 * 16 + n % 10)

/-- With twelve hours, bit 7 stands for the afternoon. -/
def Format.hours (f : Format) (h : Nat) : UInt8 :=
  if f.hours24 then f.number h
  else if h < 12 then f.number (if h = 0 then 12 else h)
  else f.number (if h = 12 then 12 else h - 12) ||| 0x80

def Format.regB (f : Format) : UInt8 :=
  (if f.binary then 0x04 else 0) ||| (if f.hours24 then 0x02 else 0)

/-- A clock that ticks at an instant, and the instants at which it reports an update. -/
structure Clock where
  format : Format
  before : Time
  tick : Nat
  updating : Nat → Bool

def Clock.time (c : Clock) (i : Nat) : Time := if i < c.tick then c.before else c.before.next

def Clock.chip (c : Clock) : Chip := fun i reg =>
  if reg = 0x00 then c.format.number (c.time i).seconds
  else if reg = 0x02 then c.format.number (c.time i).minutes
  else if reg = 0x04 then c.format.hours (c.time i).hours
  else if reg = 0x0A then (if c.updating i then 0xA6 else 0x26)
  else if reg = 0x0B then c.format.regB
  else 0

/-- A time as the driver converts it: in BCD, the bit for the afternoon counts as eight tens. -/
def displayed (f : Format) (t : Time) : RtcTime where
  hours :=
    if f.binary = false ∧ f.hours24 = false ∧ 12 ≤ t.hours.val then
      80 + UInt8.ofNat (if t.hours.val = 12 then 12 else t.hours.val - 12)
    else UInt8.ofNat t.hours
  minutes := UInt8.ofNat t.minutes
  seconds := UInt8.ofNat t.seconds

/-! ### Conversion -/

private theorem fromBcd_number (f : Format) :
    ∀ n < 60, fromBcd f.binary (f.number n) = UInt8.ofNat n := by
  obtain ⟨binary, hours24⟩ := f
  cases binary <;> cases hours24 <;> decide +kernel

private theorem to24h_hours (f : Format) :
    ∀ h < 24, to24h f.hours24 (fromBcd f.binary (f.hours h)) =
    if f.binary = false ∧ f.hours24 = false ∧ 12 ≤ h then
      80 + UInt8.ofNat (if h = 12 then 12 else h - 12)
    else UInt8.ofNat h := by
  obtain ⟨binary, hours24⟩ := f
  cases binary <;> cases hours24 <;> decide +kernel

private theorem convert_eq (f : Format) (t : Time) :
    convert f.binary f.hours24 (f.hours t.hours) (f.number t.minutes) (f.number t.seconds) =
      displayed f t := by
  rw [convert, fromBcd_number f _ t.minutes.isLt, fromBcd_number f _ t.seconds.isLt,
    to24h_hours f _ t.hours.isLt]
  rfl

private theorem number_injective (f : Format) {m n : Nat} (hm : m < 60) (hn : n < 60)
    (h : f.number m = f.number n) : m = n := by
  have hconv := fromBcd_number f m hm
  rw [h, fromBcd_number f n hn] at hconv
  have hnat := congrArg UInt8.toNat hconv
  rw [UInt8.toNat_ofNat', UInt8.toNat_ofNat'] at hnat
  omega

/-- The hours are right unless an hour of the afternoon is written in BCD. -/
theorem displayed_hours (f : Format) (t : Time) :
    (displayed f t).hours = UInt8.ofNat t.hours ↔
      f.binary = true ∨ f.hours24 = true ∨ t.hours.val < 12 := by
  have hall : ∀ h < 24, 12 ≤ h →
      80 + UInt8.ofNat (if h = 12 then 12 else h - 12) ≠ UInt8.ofNat h := by
    decide +kernel
  obtain ⟨binary, hours24⟩ := f
  cases binary with
  | true => simp [displayed]
  | false =>
    cases hours24 with
    | true => simp [displayed]
    | false =>
      by_cases hmorning : t.hours.val < 12
      · simp [displayed, hmorning, Nat.not_le.mpr hmorning]
      · have hne := hall t.hours t.hours.isLt (Nat.not_lt.mp hmorning)
        simp [displayed, hmorning, Nat.not_lt.mp hmorning, hne]

/-! ### Reading -/

variable {c : Clock}

private theorem waitUpdate_ge (chip : Chip) (n i : Nat) : i ≤ waitUpdate chip n i := by
  induction n generalizing i with
  | zero => exact le_rfl
  | succ n ih =>
    rw [waitUpdate]
    split
    · exact Nat.le_succ i
    · exact Nat.le_of_succ_le (ih (i + 1))

private theorem regB_bits (f : Format) :
    (f.regB &&& 0x04 != 0) = f.binary ∧ (f.regB &&& 0x02 != 0) = f.hours24 := by
  obtain ⟨binary, hours24⟩ := f
  cases binary <;> cases hours24 <;> decide

private theorem chip_seconds (c : Clock) (i : Nat) :
    c.chip i 0x00 = c.format.number (c.time i).seconds :=
  rfl

private theorem chip_minutes (c : Clock) (i : Nat) :
    c.chip i 0x02 = c.format.number (c.time i).minutes :=
  rfl

private theorem chip_hours (c : Clock) (i : Nat) :
    c.chip i 0x04 = c.format.hours (c.time i).hours := rfl

private theorem chip_regB (c : Clock) (i : Nat) : c.chip i 0x0B = c.format.regB := rfl

/-- Registers that are read at instants with the same time. -/
private theorem convert_same (c : Clock) {i : Nat} {t : Time} (h₀ : c.time i = t)
    (h₁ : c.time (i + 1) = t) (h₂ : c.time (i + 2) = t) :
    convert c.format.binary c.format.hours24 (c.chip (i + 2) 0x04) (c.chip (i + 1) 0x02)
      (c.chip i 0x00) = displayed c.format t := by
  rw [chip_hours, chip_minutes, chip_seconds, h₀, h₁, h₂, convert_eq]

private theorem next_seconds_ne (t : Time) : t.next.seconds ≠ t.seconds := by
  have hall : ∀ s : Fin 60, s + 1 ≠ s := by decide
  exact hall t.seconds

/-- The second reading of the seconds differs exactly when the clock ticked in between. -/
private theorem seconds_eq_iff (c : Clock) (i : Nat) :
    c.chip (i + 3) 0x00 = c.chip i 0x00 ↔ ¬(i < c.tick ∧ c.tick ≤ i + 3) := by
  rw [chip_seconds, chip_seconds]
  constructor
  · rintro hsame ⟨hbefore, hafter⟩
    have hnumber := number_injective c.format (Fin.isLt _) (Fin.isLt _) hsame
    rw [Clock.time, Clock.time, if_neg (Nat.not_lt.mpr hafter), if_pos hbefore] at hnumber
    exact next_seconds_ne c.before (Fin.ext hnumber)
  · intro hapart
    have htime : c.time (i + 3) = c.time i := by
      simp only [Clock.time]
      by_cases hlt : i + 3 < c.tick
      · rw [if_pos hlt, if_pos (by omega)]
      · rw [if_neg hlt, if_neg (by omega)]
    rw [htime]

/-- The time of one instant of the reading is displayed. -/
private theorem read_displays (c : Clock) (start : Nat) :
    ∃ i, start < i ∧ i < (read c.chip start).2 ∧
      (read c.chip start).1 = displayed c.format (c.time i) := by
  obtain ⟨hbinary, hhours24⟩ := regB_bits c.format
  rw [read]
  simp only [chip_regB]
  rw [hbinary, hhours24]
  have hfirst := waitUpdate_ge c.chip 100000 (start + 1)
  generalize waitUpdate c.chip 100000 (start + 1) = i at hfirst
  have hagain := waitUpdate_ge c.chip 100000 (i + 4)
  generalize waitUpdate c.chip 100000 (i + 4) = j at hagain
  by_cases hticked : i < c.tick ∧ c.tick ≤ i + 3
  · -- the second round is behind the tick
    have hne : c.chip (i + 3) 0x00 ≠ c.chip i 0x00 := fun heq =>
      (seconds_eq_iff c i).mp heq hticked
    have hafter : ∀ k, j ≤ k → c.time k = c.before.next := by
      intro k hk
      rw [Clock.time, if_neg (by omega)]
    rw [if_pos hne]
    refine ⟨j, by omega, by omega, ?_⟩
    rw [convert_same c (hafter j le_rfl) (hafter _ (by omega)) (hafter _ (by omega)),
      hafter j le_rfl]
  · have heq := (seconds_eq_iff c i).mpr hticked
    have hsame : ∀ k, i ≤ k → k ≤ i + 3 → c.time k = c.time i := by
      intro k hk hlast
      simp only [Clock.time]
      by_cases hlt : i < c.tick
      · rw [if_pos hlt, if_pos (by omega)]
      · rw [if_neg hlt, if_neg (by omega)]
    rw [if_neg (not_not.mpr heq)]
    refine ⟨i, by omega, by omega, ?_⟩
    exact convert_same c rfl (hsame _ (by omega) (by omega)) (hsame _ (by omega) (by omega))

theorem read_linearizable (c : Clock) (start : Nat) :
    ∃ i, start < i ∧ i < (read c.chip start).2 ∧
      (read c.chip start).1.minutes = UInt8.ofNat (c.time i).minutes ∧
      (read c.chip start).1.seconds = UInt8.ofNat (c.time i).seconds ∧
      ((read c.chip start).1.hours = UInt8.ofNat (c.time i).hours ↔
        c.format.binary = true ∨ c.format.hours24 = true ∨ (c.time i).hours.val < 12) := by
  obtain ⟨i, hstart, hend, hread⟩ := read_displays c start
  refine ⟨i, hstart, hend, ?_⟩
  rw [hread]
  exact ⟨rfl, rfl, displayed_hours c.format (c.time i)⟩

/-- The tick into the next day, between the two readings of the seconds. -/
example : (read (Clock.chip ⟨⟨false, true⟩, ⟨23, 59, 59⟩, 3, fun _ => false⟩) 0).1 = ⟨0, 0, 0⟩ := by
  decide +kernel

end RustKernel.Rtc
