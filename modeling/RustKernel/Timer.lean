import Mathlib.Tactic

/-!
# RustKernel.Timer

The tick counter and the millisecond clock that is read from it.

The counter has 32 bits and the clock 64, so the clock starts again at 0 after `2 ^ 32` ticks.
`millisAt_toNat` says what it reads at a true tick count, and `millisAt_sub` what a wrapping
difference of two readings is.
-/

namespace RustKernel.Timer

/-- `tick`: the interrupt handler's increment of `TICKS`. -/
def tick (ticks : UInt32) : UInt32 := ticks + 1

/-- `millis` on the counter's value. -/
def millis (ticks : UInt32) : UInt64 := ticks.toUInt64

/-- `TICKS` after `n` interrupts. -/
def ticksAt : Nat → UInt32
  | 0 => 0
  | n + 1 => tick (ticksAt n)

/-- What `millis` returns after `n` interrupts. -/
def millisAt (n : Nat) : UInt64 := millis (ticksAt n)

private theorem ticksAt_eq (n : Nat) : ticksAt n = UInt32.ofNat n := by
  induction n with
  | zero => rfl
  | succ n ih =>
    rw [ticksAt, tick, ih, UInt32.ofNat_add]
    rfl

/-- The number of counter overflows up to tick `n`. -/
def epoch (n : Nat) : Nat := n / 2 ^ 32

theorem millisAt_toNat (n : Nat) : (millisAt n).toNat = n % 2 ^ 32 := by
  rw [millisAt, millis, ticksAt_eq, UInt32.toNat_toUInt64, UInt32.toNat_ofNat']

/-- The difference of two readings less than an epoch apart: the true one, or, when the counter has
    overflowed in between, one short of `2 ^ 64` by what is left of an epoch. -/
theorem millisAt_sub {m n : Nat} (hle : m ≤ n) (hlt : n - m < 2 ^ 32) :
    (millisAt n - millisAt m).toNat =
      if epoch m = epoch n then n - m else 2 ^ 64 - 2 ^ 32 + (n - m) := by
  rw [UInt64.toNat_sub, millisAt_toNat, millisAt_toNat, epoch, epoch]
  by_cases hsame : m / 2 ^ 32 = n / 2 ^ 32
  · rw [if_pos hsame]
    omega
  · rw [if_neg hsame]
    -- less than an epoch apart, so there was exactly one overflow
    have hnext : n / 2 ^ 32 = m / 2 ^ 32 + 1 := by omega
    omega

/-- No reading reaches the length of an epoch. -/
theorem millisAt_lt (n : Nat) : (millisAt n).toNat < 2 ^ 32 := by
  rw [millisAt_toNat]
  exact Nat.mod_lt _ (by decide)

end RustKernel.Timer
