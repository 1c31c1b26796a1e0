import RustKernel.Net.Tcp.Transmit
import RustKernel.Timer

/-!
# RustKernel.Net.Timeouts

The timeouts of the network code when the tick counter overflows.

## Main result

`timeouts_iff`: for two ticks less than an epoch apart the retransmission timer, TIME_WAIT and the
DHCP wait are on time exactly when no overflow comes between (for the first two an overflow does no
harm once the time is up, and for the first not with a timeout close to `2 ^ 64`), and the overflow
is more than `DHCP_TIMEOUT_MS` away from the start of the wait.

## Proof strategy

Each timer compares a wrapping difference of two readings with a bound, or one reading with a
deadline.
`Timer.millisAt_sub` and `Timer.millisAt_lt` give both.
-/

namespace RustKernel.Net

open Tcp Timer

/-! ### The three timers -/

/-- `check_retransmit` takes its retransmission branch: it counts one more retry. -/
def Retransmits (env : Env) (conn : TcpConn) : Prop :=
  (checkRetransmit env conn).1.retries = conn.retries + 1

/-- `poll` frees the slot. -/
def Closes (env : Env) (conn : TcpConn) : Prop := (conn.poll env).1.state = .closed

def DHCP_TIMEOUT_MS : UInt64 := 5000

/-- `deadline` of the wait loop in `send_and_recv`, entered at clock reading `start`. -/
def dhcpDeadline (start : UInt64) : UInt64 := start + DHCP_TIMEOUT_MS

/-- The condition of the wait loop. -/
def dhcpWaits (start now : UInt64) : Bool := now < dhcpDeadline start

/-! ### On clock readings -/

private theorem retransmits_iff {env : Env} {conn : TcpConn} (hlive : conn.retries < MAX_RETRIES) :
    Retransmits env conn ↔ conn.rtoMs ≤ env.now - conn.lastTxTime := by
  rw [Retransmits, checkRetransmit, if_neg (UInt8.not_le.mpr hlive)]
  split
  · next hdue =>
    -- the resent segment leaves the counter to the branch itself
    have hcounted : (sendSegmentRaw env conn conn.lastTxFlags conn.lastTxPayload).1.retries + 1 =
        conn.retries + 1 := by simp
    exact iff_of_true hcounted hdue
  · next hearly =>
    refine iff_of_false (fun hsame => ?_) hearly
    simp at hsame

private theorem closes_iff {env : Env} {conn : TcpConn} (hstate : conn.state = .timeWait) :
    Closes env conn ↔ 60000 ≤ env.now - conn.lastTxTime := by
  rw [Closes, TcpConn.poll, hstate]
  dsimp only
  split
  · next hdue => exact iff_of_true rfl hdue
  · next hearly =>
    refine iff_of_false (fun hclosed => ?_) hearly
    rw [hstate] at hclosed
    cases hclosed

/-! ### On true ticks -/

section Ticks

variable {cfg : Option NetConfig} {conn : TcpConn} {m n : Nat}

/-- A wrapping difference reaches a bound when the true one does, but for an overflow in between. -/
private theorem elapsed_iff_iff (bound : UInt64) (hle : m ≤ n) (hlt : n - m < 2 ^ 32) :
    (bound ≤ millisAt n - millisAt m ↔ bound.toNat ≤ n - m) ↔
      epoch m = epoch n ∨ bound.toNat ≤ n - m ∨ 2 ^ 64 - 2 ^ 32 + (n - m) < bound.toNat := by
  rw [UInt64.le_iff_toNat_le, millisAt_sub hle hlt]
  by_cases hsame : epoch m = epoch n
  · simp [hsame]
  · rw [if_neg hsame]
    simp only [hsame, false_or]
    omega

private theorem retransmits_on_time_iff (hle : m ≤ n) (hlt : n - m < 2 ^ 32)
    (hlive : conn.retries < MAX_RETRIES) (hsent : conn.lastTxTime = millisAt m) :
    (Retransmits ⟨cfg, millisAt n⟩ conn ↔ conn.rtoMs.toNat ≤ n - m) ↔
      epoch m = epoch n ∨ conn.rtoMs.toNat ≤ n - m ∨
        2 ^ 64 - 2 ^ 32 + (n - m) < conn.rtoMs.toNat := by
  rw [retransmits_iff hlive, hsent, elapsed_iff_iff _ hle hlt]

private theorem closes_on_time_iff (hle : m ≤ n) (hlt : n - m < 2 ^ 32)
    (hstate : conn.state = .timeWait)
    (hentered : conn.lastTxTime = millisAt m) :
    (Closes ⟨cfg, millisAt n⟩ conn ↔ 60000 ≤ n - m) ↔ epoch m = epoch n ∨ 60000 ≤ n - m := by
  have hbound : (60000 : UInt64).toNat = 60000 := rfl
  have hiff := elapsed_iff_iff 60000 hle hlt
  rw [hbound] at hiff
  rw [closes_iff hstate, hentered, hiff]
  -- the third case of the general statement needs a bound near `2 ^ 64`
  have hsmall : ¬2 ^ 64 - 2 ^ 32 + (n - m) < 60000 := by omega
  simp only [hsmall, or_false]

/-- The wait ends in time exactly when the clock gets to the deadline before it overflows. -/
private theorem dhcp_ends_iff (m : Nat) :
    (∃ t, m ≤ t ∧ t ≤ m + DHCP_TIMEOUT_MS.toNat ∧ dhcpWaits (millisAt m) (millisAt t) = false) ↔
      m % 2 ^ 32 + DHCP_TIMEOUT_MS.toNat < 2 ^ 32 := by
  have htimeout : DHCP_TIMEOUT_MS.toNat = 5000 := rfl
  have hdeadline : (dhcpDeadline (millisAt m)).toNat = m % 2 ^ 32 + 5000 := by
    have hstart := millisAt_lt m
    rw [dhcpDeadline, UInt64.toNat_add, htimeout, millisAt_toNat, Nat.mod_eq_of_lt]
    omega
  have hwaits : ∀ t, dhcpWaits (millisAt m) (millisAt t) = false ↔
      m % 2 ^ 32 + 5000 ≤ t % 2 ^ 32 := by
    intro t
    rw [dhcpWaits, decide_eq_false_iff_not, UInt64.not_lt, UInt64.le_iff_toNat_le, hdeadline,
      millisAt_toNat]
  simp only [hwaits, htimeout]
  constructor
  · -- no reading is as large as a deadline beyond the overflow
    rintro ⟨t, -, -, hend⟩
    omega
  · intro hroom
    refine ⟨m + 5000, by omega, le_rfl, ?_⟩
    omega

end Ticks

/-- **Timeouts across an overflow of the tick counter**: retransmission, TIME_WAIT and the DHCP
    wait, each with the ticks for which it is on time. -/
theorem timeouts_iff (cfg : Option NetConfig) (conn waiting : TcpConn) (m n : Nat) (hle : m ≤ n)
    (hlt : n - m < 2 ^ 32) (hlive : conn.retries < MAX_RETRIES)
    (hsent : conn.lastTxTime = millisAt m) (hwaiting : waiting.state = .timeWait)
    (hentered : waiting.lastTxTime = millisAt m) :
    ((Retransmits ⟨cfg, millisAt n⟩ conn ↔ conn.rtoMs.toNat ≤ n - m) ∧
      (Closes ⟨cfg, millisAt n⟩ waiting ↔ 60000 ≤ n - m) ∧
      ∃ t, m ≤ t ∧ t ≤ m + 5000 ∧ dhcpWaits (millisAt m) (millisAt t) = false) ↔
    (epoch m = epoch n ∨ conn.rtoMs.toNat ≤ n - m ∨
        2 ^ 64 - 2 ^ 32 + (n - m) < conn.rtoMs.toNat) ∧
      (epoch m = epoch n ∨ 60000 ≤ n - m) ∧ m % 2 ^ 32 + 5000 < 2 ^ 32 :=
  and_congr (retransmits_on_time_iff hle hlt hlive hsent)
    (and_congr (closes_on_time_iff hle hlt hwaiting hentered) (dhcp_ends_iff m))

/-- A segment sent at tick 100 with a timeout of a second. -/
private def sentAt (m : Nat) : TcpConn :=
  { TcpConn.new with state := .synSent, lastTxTime := millisAt m }

private def waitingSince (m : Nat) : TcpConn :=
  { TcpConn.new with state := .timeWait, lastTxTime := millisAt m }

/-- A second after tick 100 the segment is sent again and TIME_WAIT lasts. -/
theorem on_time_before_overflow :
    Retransmits ⟨none, millisAt 1100⟩ (sentAt 100) ∧
      ¬Closes ⟨none, millisAt 1100⟩ (waitingSince 100) := by
  obtain ⟨hsent, hclosed, -⟩ := (timeouts_iff none (sentAt 100) (waitingSince 100) 100 1100
    (by decide) (by decide) (by decide) rfl rfl rfl).mpr ⟨.inl rfl, .inl rfl, by decide⟩
  exact ⟨hsent.mpr (by decide), fun h => absurd (hclosed.mp h) (by decide)⟩

/-- Across the overflow one tick is enough for a retransmission. -/
theorem early_retransmit_at_overflow :
    let m := 2 ^ 32 - 1
    let n := 2 ^ 32
    m ≤ n ∧ n - m < 2 ^ 32 ∧ (sentAt m).retries < MAX_RETRIES ∧
      (sentAt m).lastTxTime = millisAt m ∧
      ¬(Retransmits ⟨none, millisAt n⟩ (sentAt m) ↔ (sentAt m).rtoMs.toNat ≤ n - m) := by
  intro m n
  refine ⟨by decide, by decide, by decide, rfl, fun hiff => ?_⟩
  have hsent : (sentAt m).lastTxTime = millisAt m := rfl
  have hover := (retransmits_on_time_iff (by decide) (by decide) (by decide) hsent).mp hiff
  revert hover
  decide

end RustKernel.Net
