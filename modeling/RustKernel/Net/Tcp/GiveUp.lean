import RustKernel.Lib.Run
import RustKernel.Net.Tcp.Transmit

/-!
# RustKernel.Net.Tcp.GiveUp

When the retransmission timer gives a connection up.

## Main result

`connect_givesUpInTime_iff`: whatever the times at which `poll` is called after `connect`, the
connection is reset only after three retransmissions; and not before the timeout of the third one is
over exactly when the poll that comes next after it comes that late (`patient`). `check_retransmit`
looks at the number of retries before it looks at the time, so that poll resets the connection
whenever it comes.

## Proof strategy

`Waiting` relates a connection in SYN_SENT and the log of its retransmissions to the number of
retransmissions that are left. `poll_of_early`, `poll_of_due` and `poll_of_none_left` take it
through one poll and `run_givesUpInTime_iff` through a run, along the recursion of `patient`.
-/

namespace RustKernel.Net.Tcp

/-! ### The property and its condition -/

/-- A connection with the times of its retransmissions, the last one first. -/
structure Timed where
  conn : TcpConn
  resent : List UInt64

/-- One `poll`; a retransmission counts one more retry. -/
def Timed.poll (t : Timed) (env : Env) : Timed :=
  let after := (t.conn.poll env).1
  ⟨after, if after.retries = t.conn.retries + 1 then env.now :: t.resent else t.resent⟩

/-- If `poll` resets the connection, it was retransmitted three times and the timeout of the third
    retransmission, eight times the first one, is over. -/
def GivesUpInTime (t : Timed) (env : Env) : Prop :=
  t.conn.state = .synSent → (t.conn.poll env).1.state = .closed →
    ∃ third second first, t.resent = [third, second, first] ∧
      third.toNat + 8 * RTO_MS.toNat ≤ env.now.toNat

/-- The timer of a segment sent at `sent` with timeout `rto` and `left` retransmissions to go, at
    polls at the given times: the first poll after the last retransmission is not before its timeout
    is over. -/
def patient : (left sent rto : Nat) → List Nat → Bool
  | _, _, _, [] => true
  | 0, sent, rto, now :: _ => sent + rto ≤ now
  | left + 1, sent, rto, now :: later =>
    if sent + rto ≤ now then patient left now (2 * rto) later
    else patient (left + 1) sent rto later

/-- What `connect` leaves in the slot it takes. -/
def opened (env : Env) (slot : TcpConn) (localPort : UInt16) (remoteIp : Ipv4Addr)
    (remotePort : UInt16) : TcpConn := (slot.openConnect env localPort remoteIp remotePort).1

/-! ### One poll -/

/-- A connection in SYN_SENT with `left` retransmissions to go, and the log of the others. -/
structure Waiting (left : Nat) (t : Timed) : Prop where
  state_eq : t.conn.state = .synSent
  retries_eq : t.conn.retries.toNat + left = 3
  rto_eq : t.conn.rtoMs.toNat = RTO_MS.toNat * 2 ^ t.conn.retries.toNat
  count_eq : t.resent.length = t.conn.retries.toNat
  last_eq : ∀ last ∈ t.resent.head?, last = t.conn.lastTxTime

section OnePoll

variable {t : Timed} {env : Env} {left : Nat}

private theorem poll_of_synSent (hstate : t.conn.state = .synSent) :
    t.conn.poll env = checkRetransmit env t.conn := by
  rw [TcpConn.poll, hstate]

/-- The comparison of the timer, without the subtraction. -/
private theorem due_iff {conn : TcpConn} (hclock : conn.lastTxTime ≤ env.now) :
    env.now - conn.lastTxTime ≥ conn.rtoMs ↔
      conn.lastTxTime.toNat + conn.rtoMs.toNat ≤ env.now.toNat := by
  have hle : conn.lastTxTime.toNat ≤ env.now.toNat := UInt64.le_iff_toNat_le.mp hclock
  rw [ge_iff_le, UInt64.le_iff_toNat_le, UInt64.toNat_sub_of_le _ _ hclock]
  omega

/-- With no retransmission to go the connection is reset, at whatever time. -/
theorem poll_of_none_left (h : Waiting 0 t) : (t.conn.poll env).1 = TcpConn.new := by
  have hretries : t.conn.retries ≥ MAX_RETRIES := by
    have hthree := h.retries_eq
    have hmax : MAX_RETRIES.toNat = 3 := rfl
    rw [ge_iff_le, UInt8.le_iff_toNat_le, hmax]
    omega
  rw [poll_of_synSent h.state_eq, checkRetransmit, if_pos hretries]

section Left

variable (h : Waiting (left + 1) t)

include h

private theorem Waiting.not_exhausted : ¬t.conn.retries ≥ MAX_RETRIES := by
  have hleft := h.retries_eq
  have hmax : MAX_RETRIES.toNat = 3 := rfl
  rw [ge_iff_le, UInt8.le_iff_toNat_le, hmax]
  omega

private theorem Waiting.retries_succ : (t.conn.retries + 1).toNat = t.conn.retries.toNat + 1 := by
  have hleft := h.retries_eq
  rw [UInt8.toNat_add, UInt8.toNat_one]
  omega

private theorem Waiting.rto_double : (t.conn.rtoMs * 2).toNat = 2 * t.conn.rtoMs.toNat := by
  have hleft := h.retries_eq
  have hpow : 2 ^ t.conn.retries.toNat ≤ 2 ^ 2 := Nat.pow_le_pow_right (by decide) (by omega)
  have hbase : RTO_MS.toNat = 1000 := rfl
  have htwo : (2 : UInt64).toNat = 2 := rfl
  rw [UInt64.toNat_mul, h.rto_eq, hbase, htwo]
  omega

theorem poll_of_early (hearly : ¬env.now - t.conn.lastTxTime ≥ t.conn.rtoMs) : t.poll env = t := by
  have hsame : (t.conn.poll env).1 = t.conn := by
    rw [poll_of_synSent h.state_eq, checkRetransmit, if_neg h.not_exhausted, if_neg hearly]
  simp [Timed.poll, hsame]

/-- A retransmission doubles the timeout and restarts it. -/
theorem poll_of_due (hdue : env.now - t.conn.lastTxTime ≥ t.conn.rtoMs) :
    Waiting left (t.poll env) ∧ (t.poll env).conn.lastTxTime = env.now ∧
      (t.poll env).conn.rtoMs.toNat = 2 * t.conn.rtoMs.toNat := by
  have hpoll : (t.conn.poll env).1 =
      { (sendSegmentRaw env t.conn t.conn.lastTxFlags t.conn.lastTxPayload).1 with
        retries := t.conn.retries + 1
        rtoMs := t.conn.rtoMs * 2
        lastTxTime := env.now } := by
    rw [poll_of_synSent h.state_eq, checkRetransmit, if_neg h.not_exhausted, if_pos hdue]
    simp
  have hnext : t.poll env = ⟨(t.conn.poll env).1, env.now :: t.resent⟩ := by
    simp [Timed.poll, hpoll]
  rw [hnext, hpoll]
  refine ⟨?_, rfl, h.rto_double⟩
  -- one more retry, twice the timeout, and the retransmission in front of the log
  constructor
  · simp [h.state_eq]
  · have hleft := h.retries_eq
    simp only [h.retries_succ]
    omega
  · simp only [h.rto_double, h.retries_succ, h.rto_eq, Nat.pow_succ]
    ring
  · simp only [List.length_cons, h.count_eq, h.retries_succ]
  · intro last hlast
    obtain rfl := Option.some.inj hlast
    rfl

/-- No poll before the last retransmission resets the connection. -/
private theorem givesUpInTime_of_left : GivesUpInTime t env := by
  intro _ hclosed
  exfalso
  by_cases hdue : env.now - t.conn.lastTxTime ≥ t.conn.rtoMs
  · have hstill := (poll_of_due h hdue).1.state_eq
    rw [Timed.poll] at hstill
    cases hclosed.symm.trans hstill
  · have hstill := congrArg (fun t : Timed => t.conn.state) (poll_of_early h hdue)
    have hsent : (t.conn.poll env).1.state = .synSent := hstill.trans h.state_eq
    cases hclosed.symm.trans hsent

end Left

/-- The poll after the last retransmission is in time when the eightfold timeout is over. -/
private theorem givesUpInTime_of_none_left_iff (h : Waiting 0 t) : GivesUpInTime t env ↔
    t.conn.lastTxTime.toNat + t.conn.rtoMs.toNat ≤ env.now.toNat := by
  have hretries : t.conn.retries.toNat = 3 := by simpa using h.retries_eq
  have hrto : t.conn.rtoMs.toNat = 8 * RTO_MS.toNat := by
    rw [h.rto_eq, hretries]
    ring
  have hthree : t.resent.length = 3 := h.count_eq.trans hretries
  -- three retransmissions are logged, the last of which restarted the timer
  obtain ⟨third, second, first, hlog⟩ := List.length_eq_three.mp hthree
  have hlast : third = t.conn.lastTxTime := h.last_eq third (by simp [hlog])
  rw [hrto, ← hlast]
  constructor
  · intro hgives
    have hclosed : (t.conn.poll env).1.state = .closed := by rw [poll_of_none_left h]; rfl
    obtain ⟨third', second', first', hlog', htime⟩ := hgives h.state_eq hclosed
    rw [hlog, List.cons.injEq] at hlog'
    rw [hlog'.1]
    exact htime
  · exact fun htime _ _ => ⟨third, second, first, hlog, htime⟩

end OnePoll

/-! ### A sequence of polls -/

/-- A closed connection is not reset again. -/
private theorem givesUpInTime_of_closed (t : Timed) (polls : List Env)
    (hclosed : t.conn.state = .closed) :
    ∀ p ∈ Lib.steps Timed.poll t polls, GivesUpInTime p.1 p.2 := by
  have hstay : ∀ (t : Timed) (env : Env), t.conn.state = .closed → True →
      (t.poll env).conn.state = .closed := by
    intro t env hclosed _
    rw [Timed.poll, TcpConn.poll, hclosed]
    exact hclosed
  have hall := Lib.invariant_steps Timed.poll (fun t => t.conn.state = .closed) (fun _ _ => True)
    hstay t polls hclosed (fun _ _ => trivial)
  intro p hp hsent
  cases (hall p hp).symm.trans hsent

theorem run_givesUpInTime_iff (polls : List Env) (t : Timed) (left : Nat) (h : Waiting left t)
    (hclock : (t.conn.lastTxTime :: polls.map fun env => env.now).Pairwise (· ≤ ·)) :
    (∀ p ∈ Lib.steps Timed.poll t polls, GivesUpInTime p.1 p.2) ↔
      patient left t.conn.lastTxTime.toNat t.conn.rtoMs.toNat
        (polls.map fun env => env.now.toNat) = true := by
  induction polls generalizing t left with
  | nil =>
    refine iff_of_true (fun p hp => by cases hp) ?_
    cases left <;> rfl
  | cons env polls ih =>
    obtain ⟨hpast, hlater⟩ := List.pairwise_cons.mp hclock
    have hnow : t.conn.lastTxTime ≤ env.now := hpast env.now (by simp)
    have hsteps : Lib.steps Timed.poll t (env :: polls) =
        (t, env) :: Lib.steps Timed.poll (t.poll env) polls := rfl
    rw [hsteps, List.forall_mem_cons, List.map_cons]
    cases left with
    | zero =>
      -- the connection is reset here, and nothing comes after
      have hreset : (t.poll env).conn.state = .closed := by
        rw [Timed.poll, poll_of_none_left h]
        rfl
      rw [givesUpInTime_of_none_left_iff h, patient, decide_eq_true_eq]
      exact and_iff_left (givesUpInTime_of_closed _ polls hreset)
    | succ left =>
      rw [and_iff_right (givesUpInTime_of_left h), patient]
      by_cases hdue : env.now - t.conn.lastTxTime ≥ t.conn.rtoMs
      · obtain ⟨hwaiting, hsent, hrto⟩ := poll_of_due h hdue
        have hrest := ih (t.poll env) left hwaiting (by rw [hsent]; exact hlater)
        rw [if_pos ((due_iff hnow).mp hdue), hrest, hsent, hrto]
      · rw [if_neg (fun hover => hdue ((due_iff hnow).mpr hover)), poll_of_early h hdue]
        have hrest : (t.conn.lastTxTime :: polls.map fun env => env.now).Pairwise (· ≤ ·) :=
          hclock.sublist ((List.sublist_cons_self _ _).cons_cons _)
        exact ih t (left + 1) h hrest

/-! ### After `connect` -/

section Opened

variable (env : Env) (slot : TcpConn) (localPort : UInt16) (remoteIp : Ipv4Addr)
  (remotePort : UInt16)

private theorem opened_waiting : Waiting 3 ⟨opened env slot localPort remoteIp remotePort, []⟩ := by
  constructor
  · simp [opened, TcpConn.openConnect]
  · simp [opened, TcpConn.openConnect]
  · simp [opened, TcpConn.openConnect]
  · simp [opened, TcpConn.openConnect]
  · simp

/-- The SYN starts the timer, if it can be sent. -/
private theorem opened_lastTxTime : (opened env slot localPort remoteIp remotePort).lastTxTime =
    if env.cfg.isSome then env.now else slot.lastTxTime := by
  cases hcfg : env.cfg with
  | none => rw [opened, TcpConn.openConnect, sendSegment, sendSegmentRaw_unconfigured hcfg]; rfl
  | some cfg =>
    have hbare : ([] : List UInt8).length ≤ MSS := Nat.zero_le _
    obtain ⟨d, cksum, hsent, -⟩ := sendSegmentRaw_configured
      { slot with
        state := .synSent, localPort, remoteIp, remotePort
        localSeq := isn env + consumed SYN [], remoteSeq := 0, localAck := 0, retries := 0
        rtoMs := RTO_MS } hcfg hbare (by decide : SYN &&& 0x3F = SYN)
    have hcovered : has SYN (SYN ||| FIN) = true := by decide
    rw [opened, TcpConn.openConnect, sendSegment, hsent]
    simp [recordTx, hcovered]

/-- **Give-up timing**: polls at times that do not decrease reset a connection opened by `connect`
    after three retransmissions and their timeouts exactly when the schedule is patient. -/
theorem connect_givesUpInTime_iff (polls : List Env) (hslot : slot.lastTxTime ≤ env.now)
    (hclock : ((env :: polls).map fun env => env.now).Pairwise (· ≤ ·)) :
    let conn := opened env slot localPort remoteIp remotePort
    (∀ p ∈ Lib.steps Timed.poll ⟨conn, []⟩ polls, GivesUpInTime p.1 p.2) ↔
      patient 3 conn.lastTxTime.toNat RTO_MS.toNat (polls.map fun env => env.now.toNat) = true := by
  intro conn
  have hsent : conn.lastTxTime ≤ env.now := by
    rw [opened_lastTxTime]
    split
    · exact UInt64.le_refl _
    · exact hslot
  obtain ⟨hlater, hsorted⟩ := List.pairwise_cons.mp hclock
  have hopened : (conn.lastTxTime :: polls.map fun env => env.now).Pairwise (· ≤ ·) :=
    List.pairwise_cons.mpr ⟨fun now hnow => UInt64.le_trans hsent (hlater now hnow), hsorted⟩
  have hrto : conn.rtoMs = RTO_MS := by simp [conn, opened, TcpConn.openConnect]
  have hwaiting := opened_waiting env slot localPort remoteIp remotePort
  rw [run_givesUpInTime_iff polls ⟨conn, []⟩ 3 hwaiting hopened, hrto]

end Opened

/-- Polls at the given times, with a configuration. -/
private def pollsAt (times : List UInt64) : List Env :=
  times.map fun now => ⟨some ⟨⟨10, 0, 2, 15⟩⟩, now⟩

private def openedAtZero : Timed :=
  ⟨opened ⟨some ⟨⟨10, 0, 2, 15⟩⟩, 0⟩ TcpConn.new 5000 ⟨10, 0, 2, 2⟩ 80, []⟩

/-- A patient schedule, which resets the connection in the end. -/
theorem reset_after_eightfold_timeout :
    let polls := pollsAt [500, 1000, 3000, 7000, 15000]
    (polls.foldl Timed.poll openedAtZero).conn.state = .closed ∧
      ∀ p ∈ Lib.steps Timed.poll openedAtZero polls, GivesUpInTime p.1 p.2 := by
  constructor
  · decide +kernel
  · exact (connect_givesUpInTime_iff _ _ _ _ _ _ (by decide) (by decide)).mpr (by decide +kernel)

/-- One millisecond after its third retransmission the connection is reset. -/
theorem reset_after_one_millisecond :
    let polls := pollsAt [1000, 3000, 7000, 7001]
    (polls.map fun env => env.now).Pairwise (· ≤ ·) ∧
      ¬∀ p ∈ Lib.steps Timed.poll openedAtZero polls, GivesUpInTime p.1 p.2 := by
  refine ⟨by decide, fun h => ?_⟩
  have hlast := h _ (Lib.mem_steps_concat Timed.poll openedAtZero (pollsAt [1000, 3000, 7000])
    ⟨some ⟨⟨10, 0, 2, 15⟩⟩, 7001⟩)
  have hsent : ((pollsAt [1000, 3000, 7000]).foldl Timed.poll openedAtZero).conn.state =
      .synSent := by decide +kernel
  have hlog : ((pollsAt [1000, 3000, 7000]).foldl Timed.poll openedAtZero).resent =
      [7000, 3000, 1000] := by decide +kernel
  obtain ⟨third, second, first, hresent, htime⟩ := hlast hsent (by decide +kernel)
  rw [hlog, List.cons.injEq] at hresent
  rw [← hresent.1] at htime
  exact absurd htime (by decide)

end RustKernel.Net.Tcp
