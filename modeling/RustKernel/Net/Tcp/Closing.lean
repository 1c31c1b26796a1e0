import RustKernel.Lib.Run
import RustKernel.Net.Tcp.Retransmission

/-!
# RustKernel.Net.Tcp.Closing

When a connection takes its own FIN as acknowledged.

## Main result

`closeAcknowledged_iff`: in every run without RST and without a give-up, the moves from FIN_WAIT_1
to FIN_WAIT_2 or TIME_WAIT and from LAST_ACK to CLOSED all happen on a segment that acknowledges
`local_seq` exactly when every acknowledgement handed to a connection in one of the two states does.
The handlers of these states look at the ACK flag and not at the number.

## Proof strategy

`act_state_of_silent` shows that no call but `receive` moves a waiting connection, and
`deliver_finAcked` that `receive` moves it on every ACK. A run is then compared step by step.
-/

namespace RustKernel.Net.Tcp

/-! ### The property and its condition -/

/-- The states in which the FIN has been sent and not yet been acknowledged. -/
def TcpState.awaitsFinAck : TcpState → Bool
  | .finWait1 | .lastAck => true
  | _ => false

/-- The moves that take the FIN as acknowledged. -/
def FinAcked (old new : TcpState) : Prop :=
  old = .finWait1 ∧ (new = .finWait2 ∨ new = .timeWait) ∨ old = .lastAck ∧ new = .closed

/-- The segment that a call receives. -/
def Call.segment : Call → Option TcpHeader
  | .receive _ data => TcpHeader.parse data
  | _ => none

/-- The steps of a run of the module. -/
def Stack.steps (s : Stack) (es : List Event) : List (Stack × Event) :=
  Lib.steps (fun s e => (s.step e).1) s es

/-- Whatever slot takes its FIN as acknowledged in the step, it does so on an acknowledgement of its
    `local_seq`, which is the number after the FIN. -/
def CloseAcknowledged (s : Stack) (e : Event) : Prop :=
  ∀ (i : Nat) (conn after : TcpConn), s.conns[i]? = some conn →
    (s.step e).1.conns[i]? = some after → FinAcked conn.state after.state →
    ∃ hdr, e.call.segment = some hdr ∧ has hdr.flags ACK = true ∧ hdr.ack = conn.localSeq

/-- The step receives no RST. -/
def NoReset (e : Event) : Prop := ∀ hdr ∈ e.call.segment, has hdr.flags RST = false

/-- No connection of the table has used up its retransmissions when `poll` comes. -/
def NoGiveUp (s : Stack) (e : Event) : Prop :=
  e.call.isPoll = true → ∀ conn ∈ s.conns, conn.state.retransmits = true →
    conn.retries < MAX_RETRIES

/-- The connection to which a call's segment goes. -/
def Call.receiver (conns : ConnTable) (call : Call) : Option TcpConn :=
  (call.target conns).bind fun i => conns[i]?

/-- An acknowledgement for a connection that waits for its FIN to be acknowledged covers the FIN. -/
def CoversFin (s : Stack) (e : Event) : Prop :=
  ∀ hdr ∈ e.call.segment, ∀ conn ∈ e.call.receiver s.conns,
    conn.state.awaitsFinAck = true → has hdr.flags ACK = true → hdr.ack = conn.localSeq

instance (e : Event) : Decidable (NoReset e) :=
  inferInstanceAs (Decidable (∀ hdr ∈ e.call.segment, has hdr.flags RST = false))

instance (s : Stack) (e : Event) : Decidable (NoGiveUp s e) :=
  inferInstanceAs (Decidable (e.call.isPoll = true → ∀ conn ∈ s.conns,
    conn.state.retransmits = true → conn.retries < MAX_RETRIES))

instance (s : Stack) (e : Event) : Decidable (CoversFin s e) :=
  inferInstanceAs (Decidable (∀ hdr ∈ e.call.segment, ∀ conn ∈ e.call.receiver s.conns,
    conn.state.awaitsFinAck = true → has hdr.flags ACK = true → hdr.ack = conn.localSeq))

/-! ### What moves a waiting connection -/

private theorem TcpState.awaitsFinAck_cases {state : TcpState} (h : state.awaitsFinAck = true) :
    state = .finWait1 ∨ state = .lastAck := by
  cases state <;> simp [TcpState.awaitsFinAck] at h ⊢

private theorem TcpState.retransmits_of_awaits {state : TcpState} (h : state.awaitsFinAck = true) :
    state.retransmits = true := by
  rcases awaitsFinAck_cases h with rfl | rfl
  · rfl
  · rfl

private theorem FinAcked.awaits {old new : TcpState} (h : FinAcked old new) :
    old.awaitsFinAck = true := by
  rcases h with ⟨rfl, -⟩ | ⟨rfl, -⟩
  · rfl
  · rfl

private theorem not_finAcked_self (state : TcpState) : ¬FinAcked state state := by
  rintro (⟨rfl, h | h⟩ | ⟨rfl, h⟩) <;> cases h

section

variable {env : Env} {conn : TcpConn} {conns : ConnTable} {i : Nat}

/-- A free slot is closed, so it waits for nothing. -/
private theorem not_awaits_of_freeSlot (hfree : conns.freeSlot = some i)
    (hconn : conns[i]? = some conn) :
    conn.state.awaitsFinAck = false := by
  rw [ConnTable.freeSlot, List.findIdx?_eq_some_iff_getElem] at hfree
  obtain ⟨hlt, hclosed, -⟩ := hfree
  obtain ⟨-, rfl⟩ := List.getElem?_eq_some_iff.mp hconn
  rw [decide_eq_true_eq] at hclosed
  rw [hclosed]
  rfl

private theorem checkRetransmit_state (hlive : conn.retries < MAX_RETRIES) :
    (checkRetransmit env conn).1.state = conn.state := by
  rw [checkRetransmit, if_neg (UInt8.not_le.mpr hlive)]
  split
  · simp
  · rfl

private theorem poll_state_of_awaits (hwait : conn.state.awaitsFinAck = true)
    (hlive : conn.retries < MAX_RETRIES) : (conn.poll env).1.state = conn.state := by
  rcases TcpState.awaitsFinAck_cases hwait with hcase | hcase
  · simp only [TcpConn.poll, hcase]
    rw [checkRetransmit_state hlive, hcase]
  · simp only [TcpConn.poll, hcase]
    rw [checkRetransmit_state hlive, hcase]

/-- A call that receives no segment leaves a waiting connection in its state. -/
theorem act_state_of_silent {call : Call} (hconn : conns[i]? = some conn)
    (hwait : conn.state.awaitsFinAck = true) (htouch : call.touches conns i = true)
    (hsilent : call.segment = none) (hlive : call.isPoll = true → conn.retries < MAX_RETRIES) :
    (call.act env conn).1.state = conn.state := by
  -- `listen` and `connect` take a free slot, and this one is not free
  have hfree : conns.freeSlot ≠ some i := by
    intro hfree
    rw [not_awaits_of_freeSlot hfree hconn] at hwait
    cases hwait
  cases call with
  | listen port =>
    have htarget : conns.freeSlot = some i := by
      simpa [Call.touches, Call.isPoll, Call.target] using htouch
    exact absurd htarget hfree
  | connect localPort remoteIp remotePort =>
    have htarget : conns.freeSlot = some i := by
      simpa [Call.touches, Call.isPoll, Call.target] using htouch
    exact absurd htarget hfree
  | send idx data =>
    rcases TcpState.awaitsFinAck_cases hwait with hcase | hcase <;>
      simp [Call.act, Tx.seen, TcpConn.send, hcase]
  | recv idx bufLen => rfl
  | close idx =>
    rcases TcpState.awaitsFinAck_cases hwait with hcase | hcase <;>
      simp [Call.act, Tx.seen, TcpConn.close, hcase]
  | receive src data =>
    have hparse : TcpHeader.parse data = none := hsilent
    simp [Call.act, hparse]
  | poll => exact poll_state_of_awaits hwait (hlive rfl)
  | setConfig cfg => rfl

/-- A segment moves a waiting connection exactly when it has the ACK flag. -/
theorem deliver_finAcked {src : Ipv4Addr} {hdr : TcpHeader} (hwait : conn.state.awaitsFinAck = true)
    (hrst : has hdr.flags RST = false) :
    FinAcked conn.state (conn.deliver env src hdr).1.state ↔ has hdr.flags ACK = true := by
  have hbound : (conn.bindRemote src hdr).state = conn.state := rfl
  rw [TcpConn.deliver, hrst, if_neg Bool.false_ne_true, processSegment, hbound]
  rcases TcpState.awaitsFinAck_cases hwait with hcase | hcase <;> simp only [hcase]
  · cases hack : has hdr.flags ACK with
    | false => simp [handleFinWait1, hack, finWaitData_state, hcase, not_finAcked_self]
    | true =>
      simp only [handleFinWait1, hack, if_true, finWaitData_state]
      refine iff_of_true (.inl ⟨rfl, ?_⟩) trivial
      -- with a FIN in the same segment the handler goes on to TIME_WAIT
      cases has hdr.flags FIN with
      | false => exact .inl rfl
      | true => exact .inr rfl
  · cases hack : has hdr.flags ACK with
    | false => simp [handleLastAck, hack, hcase, not_finAcked_self]
    | true => simp [handleLastAck, hack, FinAcked]

end

/-! ### Step by step -/

private theorem touches_of_target {conns : ConnTable} {call : Call} {i : Nat}
    (h : call.target conns = some i) : call.touches conns i = true := by
  simp [Call.touches, h]

/-- A call with a segment touches its receiver and no other slot. -/
private theorem target_of_touches {conns : ConnTable} {call : Call} {i : Nat} {hdr : TcpHeader}
    (hseg : call.segment = some hdr) (h : call.touches conns i = true) :
    call.target conns = some i := by
  cases call with
  | receive src data => simpa [Call.touches, Call.isPoll] using h
  | _ => cases hseg

private theorem act_of_segment {call : Call} {hdr : TcpHeader} (hseg : call.segment = some hdr) :
    ∃ src, ∀ env conn, (call.act env conn).1 = (conn.deliver env src hdr).1 := by
  cases call with
  | receive src data =>
    have hparse : TcpHeader.parse data = some hdr := hseg
    refine ⟨src, fun env conn => ?_⟩
    simp only [Call.act, hparse]
    rfl
  | _ => cases hseg

/-- The handlers move a waiting connection on every ACK, so the number is right only if every ACK
    has the right number. -/
private theorem coversFin_of_closeAcknowledged {s : Stack} {e : Event} (hrst : NoReset e)
    (hclose : CloseAcknowledged s e) : CoversFin s e := by
  intro hdr hseg conn hconn hwait hack
  obtain ⟨i, htarget, hslot⟩ := Option.bind_eq_some_iff.mp hconn
  obtain ⟨src, hact⟩ := act_of_segment hseg
  have hafter : (s.step e).1.conns[i]? = some (conn.deliver ⟨s.cfg, e.now⟩ src hdr).1 := by
    rw [step_conns, hslot, Option.map_some, if_pos (touches_of_target htarget), hact]
  have hmoved : FinAcked conn.state (conn.deliver ⟨s.cfg, e.now⟩ src hdr).1.state :=
    (deliver_finAcked hwait (hrst hdr hseg)).mpr hack
  obtain ⟨hdr', hseg', -, hnumber⟩ := hclose i conn _ hslot hafter hmoved
  obtain rfl := Option.some.inj (hseg.symm.trans hseg')
  exact hnumber

/-- No other call moves a waiting connection, so a moved one has been handed an ACK. -/
private theorem closeAcknowledged_of_coversFin {s : Stack} {e : Event} (hrst : NoReset e)
    (hlive : NoGiveUp s e) (hcovers : CoversFin s e) : CloseAcknowledged s e := by
  intro i conn after hslot hafter hmoved
  rw [step_conns, hslot, Option.map_some, Option.some.injEq] at hafter
  subst hafter
  have hwait := hmoved.awaits
  split at hmoved
  case isFalse => exact absurd hmoved (not_finAcked_self _)
  case isTrue htouch =>
    cases hseg : e.call.segment with
    | none =>
      have hretries : e.call.isPoll = true → conn.retries < MAX_RETRIES := fun hpoll =>
        hlive hpoll conn (List.mem_of_getElem? hslot) (TcpState.retransmits_of_awaits hwait)
      rw [act_state_of_silent hslot hwait htouch hseg hretries] at hmoved
      exact absurd hmoved (not_finAcked_self _)
    | some hdr =>
      obtain ⟨src, hact⟩ := act_of_segment hseg
      rw [hact] at hmoved
      have hack := (deliver_finAcked hwait (hrst hdr hseg)).mp hmoved
      -- the slot that was touched is the one the segment was for
      have hreceiver : e.call.receiver s.conns = some conn :=
        Option.bind_eq_some_iff.mpr ⟨i, target_of_touches hseg htouch, hslot⟩
      exact ⟨hdr, rfl, hack, hcovers hdr hseg conn hreceiver hwait hack⟩

/-- **Close is acknowledged**: over a run without RST and give-up, exactly when every
    acknowledgement handed to a connection that waits for one covers its FIN. -/
theorem closeAcknowledged_iff (s : Stack) (es : List Event) (hrst : ∀ e ∈ es, NoReset e)
    (hlive : ∀ p ∈ s.steps es, NoGiveUp p.1 p.2) :
    (∀ p ∈ s.steps es, CloseAcknowledged p.1 p.2) ↔ ∀ p ∈ s.steps es, CoversFin p.1 p.2 := by
  have hreset : ∀ p ∈ s.steps es, NoReset p.2 := fun p hp => hrst p.2 (Lib.mem_of_mem_steps hp)
  constructor
  · intro hclose p hp
    exact coversFin_of_closeAcknowledged (hreset p hp) (hclose p hp)
  · intro hcovers p hp
    exact closeAcknowledged_of_coversFin (hreset p hp) (hlive p hp) (hcovers p hp)

/-! ### A connection that is opened and closed -/

section Sample

private def client : Ipv4Addr := ⟨10, 0, 2, 2⟩

/-- A segment from port 4000 of the client to the local port 80. -/
private def fromClient (seq ack : UInt32) (flags : UInt8) : Call :=
  .receive client (segmentBytes 4000 80 seq ack flags WINDOW 0 [])

/-- A listener is connected to and closes: its SYN has number 0, its FIN number 1. -/
private def openAndClose : List Event :=
  [⟨0, .listen 80⟩, ⟨0, fromClient 499 0 SYN⟩, ⟨1, fromClient 500 1 ACK⟩, ⟨2, .close 0⟩]

/-- The close is acknowledged by the segment that acknowledges the FIN. -/
theorem fin_acknowledged :
    let es := openAndClose ++ [⟨3, fromClient 500 2 ACK⟩]
    (Stack.boot.after es).conns[0]?.map (fun conn => conn.state) = some .finWait2 ∧
      ∀ p ∈ Stack.boot.steps es, CloseAcknowledged p.1 p.2 := by
  constructor
  · decide +kernel
  · apply (closeAcknowledged_iff _ _ _ _).mpr
    · decide +kernel
    · decide +kernel
    · decide +kernel

/-- A repeated acknowledgement of the SYN, which comes after `close`, moves the connection to
    FIN_WAIT_2 as well. -/
theorem late_ack_closes :
    let es := openAndClose ++ [⟨3, fromClient 500 1 ACK⟩]
    (∀ e ∈ es, NoReset e) ∧ (∀ p ∈ Stack.boot.steps es, NoGiveUp p.1 p.2) ∧
      ¬∀ p ∈ Stack.boot.steps es, CloseAcknowledged p.1 p.2 := by
  refine ⟨by decide +kernel, by decide +kernel, fun h => ?_⟩
  have hlast := h _ (Lib.mem_steps_concat _ Stack.boot openAndClose ⟨3, fromClient 500 1 ACK⟩)
  have hbefore : ((openAndClose.foldl (fun s e => (s.step e).1) Stack.boot).conns[0]?.map
      fun conn => (conn.state, conn.localSeq)) = some (.finWait1, 2) := by decide +kernel
  have hafter : ((Stack.step (openAndClose.foldl (fun s e => (s.step e).1) Stack.boot)
      ⟨3, fromClient 500 1 ACK⟩).1.conns[0]?.map fun conn => conn.state) = some .finWait2 := by
    decide +kernel
  have hseg : (fromClient 500 1 ACK).segment.map (fun hdr => hdr.ack) = some 1 := by decide +kernel
  obtain ⟨conn, hconn, hwaits⟩ := Option.map_eq_some_iff.mp hbefore
  obtain ⟨after, hmoved, hstate⟩ := Option.map_eq_some_iff.mp hafter
  obtain ⟨hfinWait1, hnumber⟩ := Prod.mk.inj hwaits
  obtain ⟨hdr, hsegment, -, hack⟩ := hlast 0 conn after hconn hmoved (.inl ⟨hfinWait1, .inl hstate⟩)
  rw [hsegment, Option.map_some, hack, hnumber] at hseg
  exact absurd hseg (by decide)

end Sample

end RustKernel.Net.Tcp
