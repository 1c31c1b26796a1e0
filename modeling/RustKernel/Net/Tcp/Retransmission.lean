import RustKernel.Net.Tcp.Handlers
import RustKernel.Net.Tcp.Stack

/-!
# RustKernel.Net.Tcp.Retransmission

What the retransmission timer sends again.

`check_retransmit` resends the saved flags and payload under the live sequence number. This is
faithful because the timer runs in four states only, each of which is entered by sending a SYN or a
FIN and left before any other segment with SYN, FIN or data is sent.

## Main result

`retransmits_last_covered`: in every run with a network configuration, a connection in one of these
states has `local_seq = last_tx_seq`, and what the timer resends has the sequence number, the flags
and the payload of the last segment with SYN, FIN or data that its slot sent.

## Proof strategy

`Faithful` relates a connection to the observations made on its slot. `act_faithful` goes through
the calls: each leaves the slot outside the four states, enters one of them (`sendSegment_faithful`),
or changes nothing that `Faithful` mentions (`Faithful.of_same`).
-/

namespace RustKernel.Net.Tcp

/-- The states in which `poll` runs the retransmission timer. -/
def TcpState.retransmits : TcpState → Bool
  | .synSent | .synReceived | .finWait1 | .lastAck => true
  | _ => false

/-- The header of an observed segment with SYN, FIN or data. -/
def Seen.covered : Seen → Option TcpHeader
  | .sent d => (TcpHeader.parse d.bytes).filter fun hdr =>
      has hdr.flags (SYN ||| FIN) || !hdr.payload.isEmpty
  | .returned _ => none

/-- The last such segment. -/
def lastCovered (log : List Seen) : Option TcpHeader := (log.filterMap Seen.covered).getLast?

/-- The last segment with SYN, FIN or data is the one that the connection saved, with its live
    sequence number, and it had no payload. -/
structure SavedLast (conn : TcpConn) (log : List Seen) : Prop where
  seq_eq : conn.localSeq = conn.lastTxSeq
  flags_mask : conn.lastTxFlags &&& 0x3F = conn.lastTxFlags
  covers : has conn.lastTxFlags (SYN ||| FIN) = true
  payload_nil : conn.lastTxPayload = []
  last_eq : ∃ hdr, lastCovered log = some hdr ∧ hdr.seq = conn.lastTxSeq ∧
    hdr.flags = conn.lastTxFlags ∧ hdr.payload = conn.lastTxPayload

def Faithful (conn : TcpConn) (log : List Seen) : Prop :=
  conn.state.retransmits = true → SavedLast conn log

/-! ### What a call leaves -/

section

variable {conn conn' : TcpConn} {log : List Seen}

private theorem Faithful.of_state (h : conn.state.retransmits = false) : Faithful conn log := by
  intro hstate
  rw [h] at hstate
  cases hstate

/-- The saved segment is still the last one. -/
theorem Faithful.of_same {seen : List Seen} (h : Faithful conn log)
    (hstate : conn'.state = conn.state) (hseq : conn'.localSeq = conn.localSeq)
    (hsaved : conn'.lastTxSeq = conn.lastTxSeq ∧ conn'.lastTxFlags = conn.lastTxFlags ∧
      conn'.lastTxPayload = conn.lastTxPayload)
    (hseen : seen.filterMap Seen.covered = []) : Faithful conn' (log ++ seen) := by
  intro hretransmits
  obtain ⟨htxSeq, hflags, hpayload⟩ := hsaved
  have hlast : lastCovered (log ++ seen) = lastCovered log := by
    rw [lastCovered, List.filterMap_append, hseen, List.append_nil, lastCovered]
  have hsame := h (hstate ▸ hretransmits)
  constructor
  · rw [hseq, htxSeq]
    exact hsame.seq_eq
  · rw [hflags]
    exact hsame.flags_mask
  · rw [hflags]
    exact hsame.covers
  · rw [hpayload]
    exact hsame.payload_nil
  · rw [hlast, htxSeq, hflags, hpayload]
    exact hsame.last_eq

end

/-! ### Sending a SYN or a FIN -/

section Sending

variable {env : Env} {cfg : NetConfig} {conn : TcpConn} {flags : UInt8}

/-- Afterwards the segment is the last one that the slot sent and saved. -/
private theorem sendSegmentRaw_saved (hcfg : env.cfg = some cfg) (hflags : flags &&& 0x3F = flags)
    (hcovers : has flags (SYN ||| FIN) = true) (log : List Seen) :
    SavedLast (sendSegmentRaw env conn flags []).1
      (log ++ (sendSegmentRaw env conn flags []).2.map .sent) := by
  obtain ⟨d, cksum, hsend, hparse⟩ := sendSegmentRaw_configured conn hcfg
    (show ([] : List UInt8).length ≤ MSS by decide) hflags
  have hrecord : recordTx env conn flags [] =
      { conn with
        lastTxTime := env.now
        lastTxSeq := conn.localSeq
        lastTxFlags := flags
        lastTxPayload := [] } := by
    simp only [recordTx, hcovers, Bool.true_or, if_true]
  have hseen : Seen.covered (.sent d) = some (builtHeader conn.localPort conn.remotePort
      conn.localSeq conn.localAck flags WINDOW cksum []) := by
    simp only [Seen.covered, hparse, Option.filter, builtHeader, hcovers, Bool.true_or, if_true]
  rw [hsend, hrecord]
  refine ⟨rfl, hflags, hcovers, rfl, builtHeader conn.localPort conn.remotePort conn.localSeq
    conn.localAck flags WINDOW cksum [], ?_, rfl, rfl, rfl⟩
  simp only [lastCovered, List.map_cons, List.map_nil, List.filterMap_append,
    List.filterMap_cons, hseen, List.filterMap_nil, List.getLast?_append, List.getLast?_singleton,
    Option.some_or]

theorem sendSegment_faithful (hcfg : env.cfg = some cfg) (hflags : flags &&& 0x3F = flags)
    (hcovers : has flags (SYN ||| FIN) = true) (log : List Seen) :
    Faithful (sendSegment env conn flags []).1
      (log ++ (sendSegment env conn flags []).2.map .sent) :=
  fun _ => sendSegmentRaw_saved hcfg hflags hcovers log

end Sending

/-! ### The calls -/

section Calls

variable {env : Env} {cfg : NetConfig} {conn : TcpConn} {log : List Seen}

theorem Faithful.unchanged (h : Faithful conn log) : Faithful conn (log ++ []) := by
  rwa [List.append_nil]

/-- Storing a payload changes the receive side only. -/
theorem Faithful.finWaitData (h : Faithful conn log) (hdr : TcpHeader) :
    Faithful (finWaitData conn hdr) (log ++ []) := by
  rw [Tcp.finWaitData]
  split
  · exact h.of_same rfl rfl ⟨rfl, rfl, rfl⟩ rfl
  · exact h.unchanged

private theorem processSegment_faithful (hcfg : env.cfg = some cfg) (h : Faithful conn log)
    (hdr : TcpHeader) : Faithful (processSegment env conn hdr).1
      (log ++ (processSegment env conn hdr).2.map .sent) := by
  cases hstate : conn.state with
  | listen =>
    simp only [processSegment, hstate, handleListen]
    split
    · exact h.unchanged
    · exact sendSegment_faithful hcfg (by decide) (by decide) log
  | synSent =>
    simp only [processSegment, hstate, handleSynSent]
    split
    · exact h.unchanged
    split
    · exact h.unchanged
    · apply Faithful.of_state
      rw [andThen_fst, (flushSend_frame env _).1, (sendSegmentRaw_frame env _ ACK []).1]
      rfl
  | synReceived =>
    simp only [processSegment, hstate, handleSynReceived]
    split
    · exact h.unchanged
    split
    · exact h.unchanged
    · exact .of_state rfl
  | established =>
    simp only [processSegment, hstate]
    apply Faithful.of_state
    rcases handleEstablished_state env conn hdr hstate with hafter | hafter
    all_goals
      rw [hafter]
      rfl
  | finWait1 =>
    simp only [processSegment, hstate, handleFinWait1]
    split
    case isTrue =>
      -- an acknowledgement ends the state, with a FIN or without
      apply Faithful.of_state
      rw [finWaitData_state]
      split <;> rfl
    case isFalse => exact h.finWaitData hdr
  | finWait2 =>
    simp only [processSegment, hstate, handleFinWait2]
    apply Faithful.of_state
    rw [finWaitData_state]
    split
    · rfl
    · rw [hstate]
      rfl
  | closeWait =>
    simp only [processSegment, hstate]
    apply Faithful.of_state
    rw [handleCloseWait_state, hstate]
    rfl
  | lastAck =>
    simp only [processSegment, hstate, handleLastAck]
    split
    · exact .of_state rfl
    · exact h.unchanged
  | closed =>
    simp only [processSegment, hstate]
    exact h.unchanged
  | timeWait =>
    simp only [processSegment, hstate]
    exact h.unchanged

private theorem deliver_faithful (hcfg : env.cfg = some cfg) (h : Faithful conn log)
    (src : Ipv4Addr)
    (hdr : TcpHeader) :
    Faithful (conn.deliver env src hdr).1 (log ++ (conn.deliver env src hdr).2.map .sent) := by
  rw [TcpConn.deliver]
  split
  · exact .of_state rfl
  · apply processSegment_faithful hcfg
    have hbound : Faithful (conn.bindRemote src hdr) (log ++ []) :=
      h.of_same rfl rfl ⟨rfl, rfl, rfl⟩ rfl
    rwa [List.append_nil] at hbound

private theorem checkRetransmit_faithful (hcfg : env.cfg = some cfg) (h : Faithful conn log)
    (hstate : conn.state.retransmits = true) :
    Faithful (checkRetransmit env conn).1 (log ++ (checkRetransmit env conn).2.map .sent) := by
  have hsaved := h hstate
  rw [checkRetransmit]
  split
  · exact .of_state rfl
  split
  · -- the resent segment is saved again, as it was
    have hagain := @sendSegmentRaw_saved env cfg conn conn.lastTxFlags hcfg hsaved.flags_mask
      hsaved.covers log
    rw [← hsaved.payload_nil] at hagain
    intro _
    exact ⟨hagain.seq_eq, hagain.flags_mask, hagain.covers, hagain.payload_nil, hagain.last_eq⟩
  · exact h.unchanged

private theorem poll_faithful (hcfg : env.cfg = some cfg) (h : Faithful conn log) :
    Faithful (conn.poll env).1 (log ++ (conn.poll env).2.map .sent) := by
  have hflush : ∀ {c : TcpConn}, c.state.retransmits = false →
      Faithful (if c.sendBuf.length > 0 then flushSend env c else (c, [])).1
        (log ++ (if c.sendBuf.length > 0 then flushSend env c else (c, [])).2.map .sent) := by
    intro c hc
    apply Faithful.of_state
    split
    · rw [(flushSend_frame env c).1, hc]
    · exact hc
  cases hstate : conn.state with
  | synSent | synReceived | finWait1 | lastAck =>
    simp only [TcpConn.poll, hstate]
    exact checkRetransmit_faithful hcfg h (by rw [hstate]; rfl)
  | established | closeWait =>
    simp only [TcpConn.poll, hstate]
    exact hflush (by rw [hstate]; rfl)
  | timeWait =>
    simp only [TcpConn.poll, hstate]
    split
    · exact .of_state rfl
    · exact h.unchanged
  | closed | listen | finWait2 =>
    simp only [TcpConn.poll, hstate]
    exact h.unchanged

private theorem send_faithful (h : Faithful conn log) (data : List UInt8) :
    Faithful (conn.send env data).2.1 (log ++ (conn.send env data).2.2.map .sent) := by
  rw [TcpConn.send]
  split
  · exact h.unchanged
  case isFalse hopen =>
    dsimp only
    split
    · exact h.unchanged
    · apply Faithful.of_state
      rw [(flushSend_frame env _).1]
      show conn.state.retransmits = false
      by_cases hestablished : conn.state = .established
      · rw [hestablished]
        rfl
      · rw [not_and_not_right.mp hopen hestablished]
        rfl

private theorem close_faithful (hcfg : env.cfg = some cfg) (h : Faithful conn log) :
    Faithful (conn.close env).2.1 (log ++ (conn.close env).2.2.map .sent) := by
  cases hstate : conn.state with
  | established =>
    simp only [TcpConn.close, hstate, andThen_fst, andThen_snd, List.map_append]
    rw [← List.append_assoc]
    exact sendSegment_faithful hcfg (by decide) (by decide) _
  | closeWait =>
    simp only [TcpConn.close, hstate]
    exact sendSegment_faithful hcfg (by decide) (by decide) _
  | _ =>
    simp only [TcpConn.close, hstate]
    exact h.unchanged

theorem act_faithful (hcfg : env.cfg = some cfg) (h : Faithful conn log) (call : Call) :
    Faithful (call.act env conn).1 (log ++ (call.act env conn).2) := by
  cases call with
  | listen port => exact .of_state rfl
  | connect localPort remoteIp remotePort =>
    exact sendSegment_faithful hcfg (by decide) (by decide) log
  | send idx data => exact send_faithful h data
  | recv idx bufLen => exact h.of_same rfl rfl ⟨rfl, rfl, rfl⟩ rfl
  | close idx => exact close_faithful hcfg h
  | receive src data =>
    rw [Call.act]
    split
    · exact h.unchanged
    · exact deliver_faithful hcfg h src _
  | poll => exact poll_faithful hcfg h
  | setConfig cfg => exact h.unchanged

end Calls

/-! ### Runs -/

/-- Every slot of the table is faithful to what was observed on it. -/
structure Stack.Faithful (s : Stack) (log : Nat → List Seen) : Prop where
  configured : s.cfg.isSome = true
  slots : ∀ i conn, s.conns[i]? = some conn → Tcp.Faithful conn (log i)

theorem Stack.Faithful.step {s : Stack} {log : Nat → List Seen} (h : s.Faithful log) (e : Event) :
    (s.step e).1.Faithful fun i => log i ++ (s.step e).2.onSlot i := by
  obtain ⟨cfg, hcfg⟩ := Option.isSome_iff_exists.mp h.configured
  constructor
  · rw [step_cfg]
    split
    · rfl
    · exact h.configured
  · intro i conn' hconn'
    rw [step_conns] at hconn'
    obtain ⟨conn, hconn, rfl⟩ := Option.map_eq_some_iff.mp hconn'
    rw [step_output, hconn, Option.map_some, Option.getD_some]
    cases e.call.touches s.conns i with
    | true => exact act_faithful hcfg (h.slots i conn hconn) e.call
    | false => exact (h.slots i conn hconn).unchanged

theorem Stack.Faithful.after {s : Stack} {log : Nat → List Seen} (h : s.Faithful log)
    (es : List Event) : (s.after es).Faithful fun i => log i ++ (s.outputs es).onSlot i := by
  induction es generalizing s log with
  | nil =>
    simp only [Stack.outputs, Output.onSlot, List.filterMap_nil, List.append_nil]
    exact h
  | cons e es ih =>
    have hrest := ih (h.step e)
    simp only [Stack.outputs, onSlot_append, Stack.after]
    simpa only [List.append_assoc] using hrest

/-- The live sequence number is the saved one, and the timer resends the last segment with SYN, FIN
    or data of the log. -/
def ResendsLast (conn : TcpConn) (log : List Seen) : Prop :=
  conn.localSeq = conn.lastTxSeq ∧ ∃ hdr, lastCovered log = some hdr ∧
    ∀ env, conn.retries < MAX_RETRIES → ∀ d ∈ (checkRetransmit env conn).2,
      ∃ resent, TcpHeader.parse d.bytes = some resent ∧ resent.seq = hdr.seq ∧
        resent.flags = hdr.flags ∧ resent.payload = hdr.payload

private theorem SavedLast.resends {conn : TcpConn} {log : List Seen} (h : SavedLast conn log) :
    ResendsLast conn log := by
  obtain ⟨hdr, hlast, hseq, hflags, hpayload⟩ := h.last_eq
  refine ⟨h.seq_eq, hdr, hlast, ?_⟩
  intro env hretries d hd
  rw [checkRetransmit, if_neg (UInt8.not_le.mpr hretries)] at hd
  split at hd
  · obtain ⟨-, cksum, hparse⟩ := sendSegmentRaw_carries env conn _ _ h.flags_mask d hd
    refine ⟨_, hparse, ?_, hflags.symm, hpayload.symm⟩
    exact h.seq_eq.trans hseq.symm
  · cases hd

theorem retransmits_last_covered (cfg : NetConfig) (es : List Event) (i : Nat) (conn : TcpConn)
    (hconn : ((⟨some cfg, .init⟩ : Stack).after es).conns[i]? = some conn)
    (hstate : conn.state.retransmits = true) :
    ResendsLast conn (((⟨some cfg, .init⟩ : Stack).outputs es).onSlot i) := by
  have hstart : (⟨some cfg, .init⟩ : Stack).Faithful fun _ => [] := by
    constructor
    · rfl
    · intro j c hc
      obtain rfl := List.eq_of_mem_replicate (List.mem_of_getElem? hc)
      exact .of_state rfl
  have hslot := (hstart.after es).slots i conn hconn hstate
  rw [List.nil_append] at hslot
  exact hslot.resends

/-- A SYN that gets no answer. -/
theorem syn_resent : ∃ conn, conn.state = .synSent ∧
    ResendsLast conn (((⟨some ⟨⟨10, 0, 2, 15⟩⟩, .init⟩ : Stack).outputs
      [⟨5, .connect 4000 ⟨10, 0, 2, 2⟩ 80⟩]).onSlot 0) :=
  ⟨_, rfl, retransmits_last_covered ⟨⟨10, 0, 2, 15⟩⟩ [⟨5, .connect 4000 ⟨10, 0, 2, 2⟩ 80⟩] 0 _ rfl
    rfl⟩

end RustKernel.Net.Tcp
