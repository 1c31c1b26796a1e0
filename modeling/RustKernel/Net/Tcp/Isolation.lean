import RustKernel.Net.Tcp.Erasure
import RustKernel.Net.Tcp.Stack

/-!
# RustKernel.Net.Tcp.Isolation

What the bytes of a slot's earlier connections can reach once the slot is reused.

## Main result

`slot_isolated_of_empty`: two runs that differ in payload bytes only, up to a
`listen` or `connect` that takes a slot whose buffers are empty, and that continue
alike, agree on everything transmitted from that slot and returned by `recv` on it.

## Proof strategy

Up to the reuse the runs have equal erasures (`step_alike`), so they take the same
slot. The connections there then differ at most in the retransmission payload
(`Twin`), and only while the slot listens: the first SYN the slot transmits
overwrites that payload. Without a configuration nothing is ever recorded
(`Stack.Unrecorded`), so there is nothing to overwrite.
-/

namespace RustKernel.Net.Tcp

/-! ### Runs that differ in payload bytes -/

/-- Calls that differ at most in payload bytes, and in the checksum that covers them. -/
def Call.Alike : Call → Call → Prop
  | .send idx data, call' => ∃ data', call' = .send idx data' ∧ data.length = data'.length
  | .receive src data, call' => ∃ data', call' = .receive src data' ∧
    (TcpHeader.parse data).map TcpHeader.erase = (TcpHeader.parse data').map TcpHeader.erase
  | call, call' => call' = call

theorem Call.Alike.refl (call : Call) : call.Alike call := by
  cases call with
  | send idx data => exact ⟨data, rfl, rfl⟩
  | receive src data => exact ⟨data, rfl, rfl⟩
  | _ => exact rfl

structure Event.Alike (e e' : Event) : Prop where
  now : e.now = e'.now
  call : e.call.Alike e'.call

structure Stack.Alike (s s' : Stack) : Prop where
  cfg : s.cfg = s'.cfg
  conns : s.conns.map TcpConn.erase = s'.conns.map TcpConn.erase

theorem Stack.Alike.slot {s s' : Stack} (h : s.Alike s') (i : Nat) :
    s.conns[i]?.map TcpConn.erase = s'.conns[i]?.map TcpConn.erase := by
  have hget := congrArg (fun conns : List TcpConn => conns[i]?) h.conns
  simpa only [List.getElem?_map] using hget

private theorem freeSlot_erase (conns : ConnTable) :
    ConnTable.freeSlot (conns.map TcpConn.erase) = conns.freeSlot := by
  rw [ConnTable.freeSlot, ConnTable.freeSlot, List.findIdx?_map]
  rfl

private theorem findIdx?_accepts_erase (src : Ipv4Addr) (hdr : TcpHeader) (conns : ConnTable) :
    (conns.map TcpConn.erase).findIdx? (TcpConn.accepts src hdr.erase) =
      conns.findIdx? (TcpConn.accepts src hdr) := by
  rw [List.findIdx?_map]
  rfl

private theorem target_alike {call call' : Call} (h : call.Alike call') {conns conns' : ConnTable}
    (hconns : conns.map TcpConn.erase = conns'.map TcpConn.erase) :
    call.target conns = call'.target conns' := by
  have hfree : conns.freeSlot = conns'.freeSlot := by
    rw [← freeSlot_erase, hconns, freeSlot_erase]
  cases call with
  | send idx data =>
    obtain ⟨data', rfl, -⟩ := h
    rfl
  | receive src data =>
    obtain ⟨data', rfl, hparse⟩ := h
    simp only [Call.target, ← findIdx?_accepts_erase src _ conns,
      ← findIdx?_accepts_erase src _ conns', hconns]
    have hbind := congrArg (fun o : Option TcpHeader => o.bind fun hdr =>
      (conns'.map TcpConn.erase).findIdx? (TcpConn.accepts src hdr)) hparse
    simpa only [Option.bind_map, Function.comp_def] using hbind
  | listen port =>
    obtain rfl := h
    exact hfree
  | connect localPort remoteIp remotePort =>
    obtain rfl := h
    exact hfree
  | _ =>
    obtain rfl := h
    rfl

private theorem touches_alike {call call' : Call} (h : call.Alike call') {conns conns' : ConnTable}
    (hconns : conns.map TcpConn.erase = conns'.map TcpConn.erase) (i : Nat) :
    call.touches conns i = call'.touches conns' i := by
  have hpoll : call.isPoll = call'.isPoll := by
    cases call with
    | send idx data => obtain ⟨data', rfl, -⟩ := h; rfl
    | receive src data => obtain ⟨data', rfl, -⟩ := h; rfl
    | _ => obtain rfl := h; rfl
  rw [Call.touches, Call.touches, hpoll, target_alike h hconns]

/-- Alike calls on connections with equal erasures leave equal erasures. -/
private theorem act_alike (env : Env) {call call' : Call} (h : call.Alike call') {c c' : TcpConn}
    (hc : c.erase = c'.erase) : (call.act env c).1.erase = (call'.act env c').1.erase := by
  cases call with
  | send idx data =>
    -- of the data only the length is seen
    obtain ⟨data', rfl, hlen⟩ := h
    simp only [Call.act, Tx.seen]
    rw [← send_erase, ← send_erase, hc, blank_eq_of_length hlen]
  | receive src data =>
    obtain ⟨data', rfl, hparse⟩ := h
    simp only [Call.act]
    cases hdata : TcpHeader.parse data with
    | none =>
      rw [hdata, Option.map_none, eq_comm, Option.map_eq_none_iff] at hparse
      rw [hparse]
      exact hc
    | some hdr =>
      rw [hdata, Option.map_some, eq_comm, Option.map_eq_some_iff] at hparse
      obtain ⟨hdr', hdata', hhdr⟩ := hparse
      rw [hdata']
      simp only [Tx.seen]
      rw [← deliver_erase, ← deliver_erase, hc, hhdr]
  | listen port =>
    obtain rfl := h
    simp only [Call.act]
    rw [← openListen_erase, ← openListen_erase, hc]
  | connect localPort remoteIp remotePort =>
    obtain rfl := h
    simp only [Call.act, Tx.seen]
    rw [← openConnect_erase, ← openConnect_erase, hc]
  | recv idx bufLen =>
    obtain rfl := h
    simp only [Call.act]
    rw [← recv_erase, ← recv_erase, hc]
  | close idx =>
    obtain rfl := h
    simp only [Call.act, Tx.seen]
    rw [← close_erase, ← close_erase, hc]
  | poll =>
    obtain rfl := h
    simp only [Call.act, Tx.seen]
    rw [← poll_erase, ← poll_erase, hc]
  | setConfig cfg =>
    obtain rfl := h
    exact hc

private theorem step_cfg_alike {s s' : Stack} {e e' : Event} (h : s.Alike s') (he : e.Alike e') :
    (s.step e).1.cfg = (s'.step e').1.cfg := by
  rw [step_cfg, step_cfg, h.cfg]
  have hcall := he.call
  cases hc : e.call with
  | send idx data => rw [hc] at hcall; obtain ⟨data', hc', -⟩ := hcall; rw [hc']
  | receive src data => rw [hc] at hcall; obtain ⟨data', hc', -⟩ := hcall; rw [hc']
  | _ => rw [hc] at hcall; rw [show e'.call = _ from hcall]

/-- Alike steps keep the erasures of two tables equal. -/
theorem step_alike {s s' : Stack} {e e' : Event} (h : s.Alike s') (he : e.Alike e') :
    (s.step e).1.Alike (s'.step e').1 := by
  refine ⟨step_cfg_alike h he, List.ext_getElem? fun i => ?_⟩
  rw [List.getElem?_map, List.getElem?_map, step_conns, step_conns,
    touches_alike he.call h.conns i, h.cfg, he.now]
  have hslot := h.slot i
  cases hc : s.conns[i]? with
  | none =>
    rw [hc, Option.map_none, eq_comm, Option.map_eq_none_iff] at hslot
    rw [hslot]
    rfl
  | some c =>
    rw [hc, Option.map_some, eq_comm, Option.map_eq_some_iff] at hslot
    obtain ⟨c', hc', herase⟩ := hslot
    rw [hc', Option.map_some, Option.map_some, Option.map_some, Option.map_some]
    split
    · rw [act_alike _ he.call herase.symm]
    · rw [herase]

private theorem after_alike {s s' : Stack} {es es' : List Event} (h : s.Alike s')
    (hes : List.Forall₂ Event.Alike es es') : (s.after es).Alike (s'.after es') := by
  induction hes generalizing s s' with
  | nil => exact h
  | cons he _ ih => exact ih (step_alike h he)

/-! ### Without a configuration nothing is recorded -/

section Unconfigured

variable {env : Env} (hcfg : env.cfg = none) {conn : TcpConn} (hdr : TcpHeader)

include hcfg

private theorem sendSegment_unrecorded (flags : UInt8) (payload : List UInt8) :
    (sendSegment env conn flags payload).1.lastTxPayload = conn.lastTxPayload := by
  rw [sendSegment, sendSegmentRaw_unconfigured hcfg]

private theorem flushSend_unrecorded : (flushSend env conn).1.lastTxPayload = conn.lastTxPayload := by
  rw [flushSend]
  split
  · rfl
  · exact sendSegment_unrecorded hcfg _ _

private theorem establishedAck_unrecorded :
    (establishedAck env conn hdr).1.lastTxPayload = conn.lastTxPayload := by
  rw [establishedAck]
  split
  · rfl
  · dsimp only
    split
    · rw [flushSend_unrecorded hcfg]
    · rfl

private theorem establishedData_unrecorded :
    (establishedData env conn hdr).1.lastTxPayload = conn.lastTxPayload := by
  rw [establishedData]
  split
  · rfl
  · rw [sendSegmentRaw_unconfigured hcfg]
    rfl

private theorem establishedFin_unrecorded :
    (establishedFin env conn hdr).1.lastTxPayload = conn.lastTxPayload := by
  rw [establishedFin]
  split
  · rfl
  · rw [sendSegmentRaw_unconfigured hcfg]

private theorem handleEstablished_unrecorded :
    (handleEstablished env conn hdr).1.lastTxPayload = conn.lastTxPayload := by
  rw [handleEstablished, andThen_fst]
  split
  · rw [sendSegmentRaw_unconfigured hcfg, establishedAck_unrecorded hcfg]
  · rw [andThen_fst, establishedFin_unrecorded hcfg, establishedData_unrecorded hcfg,
      establishedAck_unrecorded hcfg]

omit hcfg in
private theorem finWaitData_unrecorded (conn : TcpConn) :
    (finWaitData conn hdr).lastTxPayload = conn.lastTxPayload := by
  rw [finWaitData]
  split <;> rfl

private theorem enterTimeWait_unrecorded :
    (enterTimeWait env conn).1.lastTxPayload = conn.lastTxPayload := by
  rw [enterTimeWait, sendSegmentRaw_unconfigured hcfg]

private theorem processSegment_unrecorded :
    (processSegment env conn hdr).1.lastTxPayload = conn.lastTxPayload := by
  rw [processSegment]
  split
  -- one case for each state; where a handler sends, the send records nothing
  · rw [handleListen]
    split
    · rfl
    · rw [sendSegment_unrecorded hcfg]
  · rw [handleSynSent]
    split
    · rfl
    · split
      · rfl
      · rw [andThen_fst, flushSend_unrecorded hcfg, sendSegmentRaw_unconfigured hcfg]
  · rw [handleSynReceived]
    split
    · rfl
    · split <;> rfl
  · exact handleEstablished_unrecorded hcfg hdr
  · simp only [handleFinWait1, finWaitData_unrecorded]
    split
    · split
      · exact enterTimeWait_unrecorded hcfg
      · rfl
    · rfl
  · simp only [handleFinWait2, finWaitData_unrecorded]
    split
    · exact enterTimeWait_unrecorded hcfg
    · rfl
  · simp only [handleCloseWait, andThen_fst, sendSegmentRaw_unconfigured hcfg]
    split <;> split <;> rfl
  · rw [handleLastAck]
    split <;> rfl
  · rfl
  · rfl

private theorem checkRetransmit_unrecorded (h : conn.lastTxPayload = []) :
    (checkRetransmit env conn).1.lastTxPayload = [] := by
  rw [checkRetransmit, sendSegmentRaw_unconfigured hcfg, sendSegmentRaw_unconfigured hcfg]
  split_ifs
  · rfl
  · exact h
  · exact h

private theorem act_unrecorded (call : Call) (h : conn.lastTxPayload = []) :
    (call.act env conn).1.lastTxPayload = [] := by
  cases call with
  | listen port => exact h
  -- without a configuration nothing is sent, so nothing is kept for a resend
  | connect localPort remoteIp remotePort =>
    rw [Call.act, Tx.seen, TcpConn.openConnect, sendSegment_unrecorded hcfg]
    exact h
  | send idx data =>
    simp only [Call.act, Tx.seen, TcpConn.send]
    split_ifs
    · exact h
    · exact h
    · rw [flushSend_unrecorded hcfg]
      exact h
  | recv idx bufLen => exact h
  | close idx =>
    simp only [Call.act, Tx.seen, TcpConn.close]
    split
    · rw [andThen_fst, sendSegment_unrecorded hcfg]
      exact (flushSend_unrecorded hcfg).trans h
    · rw [sendSegment_unrecorded hcfg]
      exact h
    · exact h
  | receive src data =>
    rw [Call.act]
    split
    · exact h
    · simp only [Tx.seen, TcpConn.deliver]
      split
      · rfl
      · rw [processSegment_unrecorded hcfg]
        exact h
  | poll =>
    simp only [Call.act, Tx.seen, TcpConn.poll]
    cases conn.state with
    | synSent | synReceived | finWait1 | lastAck => exact checkRetransmit_unrecorded hcfg h
    | established | closeWait =>
      dsimp only
      split_ifs
      · exact (flushSend_unrecorded hcfg).trans h
      · exact h
    | timeWait =>
      dsimp only
      split_ifs <;> exact h
    | closed | listen | finWait2 => exact h
  | setConfig cfg => exact h

end Unconfigured

/-- Without a configuration no slot holds a retransmission payload. -/
def Stack.Unrecorded (s : Stack) : Prop :=
  s.cfg = none → ∀ (i : Nat) (c : TcpConn), s.conns[i]? = some c → c.lastTxPayload = []

private theorem boot_unrecorded : Stack.boot.Unrecorded := by
  intro _ i c hc
  rw [(List.eq_of_mem_replicate (List.mem_of_getElem? hc) : c = TcpConn.new)]
  rfl

private theorem step_unrecorded {s : Stack} (h : s.Unrecorded) (e : Event) :
    (s.step e).1.Unrecorded := by
  intro hcfg i c hc
  have hbefore : s.cfg = none := by
    rw [step_cfg] at hcfg
    split at hcfg
    · contradiction
    · exact hcfg
  rw [step_conns, Option.map_eq_some_iff] at hc
  obtain ⟨conn, hconn, rfl⟩ := hc
  split
  · exact act_unrecorded hbefore _ (h hbefore i conn hconn)
  · exact h hbefore i conn hconn

private theorem after_unrecorded {s : Stack} (h : s.Unrecorded) (es : List Event) :
    (s.after es).Unrecorded := by
  induction es generalizing s with
  | nil => exact h
  | cons e es ih => exact ih (step_unrecorded h e)

/-! ### The reused slot -/

/-- Connections that differ at most in the retransmission payload, and not in that either
    once it can be transmitted. -/
def Twin (cfg : Option NetConfig) (c c' : TcpConn) : Prop :=
  c = c' ∨ cfg ≠ none ∧ c.state = .listen ∧ ∃ payload, c' = { c with lastTxPayload := payload }

/-- A SYN overwrites the retransmission payload. -/
private theorem sendSegment_overwrites (env : Env) (hcfg : env.cfg ≠ none) (conn : TcpConn)
    (flags : UInt8) (hflags : has flags (SYN ||| FIN) = true) (old : List UInt8) :
    sendSegment env { conn with lastTxPayload := old } flags [] = sendSegment env conn flags [] := by
  obtain ⟨cfg, hsome⟩ := Option.ne_none_iff_exists'.mp hcfg
  have hfits : ¬20 + MSS < 20 + ([] : List UInt8).length := by decide
  simp only [sendSegment, sendSegmentRaw, hsome, TcpHeader.build, if_neg hfits, recordTx, hflags,
    Bool.true_or, if_true]

private theorem deliver_twin (env : Env) (hcfg : env.cfg ≠ none) (src : Ipv4Addr) (hdr : TcpHeader)
    (c : TcpConn) (hlisten : c.state = .listen) (old : List UInt8) :
    Twin env.cfg (c.deliver env src hdr).1
      (TcpConn.deliver env { c with lastTxPayload := old } src hdr).1 ∧
    (c.deliver env src hdr).2 =
      (TcpConn.deliver env { c with lastTxPayload := old } src hdr).2 := by
  have hbound : (c.bindRemote src hdr).state = .listen := hlisten
  have hbound' : (TcpConn.bindRemote { c with lastTxPayload := old } src hdr).state = .listen :=
    hlisten
  rw [TcpConn.deliver, TcpConn.deliver]
  split
  · exact ⟨.inl rfl, rfl⟩
  · rw [processSegment, processSegment, hbound, hbound']
    simp only [handleListen]
    split
    · exact ⟨.inr ⟨hcfg, hlisten, old, rfl⟩, rfl⟩
    · -- a SYN is answered, and the answer replaces the saved payload
      have hsame := sendSegment_overwrites env hcfg
        { c.bindRemote src hdr with
          remoteSeq := hdr.seq + 1
          localAck := hdr.seq + 1
          state := .synReceived } (SYN ||| ACK) (by decide) old
      constructor
      · exact .inl (congrArg Prod.fst hsame).symm
      · exact (congrArg Prod.snd hsame).symm

section Listener

variable (env : Env) (c : TcpConn) (hlisten : c.state = .listen)

include hlisten

private theorem send_of_listen (data : List UInt8) : (c.send env data).2 = (c, []) := by
  simp [TcpConn.send, hlisten]

private theorem close_of_listen : (c.close env).2 = (c, []) := by
  simp [TcpConn.close, hlisten]

private theorem poll_of_listen : c.poll env = (c, []) := by
  simp [TcpConn.poll, hlisten]

end Listener

/-- The same call on twins leaves twins, and is observed alike. -/
private theorem act_twin (env : Env) (call : Call) {c c' : TcpConn} (h : Twin env.cfg c c') :
    Twin env.cfg (call.act env c).1 (call.act env c').1 ∧
    (call.act env c).2 = (call.act env c').2 := by
  rcases h with rfl | ⟨hcfg, hlisten, old, rfl⟩
  · exact ⟨.inl rfl, rfl⟩
  -- the two slots differ in the saved payload of a listener, which only `connect` replaces
  cases call with
  | listen port => exact ⟨.inr ⟨hcfg, rfl, old, rfl⟩, rfl⟩
  | connect localPort remoteIp remotePort =>
    have hsame := sendSegment_overwrites env hcfg
      { c with
        state := .synSent
        localPort
        remoteIp
        remotePort
        localSeq := isn env
        remoteSeq := 0
        localAck := 0
        retries := 0
        rtoMs := RTO_MS } SYN (by decide) old
    constructor
    · exact .inl (congrArg Prod.fst hsame).symm
    · exact congrArg (List.map Seen.sent) (congrArg Prod.snd hsame).symm
  | send idx data =>
    rw [Call.act, Call.act, send_of_listen env c hlisten,
      send_of_listen env { c with lastTxPayload := old } hlisten]
    exact ⟨.inr ⟨hcfg, hlisten, old, rfl⟩, rfl⟩
  | recv idx bufLen => exact ⟨.inr ⟨hcfg, hlisten, old, rfl⟩, rfl⟩
  | close idx =>
    rw [Call.act, Call.act, close_of_listen env c hlisten,
      close_of_listen env { c with lastTxPayload := old } hlisten]
    exact ⟨.inr ⟨hcfg, hlisten, old, rfl⟩, rfl⟩
  | receive src data =>
    simp only [Call.act]
    split
    · exact ⟨.inr ⟨hcfg, hlisten, old, rfl⟩, rfl⟩
    · next hdr _ =>
      obtain ⟨htwin, hout⟩ := deliver_twin env hcfg src hdr c hlisten old
      exact ⟨htwin, congrArg (List.map Seen.sent) hout⟩
  | poll =>
    rw [Call.act, Call.act, poll_of_listen env c hlisten,
      poll_of_listen env { c with lastTxPayload := old } hlisten]
    exact ⟨.inr ⟨hcfg, hlisten, old, rfl⟩, rfl⟩
  | setConfig cfg => exact ⟨.inr ⟨hcfg, hlisten, old, rfl⟩, rfl⟩

/-- Configuring the network keeps twins. -/
theorem Twin.configured {s : Stack} {e : Event} {c c' : TcpConn} (h : Twin s.cfg c c') :
    Twin (s.step e).1.cfg c c' := by
  refine h.imp_right fun ⟨hcfg, hrest⟩ => ⟨?_, hrest⟩
  rw [step_cfg]
  split
  · simp
  · exact hcfg

/-- Two stacks with equal erasures and twins in slot `i`. -/
structure SlotTwins (i : Nat) (s s' : Stack) : Prop where
  alike : s.Alike s'
  twin : ∃ c c', s.conns[i]? = some c ∧ s'.conns[i]? = some c' ∧ Twin s.cfg c c'

private theorem step_slotTwins {i : Nat} {s s' : Stack} (h : SlotTwins i s s') (e : Event) :
    SlotTwins i (s.step e).1 (s'.step e).1 ∧ (s.step e).2.onSlot i = (s'.step e).2.onSlot i := by
  obtain ⟨halike, c, c', hc, hc', htwin⟩ := h
  have hstep := step_alike halike (⟨rfl, .refl e.call⟩ : e.Alike e)
  have hnext := step_conns s e i
  have hnext' := step_conns s' e i
  have hout := step_output s e i
  have hout' := step_output s' e i
  rw [hc, Option.map_some] at hnext hout
  rw [hc', Option.map_some] at hnext' hout'
  rw [← touches_alike (.refl e.call) halike.conns i, ← halike.cfg] at hnext' hout'
  rw [hout, hout']
  obtain ⟨hact, hseen⟩ := act_twin ⟨s.cfg, e.now⟩ e.call htwin
  refine ⟨⟨hstep, _, _, hnext, hnext', ?_⟩, ?_⟩
  · split
    · exact hact.configured
    · exact htwin.configured
  · split
    · rw [hseen]
    · rfl

/-- From twins on, two runs of the same events are observed alike. -/
private theorem outputs_slotTwins {i : Nat} {s s' : Stack} (h : SlotTwins i s s')
    (es : List Event) :
    (s.outputs es).onSlot i = (s'.outputs es).onSlot i := by
  induction es generalizing s s' with
  | nil => rfl
  | cons e es ih =>
    obtain ⟨hnext, hout⟩ := step_slotTwins h e
    rw [Stack.outputs, Stack.outputs, onSlot_append, onSlot_append, hout, ih hnext]

/-! ### Reuse of a slot -/

/-- A `listen` or `connect` that takes slot `i`. -/
def Call.Takes (conns : ConnTable) (i : Nat) : Call → Prop
  | .listen .. | .connect .. => conns.freeSlot = some i
  | _ => False

private theorem eq_of_erase_eq {c c' : TcpConn} (h : c.erase = c'.erase)
    (hsend : c.sendBuf = []) (hrecv : c.recvBuf = []) :
    c' = { c with lastTxPayload := c'.lastTxPayload } := by
  cases c
  cases c'
  simp only [TcpConn.erase, TcpConn.mk.injEq] at h hsend hrecv ⊢
  subst hsend hrecv
  simp_all [blank]

/-- Taking a slot with empty buffers makes the connections there twins. -/
private theorem act_takes {cfg : Option NetConfig} (now : UInt64) {conns : ConnTable} {i : Nat}
    {call : Call} (htakes : call.Takes conns i) {c c' : TcpConn} (herase : c.erase = c'.erase)
    (hsend : c.sendBuf = []) (hrecv : c.recvBuf = [])
    (hnone : cfg = none → c.lastTxPayload = [] ∧ c'.lastTxPayload = []) :
    Twin cfg (call.act ⟨cfg, now⟩ c).1 (call.act ⟨cfg, now⟩ c').1 ∧
    (call.act ⟨cfg, now⟩ c).2 = (call.act ⟨cfg, now⟩ c').2 := by
  have hdiffer := eq_of_erase_eq herase hsend hrecv
  by_cases hcfg : cfg = none
  · obtain ⟨hold, hold'⟩ := hnone hcfg
    have hsame : c' = c := by
      rw [hdiffer, hold', ← hold]
    rw [hsame]
    exact ⟨.inl rfl, rfl⟩
  · rw [hdiffer]
    -- the saved payload is what is left of the slot's past, and `connect` replaces it
    cases call with
    | listen port => exact ⟨.inr ⟨hcfg, rfl, _, rfl⟩, rfl⟩
    | connect localPort remoteIp remotePort =>
      have hsame := sendSegment_overwrites ⟨cfg, now⟩ hcfg
        { c with
          state := .synSent
          localPort
          remoteIp
          remotePort
          localSeq := isn ⟨cfg, now⟩
          remoteSeq := 0
          localAck := 0
          retries := 0
          rtoMs := RTO_MS } SYN (by decide) c'.lastTxPayload
      constructor
      · exact .inl (congrArg Prod.fst hsame).symm
      · exact congrArg (List.map Seen.sent) (congrArg Prod.snd hsame).symm
    | _ => exact htakes.elim

/-- A call that takes a slot touches it. -/
theorem Call.Takes.touches {conns : ConnTable} {i : Nat} {call : Call}
    (h : call.Takes conns i) : call.touches conns i = true := by
  have hfree : call.target conns = some i := by
    cases call with
    | listen port => exact h
    | connect localPort remoteIp remotePort => exact h
    | _ => exact h.elim
  rw [Call.touches, hfree, beq_self_eq_true, Bool.or_true]

theorem Call.Takes.cfg {s : Stack} {i : Nat} {e : Event} (h : e.call.Takes s.conns i) :
    (s.step e).1.cfg = s.cfg := by
  obtain ⟨now, call⟩ := e
  cases call with
  | listen port => rfl
  | connect localPort remoteIp remotePort => rfl
  | _ => exact h.elim

/-- The step that takes a slot with empty buffers is observed alike and leaves twins. -/
private theorem takes_slotTwins {s s' : Stack} (h : s.Alike s') (hs : s.Unrecorded)
    (hs' : s'.Unrecorded)
    (e : Event) (i : Nat) (c : TcpConn) (htakes : e.call.Takes s.conns i)
    (hc : s.conns[i]? = some c) (hsend : c.sendBuf = []) (hrecv : c.recvBuf = []) :
    SlotTwins i (s.step e).1 (s'.step e).1 ∧ (s.step e).2.onSlot i = (s'.step e).2.onSlot i := by
  have hslot := h.slot i
  rw [hc, Option.map_some, eq_comm, Option.map_eq_some_iff] at hslot
  obtain ⟨c', hc', herase⟩ := hslot
  have hnone : s.cfg = none → c.lastTxPayload = [] ∧ c'.lastTxPayload = [] := fun hcfg =>
    ⟨hs hcfg i c hc, hs' (h.cfg ▸ hcfg) i c' hc'⟩
  obtain ⟨htwin, hseen⟩ := act_takes e.now htakes herase.symm hsend hrecv hnone
  have htouch := htakes.touches
  have htouch' := htouch
  rw [touches_alike (.refl e.call) h.conns i] at htouch'
  have hnext := step_conns s e i
  have hnext' := step_conns s' e i
  rw [hc, Option.map_some, if_pos htouch] at hnext
  rw [hc', Option.map_some, if_pos htouch', ← h.cfg] at hnext'
  refine ⟨⟨step_alike h ⟨rfl, .refl e.call⟩, _, _, hnext, hnext', ?_⟩, ?_⟩
  · rw [htakes.cfg]
    exact htwin
  · rw [step_output, step_output, hc, hc', Option.map_some, Option.map_some, if_pos htouch,
      if_pos htouch', ← h.cfg, hseen]

/-- **Slot isolation**: once a slot with empty buffers is taken, nothing observed on it depends
    on the payload bytes of the run before. -/
theorem slot_isolated_of_empty (before before' : List Event)
    (hbefore : List.Forall₂ Event.Alike before before') (take : Event) (i : Nat) (c : TcpConn)
    (htakes : take.call.Takes (Stack.boot.after before).conns i)
    (hc : (Stack.boot.after before).conns[i]? = some c)
    (hempty : c.sendBuf = [] ∧ c.recvBuf = []) (later : List Event) :
    ((Stack.boot.after before).outputs (take :: later)).onSlot i =
      ((Stack.boot.after before').outputs (take :: later)).onSlot i := by
  have halike : (Stack.boot.after before).Alike (Stack.boot.after before') :=
    after_alike ⟨rfl, rfl⟩ hbefore
  obtain ⟨htwins, hout⟩ := takes_slotTwins halike (after_unrecorded boot_unrecorded before)
    (after_unrecorded boot_unrecorded before') take i c htakes hc hempty.1 hempty.2
  rw [Stack.outputs, Stack.outputs, onSlot_append, onSlot_append, hout,
    outputs_slotTwins htwins later]

/-! ### A byte that outlives its connection -/

section Leak

private def serverIp : Ipv4Addr := ⟨10, 0, 2, 2⟩

/-- A segment from port 80 of the peer to the local port 5000. -/
private def fromPeer (seq ack : UInt32) (flags : UInt8) (payload : List UInt8) : Call :=
  .receive serverIp (segmentBytes 80 5000 seq ack flags WINDOW 0 payload)

/-- A connection that receives one byte and is closed by both ends, with calls in between. -/
private def firstConnection (byte : UInt8) (reads : List Event) : List Event :=
  [⟨1, .setConfig ⟨⟨10, 0, 2, 15⟩⟩⟩,
   ⟨100, .connect 5000 serverIp 80⟩,
   ⟨101, fromPeer 700 101 (SYN ||| ACK) []⟩,
   ⟨102, fromPeer 701 101 (PSH ||| ACK) [byte]⟩] ++ reads ++
  [⟨103, fromPeer 702 101 (FIN ||| ACK) []⟩,
   ⟨104, .close 0⟩,
   ⟨105, fromPeer 703 102 ACK []⟩]

private def reconnect : Event := ⟨200, .connect 5001 serverIp 80⟩

/-- The bytes that `recv` returned. -/
private def returnedBytes (seen : List Seen) : List (List UInt8) :=
  seen.filterMap fun
    | .sent _ => none
    | .returned bytes => some bytes

private theorem firstConnection_alike (byte byte' : UInt8) (reads : List Event) :
    List.Forall₂ Event.Alike (firstConnection byte reads) (firstConnection byte' reads) := by
  have hsame : ∀ es : List Event, List.Forall₂ Event.Alike es es := fun es =>
    List.forall₂_same.mpr fun e _ => ⟨rfl, .refl e.call⟩
  have hdata : Event.Alike ⟨102, fromPeer 701 101 (PSH ||| ACK) [byte]⟩
      ⟨102, fromPeer 701 101 (PSH ||| ACK) [byte']⟩ := by
    refine ⟨rfl, _, rfl, ?_⟩
    rw [parse_segmentBytes _ _ _ _ _ _ _ _ (by decide),
      parse_segmentBytes _ _ _ _ _ _ _ _ (by decide)]
    rfl
  have hopen : List.Forall₂ Event.Alike
      (List.take 4 (firstConnection byte reads)) (List.take 4 (firstConnection byte' reads)) :=
    List.rel_append (hsame (List.take 3 (firstConnection byte reads))) (.cons hdata .nil)
  exact List.rel_append hopen (hsame (reads ++ _))

/-- The byte that the first connection did not read is returned to the second one: the runs
    differ in that byte only, and so do the results of `recv`. -/
theorem unread_byte_leaks :
    let before := firstConnection 65 []
    let before' := firstConnection 66 []
    List.Forall₂ Event.Alike before before' ∧
    reconnect.call.Takes (Stack.boot.after before).conns 0 ∧
    ((Stack.boot.after before).outputs [reconnect, ⟨201, .recv 0 16⟩]).onSlot 0 ≠
      ((Stack.boot.after before').outputs [reconnect, ⟨201, .recv 0 16⟩]).onSlot 0 := by
  refine ⟨firstConnection_alike 65 66 [], ?_, ?_⟩
  · show ConnTable.freeSlot _ = some 0
    decide +kernel
  · intro hsame
    have hreturned := congrArg returnedBytes hsame
    revert hreturned
    decide +kernel

/-- Once the byte has been read, the slot can be reused, through the general statement. -/
theorem read_byte_isolated :
    let before := firstConnection 65 [⟨102, .recv 0 16⟩]
    let before' := firstConnection 66 [⟨102, .recv 0 16⟩]
    ((Stack.boot.after before).outputs [reconnect, ⟨201, .recv 0 16⟩]).onSlot 0 =
      ((Stack.boot.after before').outputs [reconnect, ⟨201, .recv 0 16⟩]).onSlot 0 := by
  intro before before'
  have hslot : ((Stack.boot.after before).conns[0]?.map fun c => (c.sendBuf, c.recvBuf)) =
      some ([], []) := by decide +kernel
  obtain ⟨c, hc, hbufs⟩ := Option.map_eq_some_iff.mp hslot
  refine slot_isolated_of_empty before before' (firstConnection_alike 65 66 _) reconnect 0 c
    ?_ hc (Prod.mk.inj hbufs) [⟨201, .recv 0 16⟩]
  show ConnTable.freeSlot _ = some 0
  decide +kernel

end Leak

end RustKernel.Net.Tcp
