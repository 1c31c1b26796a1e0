import RustKernel.Lib.Run
import RustKernel.Net.Tcp.Handlers

/-!
# RustKernel.Net.Tcp.SendLedger

The bytes that one connection accepts from `send`, followed by their position in the stream: which
of them have left the buffer, which positions were given sequence numbers, and which were carried by
a segment. The ledger only observes: it reads buffer and sequence number before and after each call,
and the datagrams that the call transmits.

## Main result

`act_effect`: a call on an open connection changes the buffer and then flushes its front
(`Flushes`), or it touches neither buffer nor sequence number and carries no data (`Quiet`), or it
is a reset. Which of them it is, is read off the event and the connection (`SendEvent.flushed`).
-/

namespace RustKernel.Net.Tcp

/-! ### Calls -/

inductive SendEvent where
  | send (now : UInt64) (data : List UInt8)
  | poll (now : UInt64)
  | receive (now : UInt64) (src : Ipv4Addr) (data : List UInt8)
  | setConfig (cfg : NetConfig)

/-- The calls on the connection: the number of bytes accepted, and the connection with the datagrams
    transmitted. -/
def SendEvent.act (cfg : Option NetConfig) (conn : TcpConn) : SendEvent → Nat × Tx
  | .send now data =>
    match conn.send ⟨cfg, now⟩ data with
    | (.ok n, tx) => (n, tx)
    | (.error _, tx) => (0, tx)
  | .poll now => (0, conn.poll ⟨cfg, now⟩)
  | .receive now src data =>
    match TcpHeader.parse data with
    | none => (0, conn, [])
    | some hdr => (0, conn.deliver ⟨cfg, now⟩ src hdr)
  | .setConfig _ => (0, conn, [])

def SendEvent.config (cfg : Option NetConfig) : SendEvent → Option NetConfig
  | .setConfig cfg => some cfg
  | _ => cfg

/-! ### The ledger -/

/-- The lengths of the transmitted payloads that are fronts of the buffer. -/
def sentFronts (buf : List UInt8) (out : List Datagram) : List Nat :=
  out.filterMap fun d => (TcpHeader.parse d.bytes).bind fun hdr =>
    if hdr.payload ≠ [] ∧ hdr.payload <+: buf then some hdr.payload.length else none

structure Ledger where
  cfg : Option NetConfig
  conn : TcpConn
  /-- The number of bytes that `send` accepted. -/
  accepted : Nat
  /-- The number of bytes that acknowledgements removed: the position of the front of the buffer. -/
  removed : Nat
  /-- No position from here on was given a sequence number. -/
  numbered : Nat
  /-- Whether a position was given a second one. -/
  renumbered : Bool
  /-- First position and length of each transmitted payload. -/
  sent : List (Nat × Nat)
  /-- The positions that were removed before they were transmitted. -/
  dropped : List Nat

/-- A connection whose ledger is opened now. -/
def Ledger.start (cfg : Option NetConfig) (conn : TcpConn) : Ledger :=
  ⟨cfg, conn, 0, 0, 0, false, [], []⟩

/-- The position was carried by a transmitted segment. -/
def Ledger.WasSent (t : Ledger) (p : Nat) : Prop := ∃ s ∈ t.sent, s.1 ≤ p ∧ p < s.1 + s.2

instance (t : Ledger) : DecidablePred t.WasSent :=
  fun p => inferInstanceAs (Decidable (∃ s ∈ t.sent, s.1 ≤ p ∧ p < s.1 + s.2))

def Ledger.step (t : Ledger) (e : SendEvent) : Ledger :=
  let (acceptedNow, conn, out) := e.act t.cfg t.conn
  -- a reset empties the buffer too, but it acknowledges nothing
  let gone := if conn.state = .closed then 0
    else t.conn.sendBuf.length + acceptedNow - conn.sendBuf.length
  let numbers := (conn.localSeq - t.conn.localSeq).toNat
  let removed := t.removed + gone
  { cfg := e.config t.cfg
    conn := conn
    accepted := t.accepted + acceptedNow
    removed := removed
    numbered := max t.numbered (removed + numbers)
    renumbered := t.renumbered || (0 < numbers && removed < t.numbered)
    sent := t.sent ++ (sentFronts conn.sendBuf out).map fun n => (removed, n)
    dropped := t.dropped ++
      ((List.range gone).map (t.removed + ·)).filter fun p => ¬t.WasSent p }

/-! ### What a call does -/

/-- Nothing is buffered, numbered or carried. -/
structure Quiet (conn : TcpConn) (tx : Tx) : Prop where
  buf_eq : tx.1.sendBuf = conn.sendBuf
  seq_eq : tx.1.localSeq = conn.localSeq
  bare : ∀ d ∈ tx.2, ∀ hdr, TcpHeader.parse d.bytes = some hdr → hdr.payload = []

/-- The buffer becomes `buf`, and one flush of it is numbered and, with a configuration, carried. -/
structure Flushes (cfg : Option NetConfig) (conn : TcpConn) (buf : List UInt8) (tx : Tx) :
    Prop where
  buf_eq : tx.1.sendBuf = buf
  seq_eq : tx.1.localSeq = conn.localSeq + UInt32.ofNat (min buf.length MSS)
  fronts_eq : sentFronts buf tx.2 =
    if cfg.isSome ∧ buf ≠ [] then [min buf.length MSS] else []

section

variable {env : Env} {cfg : Option NetConfig} {conn : TcpConn} {buf : List UInt8} {tx : Tx}
  {e : SendEvent}

theorem Quiet.refl (conn : TcpConn) : Quiet conn (conn, []) :=
  ⟨rfl, rfl, List.forall_mem_nil _⟩

private theorem sentFronts_of_bare {out : List Datagram}
    (h : ∀ d ∈ out, ∀ hdr, TcpHeader.parse d.bytes = some hdr → hdr.payload = []) :
    sentFronts buf out = [] := by
  apply List.filterMap_eq_nil_iff.mpr
  intro d hd
  cases hparse : TcpHeader.parse d.bytes with
  | none => rfl
  | some hdr => simp [h d hd hdr hparse]

private theorem sentFronts_append (buf : List UInt8) (out out' : List Datagram) :
    sentFronts buf (out ++ out') = sentFronts buf out ++ sentFronts buf out' :=
  List.filterMap_append

theorem Quiet.andThen {f : TcpConn → Tx} (h : Quiet conn tx) (hf : Quiet tx.1 (f tx.1)) :
    Quiet conn (tx.andThen f) where
  buf_eq := hf.buf_eq.trans h.buf_eq
  seq_eq := hf.seq_eq.trans h.seq_eq
  bare := by
    intro d hd
    rcases List.mem_append.mp hd with hd | hd
    · exact h.bare d hd
    · exact hf.bare d hd

theorem Flushes.andThen {f : TcpConn → Tx} (h : Flushes cfg conn buf tx)
    (hf : Quiet tx.1 (f tx.1)) : Flushes cfg conn buf (tx.andThen f) where
  buf_eq := hf.buf_eq.trans h.buf_eq
  seq_eq := hf.seq_eq.trans h.seq_eq
  fronts_eq := by
    rw [andThen_snd, sentFronts_append, sentFronts_of_bare hf.bare, List.append_nil]
    exact h.fronts_eq

/-- A bare acknowledgement, on a connection that differs in other fields. -/
private theorem bareAck_quiet {c : TcpConn} (hbuf : c.sendBuf = conn.sendBuf)
    (hseq : c.localSeq = conn.localSeq) : Quiet conn (sendSegmentRaw env c ACK []) := by
  obtain ⟨-, -, -, -, hseq', -, -, hbuf', -⟩ := sendSegmentRaw_frame env c ACK []
  refine ⟨hbuf'.trans hbuf, hseq'.trans hseq, ?_⟩
  intro d hd hdr hparse
  obtain ⟨-, cksum, hcarries⟩ := sendSegmentRaw_carries env c ACK [] (by decide) d hd
  rw [Option.some.inj (hparse.symm.trans hcarries)]
  rfl

private theorem flushSend_flushes (env : Env) (conn : TcpConn) :
    Flushes env.cfg conn conn.sendBuf (flushSend env conn) := by
  obtain ⟨-, -, -, -, hseq, -, -, hbuf, -⟩ := flushSend_frame env conn
  refine ⟨hbuf, hseq, ?_⟩
  rw [flushSend]
  split
  case isTrue hempty =>
    rw [List.length_eq_zero_iff.mp hempty]
    simp [sentFronts]
  case isFalse hne =>
    have hne' : conn.sendBuf ≠ [] := fun h => hne (by rw [h]; rfl)
    have hlen : (conn.sendBuf.take (min conn.sendBuf.length MSS)).length =
        min conn.sendBuf.length MSS := by
      rw [List.length_take]
      omega
    have hpos : conn.sendBuf.take (min conn.sendBuf.length MSS) ≠ [] := by
      apply List.ne_nil_of_length_pos
      rw [hlen, MSS]
      omega
    cases hcfg : env.cfg with
    | none => simp [sendSegment, sendSegmentRaw, hcfg, sentFronts]
    | some cfg =>
      -- at most `MSS` bytes are taken, so the segment is built
      rw [sendSegment]
      generalize hfront : conn.sendBuf.take (min conn.sendBuf.length MSS) = front at hlen hpos
      obtain ⟨d, cksum, hsend, hparse⟩ := sendSegmentRaw_configured
        { conn with localSeq := conn.localSeq + consumed (PSH ||| ACK) front } hcfg
        (show front.length ≤ MSS by omega)
        (show (PSH ||| ACK) &&& 0x3F = PSH ||| ACK by decide)
      have hpart : front <+: conn.sendBuf := hfront ▸ List.take_prefix _ _
      rw [hsend, if_pos ⟨rfl, hne'⟩]
      simp only [sentFronts, List.filterMap_cons, List.filterMap_nil, hparse, Option.bind_some,
        builtHeader, ne_eq, hpos, not_false_iff, hpart, and_self, if_true, hlen]

/-! ### The calls, one by one -/

/-- `handle_established` takes the acknowledgement of the segment. -/
def takesAck (conn : TcpConn) (hdr : TcpHeader) : Bool :=
  has hdr.flags ACK &&
    (seqLt (conn.localSeq - UInt32.ofNat conn.sendBuf.length) hdr.ack || hdr.ack == conn.localSeq)

private theorem establishedAck_flushes (hdr : TcpHeader) (h : takesAck conn hdr = true) :
    Flushes env.cfg conn (conn.sendBuf.drop (ackedBytes conn hdr.ack))
      (establishedAck env conn hdr) := by
  obtain ⟨hack, hseq⟩ := Bool.and_eq_true_iff.mp h
  rw [establishedAck, hack]
  simp only [Bool.not_true, Bool.false_eq_true, if_false, hseq, if_true]
  obtain ⟨hbuf, hlocal, hfronts⟩ := flushSend_flushes env
    { conn with
      retries := 0
      rtoMs := RTO_MS
      sendBuf := conn.sendBuf.drop (ackedBytes conn hdr.ack)
      sendAcked := hdr.ack.toNat }
  exact ⟨hbuf, hlocal, hfronts⟩

private theorem establishedAck_refused (hdr : TcpHeader) (h : takesAck conn hdr = false) :
    establishedAck env conn hdr = (conn, []) := by
  rw [establishedAck]
  split
  · rfl
  case isFalse hack =>
    rw [Bool.not_eq_true, Bool.not_eq_false'] at hack
    rw [takesAck, hack, Bool.true_and] at h
    simp [h]

/-- What follows the acknowledgement answers with bare acknowledgements. -/
private theorem afterAck_quiet (env : Env) (conn : TcpConn) (hdr : TcpHeader) :
    Quiet conn (if !hdr.payload.isEmpty && hdr.seq ≠ conn.remoteSeq then
      sendSegmentRaw env conn ACK []
    else (establishedData env conn hdr).andThen fun conn => establishedFin env conn hdr) := by
  have hfin : ∀ c, Quiet c (establishedFin env c hdr) := by
    intro c
    rw [establishedFin]
    split
    · exact .refl c
    · obtain ⟨hbuf, hseq, hbare⟩ := @bareAck_quiet env c
        { c with remoteSeq := c.remoteSeq + 1, localAck := c.remoteSeq + 1 } rfl rfl
      exact ⟨hbuf, hseq, hbare⟩
  have hdata : Quiet conn (establishedData env conn hdr) := by
    rw [establishedData]
    split
    · exact .refl conn
    · exact bareAck_quiet rfl rfl
  split
  · exact bareAck_quiet rfl rfl
  · exact hdata.andThen (hfin _)

private theorem handleEstablished_flushes (hdr : TcpHeader) (h : takesAck conn hdr = true) :
    Flushes env.cfg conn (conn.sendBuf.drop (ackedBytes conn hdr.ack))
      (handleEstablished env conn hdr) :=
  (establishedAck_flushes hdr h).andThen (afterAck_quiet env _ hdr)

private theorem handleEstablished_quiet (hdr : TcpHeader) (h : takesAck conn hdr = false) :
    Quiet conn (handleEstablished env conn hdr) := by
  rw [handleEstablished, establishedAck_refused hdr h]
  exact (Quiet.refl conn).andThen (afterAck_quiet env conn hdr)

private theorem handleCloseWait_quiet (env : Env) (conn : TcpConn) (hdr : TcpHeader) :
    Quiet conn (handleCloseWait env conn hdr) := by
  have hfin : ∀ c : TcpConn, Quiet c (if has hdr.flags FIN then
      sendSegmentRaw env { c with localAck := c.remoteSeq } ACK [] else (c, [])) := by
    intro c
    split
    · obtain ⟨hbuf, hseq, hbare⟩ := @bareAck_quiet env c { c with localAck := c.remoteSeq } rfl rfl
      exact ⟨hbuf, hseq, hbare⟩
    · exact .refl c
  rw [handleCloseWait]
  refine Quiet.andThen ?_ (hfin _)
  split
  · exact bareAck_quiet rfl rfl
  · exact .refl conn

private theorem deliver_of_open (src : Ipv4Addr) (hdr : TcpHeader)
    (hstate : conn.state = .closeWait ∨ conn.state = .closed) (hrst : has hdr.flags RST = false) :
    conn.deliver env src hdr = if conn.state = .closeWait then
      handleCloseWait env (conn.bindRemote src hdr) hdr else (conn.bindRemote src hdr, []) := by
  rcases hstate with hstate | hstate
  all_goals simp [TcpConn.deliver, hrst, processSegment, hstate]

/-- The bytes that `send` takes of its argument. -/
def acceptable (conn : TcpConn) (data : List UInt8) : Nat :=
  min data.length (SEND_BUF_LEN - conn.sendBuf.length)

/-- Where the acknowledgement number lies behind the number of the front of the buffer. -/
def ackOffset (conn : TcpConn) (ack : UInt32) : Nat :=
  (ack - (conn.localSeq - UInt32.ofNat conn.sendBuf.length)).toNat

theorem ackedBytes_eq (conn : TcpConn) (ack : UInt32) :
    ackedBytes conn ack = min (ackOffset conn ack) conn.sendBuf.length := rfl

/-- `send` and `poll` use the buffer of the connection. -/
def TcpConn.IsOpen (conn : TcpConn) : Prop := conn.state = .established ∨ conn.state = .closeWait

instance (conn : TcpConn) : Decidable conn.IsOpen := by
  unfold TcpConn.IsOpen
  infer_instance

/-- The number of bytes that the call accepts and the buffer that it flushes, if it flushes one. -/
def SendEvent.flushed (conn : TcpConn) : SendEvent → Option (Nat × List UInt8)
  | .send _ data =>
    if conn.IsOpen ∧ acceptable conn data ≠ 0 then
      some (acceptable conn data, conn.sendBuf ++ data.take (acceptable conn data))
    else none
  | .poll _ => if conn.IsOpen ∧ conn.sendBuf ≠ [] then some (0, conn.sendBuf) else none
  | .receive _ _ data =>
    match TcpHeader.parse data with
    | none => none
    | some hdr =>
      if has hdr.flags RST = false ∧ conn.state = .established ∧ takesAck conn hdr = true then
        some (0, conn.sendBuf.drop (ackedBytes conn hdr.ack))
      else none
  | .setConfig _ => none

/-- A call flushes, is quiet, or is a reset. -/
inductive Effect (cfg : Option NetConfig) (conn : TcpConn) :
    Option (Nat × List UInt8) → Nat × Tx → Prop
  | flushes {new : Nat} {buf : List UInt8} {tx : Tx} (isOpen : tx.1.IsOpen)
      (h : Flushes cfg conn buf tx) : Effect cfg conn (some (new, buf)) (new, tx)
  | quiet {tx : Tx} (isOpen : conn.IsOpen → tx.1.IsOpen)
      (isClosed : conn.state = .closed → tx.1.state = .closed) (h : Quiet conn tx) :
      Effect cfg conn none (0, tx)
  | reset : Effect cfg conn none (0, TcpConn.new, [])

private theorem act_send (now : UInt64) (data : List UInt8) :
    (SendEvent.send now data).act cfg conn =
      if conn.IsOpen ∧ acceptable conn data ≠ 0 then
        (acceptable conn data, flushSend ⟨cfg, now⟩
          { conn with sendBuf := conn.sendBuf ++ data.take (acceptable conn data) })
      else (0, conn, []) := by
  have hrefused : (conn.state ≠ .established ∧ conn.state ≠ .closeWait) ↔ ¬conn.IsOpen := not_or.symm
  simp only [SendEvent.act, TcpConn.send, hrefused]
  by_cases hopen : conn.IsOpen
  · simp only [hopen, not_true, if_false, true_and]
    change (match (if acceptable conn data = 0 then _ else _ : Except String Nat × Tx) with
      | (.ok n, tx) => (n, tx)
      | (.error _, tx) => (0, tx)) = _
    by_cases h : acceptable conn data = 0
    · rw [if_pos h, if_neg (not_not.mpr h)]
    · rw [if_neg h, if_pos h]
      rfl
  · simp only [hopen, not_false_iff, if_true, false_and, if_false]

private theorem send_effect (now : UInt64) (data : List UInt8) :
    Effect cfg conn ((SendEvent.send now data).flushed conn)
      ((SendEvent.send now data).act cfg conn) := by
  rw [SendEvent.flushed, act_send]
  split
  case isTrue h =>
    obtain ⟨hbuf, hseq, hfronts⟩ := flushSend_flushes ⟨cfg, now⟩
      { conn with sendBuf := conn.sendBuf ++ data.take (acceptable conn data) }
    refine .flushes ?_ ⟨hbuf, hseq, hfronts⟩
    rw [TcpConn.IsOpen, (flushSend_frame _ _).1]
    exact h.1
  case isFalse => exact .quiet id id (.refl conn)

private theorem poll_effect (hstate : conn.IsOpen ∨ conn.state = .closed) (now : UInt64) :
    Effect cfg conn ((SendEvent.poll now).flushed conn) ((SendEvent.poll now).act cfg conn) := by
  rw [SendEvent.flushed, SendEvent.act]
  rcases hstate with hopen | hclosed
  · have hpoll : conn.poll ⟨cfg, now⟩ =
        if conn.sendBuf.length > 0 then flushSend ⟨cfg, now⟩ conn else (conn, []) := by
      rcases hopen with hstate | hstate
      all_goals simp only [TcpConn.poll, hstate]
    rw [hpoll]
    by_cases h : conn.sendBuf = []
    · rw [if_neg fun hboth => hboth.2 h, if_neg (by simp [h])]
      exact .quiet id id (.refl conn)
    · rw [if_pos ⟨hopen, h⟩, if_pos (List.length_pos_of_ne_nil h)]
      refine .flushes ?_ (flushSend_flushes ⟨cfg, now⟩ conn)
      rw [TcpConn.IsOpen, (flushSend_frame _ _).1]
      exact hopen
  · have hpoll : conn.poll ⟨cfg, now⟩ = (conn, []) := by simp only [TcpConn.poll, hclosed]
    have hnot : ¬(conn.IsOpen ∧ conn.sendBuf ≠ []) := by simp [TcpConn.IsOpen, hclosed]
    rw [hpoll, if_neg hnot]
    exact .quiet id id (.refl conn)

private theorem receive_effect (hstate : conn.IsOpen ∨ conn.state = .closed) (now : UInt64)
    (src : Ipv4Addr) (data : List UInt8) :
    Effect cfg conn ((SendEvent.receive now src data).flushed conn)
      ((SendEvent.receive now src data).act cfg conn) := by
  rw [SendEvent.flushed, SendEvent.act]
  cases TcpHeader.parse data with
  | none => exact .quiet id id (.refl conn)
  | some hdr =>
    dsimp only
    by_cases hrst : has hdr.flags RST = true
    · have hdeliver : conn.deliver ⟨cfg, now⟩ src hdr = (TcpConn.new, []) := if_pos hrst
      rw [hdeliver, if_neg fun h => by simp [hrst] at h]
      exact .reset
    rw [Bool.not_eq_true] at hrst
    -- only the established state looks at the number of an acknowledgement
    by_cases hest : conn.state = .established
    · rw [deliver_of_established _ conn hdr src hest hrst]
      have hopen := handleEstablished_state ⟨cfg, now⟩ (conn.bindRemote src hdr) hdr hest
      by_cases hack : takesAck conn hdr = true
      · rw [if_pos ⟨hrst, hest, hack⟩]
        obtain ⟨hbuf, hseq, hfronts⟩ :=
          @handleEstablished_flushes ⟨cfg, now⟩ (conn.bindRemote src hdr) hdr hack
        exact .flushes hopen ⟨hbuf, hseq, hfronts⟩
      · rw [if_neg fun h => hack h.2.2]
        obtain ⟨hbuf, hseq, hbare⟩ := @handleEstablished_quiet ⟨cfg, now⟩ (conn.bindRemote src hdr)
          hdr (Bool.not_eq_true _ ▸ hack)
        exact .quiet (fun _ => hopen) (fun h => by simp [hest] at h) ⟨hbuf, hseq, hbare⟩
    · rw [if_neg fun h => hest h.2.1]
      have hother : conn.state = .closeWait ∨ conn.state = .closed := by
        rcases hstate with (h | h) | h
        · exact absurd h hest
        · exact .inl h
        · exact .inr h
      rw [deliver_of_open src hdr hother hrst]
      -- neither of the other two states sends data
      rcases hother with hwait | hclosed
      · rw [if_pos hwait]
        obtain ⟨hbuf, hseq, hbare⟩ := handleCloseWait_quiet ⟨cfg, now⟩ (conn.bindRemote src hdr) hdr
        have hstays : (handleCloseWait ⟨cfg, now⟩ (conn.bindRemote src hdr) hdr).1.state =
            .closeWait := (handleCloseWait_state _ _ _).trans hwait
        exact .quiet (fun _ => .inr hstays) (fun h => by simp [hwait] at h) ⟨hbuf, hseq, hbare⟩
      · rw [if_neg (by simp [hclosed])]
        exact .quiet id id ⟨rfl, rfl, List.forall_mem_nil _⟩

/-- What a call does to a connection that is open, or that a reset has closed. -/
theorem act_effect (cfg : Option NetConfig) (hstate : conn.IsOpen ∨ conn.state = .closed)
    (e : SendEvent) : Effect cfg conn (e.flushed conn) (e.act cfg conn) := by
  cases e with
  | send now data => exact send_effect now data
  | poll now => exact poll_effect hstate now
  | receive now src data => exact receive_effect hstate now src data
  | setConfig cfg => exact .quiet id id (.refl conn)

/-- What is flushed was buffered, or is accepted now. -/
theorem flushed_length_le {new : Nat} (h : e.flushed conn = some (new, buf)) :
    buf.length ≤ conn.sendBuf.length + new := by
  cases e with
  | send now data =>
    rw [SendEvent.flushed] at h
    split at h
    · cases h
      rw [List.length_append, List.length_take]
      exact Nat.add_le_add_left (Nat.min_le_left _ _) _
    · cases h
  | poll now =>
    rw [SendEvent.flushed] at h
    split at h
    · cases h
      exact Nat.le_refl _
    · cases h
  | receive now src data =>
    rw [SendEvent.flushed] at h
    split at h
    · cases h
    · split at h
      · cases h
        rw [List.length_drop]
        exact Nat.sub_le _ _
      · cases h
  | setConfig cfg => cases h

/-! ### Steps of the ledger -/

variable {t : Ledger}

theorem step_conn (t : Ledger) (e : SendEvent) : (t.step e).conn = (e.act t.cfg t.conn).2.1 := rfl

theorem step_of_quiet (hact : e.act t.cfg t.conn = (0, tx)) (h : Quiet t.conn tx) :
    t.step e = { t with
      cfg := e.config t.cfg
      conn := tx.1
      numbered := max t.numbered t.removed } := by
  have hgone : (if tx.1.state = .closed then 0 else
      t.conn.sendBuf.length + 0 - tx.1.sendBuf.length) = 0 := by
    rw [h.buf_eq]
    split <;> omega
  have hnumbers : (tx.1.localSeq - t.conn.localSeq).toNat = 0 := by
    rw [h.seq_eq, UInt32.sub_self]
    rfl
  simp only [Ledger.step, hact, hgone, hnumbers, sentFronts_of_bare h.bare]
  simp

theorem step_of_reset (hact : e.act t.cfg t.conn = (0, TcpConn.new, [])) :
    (t.step e).dropped = t.dropped := by
  have hclosed : TcpConn.new.state = .closed := rfl
  simp [Ledger.step, hact, hclosed]

theorem config_isSome (h : cfg.isSome) : (e.config cfg).isSome := by
  cases e with
  | setConfig cfg => rfl
  | send | poll | receive => exact h

/-- The bytes that leave the buffer when it becomes `buf`. -/
def goneBytes (t : Ledger) (new : Nat) (buf : List UInt8) : Nat :=
  t.conn.sendBuf.length + new - buf.length

/-- `send` removes nothing. -/
theorem goneBytes_accepted (t : Ledger) (data : List UInt8) :
    goneBytes t (acceptable t.conn data)
      (t.conn.sendBuf ++ data.take (acceptable t.conn data)) = 0 := by
  have hle : acceptable t.conn data ≤ data.length := Nat.min_le_left _ _
  rw [goneBytes, List.length_append, List.length_take, Nat.min_eq_left hle, Nat.sub_self]

theorem goneBytes_acked (t : Ledger) (ack : UInt32) :
    goneBytes t 0 (t.conn.sendBuf.drop (ackedBytes t.conn ack)) = ackedBytes t.conn ack := by
  have hle : ackedBytes t.conn ack ≤ t.conn.sendBuf.length := Nat.min_le_right _ _
  rw [goneBytes, List.length_drop]
  omega

theorem step_of_flushes {new : Nat} (hact : e.act t.cfg t.conn = (new, tx))
    (hopen : tx.1.IsOpen) (h : Flushes t.cfg t.conn buf tx) :
    t.step e =
      { cfg := e.config t.cfg
        conn := tx.1
        accepted := t.accepted + new
        removed := t.removed + goneBytes t new buf
        numbered := max t.numbered (t.removed + goneBytes t new buf + min buf.length MSS)
        renumbered := t.renumbered || (0 < min buf.length MSS &&
          t.removed + goneBytes t new buf < t.numbered)
        sent := t.sent ++ if t.cfg.isSome ∧ buf ≠ [] then
          [(t.removed + goneBytes t new buf, min buf.length MSS)] else []
        dropped := t.dropped ++ ((List.range (goneBytes t new buf)).map (t.removed + ·)).filter
          fun p => ¬t.WasSent p } := by
  have hstate : tx.1.state ≠ .closed := by
    rcases hopen with h | h
    all_goals simp [h]
  -- the numbers a flush gives out are the bytes of one segment
  have hnumbers : (tx.1.localSeq - t.conn.localSeq).toNat = min buf.length MSS := by
    have hle : min buf.length MSS < 2 ^ 32 := lt_of_le_of_lt (Nat.min_le_right _ _) (by decide)
    rw [h.seq_eq, UInt32.add_comm, UInt32.add_sub_cancel, UInt32.toNat_ofNat',
      Nat.mod_eq_of_lt hle]
  simp only [Ledger.step, hact, if_neg hstate, h.buf_eq, hnumbers, h.fronts_eq, goneBytes]
  split
  · rfl
  · rfl

end

/-! ### A connection for the sample runs -/

namespace Sample

def cfg : NetConfig := ⟨⟨10, 0, 2, 15⟩⟩

/-- An established connection with nothing buffered. -/
def conn : TcpConn := { TcpConn.new with state := .established, remoteIp := ⟨10, 0, 2, 2⟩ }

/-- A bare acknowledgement from the peer. -/
def acknowledge (ack : UInt32) : SendEvent :=
  .receive 0 ⟨10, 0, 2, 2⟩
    (segmentBytes 0 0 0 ack ACK WINDOW 0 [])

end Sample

end RustKernel.Net.Tcp
