import RustKernel.Net.Tcp.Handlers

/-!
# RustKernel.Net.Tcp.Receiving

What the handlers of the synchronized states do with the data and the FIN of a segment.

## Main results

- `orderKept_iff`: a segment out of order leaves the received stream alone exactly when the handler
  does not take its FIN (`takesFin`), which only the data branches compare with `remote_seq`.
- `receivesInOrder_iff`: the next segment in order is stored, counted and acknowledged exactly when
  it brings nothing, or there is a network configuration and the state is `Established` or the
  segment brings no data. The two FIN_WAIT handlers acknowledge no data, and drop the data of a FIN.

## Proof strategy

`Skips` says what a handler does with a segment out of order; one lemma per handler shows it. For a
segment in order `handle_established` is taken block by block, and the two FIN_WAIT handlers are
first shown to agree (`finWaitTaken`).
-/

namespace RustKernel.Net.Tcp

/-- The states in which the peer's data and FIN are expected. -/
def TcpState.receives : TcpState → Bool
  | .established | .finWait1 | .finWait2 | .closeWait => true
  | _ => false

private theorem TcpState.receives_cases {state : TcpState} (h : state.receives = true) :
    state = .established ∨ state = .finWait1 ∨ state = .finWait2 ∨ state = .closeWait := by
  cases state <;> simp [TcpState.receives] at h ⊢

/-- The received stream: the number expected next, and the bytes not yet taken by `recv`. -/
def TcpConn.stream (conn : TcpConn) : UInt32 × List UInt8 := (conn.remoteSeq, conn.recvBuf)

/-! ### The stream after each block -/

section Blocks

variable (env : Env) (conn : TcpConn) (hdr : TcpHeader)

@[simp] theorem sendSegmentRaw_stream (flags : UInt8) (payload : List UInt8) :
    (sendSegmentRaw env conn flags payload).1.stream = conn.stream := by
  simp [TcpConn.stream]

@[simp] theorem establishedAck_stream : (establishedAck env conn hdr).1.stream = conn.stream := by
  simp [TcpConn.stream]

private theorem finWaitData_of_outOfOrder (hseq : hdr.seq ≠ conn.remoteSeq) :
    finWaitData conn hdr = conn := by
  simp [finWaitData, hseq]

end Blocks

/-! ### Sample connections and segments -/

/-- The host the sample segments come from. -/
private def host : Ipv4Addr := ⟨10, 0, 2, 2⟩

private def configured : Env := ⟨some ⟨⟨10, 0, 2, 15⟩⟩, 0⟩

/-- A connection that expects byte 500 from port 4000 of the host. -/
private def expecting (state : TcpState) : TcpConn :=
  { TcpConn.new with
    state, localPort := 80, remoteIp := host, remotePort := 4000, localSeq := 100, remoteSeq := 500,
    localAck := 500 }

private def segmentAt (seq : UInt32) (flags : UInt8) (payload : List UInt8) : TcpHeader :=
  builtHeader 4000 80 seq 100 flags WINDOW 0 payload

/-! ### Segments out of order -/

/-- The handler counts the FIN of the segment. -/
def takesFin (conn : TcpConn) (hdr : TcpHeader) : Bool :=
  match conn.state with
  -- a payload out of order ends the handler before its FIN block
  | .established => has hdr.flags FIN && hdr.payload.isEmpty
  | .finWait1 => has hdr.flags ACK && has hdr.flags FIN
  | .finWait2 => has hdr.flags FIN
  | _ => false

/-- The segment changes nothing of the received stream and does not end it. -/
structure OrderKept (env : Env) (conn : TcpConn) (src : Ipv4Addr) (hdr : TcpHeader) : Prop where
  remoteSeq_eq : (conn.deliver env src hdr).1.remoteSeq = conn.remoteSeq
  recvBuf_eq : (conn.deliver env src hdr).1.recvBuf = conn.recvBuf
  not_closeWait : (conn.deliver env src hdr).1.state = .closeWait → conn.state = .closeWait
  not_timeWait : (conn.deliver env src hdr).1.state ≠ .timeWait

section OutOfOrder

variable {env : Env} {conn : TcpConn} {src : Ipv4Addr} {hdr : TcpHeader}

/-- What a handler does with a segment out of order: it takes the FIN as the end of the stream, or
    leaves the stream alone. -/
structure Skips (conn after : TcpConn) (taken : Bool) : Prop where
  kept : taken = false → after.stream = conn.stream ∧ after.state ≠ .timeWait ∧
    (after.state = .closeWait → conn.state = .closeWait)
  ended : taken = true →
    after.state = .timeWait ∨ after.state = .closeWait ∧ conn.state ≠ .closeWait

private theorem handleEstablished_skips (hstate : conn.state = .established)
    (hseq : hdr.seq ≠ conn.remoteSeq) :
    Skips conn (handleEstablished env conn hdr).1 (has hdr.flags FIN && hdr.payload.isEmpty) := by
  by_cases hpayload : hdr.payload = []
  · have hfin : (handleEstablished env conn hdr).1 =
        (establishedFin env (establishedAck env conn hdr).1 hdr).1 := by
      simp [handleEstablished, Tx.andThen, establishedData, hpayload]
    rw [hfin, establishedFin, hpayload, List.isEmpty_nil, Bool.and_true]
    constructor
    · intro hnot
      simp [hnot, hstate]
    · intro htaken
      simp [htaken, hstate]
  · have hempty : hdr.payload.isEmpty = false := by simpa using hpayload
    rw [handleEstablished_of_outOfOrder env conn hdr hpayload hseq, hempty, Bool.and_false]
    constructor
    · intro
      simp [hstate]
    · intro htaken
      cases htaken

private theorem enterTimeWait_state : (enterTimeWait env conn).1.state = .timeWait := rfl

private theorem handleFinWait1_skips (hstate : conn.state = .finWait1)
    (hseq : hdr.seq ≠ conn.remoteSeq) :
    Skips conn (handleFinWait1 env conn hdr).1 (has hdr.flags ACK && has hdr.flags FIN) := by
  rw [handleFinWait1]
  dsimp only
  constructor
  · intro hnot
    -- without the ACK flag the FIN is not looked at
    cases hack : has hdr.flags ACK with
    | false => simp [finWaitData_of_outOfOrder _ _ hseq, hstate]
    | true =>
      rw [hack, Bool.true_and] at hnot
      have hsame : finWaitData { conn with state := .finWait2 } hdr =
          { conn with state := .finWait2 } := finWaitData_of_outOfOrder _ _ hseq
      simp [hnot, hsame, TcpConn.stream]
  · intro htaken
    obtain ⟨hack, hfin⟩ := (Bool.and_eq_true _ _).mp htaken
    simp [hack, hfin, finWaitData_state, enterTimeWait_state]

private theorem handleFinWait2_skips (hstate : conn.state = .finWait2)
    (hseq : hdr.seq ≠ conn.remoteSeq) :
    Skips conn (handleFinWait2 env conn hdr).1 (has hdr.flags FIN) := by
  rw [handleFinWait2]
  dsimp only
  constructor
  · intro hnot
    simp [hnot, finWaitData_of_outOfOrder _ _ hseq, hstate]
  · intro htaken
    simp [htaken, finWaitData_state, enterTimeWait_state]

private theorem handleCloseWait_skips (hstate : conn.state = .closeWait)
    (hseq : hdr.seq ≠ conn.remoteSeq) :
    Skips conn (handleCloseWait env conn hdr).1 false := by
  constructor
  · intro
    have hdropped : (!hdr.payload.isEmpty && hdr.seq == conn.remoteSeq) = false := by simp [hseq]
    rw [handleCloseWait, hdropped, andThen_fst]
    cases has hdr.flags FIN with
    | false => simp [hstate]
    | true => simp [hstate, TcpConn.stream]
  · intro htaken
    cases htaken

private theorem processSegment_skips (hstate : conn.state.receives = true)
    (hseq : hdr.seq ≠ conn.remoteSeq) :
    Skips conn (processSegment env conn hdr).1 (takesFin conn hdr) := by
  rw [processSegment, takesFin]
  rcases TcpState.receives_cases hstate with hcase | hcase | hcase | hcase <;> rw [hcase]
  · exact handleEstablished_skips hcase hseq
  · exact handleFinWait1_skips hcase hseq
  · exact handleFinWait2_skips hcase hseq
  · exact handleCloseWait_skips hcase hseq

/-- **In-order acceptance**: a segment out of order leaves the stream alone exactly when its FIN is
    not taken. -/
theorem orderKept_iff (hstate : conn.state.receives = true) (hrst : has hdr.flags RST = false)
    (hseq : hdr.seq ≠ conn.remoteSeq) :
    OrderKept env conn src hdr ↔ takesFin conn hdr = false := by
  have hbound :
      Skips (conn.bindRemote src hdr) (conn.deliver env src hdr).1 (takesFin conn hdr) := by
    rw [TcpConn.deliver, hrst]
    exact processSegment_skips hstate hseq
  cases htaken : takesFin conn hdr with
  | false =>
    obtain ⟨hstream, hwait, hclose⟩ := hbound.kept htaken
    obtain ⟨hremote, hbuf⟩ := Prod.mk.inj hstream
    exact iff_of_true ⟨hremote, hbuf, hclose, hwait⟩ rfl
  | true =>
    refine iff_of_false (fun h => ?_) (by decide)
    rcases hbound.ended htaken with hwait | ⟨hclose, hopen⟩
    · exact h.not_timeWait hwait
    · exact hopen (h.not_closeWait hclose)

end OutOfOrder

/-- An established connection ignores the data and the FIN of a segment that comes too early. -/
theorem early_data_and_fin_kept :
    OrderKept configured (expecting .established) host (segmentAt 600 (FIN ||| ACK) [1, 2]) :=
  (orderKept_iff rfl (by decide) (by decide)).mpr (by decide)

/-- A bare FIN 100 bytes ahead of the stream ends it. -/
theorem early_fin_taken :
    let conn := expecting .established
    let hdr := segmentAt 600 (FIN ||| ACK) []
    conn.state.receives = true ∧ has hdr.flags RST = false ∧ hdr.seq ≠ conn.remoteSeq ∧
      ¬OrderKept configured conn host hdr := by
  refine ⟨rfl, by decide, by decide, fun h => ?_⟩
  have hclosed : ((expecting .established).deliver configured host
      (segmentAt 600 (FIN ||| ACK) [])).1.state = .closeWait := by
    rw [deliver_of_established _ _ _ _ rfl (by decide)]
    rfl
  exact absurd (h.not_closeWait hclosed) (by decide)

/-! ### Segments in order -/

section InOrder

variable {env : Env} {cfg : NetConfig} {conn : TcpConn} {src : Ipv4Addr} {hdr : TcpHeader}

/-- The number expected after the segment. -/
def nextSeq (conn : TcpConn) (hdr : TcpHeader) : UInt32 :=
  conn.remoteSeq + UInt32.ofNat hdr.payload.length + if has hdr.flags FIN then 1 else 0

/-- An acknowledgement of `seq` is among the datagrams. -/
def Acknowledges (out : List Datagram) (seq : UInt32) : Prop :=
  ∃ d ∈ out, ∃ ack, TcpHeader.parse d.bytes = some ack ∧ has ack.flags ACK = true ∧ ack.ack = seq

/-- The payload is appended, the segment counted, and acknowledged if it brings anything. -/
structure ReceivesInOrder (conn : TcpConn) (hdr : TcpHeader) (after : Tx) : Prop where
  recvBuf_eq : after.1.recvBuf = conn.recvBuf ++ hdr.payload
  remoteSeq_eq : after.1.remoteSeq = nextSeq conn hdr
  acknowledged : hdr.payload ≠ [] ∨ has hdr.flags FIN = true →
    Acknowledges after.2 after.1.remoteSeq

/-- The segment brings no data and no FIN. -/
def Empty (hdr : TcpHeader) : Prop := hdr.payload = [] ∧ has hdr.flags FIN = false

theorem Acknowledges.append_right {out out' : List Datagram} {seq : UInt32}
    (h : Acknowledges out' seq) : Acknowledges (out ++ out') seq := by
  obtain ⟨d, hd, hack⟩ := h
  exact ⟨d, List.mem_append_right _ hd, hack⟩

theorem Acknowledges.append_left {out out' : List Datagram} {seq : UInt32}
    (h : Acknowledges out seq) : Acknowledges (out ++ out') seq := by
  obtain ⟨d, hd, hack⟩ := h
  exact ⟨d, List.mem_append_left _ hd, hack⟩

/-- With a configuration a bare ACK goes out and carries `local_ack`. -/
private theorem bareAck_acknowledges (hcfg : env.cfg = some cfg) (conn : TcpConn) :
    Acknowledges (sendSegmentRaw env conn ACK []).2 conn.localAck := by
  have hbare : ([] : List UInt8).length ≤ MSS := Nat.zero_le _
  obtain ⟨d, cksum, hsend, hparse⟩ := sendSegmentRaw_configured conn hcfg hbare
    (by decide : ACK &&& 0x3F = ACK)
  have hflag : has ACK ACK = true := by decide
  rw [hsend]
  exact ⟨d, List.mem_singleton_self d, _, hparse, hflag, rfl⟩

/-- The payload fits in the free part of the receive buffer. -/
def Fits (conn : TcpConn) (hdr : TcpHeader) : Prop :=
  hdr.payload.length ≤ RECV_BUF_LEN - conn.recvBuf.length

private theorem acceptPayload_of_fits (h : Fits conn hdr) :
    (acceptPayload conn hdr.payload).recvBuf = conn.recvBuf ++ hdr.payload := by
  have hwhole : min hdr.payload.length (RECV_BUF_LEN - conn.recvBuf.length) = hdr.payload.length :=
    Nat.min_eq_left h
  simp only [acceptPayload]
  rw [hwhole, List.take_length]

/-! The blocks of `handle_established`. -/

private theorem establishedData_receives (env : Env) (h : Fits conn hdr) :
    let after := (establishedData env conn hdr).1
    after.recvBuf = conn.recvBuf ++ hdr.payload ∧
      after.remoteSeq = conn.remoteSeq + UInt32.ofNat hdr.payload.length := by
  rw [establishedData]
  split
  · next hempty =>
    rw [List.isEmpty_iff] at hempty
    simp [hempty]
  · simp only [sendSegmentRaw_frame, acceptPayload_of_fits h]
    exact ⟨trivial, rfl⟩

private theorem establishedData_acknowledges (hcfg : env.cfg = some cfg) (conn : TcpConn)
    (hpayload : hdr.payload ≠ []) :
    Acknowledges (establishedData env conn hdr).2
      (conn.remoteSeq + UInt32.ofNat hdr.payload.length) := by
  have hdata : hdr.payload.isEmpty = false := by simpa using hpayload
  rw [establishedData, hdata]
  exact bareAck_acknowledges hcfg _

private theorem establishedFin_receives (env : Env) (conn : TcpConn) (hdr : TcpHeader) :
    let after := (establishedFin env conn hdr).1
    after.recvBuf = conn.recvBuf ∧
      after.remoteSeq = conn.remoteSeq + if has hdr.flags FIN then 1 else 0 := by
  rw [establishedFin]
  cases has hdr.flags FIN <;> simp

private theorem establishedFin_acknowledges (hcfg : env.cfg = some cfg) (conn : TcpConn)
    (hfin : has hdr.flags FIN = true) :
    Acknowledges (establishedFin env conn hdr).2 (conn.remoteSeq + 1) := by
  rw [establishedFin, hfin]
  exact bareAck_acknowledges hcfg _

/-- The acknowledgement block comes first and leaves the receive side alone. -/
theorem Fits.afterAck (h : Fits conn hdr) (env : Env) :
    Fits (establishedAck env conn hdr).1 hdr := by
  rwa [Fits, (establishedAck_frame env conn hdr).2.2.2.2.2]

/-- An in-order segment goes through the three blocks. -/
private theorem handleEstablished_of_next (env : Env) (hseq : hdr.seq = conn.remoteSeq) :
    handleEstablished env conn hdr = (establishedAck env conn hdr).andThen fun conn =>
      (establishedData env conn hdr).andThen fun conn => establishedFin env conn hdr := by
  have hremote : (establishedAck env conn hdr).1.remoteSeq = conn.remoteSeq :=
    (establishedAck_frame env conn hdr).2.2.2.1
  have hnext : (!hdr.payload.isEmpty &&
      decide (hdr.seq ≠ (establishedAck env conn hdr).1.remoteSeq)) = false := by
    rw [hremote, hseq]
    simp
  rw [handleEstablished, Tx.andThen, hnext]
  rfl

/-- The part of `ReceivesInOrder` that does not depend on the configuration. -/
private theorem handleEstablished_receives (env : Env) (h : Fits conn hdr)
    (hseq : hdr.seq = conn.remoteSeq) :
    let after := (handleEstablished env conn hdr).1
    after.recvBuf = conn.recvBuf ++ hdr.payload ∧ after.remoteSeq = nextSeq conn hdr := by
  obtain ⟨-, -, -, hremote, -, hbuf⟩ := establishedAck_frame env conn hdr
  obtain ⟨hdataBuf, hdataSeq⟩ := establishedData_receives env (h.afterAck env)
  simp only [handleEstablished_of_next env hseq, andThen_fst]
  generalize (establishedAck env conn hdr).1 = acked at *
  obtain ⟨hfinBuf, hfinSeq⟩ := establishedFin_receives env (establishedData env acked hdr).1 hdr
  constructor
  · exact hfinBuf.trans (hdataBuf.trans (congrArg (· ++ hdr.payload) hbuf))
  · calc (establishedFin env (establishedData env acked hdr).1 hdr).1.remoteSeq
        = (establishedData env acked hdr).1.remoteSeq + (if has hdr.flags FIN then 1 else 0) :=
          hfinSeq
      _ = nextSeq conn hdr := by rw [hdataSeq, hremote, nextSeq]

private theorem handleEstablished_acknowledges (hcfg : env.cfg = some cfg) (h : Fits conn hdr)
    (hseq : hdr.seq = conn.remoteSeq) (hbrings : hdr.payload ≠ [] ∨ has hdr.flags FIN = true) :
    Acknowledges (handleEstablished env conn hdr).2 (nextSeq conn hdr) := by
  have hremote : (establishedAck env conn hdr).1.remoteSeq = conn.remoteSeq :=
    (establishedAck_frame env conn hdr).2.2.2.1
  have hdata := (establishedData_receives env (h.afterAck env)).2
  simp only [handleEstablished_of_next env hseq, andThen_snd]
  generalize (establishedAck env conn hdr).1 = acked at *
  apply Acknowledges.append_right
  -- the acknowledgement of the last block that has something to count
  cases hfin : has hdr.flags FIN with
  | true =>
    apply Acknowledges.append_right
    have hack := establishedFin_acknowledges hcfg (establishedData env acked hdr).1 hfin
    have hnumber : (establishedData env acked hdr).1.remoteSeq + 1 = nextSeq conn hdr := by
      rw [hdata, hremote, nextSeq, hfin, if_pos rfl]
    rwa [hnumber] at hack
  | false =>
    apply Acknowledges.append_left
    have hpayload : hdr.payload ≠ [] := by simpa [hfin] using hbrings
    have hack := establishedData_acknowledges hcfg acked hpayload
    have hnumber : acked.remoteSeq + UInt32.ofNat hdr.payload.length = nextSeq conn hdr := by
      simp [nextSeq, hfin, hremote]
    rwa [hnumber] at hack

/-! The handlers of the two FIN_WAIT states, which agree on a segment with the ACK flag. -/

/-- What both FIN_WAIT handlers do with a segment that has the ACK flag. -/
def finWaitTaken (env : Env) (conn : TcpConn) (hdr : TcpHeader) : Tx :=
  let (conn, out) :=
    if has hdr.flags FIN then enterTimeWait env conn else ({ conn with state := .finWait2 }, [])
  (finWaitData conn hdr, out)

private theorem handleFinWait1_eq (hack : has hdr.flags ACK = true) :
    handleFinWait1 env conn hdr = finWaitTaken env conn hdr := by
  rw [handleFinWait1, hack]
  rfl

private theorem handleFinWait2_eq (hstate : conn.state = .finWait2) :
    handleFinWait2 env conn hdr = finWaitTaken env conn hdr := by
  have hsame : ({ conn with state := .finWait2 } : TcpConn) = conn := by rw [← hstate]
  rw [handleFinWait2, finWaitTaken, hsame]

private theorem finWaitTaken_of_fin (hfin : has hdr.flags FIN = true)
    (hseq : hdr.seq = conn.remoteSeq) :
    finWaitTaken env conn hdr = enterTimeWait env conn := by
  -- the FIN is counted first, so the payload that came with it is out of order
  have hlate : hdr.seq ≠ (enterTimeWait env conn).1.remoteSeq := by
    simp [enterTimeWait, hseq]
  rw [finWaitTaken, hfin]
  simp only [if_true]
  rw [finWaitData_of_outOfOrder _ _ hlate]

private theorem finWaitTaken_of_data (hfin : has hdr.flags FIN = false)
    (hseq : hdr.seq = conn.remoteSeq)
    (hpayload : hdr.payload ≠ []) :
    finWaitTaken env conn hdr =
      (acceptPayload { conn with state := .finWait2 } hdr.payload, []) := by
  simp [finWaitTaken, finWaitData, hfin, hseq, hpayload]

private theorem finWaitTaken_of_empty (hempty : Empty hdr) :
    finWaitTaken env conn hdr = ({ conn with state := .finWait2 }, []) := by
  simp [finWaitTaken, finWaitData, hempty.1, hempty.2]

private theorem not_acknowledges_nil (seq : UInt32) : ¬Acknowledges [] seq := by
  rintro ⟨d, hd, -⟩
  cases hd

/-- Bytes are dropped when the segment also ends the stream, and go unacknowledged when not. -/
private theorem finWaitTaken_of_payload (hseq : hdr.seq = conn.remoteSeq)
    (hpayload : hdr.payload ≠ []) :
    ¬ReceivesInOrder conn hdr (finWaitTaken env conn hdr) := by
  intro h
  cases hfin : has hdr.flags FIN with
  | true =>
    have hbuf := h.recvBuf_eq
    rw [finWaitTaken_of_fin hfin hseq] at hbuf
    have hsame : (enterTimeWait env conn).1.recvBuf = conn.recvBuf := by simp [enterTimeWait]
    rw [hsame] at hbuf
    exact hpayload (List.self_eq_append_right.mp hbuf)
  | false =>
    have hack := h.acknowledged (.inl hpayload)
    rw [finWaitTaken_of_data hfin hseq hpayload] at hack
    exact not_acknowledges_nil _ hack

private theorem finWaitTaken_of_bareFin (hcfg : env.cfg = some cfg)
    (hseq : hdr.seq = conn.remoteSeq)
    (hpayload : hdr.payload = []) (hfin : has hdr.flags FIN = true) :
    ReceivesInOrder conn hdr (finWaitTaken env conn hdr) := by
  rw [finWaitTaken_of_fin hfin hseq]
  have hremote : (enterTimeWait env conn).1.remoteSeq = conn.remoteSeq + 1 := by
    simp [enterTimeWait]
  constructor
  · simp [enterTimeWait, hpayload]
  · simp [hremote, nextSeq, hpayload, hfin]
  · intro
    rw [hremote]
    exact bareAck_acknowledges hcfg _

/-! Without a configuration no handler emits anything. -/

private theorem establishedAck_unconfigured (hcfg : env.cfg = none) :
    (establishedAck env conn hdr).2 = [] := by
  rw [establishedAck]
  split
  · rfl
  · dsimp only
    split
    · rw [flushSend]
      split
      · rfl
      · rw [sendSegment, sendSegmentRaw_unconfigured hcfg]
    · rfl

private theorem handleEstablished_unconfigured (hcfg : env.cfg = none) :
    (handleEstablished env conn hdr).2 = [] := by
  have hdata : ∀ conn : TcpConn, (establishedData env conn hdr).2 = [] := by
    intro conn
    rw [establishedData]
    split
    · rfl
    · rw [sendSegmentRaw_unconfigured hcfg]
  have hfin : ∀ conn : TcpConn, (establishedFin env conn hdr).2 = [] := by
    intro conn
    rw [establishedFin]
    split
    · rfl
    · rw [sendSegmentRaw_unconfigured hcfg]
  rw [handleEstablished, andThen_snd, establishedAck_unconfigured hcfg]
  split
  · rw [sendSegmentRaw_unconfigured hcfg, List.nil_append]
  · rw [andThen_snd, hdata, hfin, List.nil_append, List.nil_append]

private theorem finWaitTaken_unconfigured (hcfg : env.cfg = none) :
    (finWaitTaken env conn hdr).2 = [] := by
  rw [finWaitTaken]
  cases has hdr.flags FIN with
  | false => rfl
  | true =>
    simp only [if_true, enterTimeWait]
    rw [sendSegmentRaw_unconfigured hcfg]

/-- What brings nothing is received as it is. -/
private theorem receivesInOrder_of_empty {after : Tx} (hempty : Empty hdr)
    (hbuf : after.1.recvBuf = conn.recvBuf) (hremote : after.1.remoteSeq = conn.remoteSeq) :
    ReceivesInOrder conn hdr after := by
  constructor
  · rw [hbuf, hempty.1, List.append_nil]
  · simp [hremote, nextSeq, hempty.1, hempty.2]
  · rintro (hpayload | hfin)
    · exact absurd hempty.1 hpayload
    · simp [hempty.2] at hfin

/-- Something that is received needs a configuration to be acknowledged. -/
private theorem configured_of_receives {after : Tx} (hquiet : env.cfg = none → after.2 = [])
    (hbrings : ¬Empty hdr) (h : ReceivesInOrder conn hdr after) : env.cfg ≠ none := by
  intro hcfg
  have hsomething : hdr.payload ≠ [] ∨ has hdr.flags FIN = true := by
    rw [Empty, not_and_or, Bool.not_eq_false] at hbrings
    exact hbrings
  have hack := h.acknowledged hsomething
  rw [hquiet hcfg] at hack
  exact not_acknowledges_nil _ hack

private theorem handleEstablished_receivesInOrder (hfits : Fits conn hdr)
    (hseq : hdr.seq = conn.remoteSeq) :
    ReceivesInOrder conn hdr (handleEstablished env conn hdr) ↔ Empty hdr ∨ env.cfg ≠ none := by
  obtain ⟨hbuf, hremote⟩ := handleEstablished_receives env hfits hseq
  by_cases hempty : Empty hdr
  · refine iff_of_true ?_ (.inl hempty)
    apply receivesInOrder_of_empty hempty
    · rw [hbuf, hempty.1, List.append_nil]
    · simp [hremote, nextSeq, hempty.1, hempty.2]
  · simp only [hempty, false_or]
    constructor
    · exact configured_of_receives handleEstablished_unconfigured hempty
    · intro hcfg
      obtain ⟨cfg, hcfg⟩ := Option.ne_none_iff_exists'.mp hcfg
      refine ⟨hbuf, hremote, fun hbrings => ?_⟩
      rw [hremote]
      exact handleEstablished_acknowledges hcfg hfits hseq hbrings

private theorem finWaitTaken_receivesInOrder (hseq : hdr.seq = conn.remoteSeq) :
    ReceivesInOrder conn hdr (finWaitTaken env conn hdr) ↔
      Empty hdr ∨ env.cfg ≠ none ∧ hdr.payload = [] := by
  by_cases hempty : Empty hdr
  · refine iff_of_true ?_ (.inl hempty)
    rw [finWaitTaken_of_empty hempty]
    exact receivesInOrder_of_empty hempty rfl rfl
  · simp only [hempty, false_or]
    constructor
    · intro h
      have hcfg := configured_of_receives finWaitTaken_unconfigured hempty h
      by_cases hpayload : hdr.payload = []
      · exact ⟨hcfg, hpayload⟩
      · exact absurd h (finWaitTaken_of_payload hseq hpayload)
    · rintro ⟨hcfg, hpayload⟩
      obtain ⟨cfg, hcfg⟩ := Option.ne_none_iff_exists'.mp hcfg
      have hfin : has hdr.flags FIN = true := by
        simpa [Empty, hpayload] using hempty
      exact finWaitTaken_of_bareFin hcfg hseq hpayload hfin

private theorem processSegment_receivesInOrder
    (hstate : conn.state = .established ∨ conn.state = .finWait1 ∨ conn.state = .finWait2)
    (hack : has hdr.flags ACK = true) (hfits : Fits conn hdr) (hseq : hdr.seq = conn.remoteSeq) :
    ReceivesInOrder conn hdr (processSegment env conn hdr) ↔
      Empty hdr ∨ env.cfg ≠ none ∧ (conn.state = .established ∨ hdr.payload = []) := by
  rw [processSegment]
  rcases hstate with hcase | hcase | hcase <;> rw [hcase] <;> dsimp only
  · rw [handleEstablished_receivesInOrder hfits hseq]
    simp
  · rw [handleFinWait1_eq hack, finWaitTaken_receivesInOrder hseq]
    simp
  · rw [handleFinWait2_eq hcase, finWaitTaken_receivesInOrder hseq]
    simp

/-- **Uniform receive processing**: the next segment in order is received and acknowledged exactly
    when it brings nothing, or something can be sent and the state is `Established` or the segment
    brings no data. -/
theorem receivesInOrder_iff
    (hstate : conn.state = .established ∨ conn.state = .finWait1 ∨ conn.state = .finWait2)
    (hack : has hdr.flags ACK = true) (hrst : has hdr.flags RST = false)
    (hseq : hdr.seq = conn.remoteSeq)
    (hfits : hdr.payload.length ≤ RECV_BUF_LEN - conn.recvBuf.length) :
    ReceivesInOrder conn hdr (conn.deliver env src hdr) ↔
      Empty hdr ∨ env.cfg ≠ none ∧ (conn.state = .established ∨ hdr.payload = []) := by
  have hbound : ReceivesInOrder (conn.bindRemote src hdr) hdr
      (processSegment env (conn.bindRemote src hdr) hdr) ↔
      Empty hdr ∨ env.cfg ≠ none ∧ (conn.state = .established ∨ hdr.payload = []) :=
    processSegment_receivesInOrder hstate hack hfits hseq
  rw [TcpConn.deliver, hrst]
  constructor
  · exact fun h => hbound.mp ⟨h.recvBuf_eq, h.remoteSeq_eq, h.acknowledged⟩
  · intro hcond
    have h := hbound.mpr hcond
    exact ⟨h.recvBuf_eq, h.remoteSeq_eq, h.acknowledged⟩

end InOrder

/-- An established connection takes the data and the FIN of one segment and acknowledges both. -/
theorem data_and_fin_received :
    ReceivesInOrder (expecting .established) (segmentAt 500 (FIN ||| ACK) [1, 2])
      ((expecting .established).deliver configured host (segmentAt 500 (FIN ||| ACK) [1, 2])) :=
  (receivesInOrder_iff (.inl rfl) (by decide) (by decide) rfl (by decide)).mpr
    (.inr ⟨by decide, .inl rfl⟩)

/-- After `close` the same data is stored and never acknowledged. -/
theorem data_after_close_unacknowledged :
    let conn := expecting .finWait1
    let hdr := segmentAt 500 ACK [1, 2]
    conn.state = .finWait1 ∧ has hdr.flags ACK = true ∧ has hdr.flags RST = false ∧
      hdr.seq = conn.remoteSeq ∧ hdr.payload.length ≤ RECV_BUF_LEN - conn.recvBuf.length ∧
      ¬ReceivesInOrder conn hdr (conn.deliver configured host hdr) := by
  refine ⟨rfl, by decide, by decide, rfl, by decide, fun h => ?_⟩
  have hquiet : ((expecting .finWait1).deliver configured host (segmentAt 500 ACK [1, 2])).2 = [] :=
    rfl
  have hack := h.acknowledged (.inl (by decide))
  rw [hquiet] at hack
  exact not_acknowledges_nil _ hack

end RustKernel.Net.Tcp
