import RustKernel.Net.Tcp.Arrays

/-!
# RustKernel.Net.Tcp.BufferSafety

The buffers of the TCP module are safe: no check of `Arrays` ever fails.

## Main result

`buffers_safe`: every run from boot returns, with the length fields of every connection within the
sizes of their arrays, and with the state and the observations of the module `Stack`.

## Proof strategy

`TcpConn.Bounded` is the invariant. `Refines` says of a function that it returns a bounded connection
whose view is what the function of `Connection` computes; one lemma for each function, each of which
uses those of its callees.
-/

namespace RustKernel.Net.Tcp.Arrays

open Lib

/-- The length fields are within the sizes of their arrays. -/
structure TcpConn.Bounded (conn : TcpConn) : Prop where
  sendLen_le : conn.sendLen ≤ SEND_BUF_LEN
  recvLen_le : conn.recvLen ≤ RECV_BUF_LEN
  lastTxLen_le : conn.lastTxLen ≤ MSS

/-- All checks pass, with the given connection behind the arrays. -/
def RefinesConn (x : Checked TcpConn) (y : Tcp.TcpConn) : Prop :=
  Returns x fun conn => conn.Bounded ∧ conn.view = y

/-- All checks pass, with the given connection behind the arrays and the given output. -/
def Refines {β : Type} (x : Checked (TcpConn × β)) (y : Tcp.TcpConn × β) : Prop :=
  Returns x fun r => r.1.Bounded ∧ (r.1.view, r.2) = y

/-! ### Parsing -/

private theorem u16At_ok {data : List UInt8} {off : Nat} (h : off + 1 < data.length) :
    u16At data off = .ok (Tcp.u16At data off) := by
  have hwindow : window data off 2 = [data.get ⟨off, by omega⟩, data.get ⟨off + 1, h⟩] := by
    rw [window, List.drop_eq_getElem_cons (by omega : off < data.length),
      List.drop_eq_getElem_cons h]
    rfl
  rw [u16At, index_ok (by omega), ok_bind, index_ok h, ok_bind, Tcp.u16At, hwindow]
  rfl

private theorem u32At_ok {data : List UInt8} {off : Nat} (h : off + 3 < data.length) :
    u32At data off = .ok (Tcp.u32At data off) := by
  have hwindow : window data off 4 = [data.get ⟨off, by omega⟩, data.get ⟨off + 1, by omega⟩,
      data.get ⟨off + 2, by omega⟩, data.get ⟨off + 3, h⟩] := by
    rw [window, List.drop_eq_getElem_cons (by omega : off < data.length),
      List.drop_eq_getElem_cons (by omega : off + 1 < data.length),
      List.drop_eq_getElem_cons (by omega : off + 2 < data.length), List.drop_eq_getElem_cons h]
    rfl
  rw [u32At, index_ok (by omega), ok_bind, index_ok (by omega), ok_bind, index_ok (by omega),
    ok_bind, index_ok h, ok_bind, Tcp.u32At, hwindow]
  rfl

private theorem index_getD {data : List UInt8} {i : Nat} (h : i < data.length) :
    index data i = .ok (data.getD i 0) := by
  rw [index_ok h, List.getD_eq_getElem?_getD, List.getElem?_eq_getElem h]
  rfl

private theorem parse_ok (data : List UInt8) :
    TcpHeader.parse data = .ok (Tcp.TcpHeader.parse data) := by
  rw [TcpHeader.parse, Tcp.TcpHeader.parse]
  by_cases hlen : data.length < 20
  · rw [if_pos hlen, if_pos hlen]
    rfl
  rw [if_neg hlen, if_neg hlen, u16At_ok (by omega), ok_bind, u16At_ok (by omega), ok_bind,
    u32At_ok (by omega), ok_bind, u32At_ok (by omega), ok_bind, index_getD (by omega), ok_bind]
  dsimp only
  split
  · rfl
  case isFalse hoffset =>
    have hle : ((data.getD 12 0 >>> 4) * 4).toNat ≤ data.length := by omega
    rw [index_getD (by omega), ok_bind, u16At_ok (by omega), ok_bind, u16At_ok (by omega), ok_bind,
      u16At_ok (by omega), ok_bind, slice_rest hle, ok_bind]
    rfl

/-! ### Internal send -/

section

variable {env : Env} {conn : TcpConn} {flags : UInt8} {payload : List UInt8} {β : Type}

theorem RefinesConn.pure (h : conn.Bounded) : RefinesConn (Pure.pure conn) conn.view :=
  Returns.pure ⟨h, rfl⟩

theorem Refines.pure {b : β} (h : conn.Bounded) : Refines (Pure.pure (conn, b)) (conn.view, b) :=
  Returns.pure ⟨h, rfl⟩

/-- The same test on both sides. -/
private theorem Refines.ite {c : Prop} [Decidable c] {x x' : Checked (TcpConn × β)}
    {y y' : Tcp.TcpConn × β} (hx : c → Refines x y) (hx' : ¬c → Refines x' y') :
    Refines (if c then x else x') (if c then y else y') := by
  split
  case isTrue h => exact hx h
  case isFalse h => exact hx' h

/-- Another function on the connection and the output. -/
theorem Refines.bind {γ : Type} {x : Checked (TcpConn × β)} {y : Tcp.TcpConn × β}
    {f : TcpConn × β → Checked (TcpConn × γ)} {z : Tcp.TcpConn × β → Tcp.TcpConn × γ}
    (hx : Refines x y)
    (hf : ∀ conn b, conn.Bounded → Refines (f (conn, b)) (z (conn.view, b))) :
    Refines (x >>= f) (z y) := by
  refine Returns.bind hx ?_
  rintro ⟨conn, b⟩ ⟨hconn, rfl⟩
  exact hf conn b hconn

theorem RefinesConn.bind {γ : Type} {x : Checked TcpConn} {y : Tcp.TcpConn}
    {f : TcpConn → Checked (TcpConn × γ)} {z : Tcp.TcpConn → Tcp.TcpConn × γ}
    (hx : RefinesConn x y) (hf : ∀ conn, conn.Bounded → Refines (f conn) (z conn.view)) :
    Refines (x >>= f) (z y) := by
  refine Returns.bind hx ?_
  rintro conn ⟨hconn, rfl⟩
  exact hf conn hconn

theorem Refines.andThen {x : Checked Tx} {y : Tcp.Tx} {f : TcpConn → Checked Tx}
    {g : Tcp.TcpConn → Tcp.Tx} (hx : Refines x y)
    (hf : ∀ conn, conn.Bounded → Refines (f conn) (g conn.view)) :
    Refines (andThen x f) (y.andThen g) := by
  refine Refines.bind (z := fun y : Tcp.Tx => y.andThen g) hx fun conn out hconn => ?_
  exact Refines.bind (z := fun y : Tcp.Tx => (y.1, out ++ y.2)) (hf conn hconn)
    fun conn' out' hconn' => .pure hconn'

private theorem recordTx_refines (h : conn.Bounded) (hlen : payload.length ≤ MSS) :
    RefinesConn (recordTx env conn flags payload)
      (Tcp.recordTx env.toEnv conn.view flags payload) := by
  rw [recordTx, Tcp.recordTx]
  split
  · rw [Nat.min_eq_left hlen]
    dsimp only
    rw [slice_front le_rfl, ok_bind, List.take_length]
    refine (conn.lastTxPayload.returns_copy payload hlen).bind fun buf hbuf => ?_
    refine .pure ⟨⟨h.sendLen_le, h.recvLen_le, hlen⟩, ?_⟩
    rw [TcpConn.view, hbuf]
    rfl
  · exact .pure h

private theorem wrap_returns (env : Env) (srcIp dstIp : Ipv4Addr) (segment : List UInt8)
    (hlen : segment.length ≤ 20 + MSS) :
    Returns (wrap env srcIp dstIp segment) fun frame => frame.isSome := by
  rw [wrap]
  refine (Buffer.returns_copy _ segment hlen).bind fun tcpBuf htcp => ?_
  obtain ⟨header, hheader, hheaderLen⟩ : ∃ header, Ipv4Packet.build srcIp dstIp 6
      (UInt16.ofNat segment.length) (20 + 20 + MSS) = some header ∧ header.length = 20 :=
    ⟨_, if_neg (by omega), length_headerBytes _ _ _ _ _⟩
  rw [hheader]
  dsimp only
  refine (Buffer.returns_copy _ header (by omega)).bind fun ipBuf _ => ?_
  rw [tcpBuf.slice_ok hlen, ok_bind, htcp]
  refine (ipBuf.returns_append segment (by omega)).bind fun ipBuf _ => ?_
  rw [ipBuf.slice_ok (by omega), ok_bind]
  have hpacket : (ipBuf.front (header.length + segment.length)).length =
      header.length + segment.length := ipBuf.length_front (by omega)
  rw [EthernetFrame.build, if_neg (by omega)]
  dsimp only
  have hframe := length_frameBytes ⟨0xFF, 0xFF, 0xFF, 0xFF, 0xFF, 0xFF⟩ env.mac ETHERTYPE_IPV4
    (ipBuf.front (header.length + segment.length))
  refine (Buffer.returns_copy _ _ (by omega)).bind fun ethBuf _ => ?_
  rw [ethBuf.slice_ok (by omega), ok_bind]
  exact .pure rfl

private theorem sendSegmentRaw_refines (h : conn.Bounded) :
    Refines (sendSegmentRaw env conn flags payload)
      (Tcp.sendSegmentRaw env.toEnv conn.view flags payload) := by
  rw [sendSegmentRaw, Tcp.sendSegmentRaw]
  cases env.cfg with
  | none => exact .pure h
  | some cfg =>
    dsimp only
    -- a payload beyond the segment buffer is refused by both
    by_cases hlen : 20 + MSS < 20 + payload.length
    · rw [TcpHeader.build, if_pos hlen, TcpHeader.build, if_pos hlen]
      exact .pure h
    have hsegment : ∀ cksum, (segmentBytes conn.localPort conn.remotePort conn.localSeq
        conn.localAck flags WINDOW cksum payload).length ≤ 20 + MSS := by
      intro cksum
      rw [length_segmentBytes]
      omega
    have hpayload : payload.length ≤ MSS := by omega
    rw [TcpHeader.build, if_neg hlen, TcpHeader.build, if_neg hlen]
    dsimp only
    obtain ⟨conn', hrecord, hbounded, hview⟩ := recordTx_refines h hpayload
    rw [hrecord, ok_bind]
    obtain ⟨frame, hwrap, hsome⟩ := wrap_returns env cfg.ip conn'.remoteIp _ (hsegment _)
    obtain ⟨frame, rfl⟩ := Option.isSome_iff_exists.mp hsome
    rw [hwrap, ok_bind]
    have hremote : conn'.remoteIp = conn.remoteIp := by
      have hkept : (Tcp.recordTx env.toEnv conn.view flags payload).remoteIp = conn.remoteIp := by
        rw [Tcp.recordTx]
        split <;> rfl
      exact (congrArg Tcp.TcpConn.remoteIp hview).trans hkept
    refine .ok ⟨hbounded, ?_⟩
    rw [hview, hremote]
    rfl

private theorem sendSegment_refines (h : conn.Bounded) :
    Refines (sendSegment env conn flags payload)
      (Tcp.sendSegment env.toEnv conn.view flags payload) := by
  have hadvanced : TcpConn.Bounded
      { conn with localSeq := conn.localSeq + consumed flags payload } :=
    ⟨h.sendLen_le, h.recvLen_le, h.lastTxLen_le⟩
  exact sendSegmentRaw_refines hadvanced

private theorem flushSend_refines (h : conn.Bounded) :
    Refines (flushSend env conn) (Tcp.flushSend env.toEnv conn.view) := by
  have hlen : conn.view.sendBuf.length = conn.sendLen := conn.sendBuf.length_front h.sendLen_le
  rw [flushSend, Tcp.flushSend, hlen]
  split
  · exact .pure h
  · dsimp only
    have hle : min conn.sendLen MSS ≤ conn.sendLen := Nat.min_le_left _ _
    have hfront : (conn.sendBuf.front (min conn.sendLen MSS)).length = min conn.sendLen MSS :=
      conn.sendBuf.length_front (hle.trans h.sendLen_le)
    rw [conn.sendBuf.slice_ok (hle.trans h.sendLen_le), ok_bind]
    obtain ⟨buf, hcopy, hbuf⟩ := Buffer.returns_copy (Buffer.fill 0 MSS)
      (conn.sendBuf.front (min conn.sendLen MSS)) (by rw [hfront]; exact Nat.min_le_right _ _)
    rw [hfront] at hcopy hbuf
    rw [hcopy, ok_bind, buf.slice_ok (Nat.min_le_right _ _), ok_bind, hbuf,
      ← conn.sendBuf.take_front hle]
    exact sendSegment_refines h

/-! ### Retransmission -/

private theorem bounded_new : TcpConn.new.Bounded := ⟨Nat.zero_le _, Nat.zero_le _, Nat.zero_le _⟩

private theorem view_new : TcpConn.new.view = Tcp.TcpConn.new := rfl

private theorem checkRetransmit_refines (h : conn.Bounded) :
    Refines (checkRetransmit env conn) (Tcp.checkRetransmit env.toEnv conn.view) := by
  rw [checkRetransmit, Tcp.checkRetransmit]
  refine .ite (fun _ => ?_) fun _ => .ite (fun _ => ?_) fun _ => .pure h
  · exact Refines.bind (z := fun y : Tcp.Tx => (Tcp.TcpConn.new, y.2)) (sendSegmentRaw_refines h)
      fun _ _ _ => .pure bounded_new
  · dsimp only
    have hfront := conn.lastTxPayload.length_front h.lastTxLen_le
    rw [conn.lastTxPayload.slice_ok h.lastTxLen_le, ok_bind]
    obtain ⟨buf, hcopy, hbuf⟩ := Buffer.returns_copy (Buffer.fill 0 MSS)
      (conn.lastTxPayload.front conn.lastTxLen) (by rw [hfront]; exact h.lastTxLen_le)
    rw [hfront] at hcopy hbuf
    rw [hcopy, ok_bind, buf.slice_ok h.lastTxLen_le, ok_bind, hbuf]
    refine Refines.bind (z := fun y : Tcp.Tx =>
      ({ y.1 with retries := y.1.retries + 1, rtoMs := y.1.rtoMs * 2, lastTxTime := env.now }, y.2))
      (sendSegmentRaw_refines h) fun conn' out hconn' => ?_
    exact Returns.pure ⟨⟨hconn'.sendLen_le, hconn'.recvLen_le, hconn'.lastTxLen_le⟩, rfl⟩

/-! ### Segment processing -/

variable (hdr : TcpHeader)

private theorem handleListen_refines (h : conn.Bounded) :
    Refines (handleListen env conn hdr) (Tcp.handleListen env.toEnv conn.view hdr) := by
  rw [handleListen, Tcp.handleListen]
  refine .ite (fun _ => .pure h) fun _ => ?_
  exact sendSegment_refines ⟨h.sendLen_le, h.recvLen_le, h.lastTxLen_le⟩

private theorem handleSynSent_refines (h : conn.Bounded) :
    Refines (handleSynSent env conn hdr) (Tcp.handleSynSent env.toEnv conn.view hdr) := by
  rw [handleSynSent, Tcp.handleSynSent]
  refine .ite (fun _ => .pure h) fun _ => .ite (fun _ => .pure h) fun _ => ?_
  refine Refines.andThen (sendSegmentRaw_refines ?_) fun conn hconn => flushSend_refines hconn
  exact ⟨h.sendLen_le, h.recvLen_le, h.lastTxLen_le⟩

private theorem handleSynReceived_refines (h : conn.Bounded) :
    Refines (handleSynReceived conn hdr) (Tcp.handleSynReceived conn.view hdr) := by
  rw [handleSynReceived, Tcp.handleSynReceived]
  refine .ite (fun _ => .pure h) fun _ => .ite (fun _ => .pure h) fun _ => ?_
  exact Returns.pure ⟨⟨h.sendLen_le, h.recvLen_le, h.lastTxLen_le⟩, rfl⟩

private theorem removeAcked_refines (h : conn.Bounded) {acked : UInt32}
    (hle : acked.toNat ≤ conn.sendLen) :
    RefinesConn (removeAcked conn acked)
      { conn.view with sendBuf := conn.view.sendBuf.drop acked.toNat } := by
  rw [removeAcked]
  split
  · dsimp only
    refine (conn.sendBuf.returns_shift hle h.sendLen_le).bind fun buf hbuf => ?_
    rw [subtract_ok hle, ok_bind]
    have hlen : conn.sendLen - acked.toNat ≤ SEND_BUF_LEN := (Nat.sub_le _ _).trans h.sendLen_le
    refine Returns.pure ⟨⟨hlen, h.recvLen_le, h.lastTxLen_le⟩, ?_⟩
    rw [TcpConn.view, hbuf]
    rfl
  case isFalse hzero =>
    have hacked : acked.toNat = 0 := by
      have hnot : ¬(0 : UInt32).toNat < acked.toNat := hzero
      exact Nat.eq_zero_of_not_pos hnot
    rw [hacked, List.drop_zero]
    exact .pure h

/-- The clamped difference is the number of bytes that `ackedBytes` counts. -/
private theorem toNat_clamp {len : Nat} (hlen : len ≤ SEND_BUF_LEN) (acked : UInt32) :
    (if UInt32.ofNat len < acked then UInt32.ofNat len else acked).toNat = min acked.toNat len := by
  have hsmall : len < 2 ^ 32 := lt_of_le_of_lt hlen (by decide)
  have htoNat : (UInt32.ofNat len).toNat = len := by
    rw [UInt32.toNat_ofNat', Nat.mod_eq_of_lt hsmall]
  split
  case isTrue h =>
    have hlt : (UInt32.ofNat len).toNat < acked.toNat := h
    omega
  case isFalse h =>
    have hle : ¬(UInt32.ofNat len).toNat < acked.toNat := h
    omega

private theorem establishedAck_refines (h : conn.Bounded) :
    Refines (establishedAck env conn hdr) (Tcp.establishedAck env.toEnv conn.view hdr) := by
  have hlen : conn.view.sendBuf.length = conn.sendLen := conn.sendBuf.length_front h.sendLen_le
  rw [establishedAck, Tcp.establishedAck, ackedBytes]
  refine .ite (fun _ => .pure h) fun _ => ?_
  rw [hlen]
  refine .ite (fun _ => ?_) fun _ => .pure h
  have hacked := toNat_clamp h.sendLen_le
    (hdr.ack - (conn.localSeq - UInt32.ofNat conn.sendLen))
  have hreset : TcpConn.Bounded { conn with retries := 0, rtoMs := RTO_MS } :=
    ⟨h.sendLen_le, h.recvLen_le, h.lastTxLen_le⟩
  have hremoved := removeAcked_refines hreset (hacked.trans_le (Nat.min_le_right _ _))
  rw [hacked] at hremoved
  refine RefinesConn.bind
    (z := fun y => Tcp.flushSend env.toEnv { y with sendAcked := hdr.ack.toNat }) hremoved
    fun conn hconn => ?_
  exact flushSend_refines ⟨hconn.sendLen_le, hconn.recvLen_le, hconn.lastTxLen_le⟩

private theorem acceptPayload_refines (h : conn.Bounded) :
    RefinesConn (acceptPayload conn payload) (Tcp.acceptPayload conn.view payload) := by
  have hlen : conn.view.recvBuf.length = conn.recvLen := conn.recvBuf.length_front h.recvLen_le
  have hle := h.recvLen_le
  rw [acceptPayload, Tcp.acceptPayload, hlen, subtract_ok hle, ok_bind]
  generalize hcopy : min payload.length (RECV_BUF_LEN - conn.recvLen) = copyLen
  have hpayload : copyLen ≤ payload.length := by omega
  have hroom : conn.recvLen + copyLen ≤ RECV_BUF_LEN := by omega
  have hfront : (payload.take copyLen).length = copyLen := by
    rw [List.length_take, Nat.min_eq_left hpayload]
  dsimp only
  rw [slice_front hpayload, ok_bind]
  obtain ⟨buf, hbuf, happended⟩ := conn.recvBuf.returns_append (payload.take copyLen)
    (by rw [hfront]; exact hroom)
  rw [hfront] at hbuf happended
  rw [hbuf, ok_bind]
  refine Returns.pure ⟨⟨h.sendLen_le, hroom, h.lastTxLen_le⟩, ?_⟩
  rw [TcpConn.view, happended]
  rfl

private theorem establishedData_refines (h : conn.Bounded) :
    Refines (establishedData env conn hdr) (Tcp.establishedData env.toEnv conn.view hdr) := by
  rw [establishedData, Tcp.establishedData]
  refine .ite (fun _ => .pure h) fun _ => ?_
  refine RefinesConn.bind
    (z := fun y => Tcp.sendSegmentRaw env.toEnv { y with localAck := y.remoteSeq } ACK [])
    (acceptPayload_refines h) fun conn hconn => ?_
  exact sendSegmentRaw_refines ⟨hconn.sendLen_le, hconn.recvLen_le, hconn.lastTxLen_le⟩

private theorem establishedFin_refines (h : conn.Bounded) :
    Refines (establishedFin env conn hdr) (Tcp.establishedFin env.toEnv conn.view hdr) := by
  rw [establishedFin, Tcp.establishedFin]
  refine .ite (fun _ => .pure h) fun _ => ?_
  refine Refines.bind (z := fun y : Tcp.Tx => ({ y.1 with state := .closeWait }, y.2))
    (sendSegmentRaw_refines ?_) fun conn out hconn => ?_
  · exact ⟨h.sendLen_le, h.recvLen_le, h.lastTxLen_le⟩
  · exact Returns.pure ⟨⟨hconn.sendLen_le, hconn.recvLen_le, hconn.lastTxLen_le⟩, rfl⟩

private theorem handleEstablished_refines (h : conn.Bounded) :
    Refines (handleEstablished env conn hdr) (Tcp.handleEstablished env.toEnv conn.view hdr) := by
  refine Refines.andThen (establishedAck_refines hdr h) fun conn hconn => ?_
  refine .ite (fun _ => sendSegmentRaw_refines hconn) fun _ => ?_
  exact Refines.andThen (establishedData_refines hdr hconn) fun conn hconn =>
    establishedFin_refines hdr hconn

private theorem enterTimeWait_refines (h : conn.Bounded) :
    Refines (enterTimeWait env conn) (Tcp.enterTimeWait env.toEnv conn.view) := by
  refine Refines.bind
    (z := fun y : Tcp.Tx => ({ y.1 with state := .timeWait, lastTxTime := env.now }, y.2))
    (sendSegmentRaw_refines ?_) fun conn out hconn => ?_
  · exact ⟨h.sendLen_le, h.recvLen_le, h.lastTxLen_le⟩
  · exact Returns.pure ⟨⟨hconn.sendLen_le, hconn.recvLen_le, hconn.lastTxLen_le⟩, rfl⟩

private theorem finWaitData_refines (h : conn.Bounded) :
    RefinesConn (finWaitData conn hdr) (Tcp.finWaitData conn.view hdr) := by
  rw [finWaitData, Tcp.finWaitData]
  by_cases hdata : (!hdr.payload.isEmpty && hdr.seq == conn.remoteSeq) = true
  · have hdata' : (!hdr.payload.isEmpty && hdr.seq == conn.view.remoteSeq) = true := hdata
    rw [if_pos hdata, if_pos hdata']
    exact acceptPayload_refines h
  · have hdata' : ¬(!hdr.payload.isEmpty && hdr.seq == conn.view.remoteSeq) = true := hdata
    rw [if_neg hdata, if_neg hdata']
    exact .pure h

/-- The second half of the handlers of FIN_WAIT_1 and FIN_WAIT_2. -/
private theorem finWaitData_bind {x : Checked Tx} {y : Tcp.Tx} (hx : Refines x y) :
    Refines (do
      let (conn, out) ← x
      let conn ← finWaitData conn hdr
      pure (conn, out)) (Tcp.finWaitData y.1 hdr, y.2) := by
  refine Refines.bind (z := fun y : Tcp.Tx => (Tcp.finWaitData y.1 hdr, y.2)) hx
    fun conn out hconn => ?_
  exact RefinesConn.bind (z := fun y => (y, out)) (finWaitData_refines hdr hconn)
    fun conn hconn => .pure hconn

private theorem handleFinWait1_refines (h : conn.Bounded) :
    Refines (handleFinWait1 env conn hdr) (Tcp.handleFinWait1 env.toEnv conn.view hdr) := by
  have hfin : Refines
      (if has hdr.flags ACK then
        if has hdr.flags FIN then enterTimeWait env conn
        else Pure.pure ({ conn with state := .finWait2 }, [])
      else Pure.pure (conn, []))
      (if has hdr.flags ACK then
        if has hdr.flags FIN then Tcp.enterTimeWait env.toEnv conn.view
        else ({ conn.view with state := .finWait2 }, [])
      else (conn.view, [])) := by
    refine .ite (fun _ => .ite (fun _ => enterTimeWait_refines h) fun _ => ?_) fun _ => .pure h
    exact Returns.pure ⟨⟨h.sendLen_le, h.recvLen_le, h.lastTxLen_le⟩, rfl⟩
  exact finWaitData_bind hdr hfin

private theorem handleFinWait2_refines (h : conn.Bounded) :
    Refines (handleFinWait2 env conn hdr) (Tcp.handleFinWait2 env.toEnv conn.view hdr) := by
  have hfin : Refines (if has hdr.flags FIN then enterTimeWait env conn else Pure.pure (conn, []))
      (if has hdr.flags FIN then Tcp.enterTimeWait env.toEnv conn.view else (conn.view, [])) :=
    .ite (fun _ => enterTimeWait_refines h) fun _ => .pure h
  exact finWaitData_bind hdr hfin

private theorem handleCloseWait_refines (h : conn.Bounded) :
    Refines (handleCloseWait env conn hdr) (Tcp.handleCloseWait env.toEnv conn.view hdr) := by
  refine Refines.andThen (.ite (fun _ => ?_) fun _ => .pure h) fun conn hconn =>
    .ite (fun _ => ?_) fun _ => .pure hconn
  · refine RefinesConn.bind
      (z := fun y => Tcp.sendSegmentRaw env.toEnv { y with localAck := y.remoteSeq } ACK [])
      (acceptPayload_refines h) fun conn hconn => ?_
    exact sendSegmentRaw_refines ⟨hconn.sendLen_le, hconn.recvLen_le, hconn.lastTxLen_le⟩
  · exact sendSegmentRaw_refines ⟨hconn.sendLen_le, hconn.recvLen_le, hconn.lastTxLen_le⟩

private theorem handleLastAck_refines (h : conn.Bounded) :
    Refines (handleLastAck conn hdr) (Tcp.handleLastAck conn.view hdr) := by
  refine .ite (fun _ => ?_) fun _ => .pure h
  exact Returns.pure ⟨⟨h.sendLen_le, h.recvLen_le, h.lastTxLen_le⟩, rfl⟩

private theorem processSegment_refines (h : conn.Bounded) :
    Refines (processSegment env conn hdr) (Tcp.processSegment env.toEnv conn.view hdr) := by
  have hstate : conn.view.state = conn.state := rfl
  rw [processSegment, Tcp.processSegment, hstate]
  cases conn.state with
  | listen => exact handleListen_refines hdr h
  | synSent => exact handleSynSent_refines hdr h
  | synReceived => exact handleSynReceived_refines hdr h
  | established => exact handleEstablished_refines hdr h
  | finWait1 => exact handleFinWait1_refines hdr h
  | finWait2 => exact handleFinWait2_refines hdr h
  | closeWait => exact handleCloseWait_refines hdr h
  | lastAck => exact handleLastAck_refines hdr h
  | closed | timeWait => exact .pure h

/-! ### Calls on one connection -/

private theorem openListen_refines (h : conn.Bounded) (port : UInt16) :
    (conn.openListen env port).Bounded ∧
      (conn.openListen env port).view = conn.view.openListen env.toEnv port :=
  ⟨⟨h.sendLen_le, h.recvLen_le, h.lastTxLen_le⟩, rfl⟩

private theorem openConnect_refines (h : conn.Bounded) (localPort : UInt16) (remoteIp : Ipv4Addr)
    (remotePort : UInt16) :
    Refines (conn.openConnect env localPort remoteIp remotePort)
      (conn.view.openConnect env.toEnv localPort remoteIp remotePort) := by
  rw [TcpConn.openConnect, Tcp.TcpConn.openConnect]
  exact sendSegment_refines ⟨h.sendLen_le, h.recvLen_le, h.lastTxLen_le⟩

/-- All checks pass, with the given result, connection and output. -/
def RefinesCall {ρ : Type} (x : Checked (Except String ρ × Tx)) (y : Except String ρ × Tcp.Tx) :
    Prop :=
  Returns x fun r => r.2.1.Bounded ∧ (r.1, r.2.1.view, r.2.2) = y

private theorem send_refines (h : conn.Bounded) (data : List UInt8) :
    RefinesCall (conn.send env data) (conn.view.send env.toEnv data) := by
  have hlen : conn.view.sendBuf.length = conn.sendLen := conn.sendBuf.length_front h.sendLen_le
  have hstate : conn.view.state = conn.state := rfl
  have hle := h.sendLen_le
  rw [TcpConn.send, Tcp.TcpConn.send, hlen, hstate]
  split
  · exact Returns.pure ⟨h, rfl⟩
  rw [subtract_ok hle, ok_bind]
  generalize hcopy : min data.length (SEND_BUF_LEN - conn.sendLen) = toCopy
  have hdata : toCopy ≤ data.length := by omega
  have hroom : conn.sendLen + toCopy ≤ SEND_BUF_LEN := by omega
  have hfront : (data.take toCopy).length = toCopy := by
    rw [List.length_take, Nat.min_eq_left hdata]
  dsimp only
  split
  · exact Returns.pure ⟨h, rfl⟩
  rw [slice_front hdata, ok_bind]
  obtain ⟨buf, hbuf, happended⟩ := conn.sendBuf.returns_append (data.take toCopy)
    (by rw [hfront]; exact hroom)
  rw [hfront] at hbuf happended
  rw [hbuf, ok_bind]
  have hflush := @flushSend_refines env
    { conn with sendBuf := buf, sendLen := conn.sendLen + toCopy }
    ⟨hroom, h.recvLen_le, h.lastTxLen_le⟩
  rw [TcpConn.view, happended] at hflush
  exact Returns.bind hflush fun tx htx => .pure ⟨htx.1, congrArg (Prod.mk _) htx.2⟩

private theorem recv_refines (h : conn.Bounded) {bufLen : Nat} (buf : Buffer UInt8 bufLen) :
    Refines (conn.recv buf) (conn.view.recv bufLen) := by
  have hlen : conn.view.recvBuf.length = conn.recvLen := conn.recvBuf.length_front h.recvLen_le
  rw [TcpConn.recv, Tcp.TcpConn.recv, hlen]
  split
  case isTrue hempty =>
    rw [hempty, Nat.zero_min]
    exact .pure h
  case isFalse =>
    generalize hmin : min conn.recvLen bufLen = n
    have hn : n ≤ conn.recvLen := by omega
    have hnbuf : n ≤ bufLen := by omega
    have hfront : (conn.recvBuf.front n).length = n :=
      conn.recvBuf.length_front (hn.trans h.recvLen_le)
    dsimp only
    rw [conn.recvBuf.slice_ok (hn.trans h.recvLen_le), ok_bind]
    obtain ⟨buf', hcopy, hbuf'⟩ := buf.returns_copy (conn.recvBuf.front n)
      (by rw [hfront]; exact hnbuf)
    rw [hfront] at hcopy hbuf'
    rw [hcopy, ok_bind]
    -- nothing is moved when the whole buffer was read
    have hmoved : Returns (if n < conn.recvLen then conn.recvBuf.copyWithin n conn.recvLen 0
        else Pure.pure conn.recvBuf) fun moved =>
          moved.front (conn.recvLen - n) = (conn.recvBuf.front conn.recvLen).drop n := by
      split
      · exact conn.recvBuf.returns_shift hn h.recvLen_le
      case isFalse hall =>
        have heq : n = conn.recvLen := Nat.le_antisymm hn (Nat.not_lt.mp hall)
        refine .pure ?_
        rw [heq, Nat.sub_self, Buffer.front_zero]
        exact (List.drop_eq_nil_of_le hlen.le).symm
    refine hmoved.bind fun moved hfrontMoved => ?_
    rw [subtract_ok hn, ok_bind]
    have hleft : conn.recvLen - n ≤ RECV_BUF_LEN := (Nat.sub_le _ _).trans h.recvLen_le
    refine Returns.pure ⟨⟨h.sendLen_le, hleft, h.lastTxLen_le⟩, ?_⟩
    rw [TcpConn.view, hfrontMoved, hbuf', ← conn.recvBuf.take_front hn]
    rfl

private theorem close_refines (h : conn.Bounded) :
    RefinesCall (conn.close env) (conn.view.close env.toEnv) := by
  have hstate : conn.view.state = conn.state := rfl
  have hfin : ∀ {conn : TcpConn}, conn.Bounded → ∀ state, Refines
      (sendSegment env { conn with state } (FIN ||| ACK) [])
      (Tcp.sendSegment env.toEnv { conn.view with state } (FIN ||| ACK) []) := by
    intro conn h state
    exact sendSegment_refines ⟨h.sendLen_le, h.recvLen_le, h.lastTxLen_le⟩
  rw [TcpConn.close, Tcp.TcpConn.close, hstate]
  cases conn.state with
  | established =>
    have hclosed : Refines
        (andThen (flushSend env conn) fun conn =>
          sendSegment env { conn with state := .finWait1 } (FIN ||| ACK) [])
        ((Tcp.flushSend env.toEnv conn.view).andThen fun conn =>
          Tcp.sendSegment env.toEnv { conn with state := .finWait1 } (FIN ||| ACK) []) :=
      (flushSend_refines h).andThen fun conn hconn => hfin hconn .finWait1
    exact Returns.bind hclosed fun tx htx => .pure ⟨htx.1, congrArg (Prod.mk _) htx.2⟩
  | closeWait =>
    exact Returns.bind (hfin h .lastAck) fun tx htx => .pure ⟨htx.1, congrArg (Prod.mk _) htx.2⟩
  | closed | listen | synSent | synReceived | finWait1 | finWait2 | lastAck | timeWait =>
    exact Returns.pure ⟨h, rfl⟩

private theorem poll_refines (h : conn.Bounded) :
    Refines (conn.poll env) (conn.view.poll env.toEnv) := by
  have hstate : conn.view.state = conn.state := rfl
  have hlen : conn.view.sendBuf.length = conn.sendLen := conn.sendBuf.length_front h.sendLen_le
  rw [TcpConn.poll, Tcp.TcpConn.poll, hstate, hlen]
  cases conn.state with
  | synSent | synReceived | finWait1 | lastAck => exact checkRetransmit_refines h
  | established | closeWait => exact .ite (fun _ => flushSend_refines h) fun _ => .pure h
  | timeWait =>
    refine .ite (fun _ => ?_) fun _ => .pure h
    exact Returns.pure ⟨⟨h.sendLen_le, h.recvLen_le, h.lastTxLen_le⟩, rfl⟩
  | closed | listen | finWait2 => exact .pure h

private theorem deliver_refines (h : conn.Bounded) (src : Ipv4Addr) :
    Refines (conn.deliver env src hdr) (conn.view.deliver env.toEnv src hdr) := by
  refine .ite (fun _ => ?_) fun _ => ?_
  · exact .pure bounded_new
  · exact processSegment_refines hdr ⟨h.sendLen_le, h.recvLen_le, h.lastTxLen_le⟩

end

/-! ### The connection table -/

def Stack.Bounded (s : Stack) : Prop := ∀ conn ∈ s.conns, conn.Bounded

/-- All checks pass, with the given table and observations. -/
def RefinesStep (x : Checked (Stack × Output)) (y : Tcp.Stack × Output) : Prop :=
  Returns x fun r => r.1.Bounded ∧ (r.1.view, r.2) = y

section

variable {env : Env} {s : Stack} {f : TcpConn → Checked (TcpConn × List Seen)}
  {g : Tcp.TcpConn → Tcp.TcpConn × List Seen}

private theorem getElem?_view (s : Stack) (i : Nat) :
    s.view.conns[i]? = s.conns[i]?.map TcpConn.view :=
  List.getElem?_map

private theorem seen_refines {x : Checked Tx} {y : Tcp.Tx} (hx : Refines x y) :
    Refines (seen x) (Tcp.Tx.seen y) :=
  Refines.bind (z := Tcp.Tx.seen) hx fun _ _ hconn => .pure hconn

/-- A call with a result, of which the connection and the segments are seen. -/
private theorem seen_snd_refines {ρ : Type} {x : Checked (Except String ρ × Tx)}
    {y : Except String ρ × Tcp.Tx} (hx : RefinesCall x y) :
    Refines (do
      let (_, tx) ← x
      seen (pure tx)) (Tcp.Tx.seen y.2) := by
  refine Returns.bind hx ?_
  rintro ⟨result, conn, out⟩ ⟨hconn, rfl⟩
  exact seen_refines (.pure hconn)

/-- A call on a slot of the table. -/
private theorem onSlot_refines (h : s.Bounded) {slot : Option Nat}
    (hslot : ∀ i, slot = some i → i < s.conns.length)
    (hf : ∀ conn, conn.Bounded → Refines (f conn) (g conn.view)) :
    RefinesStep (s.onSlot slot f)
      (⟨s.cfg, (s.view.conns.update slot g).1⟩, (s.view.conns.update slot g).2) := by
  cases slot with
  | none => exact Returns.pure ⟨h, rfl⟩
  | some i =>
    have hi := hslot i rfl
    have hview : s.view.conns[i]? = some (s.conns.get ⟨i, hi⟩).view := by
      rw [getElem?_view, List.getElem?_eq_getElem hi]
      rfl
    simp only [Stack.onSlot, index_ok hi, ok_bind, Tcp.ConnTable.update, hview]
    refine Returns.bind (hf _ (h _ (List.get_mem _ _))) ?_
    rintro ⟨conn, out⟩ ⟨hconn, hact⟩
    refine Returns.pure ⟨?_, ?_⟩
    · intro c hc
      rcases List.mem_or_eq_of_mem_set hc with hc | rfl
      · exact h c hc
      · exact hconn
    · simp only [← hact, Stack.view, List.map_set]

/-- An index behind the table is no slot. -/
private theorem update_getMut (s : Stack) (idx : Nat) :
    s.view.conns.update (s.conns.getMut idx) g = s.view.conns.update (some idx) g := by
  rw [ConnTable.getMut]
  split
  · rfl
  case isFalse hidx =>
    have hnone : s.view.conns[idx]? = none := by
      rw [getElem?_view, List.getElem?_eq_none (Nat.not_lt.mp hidx)]
      rfl
    rw [Tcp.ConnTable.update, Tcp.ConnTable.update, hnone]

private theorem getMut_lt {conns : ConnTable} {idx i : Nat} (h : conns.getMut idx = some i) :
    i < conns.length := by
  rw [ConnTable.getMut] at h
  split at h
  · cases h
    assumption
  · cases h

private theorem findIdx?_lt {conns : ConnTable} {p : TcpConn → Bool} {i : Nat}
    (h : conns.findIdx? p = some i) : i < conns.length :=
  (List.findIdx?_eq_some_iff_getElem.mp h).1

private theorem freeSlot_view (s : Stack) : s.view.conns.freeSlot = s.conns.freeSlot := by
  rw [Tcp.ConnTable.freeSlot, Stack.view, List.findIdx?_map]
  rfl

private theorem accepts_view (s : Stack) (src : Ipv4Addr) (hdr : TcpHeader) :
    s.view.conns.findIdx? (Tcp.TcpConn.accepts src hdr) =
      s.conns.findIdx? (TcpConn.accepts src hdr) := by
  rw [Stack.view, List.findIdx?_map]
  rfl

/-- Every call but `poll` acts on one slot. -/
private theorem step_of_update (s : Stack) (e : Event) (hpoll : e.call.isPoll = false)
    (hcfg : (s.view.step e).1.cfg = s.cfg) :
    s.view.step e =
      (⟨s.cfg, (s.view.conns.update (e.call.target s.view.conns)
          (e.call.act ⟨s.cfg, e.now⟩)).1⟩,
        (s.view.conns.update (e.call.target s.view.conns) (e.call.act ⟨s.cfg, e.now⟩)).2) := by
  have hupdate := step_eq_update s.view e hpoll
  have hconns := congrArg Prod.fst hupdate
  have hout := congrArg Prod.snd hupdate
  exact Prod.ext (congrArg₂ Tcp.Stack.mk hcfg hconns) hout

private theorem mapIdx_map {α β γ : Type} (f : α → β) (g : Nat → β → γ) (l : List α) :
    (l.map f).mapIdx g = l.mapIdx fun i a => g i (f a) := by
  apply List.ext_getElem?
  intro i
  rw [List.getElem?_mapIdx, List.getElem?_map, List.getElem?_mapIdx, Option.map_map]
  rfl

private theorem poll_step_refines (h : s.Bounded) (now : UInt64) :
    RefinesStep (s.step ⟨now, .poll⟩) (s.view.step ⟨now, .poll⟩) := by
  let env : Env := ⟨⟨s.cfg, now⟩, s.mac⟩
  -- connection by connection; then the list of connections, then what was sent
  have hpolls : Returns (s.conns.mapM fun conn => conn.poll env) fun txs =>
      (∀ tx ∈ txs, tx.1.Bounded) ∧
        txs.map (fun tx => (tx.1.view, tx.2)) = s.conns.map fun conn => conn.view.poll env.toEnv :=
    .mapM fun conn hconn => poll_refines (h conn hconn)
  refine hpolls.bind fun txs htxs => ?_
  obtain ⟨hbounded, hviews⟩ := htxs
  refine Returns.pure ⟨?_, Prod.ext ?_ ?_⟩
  · intro conn hconn
    obtain ⟨tx, htx, rfl⟩ := List.mem_map.mp hconn
    exact hbounded tx htx
  · have hconns : txs.map (fun tx => tx.1.view) =
        s.conns.map fun conn => (conn.view.poll env.toEnv).1 := by
      have hfst := congrArg (List.map Prod.fst) hviews
      rwa [List.map_map, List.map_map] at hfst
    refine congrArg (Tcp.Stack.mk s.cfg) ?_
    rw [List.map_map, Stack.view, List.map_map]
    exact hconns
  · have hout := congrArg
      (List.mapIdx fun i (y : Tcp.Tx) => (Tcp.Tx.seen y).2.map fun x => (i + 0, x)) hviews
    rw [mapIdx_map, mapIdx_map] at hout
    have htagged : (txs.mapIdx fun i tx => tx.2.map fun d => (i, Seen.sent d)) =
        txs.mapIdx fun i tx => (Tcp.Tx.seen (tx.1.view, tx.2)).2.map fun x => (i + 0, x) := by
      simp only [Tcp.Tx.seen, List.map_map]
      rfl
    calc (txs.mapIdx fun i tx => tx.2.map fun d => (i, Seen.sent d)).flatten
        = (s.conns.mapIdx fun i conn => (Tcp.Tx.seen (conn.view.poll env.toEnv)).2.map
            fun x => (i + 0, x)).flatten := by rw [htagged, hout]
      _ = (s.view.conns.mapIdx fun i conn => (Tcp.Tx.seen (conn.poll env.toEnv)).2.map
            fun x => (i + 0, x)).flatten := by rw [Stack.view, mapIdx_map]
      _ = transmitted (Tcp.poll env.toEnv s.view.conns).2 :=
        (transmitted_poll env.toEnv s.view.conns).symm

private theorem step_refines (h : s.Bounded) (e : Event) : RefinesStep (s.step e)
    (s.view.step e) := by
  obtain ⟨now, call⟩ := e
  cases call with
  | listen port =>
    -- each call is one on the connection in its slot; the other buffers stay as they are
    rw [step_of_update s _ rfl rfl]
    simp only [Call.target, freeSlot_view]
    refine onSlot_refines h (fun i hi => findIdx?_lt hi) fun conn hconn => ?_
    obtain ⟨hopened, hview⟩ := @openListen_refines ⟨⟨s.cfg, now⟩, s.mac⟩ conn hconn port
    exact Returns.pure ⟨hopened, congrArg (·, []) hview⟩
  | connect localPort remoteIp remotePort =>
    rw [step_of_update s _ rfl rfl]
    simp only [Call.target, freeSlot_view]
    exact onSlot_refines h (fun i hi => findIdx?_lt hi) fun conn hconn =>
      seen_refines (openConnect_refines hconn localPort remoteIp remotePort)
  | send idx data =>
    rw [step_of_update s _ rfl rfl]
    simp only [Call.target, ← update_getMut]
    refine onSlot_refines h (fun i hi => getMut_lt hi) fun conn hconn => ?_
    exact seen_snd_refines (send_refines hconn data)
  | recv idx bufLen =>
    rw [step_of_update s _ rfl rfl]
    simp only [Call.target, ← update_getMut]
    refine onSlot_refines h (fun i hi => getMut_lt hi) fun conn hconn => ?_
    exact Refines.bind (z := fun y : Tcp.TcpConn × List UInt8 => (y.1, [Seen.returned y.2]))
      (recv_refines hconn (Buffer.fill 0 bufLen)) fun conn bytes hconn => .pure hconn
  | close idx =>
    rw [step_of_update s _ rfl rfl]
    simp only [Call.target, ← update_getMut]
    refine onSlot_refines h (fun i hi => getMut_lt hi) fun conn hconn => ?_
    exact seen_snd_refines (close_refines hconn)
  | receive src data =>
    rw [step_of_update s _ rfl rfl]
    simp only [Stack.step, parse_ok, ok_bind, Call.target, Call.act]
    cases Tcp.TcpHeader.parse data with
    | none => exact Returns.pure ⟨h, rfl⟩
    | some hdr =>
      rw [Option.bind_some, accepts_view]
      exact onSlot_refines h (fun i hi => findIdx?_lt hi) fun conn hconn =>
        seen_refines (deliver_refines hdr hconn src)
  | poll => exact poll_step_refines h now
  | setConfig cfg => exact Returns.pure ⟨h, rfl⟩

end

/-! ### Runs -/

private theorem bounded_boot (mac : MacAddr) : (Stack.boot mac).Bounded := by
  intro conn hconn
  rw [List.eq_of_mem_replicate hconn]
  exact bounded_new

private theorem view_boot (mac : MacAddr) : (Stack.boot mac).view = Tcp.Stack.boot := by
  rw [Stack.view, Stack.boot, ConnTable.init, List.map_replicate, view_new]
  rfl

/-- A run passes its checks, and goes as the run of `Stack` does. -/
private theorem run_refines {s : Stack} (h : s.Bounded) (es : List Event) :
    RefinesStep (s.run es) (s.view.after es, s.view.outputs es) := by
  induction es generalizing s with
  | nil => exact Returns.pure ⟨h, rfl⟩
  | cons e es ih =>
    refine Returns.bind (step_refines h e) ?_
    rintro ⟨s', out⟩ ⟨hbounded, hstep⟩
    refine Returns.bind (ih hbounded) ?_
    rintro ⟨s'', out'⟩ ⟨hbounded', hrest⟩
    obtain ⟨hview', hout'⟩ := Prod.mk.inj hrest
    refine Returns.pure ⟨hbounded', ?_⟩
    rw [Tcp.Stack.after, Tcp.Stack.outputs, ← hstep]
    exact Prod.ext hview' (congrArg (out ++ ·) hout')

/-- No check fails, in any sequence of calls and whatever arrives, and the length fields stay
    within their arrays. -/
theorem buffers_safe (mac : MacAddr) (es : List Event) :
    Returns ((Stack.boot mac).run es) fun r =>
      (∀ conn ∈ r.1.conns, conn.sendLen ≤ SEND_BUF_LEN ∧ conn.recvLen ≤ RECV_BUF_LEN ∧
        conn.lastTxLen ≤ MSS) ∧
      r.1.view = Tcp.Stack.boot.after es ∧ r.2 = Tcp.Stack.boot.outputs es := by
  refine (run_refines (bounded_boot mac) es).mono ?_
  rintro ⟨s, out⟩ ⟨hbounded, hrun⟩
  rw [view_boot] at hrun
  obtain ⟨hview, hout⟩ := Prod.mk.inj hrun
  exact ⟨fun conn hconn => ⟨(hbounded conn hconn).sendLen_le, (hbounded conn hconn).recvLen_le,
    (hbounded conn hconn).lastTxLen_le⟩, hview, hout⟩

end RustKernel.Net.Tcp.Arrays
