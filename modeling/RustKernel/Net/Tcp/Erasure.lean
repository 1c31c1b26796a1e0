import RustKernel.Net.Tcp.Transmit

/-!
# RustKernel.Net.Tcp.Erasure

Blanking payload bytes commutes with every call on a connection.

`TcpConn.erase` keeps the control fields of a connection and the lengths of its
buffers, and replaces every buffered byte by zero. Each `_erase` lemma says that a
step on the erased connection is the erased step, so that no control field depends
on a payload byte.
-/

namespace RustKernel.Net.Tcp

/-! ### Blank byte strings -/

/-- A byte string of the same length, all zero. -/
def blank (bytes : List UInt8) : List UInt8 := bytes.map fun _ => 0

@[simp] theorem length_blank (bytes : List UInt8) : (blank bytes).length = bytes.length :=
  List.length_map _

@[simp] theorem blank_nil : blank [] = [] := rfl

@[simp] theorem isEmpty_blank (bytes : List UInt8) : (blank bytes).isEmpty = bytes.isEmpty := by
  cases bytes <;> rfl

@[simp] theorem blank_append (xs ys : List UInt8) : blank (xs ++ ys) = blank xs ++ blank ys :=
  List.map_append

@[simp] theorem blank_take (bytes : List UInt8) (n : Nat) :
    blank (bytes.take n) = (blank bytes).take n :=
  List.map_take

@[simp] theorem blank_drop (bytes : List UInt8) (n : Nat) :
    blank (bytes.drop n) = (blank bytes).drop n :=
  List.map_drop

theorem blank_eq_of_length {xs ys : List UInt8} (h : xs.length = ys.length) :
    blank xs = blank ys := by
  rw [blank, blank, List.map_const', List.map_const', h]

/-- A connection with its buffered bytes blanked. -/
def TcpConn.erase (conn : TcpConn) : TcpConn :=
  { conn with
    sendBuf := blank conn.sendBuf
    recvBuf := blank conn.recvBuf
    lastTxPayload := blank conn.lastTxPayload }

/-- A header with its payload blanked, and the checksum that covers it. -/
def TcpHeader.erase (hdr : TcpHeader) : TcpHeader :=
  { hdr with payload := blank hdr.payload, checksum := 0 }

/-- The fields that erasing a connection keeps. -/
@[simp] theorem TcpConn.erase_frame (conn : TcpConn) :
    conn.erase.state = conn.state ∧ conn.erase.localPort = conn.localPort ∧
    conn.erase.remoteIp = conn.remoteIp ∧ conn.erase.remotePort = conn.remotePort ∧
    conn.erase.localSeq = conn.localSeq ∧ conn.erase.remoteSeq = conn.remoteSeq ∧
    conn.erase.localAck = conn.localAck ∧ conn.erase.sendBuf = blank conn.sendBuf ∧
    conn.erase.sendAcked = conn.sendAcked ∧ conn.erase.recvBuf = blank conn.recvBuf ∧
    conn.erase.lastTxTime = conn.lastTxTime ∧ conn.erase.lastTxSeq = conn.lastTxSeq ∧
    conn.erase.lastTxFlags = conn.lastTxFlags ∧
    conn.erase.lastTxPayload = blank conn.lastTxPayload ∧ conn.erase.retries = conn.retries ∧
    conn.erase.rtoMs = conn.rtoMs :=
  ⟨rfl, rfl, rfl, rfl, rfl, rfl, rfl, rfl, rfl, rfl, rfl, rfl, rfl, rfl, rfl, rfl⟩

/-- The fields that erasing a header keeps, among those the handlers read. -/
@[simp] theorem TcpHeader.erase_frame (hdr : TcpHeader) :
    hdr.erase.srcPort = hdr.srcPort ∧ hdr.erase.dstPort = hdr.dstPort ∧
    hdr.erase.seq = hdr.seq ∧ hdr.erase.ack = hdr.ack ∧ hdr.erase.flags = hdr.flags ∧
    hdr.erase.payload = blank hdr.payload :=
  ⟨rfl, rfl, rfl, rfl, rfl, rfl⟩

section Conn

variable (env : Env) (conn : TcpConn) (hdr : TcpHeader)

/-! ### The send path -/

private theorem recordTx_erase (flags : UInt8) (payload : List UInt8) :
    recordTx env conn.erase flags (blank payload) = (recordTx env conn flags payload).erase := by
  simp only [recordTx, isEmpty_blank]
  split <;> rfl

private theorem sendSegmentRaw_erase (flags : UInt8) (payload : List UInt8) :
    (sendSegmentRaw env conn.erase flags (blank payload)).1 =
      (sendSegmentRaw env conn flags payload).1.erase := by
  simp only [sendSegmentRaw, TcpHeader.build, length_blank]
  cases env.cfg with
  | none => rfl
  | some cfg =>
    dsimp only
    split_ifs
    · rfl
    · exact recordTx_erase env conn flags payload

private theorem bareSegment_erase (flags : UInt8) :
    (sendSegmentRaw env conn.erase flags []).1 = (sendSegmentRaw env conn flags []).1.erase :=
  sendSegmentRaw_erase env conn flags []

private theorem sendSegment_erase (flags : UInt8) (payload : List UInt8) :
    (sendSegment env conn.erase flags (blank payload)).1 =
      (sendSegment env conn flags payload).1.erase := by
  simp only [sendSegment, consumed, length_blank]
  exact sendSegmentRaw_erase env { conn with localSeq := _ } flags payload

private theorem flushSend_erase : (flushSend env conn.erase).1 = (flushSend env conn).1.erase := by
  simp only [flushSend, TcpConn.erase_frame, length_blank, ← blank_take]
  split
  · rfl
  · exact sendSegment_erase env conn _ _

private theorem checkRetransmit_erase :
    (checkRetransmit env conn.erase).1 = (checkRetransmit env conn).1.erase := by
  simp only [checkRetransmit, TcpConn.erase_frame, sendSegmentRaw_erase]
  split_ifs <;> rfl

/-! ### The handlers -/

private theorem handleListen_erase :
    (handleListen env conn.erase hdr.erase).1 = (handleListen env conn hdr).1.erase := by
  simp only [handleListen, TcpHeader.erase_frame]
  split_ifs
  · rfl
  · exact sendSegment_erase env { conn with remoteSeq := _, localAck := _, state := _ } _ []

private theorem handleSynSent_erase :
    (handleSynSent env conn.erase hdr.erase).1 = (handleSynSent env conn hdr).1.erase := by
  simp only [handleSynSent, TcpHeader.erase_frame, TcpConn.erase_frame]
  split_ifs
  · rfl
  · rfl
  · rw [andThen_fst, andThen_fst, ← flushSend_erase, ← bareSegment_erase]
    rfl

private theorem handleSynReceived_erase :
    (handleSynReceived conn.erase hdr.erase).1 = (handleSynReceived conn hdr).1.erase := by
  simp only [handleSynReceived, TcpHeader.erase_frame, TcpConn.erase_frame]
  split_ifs <;> rfl

private theorem ackedBytes_erase (ack : UInt32) :
    ackedBytes conn.erase ack = ackedBytes conn ack := by
  simp only [ackedBytes, TcpConn.erase_frame, length_blank]

private theorem establishedAck_erase :
    (establishedAck env conn.erase hdr.erase).1 = (establishedAck env conn hdr).1.erase := by
  simp only [establishedAck, TcpHeader.erase_frame, TcpConn.erase_frame, length_blank,
    ackedBytes_erase]
  split_ifs
  · rfl
  · rw [← flushSend_erase, ← blank_drop]
    rfl
  · rfl

private theorem acceptPayload_erase (payload : List UInt8) :
    acceptPayload conn.erase (blank payload) = (acceptPayload conn payload).erase := by
  simp only [acceptPayload, TcpConn.erase_frame, length_blank, ← blank_take, ← blank_append]
  rfl

private theorem establishedData_erase :
    (establishedData env conn.erase hdr.erase).1 = (establishedData env conn hdr).1.erase := by
  simp only [establishedData, TcpHeader.erase_frame, isEmpty_blank, acceptPayload_erase]
  split_ifs
  · rfl
  · exact bareSegment_erase env { acceptPayload conn hdr.payload with localAck := _ } _

private theorem establishedFin_erase :
    (establishedFin env conn.erase hdr.erase).1 = (establishedFin env conn hdr).1.erase := by
  simp only [establishedFin, TcpHeader.erase_frame]
  split_ifs
  · rfl
  · have hack := bareSegment_erase env
      { conn with remoteSeq := conn.remoteSeq + 1, localAck := conn.remoteSeq + 1 } ACK
    exact congrArg (fun c : TcpConn => { c with state := .closeWait }) hack

private theorem handleEstablished_erase :
    (handleEstablished env conn.erase hdr.erase).1 = (handleEstablished env conn hdr).1.erase := by
  simp only [handleEstablished, andThen_fst, TcpHeader.erase_frame, isEmpty_blank,
    establishedAck_erase, TcpConn.erase_frame]
  split_ifs
  · exact bareSegment_erase env _ _
  · rw [andThen_fst, andThen_fst, establishedData_erase, establishedFin_erase]

private theorem enterTimeWait_erase :
    (enterTimeWait env conn.erase).1 = (enterTimeWait env conn).1.erase := by
  have hack := bareSegment_erase env
    { conn with remoteSeq := conn.remoteSeq + 1, localAck := conn.remoteSeq + 1 } ACK
  exact congrArg (fun c : TcpConn => { c with state := .timeWait, lastTxTime := env.now }) hack

private theorem finWaitData_erase : finWaitData conn.erase hdr.erase = (finWaitData conn hdr).erase := by
  simp only [finWaitData, TcpHeader.erase_frame, TcpConn.erase_frame, isEmpty_blank,
    acceptPayload_erase]
  split_ifs <;> rfl

private theorem handleFinWait1_erase :
    (handleFinWait1 env conn.erase hdr.erase).1 = (handleFinWait1 env conn hdr).1.erase := by
  simp only [handleFinWait1, TcpHeader.erase_frame, ← finWaitData_erase]
  split_ifs
  · rw [enterTimeWait_erase]
  · rfl
  · rfl

private theorem handleFinWait2_erase :
    (handleFinWait2 env conn.erase hdr.erase).1 = (handleFinWait2 env conn hdr).1.erase := by
  simp only [handleFinWait2, TcpHeader.erase_frame, ← finWaitData_erase]
  split_ifs
  · rw [enterTimeWait_erase]
  · rfl

/-- Acknowledging everything received. -/
private theorem ackReceived_erase :
    (sendSegmentRaw env { conn.erase with localAck := conn.erase.remoteSeq } ACK []).1 =
      (sendSegmentRaw env { conn with localAck := conn.remoteSeq } ACK []).1.erase :=
  bareSegment_erase env { conn with localAck := conn.remoteSeq } ACK

private theorem handleCloseWait_erase :
    (handleCloseWait env conn.erase hdr.erase).1 = (handleCloseWait env conn hdr).1.erase := by
  simp only [handleCloseWait, andThen_fst, TcpHeader.erase_frame, isEmpty_blank,
    acceptPayload_erase]
  by_cases hdata : (!hdr.payload.isEmpty && hdr.seq == conn.remoteSeq) = true
  · have hdata' : (!hdr.payload.isEmpty && hdr.seq == conn.erase.remoteSeq) = true := hdata
    rw [if_pos hdata, if_pos hdata', ackReceived_erase]
    split_ifs
    · exact ackReceived_erase env _
    · rfl
  · have hdata' : ¬(!hdr.payload.isEmpty && hdr.seq == conn.erase.remoteSeq) = true := hdata
    rw [if_neg hdata, if_neg hdata']
    split_ifs
    · exact ackReceived_erase env conn
    · rfl

private theorem handleLastAck_erase :
    (handleLastAck conn.erase hdr.erase).1 = (handleLastAck conn hdr).1.erase := by
  simp only [handleLastAck, TcpHeader.erase_frame]
  split_ifs <;> rfl

private theorem processSegment_erase :
    (processSegment env conn.erase hdr.erase).1 = (processSegment env conn hdr).1.erase := by
  simp only [processSegment, TcpConn.erase_frame]
  cases conn.state with
  | listen => exact handleListen_erase env conn hdr
  | synSent => exact handleSynSent_erase env conn hdr
  | synReceived => exact handleSynReceived_erase conn hdr
  | established => exact handleEstablished_erase env conn hdr
  | finWait1 => exact handleFinWait1_erase env conn hdr
  | finWait2 => exact handleFinWait2_erase env conn hdr
  | closeWait => exact handleCloseWait_erase env conn hdr
  | lastAck => exact handleLastAck_erase conn hdr
  | closed | timeWait => rfl

/-! ### The calls -/

theorem deliver_erase (src : Ipv4Addr) :
    (conn.erase.deliver env src hdr.erase).1 = (conn.deliver env src hdr).1.erase := by
  simp only [TcpConn.deliver, TcpHeader.erase_frame]
  split_ifs
  · rfl
  · exact processSegment_erase env (conn.bindRemote src hdr) hdr

theorem openListen_erase (port : UInt16) :
    conn.erase.openListen env port = (conn.openListen env port).erase := rfl

theorem openConnect_erase (localPort : UInt16) (remoteIp : Ipv4Addr) (remotePort : UInt16) :
    (conn.erase.openConnect env localPort remoteIp remotePort).1 =
      (conn.openConnect env localPort remoteIp remotePort).1.erase :=
  sendSegment_erase env
    { conn with
      state := .synSent
      localPort
      remoteIp
      remotePort
      localSeq := isn env
      remoteSeq := 0
      localAck := 0
      retries := 0
      rtoMs := RTO_MS } SYN []

theorem send_erase (data : List UInt8) :
    (conn.erase.send env (blank data)).2.1 = (conn.send env data).2.1.erase := by
  simp only [TcpConn.send, TcpConn.erase_frame, length_blank, ← blank_take, ← blank_append]
  split_ifs
  · rfl
  · rfl
  · exact flushSend_erase env { conn with sendBuf := _ }

theorem recv_erase (bufLen : Nat) : (conn.erase.recv bufLen).1 = (conn.recv bufLen).1.erase := by
  simp only [TcpConn.recv, TcpConn.erase_frame, length_blank, ← blank_drop]
  rfl

theorem close_erase : (conn.erase.close env).2.1 = (conn.close env).2.1.erase := by
  simp only [TcpConn.close, TcpConn.erase_frame]
  cases conn.state with
  | established =>
    have hfin := sendSegment_erase env { (flushSend env conn).1 with state := .finWait1 }
      (FIN ||| ACK) []
    simp only [andThen_fst, flushSend_erase]
    exact hfin
  | closeWait => exact sendSegment_erase env { conn with state := .lastAck } (FIN ||| ACK) []
  | _ => rfl

theorem poll_erase : (conn.erase.poll env).1 = (conn.poll env).1.erase := by
  simp only [TcpConn.poll, TcpConn.erase_frame, length_blank]
  cases conn.state with
  | synSent | synReceived | finWait1 | lastAck => exact checkRetransmit_erase env conn
  | established | closeWait =>
    dsimp only
    split_ifs
    · exact flushSend_erase env conn
    · rfl
  | timeWait =>
    dsimp only
    split_ifs <;> rfl
  | closed | listen | finWait2 => rfl

end Conn

end RustKernel.Net.Tcp
