import RustKernel.Net.Tcp.Transmit

/-!
# RustKernel.Net.Tcp.Handlers

What every segment handler keeps of a connection, and which segments it can emit.

* `handleEstablished_of_bare`, `_of_outOfOrder`, `_of_inOrder`: the three ways a
  FIN-free segment is processed on an established connection.
* `processSegment_addresses`: no handler changes the ports and the remote address.
* `processSegment_synAnswers`: a SYN is emitted only by a listener, and it
  acknowledges the number after the sequence number it was sent.
-/

namespace RustKernel.Net.Tcp

/-! ### Flag tests -/

theorem has_syn_of_synAck {flags : UInt8} (h : flags &&& (SYN ||| ACK) = SYN ||| ACK) :
    has flags SYN = true := by
  have hsyn : flags &&& SYN = SYN := by
    calc flags &&& SYN = flags &&& ((SYN ||| ACK) &&& SYN) := rfl
      _ = (flags &&& (SYN ||| ACK)) &&& SYN := (UInt8.and_assoc _ _ _).symm
      _ = SYN := by rw [h]; rfl
  rw [has, hsyn]
  rfl

/-! ### `handle_established`, block by block -/

section Established

variable (env : Env) (conn : TcpConn) (hdr : TcpHeader)

/-- Processing an acknowledgement does not touch the receive side. -/
@[simp] theorem establishedAck_frame :
    let after := (establishedAck env conn hdr).1
    after.state = conn.state ∧ after.remoteIp = conn.remoteIp ∧
    after.remotePort = conn.remotePort ∧ after.remoteSeq = conn.remoteSeq ∧
    after.localAck = conn.localAck ∧ after.recvBuf = conn.recvBuf := by
  rw [establishedAck]
  split
  · simp
  · dsimp only
    split <;> simp

/-- With nothing buffered an acknowledgement triggers no transmission. -/
theorem establishedAck_of_empty (h : conn.sendBuf = []) :
    (establishedAck env conn hdr).2 = [] ∧ (establishedAck env conn hdr).1.sendBuf = [] := by
  rw [establishedAck]
  split
  · simp [h]
  · dsimp only
    split <;> simp [flushSend, h]

theorem deliver_of_established (src : Ipv4Addr) (hstate : conn.state = .established)
    (hrst : has hdr.flags RST = false) :
    conn.deliver env src hdr = handleEstablished env (conn.bindRemote src hdr) hdr := by
  have hbound : (conn.bindRemote src hdr).state = .established := hstate
  rw [TcpConn.deliver, hrst, processSegment, hbound]
  rfl

/-- A segment without payload and FIN is its acknowledgement block. -/
theorem handleEstablished_of_bare (hpayload : hdr.payload = []) (hfin : has hdr.flags FIN = false) :
    handleEstablished env conn hdr = establishedAck env conn hdr := by
  simp [handleEstablished, establishedData, establishedFin, hpayload, hfin, Tx.andThen]

/-- An out-of-order payload is answered with a bare acknowledgement. -/
theorem handleEstablished_of_outOfOrder (hpayload : hdr.payload ≠ [])
    (hseq : hdr.seq ≠ conn.remoteSeq) :
    handleEstablished env conn hdr =
      (establishedAck env conn hdr).andThen fun conn => sendSegmentRaw env conn ACK [] := by
  simp [handleEstablished, Tx.andThen, hpayload, hseq]

/-- An in-order payload without FIN is stored as far as it fits and acknowledged whole. -/
theorem handleEstablished_of_inOrder (hseq : hdr.payload ≠ [] → hdr.seq = conn.remoteSeq)
    (hfin : has hdr.flags FIN = false) :
    handleEstablished env conn hdr =
      (establishedAck env conn hdr).andThen fun conn => establishedData env conn hdr := by
  by_cases hpayload : hdr.payload = []
  · simp [handleEstablished, Tx.andThen, hpayload, establishedFin, hfin]
  · simp [handleEstablished, Tx.andThen, hseq hpayload, establishedFin, hfin]

/-- An established connection stays so or sees the peer's FIN. -/
theorem handleEstablished_state (hstate : conn.state = .established) :
    (handleEstablished env conn hdr).1.state = .established ∨
      (handleEstablished env conn hdr).1.state = .closeWait := by
  have hack : (establishedAck env conn hdr).1.state = .established := by
    rw [(establishedAck_frame env conn hdr).1, hstate]
  generalize hconn : (establishedAck env conn hdr).1 = acked at hack
  rw [handleEstablished, andThen_fst, hconn]
  split
  · rw [(sendSegmentRaw_frame env acked ACK []).1]
    exact .inl hack
  · have hdata : (establishedData env acked hdr).1.state = .established := by
      rw [establishedData]
      split
      · exact hack
      · exact (sendSegmentRaw_frame env _ ACK []).1.trans hack
    rw [andThen_fst, establishedFin]
    split
    · exact .inl hdata
    · exact .inr rfl

end Established

theorem finWaitData_state (conn : TcpConn) (hdr : TcpHeader) :
    (finWaitData conn hdr).state = conn.state := by
  rw [finWaitData]
  split <;> rfl

theorem handleCloseWait_state (env : Env) (conn : TcpConn) (hdr : TcpHeader) :
    (handleCloseWait env conn hdr).1.state = conn.state := by
  rw [handleCloseWait, andThen_fst]
  split <;> split
  all_goals first | rfl | simp [acceptPayload]

/-! ### The addresses of a connection -/

/-- The remote end of a connection. -/
def TcpConn.peer (conn : TcpConn) : Ipv4Addr × UInt16 := (conn.remoteIp, conn.remotePort)

/-- The local port and the remote end. -/
def TcpConn.addresses (conn : TcpConn) : UInt16 × Ipv4Addr × UInt16 := (conn.localPort, conn.peer)

section Addresses

variable (env : Env) (conn : TcpConn) (hdr : TcpHeader)

@[simp] theorem sendSegmentRaw_addresses (flags : UInt8) (payload : List UInt8) :
    (sendSegmentRaw env conn flags payload).1.addresses = conn.addresses := by
  simp [TcpConn.addresses, TcpConn.peer]

@[simp] theorem sendSegment_addresses (flags : UInt8) (payload : List UInt8) :
    (sendSegment env conn flags payload).1.addresses = conn.addresses := by
  simp [TcpConn.addresses, TcpConn.peer]

@[simp] theorem flushSend_addresses : (flushSend env conn).1.addresses = conn.addresses := by
  simp [TcpConn.addresses, TcpConn.peer]

@[simp] theorem acceptPayload_addresses (payload : List UInt8) :
    (acceptPayload conn payload).addresses = conn.addresses := rfl

private theorem establishedAck_addresses :
    (establishedAck env conn hdr).1.addresses = conn.addresses := by
  rw [establishedAck]
  split
  · rfl
  · dsimp only
    split
    · exact flushSend_addresses _ _
    · rfl

private theorem establishedData_addresses :
    (establishedData env conn hdr).1.addresses = conn.addresses := by
  rw [establishedData]
  split
  · rfl
  · exact sendSegmentRaw_addresses _ _ _ _

private theorem establishedFin_addresses :
    (establishedFin env conn hdr).1.addresses = conn.addresses := by
  rw [establishedFin]
  split
  · rfl
  · exact sendSegmentRaw_addresses _ _ _ _

private theorem handleEstablished_addresses :
    (handleEstablished env conn hdr).1.addresses = conn.addresses := by
  rw [handleEstablished, andThen_fst]
  split
  · rw [sendSegmentRaw_addresses, establishedAck_addresses]
  · rw [andThen_fst, establishedFin_addresses, establishedData_addresses, establishedAck_addresses]

private theorem enterTimeWait_addresses :
    (enterTimeWait env conn).1.addresses = conn.addresses := by
  rw [enterTimeWait]
  exact sendSegmentRaw_addresses _ _ _ _

private theorem finWaitData_addresses : (finWaitData conn hdr).addresses = conn.addresses := by
  rw [finWaitData]
  split <;> rfl

private theorem handleFinWait1_addresses :
    (handleFinWait1 env conn hdr).1.addresses = conn.addresses := by
  rw [handleFinWait1]
  dsimp only
  rw [finWaitData_addresses]
  split
  · split
    · exact enterTimeWait_addresses _ _
    · rfl
  · rfl

private theorem handleFinWait2_addresses :
    (handleFinWait2 env conn hdr).1.addresses = conn.addresses := by
  rw [handleFinWait2]
  dsimp only
  rw [finWaitData_addresses]
  split
  · exact enterTimeWait_addresses _ _
  · rfl

private theorem handleCloseWait_addresses :
    (handleCloseWait env conn hdr).1.addresses = conn.addresses := by
  rw [handleCloseWait, andThen_fst]
  split <;> split
  all_goals first | rfl | simp [TcpConn.addresses, TcpConn.peer, acceptPayload]

private theorem handleSynSent_addresses :
    (handleSynSent env conn hdr).1.addresses = conn.addresses := by
  rw [handleSynSent]
  split
  · rfl
  · split
    · rfl
    · rw [andThen_fst, flushSend_addresses, sendSegmentRaw_addresses]
      rfl

/-- No handler changes the addresses. -/
theorem processSegment_addresses : (processSegment env conn hdr).1.addresses = conn.addresses := by
  rw [processSegment]
  split
  · rw [handleListen]
    split
    · rfl
    · exact sendSegment_addresses _ _ _ _
  · exact handleSynSent_addresses _ _ _
  · rw [handleSynReceived]
    split
    · rfl
    · split <;> rfl
  · exact handleEstablished_addresses _ _ _
  · exact handleFinWait1_addresses _ _ _
  · exact handleFinWait2_addresses _ _ _
  · exact handleCloseWait_addresses _ _ _
  · rw [handleLastAck]
    split <;> rfl
  · rfl
  · rfl

theorem processSegment_localPort : (processSegment env conn hdr).1.localPort = conn.localPort :=
  congrArg Prod.fst (processSegment_addresses env conn hdr)

theorem processSegment_peer : (processSegment env conn hdr).1.peer = conn.peer :=
  congrArg Prod.snd (processSegment_addresses env conn hdr)

end Addresses

/-! ### Emitted SYN segments -/

/-- Every SYN among `out` acknowledges `ack`. -/
def SynAnswers (ack : UInt32) (out : List Datagram) : Prop :=
  ∀ d ∈ out, ∀ hdr, TcpHeader.parse d.bytes = some hdr → has hdr.flags SYN = true → hdr.ack = ack

theorem SynAnswers.nil (ack : UInt32) : SynAnswers ack [] := by simp [SynAnswers]

theorem SynAnswers.append {ack : UInt32} {out₁ out₂ : List Datagram} (h₁ : SynAnswers ack out₁)
    (h₂ : SynAnswers ack out₂) : SynAnswers ack (out₁ ++ out₂) := by
  intro d hd
  rcases List.mem_append.mp hd with h | h
  · exact h₁ d h
  · exact h₂ d h

section Syn

variable (env : Env) (conn : TcpConn) (hdr : TcpHeader) (ack : UInt32)

private theorem sendSegmentRaw_synAnswers (flags : UInt8) (payload : List UInt8)
    (hflags : flags &&& 0x3F = flags) (h : has flags SYN = true → conn.localAck = ack) :
    SynAnswers ack (sendSegmentRaw env conn flags payload).2 := by
  intro d hd hdr' hparse hsyn
  obtain ⟨-, cksum, hcarries⟩ := sendSegmentRaw_carries env conn flags payload hflags d hd
  obtain rfl := Option.some.inj (hparse.symm.trans hcarries)
  exact h hsyn

private theorem bareAck_synAnswers : SynAnswers ack (sendSegmentRaw env conn ACK []).2 :=
  sendSegmentRaw_synAnswers env conn ack ACK [] (by decide) fun h => absurd h (by decide)

private theorem flushSend_synAnswers : SynAnswers ack (flushSend env conn).2 := by
  rw [flushSend]
  split
  · exact .nil ack
  · exact sendSegmentRaw_synAnswers env _ ack _ _ (by decide) fun h => absurd h (by decide)

private theorem establishedAck_synAnswers : SynAnswers ack (establishedAck env conn hdr).2 := by
  rw [establishedAck]
  split
  · exact .nil ack
  · dsimp only
    split
    · exact flushSend_synAnswers _ _ ack
    · exact .nil ack

private theorem establishedData_synAnswers : SynAnswers ack (establishedData env conn hdr).2 := by
  rw [establishedData]
  split
  · exact .nil ack
  · exact bareAck_synAnswers _ _ ack

private theorem establishedFin_synAnswers : SynAnswers ack (establishedFin env conn hdr).2 := by
  rw [establishedFin]
  split
  · exact .nil ack
  · exact bareAck_synAnswers _ _ ack

private theorem handleEstablished_synAnswers :
    SynAnswers ack (handleEstablished env conn hdr).2 := by
  rw [handleEstablished, andThen_snd]
  apply (establishedAck_synAnswers env conn hdr ack).append
  split
  · exact bareAck_synAnswers _ _ ack
  · exact (establishedData_synAnswers _ _ _ ack).append (establishedFin_synAnswers _ _ _ ack)

private theorem enterTimeWait_synAnswers : SynAnswers ack (enterTimeWait env conn).2 :=
  bareAck_synAnswers _ _ ack

private theorem handleCloseWait_synAnswers : SynAnswers ack (handleCloseWait env conn hdr).2 := by
  rw [handleCloseWait, andThen_snd]
  apply SynAnswers.append
  · split
    · exact bareAck_synAnswers _ _ ack
    · exact .nil ack
  · split
    · exact bareAck_synAnswers _ _ ack
    · exact .nil ack

/-- A SYN is only emitted in answer to a SYN, and acknowledges the number after it. -/
theorem processSegment_synAnswers :
    SynAnswers (hdr.seq + 1) (processSegment env conn hdr).2 := by
  rw [processSegment]
  split
  -- one case for each state, in the order of the match
  · rw [handleListen]
    split
    · exact .nil _
    · exact sendSegmentRaw_synAnswers env _ _ _ _ (by decide) (fun _ => rfl)
  · rw [handleSynSent]
    split
    · exact .nil _
    · split
      · exact .nil _
      · exact (bareAck_synAnswers _ _ _).append (flushSend_synAnswers _ _ _)
  · rw [handleSynReceived]
    split
    · exact .nil _
    · split <;> exact .nil _
  · exact handleEstablished_synAnswers _ _ _ _
  · rw [handleFinWait1]
    dsimp only
    split
    · split
      · exact enterTimeWait_synAnswers _ _ _
      · exact .nil _
    · exact .nil _
  · rw [handleFinWait2]
    dsimp only
    split
    · exact enterTimeWait_synAnswers _ _ _
    · exact .nil _
  · exact handleCloseWait_synAnswers _ _ _ _
  · rw [handleLastAck]
    split <;> exact .nil _
  · exact .nil _
  · exact .nil _

theorem deliver_synAnswers (src : Ipv4Addr) :
    SynAnswers (hdr.seq + 1) (conn.deliver env src hdr).2 := by
  rw [TcpConn.deliver]
  split
  · exact .nil _
  · exact processSegment_synAnswers _ _ _

end Syn

end RustKernel.Net.Tcp
