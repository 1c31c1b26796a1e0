import RustKernel.Net.Tcp.Connection

/-!
# RustKernel.Net.Tcp.Transmit

What the send path changes in a connection and what it puts on the wire.

`sendSegmentRaw` only writes the `lastTx` fields; `sendSegment` and `flushSend`
also advance the local sequence number. Every datagram they emit parses to the
header of the connection that sent it (`Carries`).
-/

namespace RustKernel.Net.Tcp

/-! ### Frame of the send path -/

/-- The fields that no transmission touches. -/
@[simp] theorem sendSegmentRaw_frame (env : Env) (conn : TcpConn) (flags : UInt8)
    (payload : List UInt8) :
    let after := (sendSegmentRaw env conn flags payload).1
    after.state = conn.state ∧ after.localPort = conn.localPort ∧
    after.remoteIp = conn.remoteIp ∧ after.remotePort = conn.remotePort ∧
    after.localSeq = conn.localSeq ∧ after.remoteSeq = conn.remoteSeq ∧
    after.localAck = conn.localAck ∧ after.sendBuf = conn.sendBuf ∧
    after.sendAcked = conn.sendAcked ∧ after.recvBuf = conn.recvBuf ∧
    after.retries = conn.retries ∧ after.rtoMs = conn.rtoMs := by
  rw [sendSegmentRaw]
  cases env.cfg with
  | none => simp
  | some cfg =>
    dsimp only
    split
    · simp
    · rw [recordTx]
      split <;> simp

@[simp] theorem sendSegment_frame (env : Env) (conn : TcpConn) (flags : UInt8)
    (payload : List UInt8) :
    let after := (sendSegment env conn flags payload).1
    after.state = conn.state ∧ after.localPort = conn.localPort ∧
    after.remoteIp = conn.remoteIp ∧ after.remotePort = conn.remotePort ∧
    after.localSeq = conn.localSeq + consumed flags payload ∧ after.remoteSeq = conn.remoteSeq ∧
    after.localAck = conn.localAck ∧ after.sendBuf = conn.sendBuf ∧
    after.sendAcked = conn.sendAcked ∧ after.recvBuf = conn.recvBuf ∧
    after.retries = conn.retries ∧ after.rtoMs = conn.rtoMs := by
  simp [sendSegment]

/-- The number of bytes one `flushSend` transmits. -/
def flushLen (conn : TcpConn) : Nat := min conn.sendBuf.length MSS

private theorem consumed_push (payload : List UInt8) :
    consumed (PSH ||| ACK) payload = UInt32.ofNat payload.length := by
  have hsyn : has (PSH ||| ACK) SYN = false := by decide
  have hfin : has (PSH ||| ACK) FIN = false := by decide
  simp [consumed, hsyn, hfin]

@[simp] theorem flushSend_frame (env : Env) (conn : TcpConn) :
    let after := (flushSend env conn).1
    after.state = conn.state ∧ after.localPort = conn.localPort ∧
    after.remoteIp = conn.remoteIp ∧ after.remotePort = conn.remotePort ∧
    after.localSeq = conn.localSeq + UInt32.ofNat (flushLen conn) ∧
    after.remoteSeq = conn.remoteSeq ∧
    after.localAck = conn.localAck ∧ after.sendBuf = conn.sendBuf ∧
    after.sendAcked = conn.sendAcked ∧ after.recvBuf = conn.recvBuf ∧
    after.retries = conn.retries ∧ after.rtoMs = conn.rtoMs := by
  rw [flushSend]
  split
  · next hempty => simp [flushLen, hempty]
  · simp [consumed_push, flushLen]

@[simp] theorem andThen_fst (tx : Tx) (f : TcpConn → Tx) : (tx.andThen f).1 = (f tx.1).1 := rfl

@[simp] theorem andThen_snd (tx : Tx) (f : TcpConn → Tx) :
    (tx.andThen f).2 = tx.2 ++ (f tx.1).2 := rfl

/-- Binding the wildcard fields touches nothing but the remote end. -/
@[simp] theorem bindRemote_frame (conn : TcpConn) (src : Ipv4Addr) (hdr : TcpHeader) :
    let after := conn.bindRemote src hdr
    after.state = conn.state ∧ after.localPort = conn.localPort ∧
    after.localSeq = conn.localSeq ∧ after.remoteSeq = conn.remoteSeq ∧
    after.localAck = conn.localAck ∧ after.sendBuf = conn.sendBuf ∧
    after.sendAcked = conn.sendAcked ∧ after.recvBuf = conn.recvBuf ∧
    after.retries = conn.retries ∧ after.rtoMs = conn.rtoMs := by
  simp [TcpConn.bindRemote]

/-! ### What a datagram carries -/

/-- `d` parses to the header that `conn` puts on a segment with these flags and payload. -/
def Carries (conn : TcpConn) (flags : UInt8) (payload : List UInt8) (d : Datagram) : Prop :=
  d.dst = conn.remoteIp ∧
  ∃ cksum, TcpHeader.parse d.bytes =
    some (builtHeader conn.localPort conn.remotePort conn.localSeq conn.localAck flags WINDOW cksum
      payload)

theorem sendSegmentRaw_carries (env : Env) (conn : TcpConn) (flags : UInt8) (payload : List UInt8)
    (hflags : flags &&& 0x3F = flags) (d : Datagram)
    (hd : d ∈ (sendSegmentRaw env conn flags payload).2) : Carries conn flags payload d := by
  rw [sendSegmentRaw] at hd
  split at hd
  · simp at hd
  · split at hd
    · simp at hd
    · next hbuild =>
      obtain rfl := List.mem_singleton.mp hd
      exact ⟨rfl, parse_build _ _ _ _ _ _ _ _ _ _ _ hflags hbuild⟩

/-- With a configuration a segment of at most `MSS` bytes is built, transmitted and saved. -/
theorem sendSegmentRaw_configured {env : Env} {cfg : NetConfig} (conn : TcpConn) {flags : UInt8}
    {payload : List UInt8} (hcfg : env.cfg = some cfg) (hlen : payload.length ≤ MSS)
    (hflags : flags &&& 0x3F = flags) :
    ∃ d cksum, sendSegmentRaw env conn flags payload = (recordTx env conn flags payload, [d]) ∧
      TcpHeader.parse d.bytes = some (builtHeader conn.localPort conn.remotePort conn.localSeq
        conn.localAck flags WINDOW cksum payload) := by
  have hfits : ¬20 + MSS < 20 + payload.length := by omega
  rw [sendSegmentRaw, hcfg]
  simp only [TcpHeader.build, if_neg hfits]
  exact ⟨_, _, rfl, parse_segmentBytes _ _ _ _ _ _ _ _ hflags⟩

/-- Without one nothing is transmitted or saved. -/
theorem sendSegmentRaw_unconfigured {env : Env} (hcfg : env.cfg = none) (conn : TcpConn)
    (flags : UInt8) (payload : List UInt8) :
    sendSegmentRaw env conn flags payload = (conn, []) := by
  rw [sendSegmentRaw, hcfg]

theorem sendSegment_carries (env : Env) (conn : TcpConn) (flags : UInt8) (payload : List UInt8)
    (hflags : flags &&& 0x3F = flags) (d : Datagram)
    (hd : d ∈ (sendSegment env conn flags payload).2) :
    Carries { conn with localSeq := conn.localSeq + consumed flags payload } flags payload d :=
  sendSegmentRaw_carries env _ flags payload hflags d hd

/-- A flush transmits only when the buffer holds something, and then the front of it,
    numbered by the end of the segment. -/
theorem flushSend_carries (env : Env) (conn : TcpConn) (d : Datagram)
    (hd : d ∈ (flushSend env conn).2) :
    conn.sendBuf ≠ [] ∧
    Carries { conn with localSeq := conn.localSeq + UInt32.ofNat (flushLen conn) } (PSH ||| ACK)
      (conn.sendBuf.take (flushLen conn)) d := by
  rw [flushSend] at hd
  split at hd
  · simp at hd
  · next hne =>
    have hcarries := sendSegment_carries env conn _ _ (by decide) d hd
    rw [consumed_push, List.length_take, Nat.min_eq_left (Nat.min_le_left _ _)] at hcarries
    exact ⟨by intro h; simp [h] at hne, hcarries⟩

/-- A call transmits at most one datagram through `sendSegmentRaw`. -/
theorem length_sendSegmentRaw_le (env : Env) (conn : TcpConn) (flags : UInt8)
    (payload : List UInt8) : (sendSegmentRaw env conn flags payload).2.length ≤ 1 := by
  rw [sendSegmentRaw]
  split
  · simp
  · split <;> simp

theorem length_flushSend_le (env : Env) (conn : TcpConn) : (flushSend env conn).2.length ≤ 1 := by
  rw [flushSend]
  split
  · simp
  · exact length_sendSegmentRaw_le _ _ _ _

end RustKernel.Net.Tcp
