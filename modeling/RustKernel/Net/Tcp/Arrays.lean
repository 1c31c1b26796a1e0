import RustKernel.Lib.Buffer
import RustKernel.Net.Ethernet
import RustKernel.Net.Ipv4
import RustKernel.Net.Tcp.Stack

/-!
# RustKernel.Net.Tcp.Arrays

The TCP module once more, with the arrays of the source and their length fields. Every slice, index
and copy is checked against the size of its array, and so is every subtraction of lengths: a
function returns in `Checked`, and a failed check is a panic of the kernel.

The scalar fields are handled as in `Connection`. `TcpConn.view` forgets the elements behind the
length fields, which gives the connection of that module.
-/

namespace RustKernel.Net.Tcp.Arrays

open Lib

structure TcpConn where
  state : TcpState
  localPort : UInt16
  remoteIp : Ipv4Addr
  remotePort : UInt16
  localSeq : UInt32
  remoteSeq : UInt32
  localAck : UInt32
  sendBuf : Buffer UInt8 SEND_BUF_LEN
  sendLen : Nat
  sendAcked : Nat
  recvBuf : Buffer UInt8 RECV_BUF_LEN
  recvLen : Nat
  lastTxTime : UInt64
  lastTxSeq : UInt32
  lastTxLen : Nat
  lastTxFlags : UInt8
  lastTxPayload : Buffer UInt8 MSS
  retries : UInt8
  rtoMs : UInt64

/-- `TcpConn::new()` -/
def TcpConn.new : TcpConn where
  state := .closed
  localPort := 0
  remoteIp := .unspecified
  remotePort := 0
  localSeq := 0
  remoteSeq := 0
  localAck := 0
  sendBuf := .fill 0 SEND_BUF_LEN
  sendLen := 0
  sendAcked := 0
  recvBuf := .fill 0 RECV_BUF_LEN
  recvLen := 0
  lastTxTime := 0
  lastTxSeq := 0
  lastTxLen := 0
  lastTxFlags := 0
  lastTxPayload := .fill 0 MSS
  retries := 0
  rtoMs := RTO_MS

/-- The connection without the elements behind the length fields. -/
def TcpConn.view (conn : TcpConn) : Tcp.TcpConn where
  state := conn.state
  localPort := conn.localPort
  remoteIp := conn.remoteIp
  remotePort := conn.remotePort
  localSeq := conn.localSeq
  remoteSeq := conn.remoteSeq
  localAck := conn.localAck
  sendBuf := conn.sendBuf.front conn.sendLen
  sendAcked := conn.sendAcked
  recvBuf := conn.recvBuf.front conn.recvLen
  lastTxTime := conn.lastTxTime
  lastTxSeq := conn.lastTxSeq
  lastTxFlags := conn.lastTxFlags
  lastTxPayload := conn.lastTxPayload.front conn.lastTxLen
  retries := conn.retries
  rtoMs := conn.rtoMs

/-- What a call reads from outside the module, the hardware address of `super::status()` included. -/
structure Env extends Tcp.Env where
  mac : MacAddr

/-- A connection after a step, with the segments transmitted. -/
abbrev Tx := TcpConn × List Datagram

/-- Run a second step on the connection a first one left. -/
def andThen (x : Checked Tx) (f : TcpConn → Checked Tx) : Checked Tx := do
  let (conn, out) ← x
  let (conn, out') ← f conn
  pure (conn, out ++ out')

/-! ### Parsing -/

/-- `u16::from_be_bytes([data[off], data[off + 1]])` -/
def u16At (data : List UInt8) (off : Nat) : Checked UInt16 := do
  let a ← index data off
  let b ← index data (off + 1)
  pure (UInt16.ofNat (beDecode [a, b]))

/-- `u32::from_be_bytes([data[off], data[off + 1], data[off + 2], data[off + 3]])` -/
def u32At (data : List UInt8) (off : Nat) : Checked UInt32 := do
  let a ← index data off
  let b ← index data (off + 1)
  let c ← index data (off + 2)
  let d ← index data (off + 3)
  pure (UInt32.ofNat (beDecode [a, b, c, d]))

def TcpHeader.parse (data : List UInt8) : Checked (Option TcpHeader) :=
  if data.length < 20 then pure none
  else do
    let srcPort ← u16At data 0
    let dstPort ← u16At data 2
    let seq ← u32At data 4
    let ack ← u32At data 8
    let offsetByte ← index data 12
    let dataOffset : UInt8 := (offsetByte >>> 4) * 4
    if dataOffset < 20 ∨ data.length < dataOffset.toNat then pure none
    else do
      let flagsByte ← index data 13
      let window ← u16At data 14
      let checksum ← u16At data 16
      let urgent ← u16At data 18
      let payload ← slice data dataOffset.toNat data.length
      pure (some {
        srcPort
        dstPort
        seq
        ack
        dataOffset
        flags := flagsByte &&& 0x3F
        window
        checksum
        urgent
        payload })

/-! ### Internal send -/

/-- The `last_tx_*` fields of a segment that the retransmission timer covers. -/
def recordTx (env : Env) (conn : TcpConn) (flags : UInt8) (payload : List UInt8) :
    Checked TcpConn :=
  if has flags (SYN ||| FIN) || !payload.isEmpty then do
    let copyLen := min payload.length MSS
    let front ← slice payload 0 copyLen
    let lastTxPayload ← conn.lastTxPayload.copyFromSlice 0 copyLen front
    pure { conn with
      lastTxTime := env.now
      lastTxSeq := conn.localSeq
      lastTxLen := payload.length
      lastTxFlags := flags
      lastTxPayload }
  else pure conn

/-- The part of `send_segment_raw` that wraps the segment in `tcp_buf` into a frame. -/
def wrap (env : Env) (srcIp dstIp : Ipv4Addr) (segment : List UInt8) :
    Checked (Option (List UInt8)) := do
  let tcpLen := segment.length
  let tcpBuf ← (Buffer.fill 0 (20 + MSS)).copyFromSlice 0 tcpLen segment
  match Ipv4Packet.build srcIp dstIp 6 (UInt16.ofNat tcpLen) (20 + 20 + MSS) with
  | none => pure none
  | some header => do
    let ipHdrLen := header.length
    let ipBuf ← (Buffer.fill 0 (20 + 20 + MSS)).copyFromSlice 0 ipHdrLen header
    let segment ← tcpBuf.slice 0 tcpLen
    let ipBuf ← ipBuf.copyFromSlice ipHdrLen (ipHdrLen + tcpLen) segment
    let packet ← ipBuf.slice 0 (ipHdrLen + tcpLen)
    -- `resolve_mac` does not wait for an answer and returns the broadcast address
    match EthernetFrame.build ⟨0xFF, 0xFF, 0xFF, 0xFF, 0xFF, 0xFF⟩ env.mac ETHERTYPE_IPV4 packet
        (14 + 20 + 20 + MSS) with
    | none => pure none
    | some frame => do
      let ethBuf ← (Buffer.fill 0 (14 + 20 + 20 + MSS)).copyFromSlice 0 frame.length frame
      let frame ← ethBuf.slice 0 frame.length
      pure (some frame)

def sendSegmentRaw (env : Env) (conn : TcpConn) (flags : UInt8) (payload : List UInt8) :
    Checked Tx :=
  match env.cfg with
  | none => pure (conn, [])
  | some cfg =>
    match TcpHeader.build conn.localPort conn.remotePort conn.localSeq conn.localAck flags WINDOW
        cfg.ip conn.remoteIp payload (20 + MSS) with
    | none => pure (conn, [])
    | some bytes => do
      let conn ← recordTx env conn flags payload
      match ← wrap env cfg.ip conn.remoteIp bytes with
      | none => pure (conn, [])
      | some _ => pure (conn, [⟨cfg.ip, conn.remoteIp, bytes⟩])

def sendSegment (env : Env) (conn : TcpConn) (flags : UInt8) (payload : List UInt8) : Checked Tx :=
  sendSegmentRaw env { conn with localSeq := conn.localSeq + consumed flags payload } flags payload

def flushSend (env : Env) (conn : TcpConn) : Checked Tx :=
  if conn.sendLen = 0 then pure (conn, [])
  else do
    let toSend := min conn.sendLen MSS
    let front ← conn.sendBuf.slice 0 toSend
    let payloadBuf ← (Buffer.fill 0 MSS).copyFromSlice 0 toSend front
    let payload ← payloadBuf.slice 0 toSend
    sendSegment env conn (PSH ||| ACK) payload

/-! ### Retransmission -/

def checkRetransmit (env : Env) (conn : TcpConn) : Checked Tx :=
  if conn.retries ≥ MAX_RETRIES then do
    let (_, out) ← sendSegmentRaw env conn (RST ||| ACK) []
    pure (TcpConn.new, out)
  else if env.now - conn.lastTxTime ≥ conn.rtoMs then do
    let plen := conn.lastTxLen
    let front ← conn.lastTxPayload.slice 0 plen
    let payloadBuf ← (Buffer.fill 0 MSS).copyFromSlice 0 plen front
    let payload ← payloadBuf.slice 0 plen
    let (conn, out) ← sendSegmentRaw env conn conn.lastTxFlags payload
    pure ({ conn with
      retries := conn.retries + 1
      rtoMs := conn.rtoMs * 2
      lastTxTime := env.now }, out)
  else pure (conn, [])

/-! ### Segment processing -/

def handleListen (env : Env) (conn : TcpConn) (hdr : TcpHeader) : Checked Tx :=
  if !has hdr.flags SYN then pure (conn, [])
  else
    sendSegment env
      { conn with
        remoteSeq := hdr.seq + 1
        localAck := hdr.seq + 1
        state := .synReceived } (SYN ||| ACK) []

def handleSynSent (env : Env) (conn : TcpConn) (hdr : TcpHeader) : Checked Tx :=
  if hdr.flags &&& (SYN ||| ACK) ≠ SYN ||| ACK then pure (conn, [])
  else if hdr.ack ≠ conn.localSeq then pure (conn, [])
  else
    andThen
      (sendSegmentRaw env
        { conn with
          remoteSeq := hdr.seq + 1
          localAck := hdr.seq + 1
          state := .established
          retries := 0
          rtoMs := RTO_MS } ACK [])
      (flushSend env)

def handleSynReceived (conn : TcpConn) (hdr : TcpHeader) : Checked Tx :=
  if !has hdr.flags ACK then pure (conn, [])
  else if hdr.ack ≠ conn.localSeq then pure (conn, [])
  else pure ({ conn with state := .established, retries := 0, rtoMs := RTO_MS }, [])

/-- Remove the first `acked` bytes of the send buffer. -/
def removeAcked (conn : TcpConn) (acked : UInt32) : Checked TcpConn :=
  if 0 < acked then do
    let a := acked.toNat
    let sendBuf ← conn.sendBuf.copyWithin a conn.sendLen 0
    let sendLen ← subtract conn.sendLen a
    pure { conn with sendBuf, sendLen }
  else pure conn

/-- The acknowledgement block of `handle_established`. -/
def establishedAck (env : Env) (conn : TcpConn) (hdr : TcpHeader) : Checked Tx :=
  if !has hdr.flags ACK then pure (conn, [])
  else
    let ackedStart := conn.localSeq - UInt32.ofNat conn.sendLen
    if seqLt ackedStart hdr.ack || hdr.ack == conn.localSeq then do
      let acked := hdr.ack - ackedStart
      let acked := if UInt32.ofNat conn.sendLen < acked then UInt32.ofNat conn.sendLen else acked
      let conn ← removeAcked { conn with retries := 0, rtoMs := RTO_MS } acked
      flushSend env { conn with sendAcked := hdr.ack.toNat }
    else pure (conn, [])

/-- The copy of an in-order payload into the receive buffer. -/
def acceptPayload (conn : TcpConn) (payload : List UInt8) : Checked TcpConn := do
  let room ← subtract RECV_BUF_LEN conn.recvLen
  let copyLen := min payload.length room
  let front ← slice payload 0 copyLen
  let recvBuf ← conn.recvBuf.copyFromSlice conn.recvLen (conn.recvLen + copyLen) front
  pure { conn with
    recvBuf
    recvLen := conn.recvLen + copyLen
    remoteSeq := conn.remoteSeq + UInt32.ofNat payload.length }

/-- The payload block of `handle_established`, for an in-order segment. -/
def establishedData (env : Env) (conn : TcpConn) (hdr : TcpHeader) : Checked Tx :=
  if hdr.payload.isEmpty then pure (conn, [])
  else do
    let conn ← acceptPayload conn hdr.payload
    sendSegmentRaw env { conn with localAck := conn.remoteSeq } ACK []

/-- The FIN block of `handle_established`. -/
def establishedFin (env : Env) (conn : TcpConn) (hdr : TcpHeader) : Checked Tx :=
  if !has hdr.flags FIN then pure (conn, [])
  else do
    let (conn, out) ← sendSegmentRaw env
      { conn with remoteSeq := conn.remoteSeq + 1, localAck := conn.remoteSeq + 1 } ACK []
    pure ({ conn with state := .closeWait }, out)

def handleEstablished (env : Env) (conn : TcpConn) (hdr : TcpHeader) : Checked Tx :=
  andThen (establishedAck env conn hdr) fun conn =>
    if !hdr.payload.isEmpty && hdr.seq ≠ conn.remoteSeq then sendSegmentRaw env conn ACK []
    else andThen (establishedData env conn hdr) fun conn => establishedFin env conn hdr

/-- The FIN block that `handle_fin_wait1` and `handle_fin_wait2` share. -/
def enterTimeWait (env : Env) (conn : TcpConn) : Checked Tx := do
  let (conn, out) ← sendSegmentRaw env
    { conn with remoteSeq := conn.remoteSeq + 1, localAck := conn.remoteSeq + 1 } ACK []
  pure ({ conn with state := .timeWait, lastTxTime := env.now }, out)

/-- The payload block that `handle_fin_wait1` and `handle_fin_wait2` share. -/
def finWaitData (conn : TcpConn) (hdr : TcpHeader) : Checked TcpConn :=
  if !hdr.payload.isEmpty && hdr.seq == conn.remoteSeq then acceptPayload conn hdr.payload
  else pure conn

def handleFinWait1 (env : Env) (conn : TcpConn) (hdr : TcpHeader) : Checked Tx := do
  let (conn, out) ←
    (if has hdr.flags ACK then
      if has hdr.flags FIN then enterTimeWait env conn
      else pure ({ conn with state := .finWait2 }, [])
    else pure (conn, []) : Checked Tx)
  let conn ← finWaitData conn hdr
  pure (conn, out)

def handleFinWait2 (env : Env) (conn : TcpConn) (hdr : TcpHeader) : Checked Tx := do
  let (conn, out) ←
    (if has hdr.flags FIN then enterTimeWait env conn else pure (conn, []) : Checked Tx)
  let conn ← finWaitData conn hdr
  pure (conn, out)

def handleCloseWait (env : Env) (conn : TcpConn) (hdr : TcpHeader) : Checked Tx :=
  andThen
    (if !hdr.payload.isEmpty && hdr.seq == conn.remoteSeq then do
      let conn ← acceptPayload conn hdr.payload
      sendSegmentRaw env { conn with localAck := conn.remoteSeq } ACK []
    else pure (conn, []))
    fun conn =>
      if has hdr.flags FIN then sendSegmentRaw env { conn with localAck := conn.remoteSeq } ACK []
      else pure (conn, [])

def handleLastAck (conn : TcpConn) (hdr : TcpHeader) : Checked Tx :=
  if has hdr.flags ACK then pure ({ conn with state := .closed }, []) else pure (conn, [])

def processSegment (env : Env) (conn : TcpConn) (hdr : TcpHeader) : Checked Tx :=
  match conn.state with
  | .listen => handleListen env conn hdr
  | .synSent => handleSynSent env conn hdr
  | .synReceived => handleSynReceived conn hdr
  | .established => handleEstablished env conn hdr
  | .finWait1 => handleFinWait1 env conn hdr
  | .finWait2 => handleFinWait2 env conn hdr
  | .closeWait => handleCloseWait env conn hdr
  | .lastAck => handleLastAck conn hdr
  | .closed | .timeWait => pure (conn, [])

/-! ### Calls on one connection -/

/-- The body of `listen` on the slot it takes. -/
def TcpConn.openListen (env : Env) (conn : TcpConn) (port : UInt16) : TcpConn :=
  { conn with
    state := .listen
    localPort := port
    remoteIp := .unspecified
    remotePort := 0
    localSeq := isn env.toEnv
    remoteSeq := 0
    localAck := 0 }

/-- The body of `connect` on the slot it takes. -/
def TcpConn.openConnect (env : Env) (conn : TcpConn) (localPort : UInt16) (remoteIp : Ipv4Addr)
    (remotePort : UInt16) : Checked Tx :=
  sendSegment env
    { conn with
      state := .synSent
      localPort
      remoteIp
      remotePort
      localSeq := isn env.toEnv
      remoteSeq := 0
      localAck := 0
      retries := 0
      rtoMs := RTO_MS } SYN []

/-- The body of `send` on a connection of the table. -/
def TcpConn.send (env : Env) (conn : TcpConn) (data : List UInt8) :
    Checked (Except String Nat × Tx) :=
  if conn.state ≠ .established ∧ conn.state ≠ .closeWait then
    pure (.error "connection not established", conn, [])
  else do
    let room ← subtract SEND_BUF_LEN conn.sendLen
    let toCopy := min data.length room
    if toCopy = 0 then pure (.error "send buffer full", conn, [])
    else do
      let front ← slice data 0 toCopy
      let sendBuf ← conn.sendBuf.copyFromSlice conn.sendLen (conn.sendLen + toCopy) front
      let tx ← flushSend env { conn with sendBuf, sendLen := conn.sendLen + toCopy }
      pure (.ok toCopy, tx)

/-- The body of `recv` into the caller's buffer: the connection, and the bytes copied out. -/
def TcpConn.recv {bufLen : Nat} (conn : TcpConn) (buf : Buffer UInt8 bufLen) :
    Checked (TcpConn × List UInt8) :=
  if conn.recvLen = 0 then pure (conn, [])
  else do
    let n := min conn.recvLen bufLen
    let bytes ← conn.recvBuf.slice 0 n
    let buf ← buf.copyFromSlice 0 n bytes
    let recvBuf ←
      (if n < conn.recvLen then conn.recvBuf.copyWithin n conn.recvLen 0
      else pure conn.recvBuf : Checked (Buffer UInt8 RECV_BUF_LEN))
    let recvLen ← subtract conn.recvLen n
    pure ({ conn with recvBuf, recvLen }, buf.front n)

/-- The body of `close` on a connection of the table. -/
def TcpConn.close (env : Env) (conn : TcpConn) : Checked (Except String Unit × Tx) :=
  match conn.state with
  | .established => do
    let tx ← andThen (flushSend env conn) fun conn =>
      sendSegment env { conn with state := .finWait1 } (FIN ||| ACK) []
    pure (.ok (), tx)
  | .closeWait => do
    let tx ← sendSegment env { conn with state := .lastAck } (FIN ||| ACK) []
    pure (.ok (), tx)
  | _ => pure (.error "connection not in closable state", conn, [])

/-- The loop body of `poll`. -/
def TcpConn.poll (env : Env) (conn : TcpConn) : Checked Tx :=
  match conn.state with
  | .synSent | .synReceived | .finWait1 | .lastAck => checkRetransmit env conn
  | .established | .closeWait => if conn.sendLen > 0 then flushSend env conn else pure (conn, [])
  | .timeWait =>
    if env.now - conn.lastTxTime ≥ 60000 then pure ({ conn with state := .closed }, [])
    else pure (conn, [])
  | .closed | .listen | .finWait2 => pure (conn, [])

def TcpConn.bindRemote (conn : TcpConn) (src : Ipv4Addr) (hdr : TcpHeader) : TcpConn :=
  { conn with
    remoteIp := if conn.remoteIp = .unspecified then src else conn.remoteIp
    remotePort := if conn.remotePort = 0 then hdr.srcPort else conn.remotePort }

/-- `receive` on the connection it found. -/
def TcpConn.deliver (env : Env) (conn : TcpConn) (src : Ipv4Addr) (hdr : TcpHeader) : Checked Tx :=
  if has hdr.flags RST then pure (TcpConn.new, [])
  else processSegment env (conn.bindRemote src hdr) hdr

/-! ### The connection table -/

/-- The global table `CONNS`. -/
abbrev ConnTable := List TcpConn

/-- The table at boot. -/
def ConnTable.init : ConnTable := List.replicate MAX_CONNS TcpConn.new

/-- The lookup of `listen` and `connect`. -/
def ConnTable.freeSlot (conns : ConnTable) : Option Nat :=
  conns.findIdx? fun c => c.state = .closed

/-- The lookup predicate of `receive`. -/
def TcpConn.accepts (src : Ipv4Addr) (hdr : TcpHeader) (c : TcpConn) : Bool :=
  c.state ≠ .closed && c.state ≠ .timeWait && c.localPort == hdr.dstPort &&
    (c.remoteIp == .unspecified || c.remoteIp == src) &&
    (c.remotePort == 0 || c.remotePort == hdr.srcPort)

structure Stack where
  cfg : Option NetConfig
  mac : MacAddr
  conns : ConnTable

/-- The module at boot. -/
def Stack.boot (mac : MacAddr) : Stack := ⟨none, mac, ConnTable.init⟩

/-- The table without the elements behind the length fields. -/
def Stack.view (s : Stack) : Tcp.Stack := ⟨s.cfg, s.conns.map TcpConn.view⟩

/-- A call on the slot it found, if it found one. -/
def Stack.onSlot (s : Stack) (slot : Option Nat) (f : TcpConn → Checked (TcpConn × List Seen)) :
    Checked (Stack × Output) :=
  match slot with
  | none => pure (s, [])
  | some i => do
    let conn ← index s.conns i
    let (conn, seen) ← f conn
    pure ({ s with conns := s.conns.set i conn }, seen.map fun x => (i, x))

/-- The datagrams of a step, as observations. -/
def seen (x : Checked Tx) : Checked (TcpConn × List Seen) := do
  let (conn, out) ← x
  pure (conn, out.map .sent)

/-- `conns.get_mut(idx)` -/
def ConnTable.getMut (conns : ConnTable) (idx : Nat) : Option Nat :=
  if idx < conns.length then some idx else none

/-- The entry points. -/
def Stack.step (s : Stack) (e : Event) : Checked (Stack × Output) :=
  let env : Env := ⟨⟨s.cfg, e.now⟩, s.mac⟩
  match e.call with
  | .listen port =>
    s.onSlot s.conns.freeSlot fun conn => pure (conn.openListen env port, [])
  | .connect localPort remoteIp remotePort =>
    s.onSlot s.conns.freeSlot fun conn => seen (conn.openConnect env localPort remoteIp remotePort)
  | .send idx data =>
    s.onSlot (s.conns.getMut idx) fun conn => do
      let (_, tx) ← conn.send env data
      seen (pure tx)
  | .recv idx bufLen =>
    s.onSlot (s.conns.getMut idx) fun conn => do
      let (conn, bytes) ← conn.recv (Buffer.fill 0 bufLen)
      pure (conn, [.returned bytes])
  | .close idx =>
    s.onSlot (s.conns.getMut idx) fun conn => do
      let (_, tx) ← conn.close env
      seen (pure tx)
  | .receive src data => do
    match ← TcpHeader.parse data with
    | none => pure (s, [])
    | some hdr =>
      s.onSlot (s.conns.findIdx? (TcpConn.accepts src hdr)) fun conn =>
        seen (conn.deliver env src hdr)
  | .poll => do
    let txs ← s.conns.mapM fun conn => conn.poll env
    pure ({ s with conns := txs.map (·.1) },
      (txs.mapIdx fun i tx => tx.2.map fun d => (i, .sent d)).flatten)
  | .setConfig cfg => pure ({ s with cfg := some cfg }, [])

/-- A run: the last state, and everything observed. -/
def Stack.run (s : Stack) : List Event → Checked (Stack × Output)
  | [] => pure (s, [])
  | e :: es => do
    let (s, out) ← s.step e
    let (s, out') ← s.run es
    pure (s, out ++ out')

end RustKernel.Net.Tcp.Arrays
