import RustKernel.Net.Tcp.Segment

/-!
# RustKernel.Net.Tcp.Connection

The connection record, the send path, the segment handlers and the public entry
points of the TCP module, as the source computes them.

The three byte arrays of a connection are kept as the lists of their live bytes:
`sendBuf` is `send_buf[..send_len]`, `recvBuf` is `recv_buf[..recv_len]` and
`lastTxPayload` is `last_tx_payload[..last_tx_len]`. No function of the source reads
an array beyond its length field, so nothing depends on the bytes after it.

A call reads the clock and the network configuration from an `Env`. Calls that
transmit return the datagrams they hand to the IPv4 layer, in order.
-/

namespace RustKernel.Net.Tcp

/-! ### Constants and environment -/

def SEND_BUF_LEN : Nat := 1024
def RECV_BUF_LEN : Nat := 4096

/-- Retransmission timeout in milliseconds. -/
def RTO_MS : UInt64 := 1000

/-- Maximum retransmissions before giving up. -/
def MAX_RETRIES : UInt8 := 3

/-- Size of the connection table. -/
def MAX_CONNS : Nat := 4

/-- The part of the network configuration the TCP module reads. -/
structure NetConfig where
  ip : Ipv4Addr
  deriving DecidableEq, Repr

/-- What a call reads from outside the module: `get_config()` and `timer::millis()`. -/
structure Env where
  cfg : Option NetConfig
  now : UInt64
  deriving DecidableEq, Repr

/-- A TCP segment handed to the IPv4 layer, with its addresses. -/
structure Datagram where
  src : Ipv4Addr
  dst : Ipv4Addr
  bytes : List UInt8
  deriving DecidableEq, Repr

/-! ### Connections -/

inductive TcpState where
  | closed
  | listen
  | synSent
  | synReceived
  | established
  | finWait1
  | finWait2
  | closeWait
  | lastAck
  | timeWait
  deriving DecidableEq, Repr

structure TcpConn where
  state : TcpState
  localPort : UInt16
  remoteIp : Ipv4Addr
  remotePort : UInt16
  localSeq : UInt32
  remoteSeq : UInt32
  localAck : UInt32
  sendBuf : List UInt8
  sendAcked : Nat
  recvBuf : List UInt8
  lastTxTime : UInt64
  lastTxSeq : UInt32
  lastTxFlags : UInt8
  lastTxPayload : List UInt8
  retries : UInt8
  rtoMs : UInt64
  deriving DecidableEq, Repr

/-- `TcpConn::new()` -/
def TcpConn.new : TcpConn where
  state := .closed
  localPort := 0
  remoteIp := .unspecified
  remotePort := 0
  localSeq := 0
  remoteSeq := 0
  localAck := 0
  sendBuf := []
  sendAcked := 0
  recvBuf := []
  lastTxTime := 0
  lastTxSeq := 0
  lastTxFlags := 0
  lastTxPayload := []
  retries := 0
  rtoMs := RTO_MS

/-- `seq_lt`: signed comparison of sequence numbers (it holds for equal ones too). -/
def seqLt (a b : UInt32) : Bool := b - a < 0x80000000

/-- `isn()` -/
def isn (env : Env) : UInt32 := env.now.toUInt32

/-! ### Internal send -/

/-- A connection after a step, with the datagrams the step transmitted. -/
abbrev Tx := TcpConn × List Datagram

/-- Run a second step on the connection a first one left. -/
def Tx.andThen (tx : Tx) (f : TcpConn → Tx) : Tx := ((f tx.1).1, tx.2 ++ (f tx.1).2)

/-- `last_tx_*` after a segment that the retransmission timer covers. -/
def recordTx (env : Env) (conn : TcpConn) (flags : UInt8) (payload : List UInt8) : TcpConn :=
  if has flags (SYN ||| FIN) || !payload.isEmpty then
    { conn with
      lastTxTime := env.now
      lastTxSeq := conn.localSeq
      lastTxFlags := flags
      lastTxPayload := payload }
  else conn

/-- `send_segment_raw`: the IPv4 and Ethernet wrapping after the TCP segment is built
    cannot fail for these sizes and does not touch the connection. -/
def sendSegmentRaw (env : Env) (conn : TcpConn) (flags : UInt8) (payload : List UInt8) : Tx :=
  match env.cfg with
  | none => (conn, [])
  | some cfg =>
    match TcpHeader.build conn.localPort conn.remotePort conn.localSeq conn.localAck flags WINDOW
        cfg.ip conn.remoteIp payload (20 + MSS) with
    | none => (conn, [])
    | some bytes => (recordTx env conn flags payload, [⟨cfg.ip, conn.remoteIp, bytes⟩])

/-- The sequence numbers a segment occupies. -/
def consumed (flags : UInt8) (payload : List UInt8) : UInt32 :=
  (if has flags SYN then 1 else 0) + (if has flags FIN then 1 else 0) + UInt32.ofNat payload.length

/-- `send_segment`: the sequence number advances before the segment is built. -/
def sendSegment (env : Env) (conn : TcpConn) (flags : UInt8) (payload : List UInt8) : Tx :=
  sendSegmentRaw env { conn with localSeq := conn.localSeq + consumed flags payload } flags payload

/-- `flush_send`: send the front of the send buffer, at most one segment. -/
def flushSend (env : Env) (conn : TcpConn) : Tx :=
  if conn.sendBuf.length = 0 then (conn, [])
  else sendSegment env conn (PSH ||| ACK) (conn.sendBuf.take (min conn.sendBuf.length MSS))

/-! ### Retransmission -/

def checkRetransmit (env : Env) (conn : TcpConn) : Tx :=
  if conn.retries ≥ MAX_RETRIES then
    -- the limit is tested first: the timeout of the last retransmission is not awaited
    (TcpConn.new, (sendSegmentRaw env conn (RST ||| ACK) []).2)
  else if env.now - conn.lastTxTime ≥ conn.rtoMs then
    let (conn, out) := sendSegmentRaw env conn conn.lastTxFlags conn.lastTxPayload
    ({ conn with
        retries := conn.retries + 1
        rtoMs := conn.rtoMs * 2
        lastTxTime := env.now }, out)
  else (conn, [])

/-! ### Segment processing -/

def handleListen (env : Env) (conn : TcpConn) (hdr : TcpHeader) : Tx :=
  if !has hdr.flags SYN then (conn, [])
  else
    sendSegment env
      { conn with
        remoteSeq := hdr.seq + 1
        localAck := hdr.seq + 1
        state := .synReceived } (SYN ||| ACK) []

def handleSynSent (env : Env) (conn : TcpConn) (hdr : TcpHeader) : Tx :=
  if hdr.flags &&& (SYN ||| ACK) ≠ SYN ||| ACK then (conn, [])
  else if hdr.ack ≠ conn.localSeq then (conn, [])
  else
    (sendSegmentRaw env
      { conn with
        remoteSeq := hdr.seq + 1
        localAck := hdr.seq + 1
        state := .established
        retries := 0
        rtoMs := RTO_MS } ACK []).andThen (flushSend env)

def handleSynReceived (conn : TcpConn) (hdr : TcpHeader) : Tx :=
  if !has hdr.flags ACK then (conn, [])
  else if hdr.ack ≠ conn.localSeq then (conn, [])
  else ({ conn with state := .established, retries := 0, rtoMs := RTO_MS }, [])

/-- The number of buffered bytes an acknowledgement number covers, clamped to the buffer. -/
def ackedBytes (conn : TcpConn) (ack : UInt32) : Nat :=
  let ackedStart := conn.localSeq - UInt32.ofNat conn.sendBuf.length
  min (ack - ackedStart).toNat conn.sendBuf.length

/-- The acknowledgement block of `handle_established`. -/
def establishedAck (env : Env) (conn : TcpConn) (hdr : TcpHeader) : Tx :=
  if !has hdr.flags ACK then (conn, [])
  else
    let ackedStart := conn.localSeq - UInt32.ofNat conn.sendBuf.length
    if seqLt ackedStart hdr.ack || hdr.ack == conn.localSeq then
      flushSend env
        { conn with
          retries := 0
          rtoMs := RTO_MS
          sendBuf := conn.sendBuf.drop (ackedBytes conn hdr.ack)
          sendAcked := hdr.ack.toNat }
    else (conn, [])

/-- Append what fits of an in-order payload; the receive sequence advances by all of it. -/
def acceptPayload (conn : TcpConn) (payload : List UInt8) : TcpConn :=
  { conn with
    recvBuf := conn.recvBuf ++ payload.take (min payload.length (RECV_BUF_LEN - conn.recvBuf.length))
    remoteSeq := conn.remoteSeq + UInt32.ofNat payload.length }

/-- The payload block of `handle_established`, for an in-order segment. -/
def establishedData (env : Env) (conn : TcpConn) (hdr : TcpHeader) : Tx :=
  if hdr.payload.isEmpty then (conn, [])
  else
    let conn := acceptPayload conn hdr.payload
    sendSegmentRaw env { conn with localAck := conn.remoteSeq } ACK []

/-- The FIN block of `handle_established`. -/
def establishedFin (env : Env) (conn : TcpConn) (hdr : TcpHeader) : Tx :=
  if !has hdr.flags FIN then (conn, [])
  else
    let (conn, out) := sendSegmentRaw env
      { conn with remoteSeq := conn.remoteSeq + 1, localAck := conn.remoteSeq + 1 } ACK []
    ({ conn with state := .closeWait }, out)

def handleEstablished (env : Env) (conn : TcpConn) (hdr : TcpHeader) : Tx :=
  (establishedAck env conn hdr).andThen fun conn =>
    -- an out-of-order payload is answered with a bare ACK and ends the handler
    if !hdr.payload.isEmpty && hdr.seq ≠ conn.remoteSeq then sendSegmentRaw env conn ACK []
    else (establishedData env conn hdr).andThen fun conn => establishedFin env conn hdr

/-- The FIN block that `handle_fin_wait1` and `handle_fin_wait2` share. -/
def enterTimeWait (env : Env) (conn : TcpConn) : Tx :=
  let (conn, out) := sendSegmentRaw env
    { conn with remoteSeq := conn.remoteSeq + 1, localAck := conn.remoteSeq + 1 } ACK []
  ({ conn with state := .timeWait, lastTxTime := env.now }, out)

/-- The payload block that `handle_fin_wait1` and `handle_fin_wait2` share: stored, not acknowledged. -/
def finWaitData (conn : TcpConn) (hdr : TcpHeader) : TcpConn :=
  if !hdr.payload.isEmpty && hdr.seq == conn.remoteSeq then acceptPayload conn hdr.payload else conn

def handleFinWait1 (env : Env) (conn : TcpConn) (hdr : TcpHeader) : Tx :=
  let (conn, out) :=
    if has hdr.flags ACK then
      if has hdr.flags FIN then enterTimeWait env conn else ({ conn with state := .finWait2 }, [])
    else (conn, [])
  -- a FIN has been counted by now, so the payload before it no longer is in order
  (finWaitData conn hdr, out)

def handleFinWait2 (env : Env) (conn : TcpConn) (hdr : TcpHeader) : Tx :=
  let (conn, out) := if has hdr.flags FIN then enterTimeWait env conn else (conn, [])
  (finWaitData conn hdr, out)

def handleCloseWait (env : Env) (conn : TcpConn) (hdr : TcpHeader) : Tx :=
  Tx.andThen
    (if !hdr.payload.isEmpty && hdr.seq == conn.remoteSeq then
      let conn := acceptPayload conn hdr.payload
      sendSegmentRaw env { conn with localAck := conn.remoteSeq } ACK []
    else (conn, []))
    fun conn =>
      -- a repeated FIN is acknowledged again
      if has hdr.flags FIN then sendSegmentRaw env { conn with localAck := conn.remoteSeq } ACK []
      else (conn, [])

def handleLastAck (conn : TcpConn) (hdr : TcpHeader) : Tx :=
  if has hdr.flags ACK then ({ conn with state := .closed }, []) else (conn, [])

def processSegment (env : Env) (conn : TcpConn) (hdr : TcpHeader) : Tx :=
  match conn.state with
  | .listen => handleListen env conn hdr
  | .synSent => handleSynSent env conn hdr
  | .synReceived => handleSynReceived conn hdr
  | .established => handleEstablished env conn hdr
  | .finWait1 => handleFinWait1 env conn hdr
  | .finWait2 => handleFinWait2 env conn hdr
  | .closeWait => handleCloseWait env conn hdr
  | .lastAck => handleLastAck conn hdr
  | .closed | .timeWait => (conn, [])

/-! ### Calls on one connection -/

/-- The body of `listen` on the slot it takes. -/
def TcpConn.openListen (env : Env) (conn : TcpConn) (port : UInt16) : TcpConn :=
  { conn with
    state := .listen
    localPort := port
    remoteIp := .unspecified
    remotePort := 0
    localSeq := isn env
    remoteSeq := 0
    localAck := 0 }

/-- The body of `connect` on the slot it takes. -/
def TcpConn.openConnect (env : Env) (conn : TcpConn) (localPort : UInt16) (remoteIp : Ipv4Addr)
    (remotePort : UInt16) : Tx :=
  sendSegment env
    { conn with
      state := .synSent
      localPort
      remoteIp
      remotePort
      localSeq := isn env
      remoteSeq := 0
      localAck := 0
      retries := 0
      rtoMs := RTO_MS } SYN []

/-- The body of `send` on a connection of the table. -/
def TcpConn.send (env : Env) (conn : TcpConn) (data : List UInt8) : Except String Nat × Tx :=
  if conn.state ≠ .established ∧ conn.state ≠ .closeWait then
    (.error "connection not established", conn, [])
  else
    let toCopy := min data.length (SEND_BUF_LEN - conn.sendBuf.length)
    if toCopy = 0 then (.error "send buffer full", conn, [])
    else (.ok toCopy, flushSend env { conn with sendBuf := conn.sendBuf ++ data.take toCopy })

/-- The body of `recv` into a buffer of `bufLen` bytes: what is left, and the bytes copied out. -/
def TcpConn.recv (conn : TcpConn) (bufLen : Nat) : TcpConn × List UInt8 :=
  let n := min conn.recvBuf.length bufLen
  ({ conn with recvBuf := conn.recvBuf.drop n }, conn.recvBuf.take n)

/-- The body of `close` on a connection of the table. -/
def TcpConn.close (env : Env) (conn : TcpConn) : Except String Unit × Tx :=
  match conn.state with
  | .established =>
    (.ok (), (flushSend env conn).andThen fun conn =>
      sendSegment env { conn with state := .finWait1 } (FIN ||| ACK) [])
  | .closeWait => (.ok (), sendSegment env { conn with state := .lastAck } (FIN ||| ACK) [])
  | _ => (.error "connection not in closable state", conn, [])

/-- The loop body of `poll`. -/
def TcpConn.poll (env : Env) (conn : TcpConn) : Tx :=
  match conn.state with
  | .synSent | .synReceived | .finWait1 | .lastAck => checkRetransmit env conn
  | .established | .closeWait => if conn.sendBuf.length > 0 then flushSend env conn else (conn, [])
  | .timeWait =>
    if env.now - conn.lastTxTime ≥ 60000 then ({ conn with state := .closed }, []) else (conn, [])
  | .closed | .listen | .finWait2 => (conn, [])

/-- `receive` on the connection it found: fill the wildcard fields, then reset or process. -/
def TcpConn.bindRemote (conn : TcpConn) (src : Ipv4Addr) (hdr : TcpHeader) : TcpConn :=
  { conn with
    remoteIp := if conn.remoteIp = .unspecified then src else conn.remoteIp
    remotePort := if conn.remotePort = 0 then hdr.srcPort else conn.remotePort }

def TcpConn.deliver (env : Env) (conn : TcpConn) (src : Ipv4Addr) (hdr : TcpHeader) : Tx :=
  -- a reset frees the slot in every state, and the fields are bound before any handler runs
  if has hdr.flags RST then (TcpConn.new, [])
  else processSegment env (conn.bindRemote src hdr) hdr

/-! ### The connection table -/

/-- The global table `CONNS`. -/
abbrev ConnTable := List TcpConn

/-- The table at boot. -/
def ConnTable.init : ConnTable := List.replicate MAX_CONNS TcpConn.new

/-- Index of the first free slot. -/
def ConnTable.freeSlot (conns : ConnTable) : Option Nat :=
  conns.findIdx? fun c => c.state = .closed

/-- The lookup predicate of `receive`. -/
def TcpConn.accepts (src : Ipv4Addr) (hdr : TcpHeader) (c : TcpConn) : Bool :=
  c.state ≠ .closed && c.state ≠ .timeWait && c.localPort == hdr.dstPort &&
    (c.remoteIp == .unspecified || c.remoteIp == src) &&
    (c.remotePort == 0 || c.remotePort == hdr.srcPort)

/-- Datagrams a slot transmitted, tagged with the slot's index. -/
abbrev Sent := List (Nat × Datagram)

/-- Store the result of a step on slot `i`. -/
def ConnTable.store (conns : ConnTable) (i : Nat) (tx : Tx) : ConnTable × Sent :=
  (conns.set i tx.1, tx.2.map fun d => (i, d))

def listen (env : Env) (port : UInt16) (conns : ConnTable) : Except String Unit × ConnTable :=
  match conns.freeSlot with
  | none => (.error "no free connection slots", conns)
  | some i => (.ok (), conns.modify i fun conn => conn.openListen env port)

def connect (env : Env) (localPort : UInt16) (remoteIp : Ipv4Addr) (remotePort : UInt16)
    (conns : ConnTable) : Except String Nat × ConnTable × Sent :=
  match conns.freeSlot with
  | none => (.error "no free connection slots", conns, [])
  | some i =>
    match conns[i]? with
    | none => (.error "no free connection slots", conns, [])
    | some conn => (.ok i, conns.store i (conn.openConnect env localPort remoteIp remotePort))

def send (env : Env) (idx : Nat) (data : List UInt8) (conns : ConnTable) :
    Except String Nat × ConnTable × Sent :=
  match conns[idx]? with
  | none => (.error "invalid connection index", conns, [])
  | some conn =>
    let (result, tx) := conn.send env data
    (result, conns.store idx tx)

def recv (idx bufLen : Nat) (conns : ConnTable) : Except String (List UInt8) × ConnTable :=
  match conns[idx]? with
  | none => (.error "invalid connection index", conns)
  | some conn =>
    let (conn, bytes) := conn.recv bufLen
    (.ok bytes, conns.set idx conn)

def close (env : Env) (idx : Nat) (conns : ConnTable) : Except String Unit × ConnTable × Sent :=
  match conns[idx]? with
  | none => (.error "invalid connection index", conns, [])
  | some conn =>
    let (result, tx) := conn.close env
    (result, conns.store idx tx)

/-- `receive`: the first matching slot processes the segment. -/
def receive (env : Env) (src : Ipv4Addr) (data : List UInt8) (conns : ConnTable) :
    ConnTable × Sent :=
  match TcpHeader.parse data with
  | none => (conns, [])
  | some hdr =>
    match conns.findIdx? (TcpConn.accepts src hdr) with
    | none => (conns, [])
    | some i =>
      match conns[i]? with
      | none => (conns, [])
      | some conn => conns.store i (conn.deliver env src hdr)

/-- `poll`: every slot in turn. -/
def poll (env : Env) (conns : ConnTable) : ConnTable × Sent :=
  (conns.map fun conn => (conn.poll env).1,
   (conns.mapIdx fun i conn => (conn.poll env).2.map fun d => (i, d)).flatten)

end RustKernel.Net.Tcp
