import RustKernel.Net.Tcp.Handshake

/-!
# RustKernel.Net.Tcp.Stream

A byte stream between two established connections of this module over a channel
that loses and reorders nothing.

## Main result

`delivers_iff_no_rounds`: the receiver holds what was sent, and the sender's buffer
is empty, exactly when nothing was sent.

## Proof strategy

A data segment carries the sequence number of its end, `local_seq` after the
advance, while the receiver compares with the number of the next byte. So every
data segment is refused (`Receiver` is invariant) as long as the sender's total
does not wrap around. `Progress` bounds that total: a reply makes the sender
flush again at most once in a run, because after such a flush the acknowledgement
lies behind the unacknowledged range (`ackGap`).
-/

namespace RustKernel.Net.Tcp

/-! ### The channel -/

/-- Deliver datagrams to one connection in order, collecting what it transmits. -/
def deliverAll (env : Env) : List Datagram → TcpConn → Tx
  | [], conn => (conn, [])
  | d :: ds, conn =>
    Tx.andThen
      (match TcpHeader.parse d.bytes with
      | none => (conn, [])
      | some hdr => conn.deliver env d.src hdr)
      (deliverAll env ds)

/-- Two connections and the segments on their way from the first to the second. -/
structure Link where
  a : TcpConn
  b : TcpConn
  toB : List Datagram

/-- One write with the clock readings of the write and of the two deliveries. -/
structure Round where
  data : List UInt8
  atSend : UInt64
  atB : UInt64
  atA : UInt64

/-- A sends, B receives everything A transmitted, A receives everything B transmitted. -/
def Link.round (cfgA cfgB : NetConfig) (l : Link) (r : Round) : Link :=
  let (a, out) := (l.a.send ⟨cfgA, r.atSend⟩ r.data).2
  let (b, replies) := deliverAll ⟨cfgB, r.atB⟩ (l.toB ++ out) l.b
  let (a, toB) := deliverAll ⟨cfgA, r.atA⟩ replies a
  ⟨a, b, toB⟩

/-- Established connections that point at each other, with empty buffers and agreed numbers. -/
structure Peers (cfgA cfgB : NetConfig) (a b : TcpConn) : Prop where
  stateA : a.state = .established
  stateB : b.state = .established
  addrA : a.remoteIp = cfgB.ip ∧ a.remotePort = b.localPort
  addrB : b.remoteIp = cfgA.ip ∧ b.remotePort = a.localPort
  emptyA : a.sendBuf = [] ∧ a.recvBuf = []
  emptyB : b.sendBuf = [] ∧ b.recvBuf = []
  seqAB : a.localSeq = b.remoteSeq
  seqBA : b.localSeq = a.remoteSeq

/-- The stream has been delivered: B holds the data and A has nothing left to send. -/
def Link.Delivered (l : Link) (rounds : List Round) : Prop :=
  l.b.recvBuf = (rounds.map Round.data).flatten ∧ l.a.sendBuf = []

/-! ### The receiving side -/

/-- An established connection that has received nothing beyond sequence number `s`. -/
structure Receiver (s x : UInt32) (conn : TcpConn) : Prop where
  state : conn.state = .established
  remoteSeq : conn.remoteSeq = s
  localAck : conn.localAck = x
  sendBuf : conn.sendBuf = []
  recvBuf : conn.recvBuf = []

/-- A data segment of this module, numbered by its end: `k` bytes past `s`, not past `total`. -/
def IsData (s : UInt32) (total : Nat) (d : Datagram) : Prop :=
  ∃ hdr, TcpHeader.parse d.bytes = some hdr ∧ hdr.flags = PSH ||| ACK ∧ hdr.payload ≠ [] ∧
    ∃ k, hdr.seq = s + UInt32.ofNat k ∧ 0 < k ∧ k ≤ total

/-- A bare acknowledgement of `x`. -/
def IsAck (x : UInt32) (d : Datagram) : Prop :=
  ∃ hdr, TcpHeader.parse d.bytes = some hdr ∧ hdr.flags = ACK ∧ hdr.payload = [] ∧ hdr.ack = x

theorem IsData.mono {s : UInt32} {m n : Nat} {d : Datagram} (h : IsData s m d) (hmn : m ≤ n) :
    IsData s n d := by
  obtain ⟨hdr, hparse, hflags, hpayload, k, hseq, hpos, hle⟩ := h
  exact ⟨hdr, hparse, hflags, hpayload, k, hseq, hpos, hle.trans hmn⟩

private theorem bareAck_isAck (env : Env) (conn : TcpConn) (d : Datagram)
    (hd : d ∈ (sendSegmentRaw env conn ACK []).2) : IsAck conn.localAck d := by
  obtain ⟨-, cksum, hparse⟩ := sendSegmentRaw_carries env conn ACK [] (by decide) d hd
  exact ⟨_, hparse, rfl, rfl, rfl⟩

private theorem add_ofNat_ne (s : UInt32) (k : Nat) (hpos : 0 < k) (hlt : k < 2 ^ 32) :
    s + UInt32.ofNat k ≠ s := by
  intro h
  have hnat := congrArg UInt32.toNat h
  have hs := s.toNat_lt
  rw [UInt32.toNat_add, UInt32.toNat_ofNat'] at hnat
  omega

/-- A misnumbered data segment is refused with an acknowledgement of what was there. -/
private theorem deliver_refuses (env : Env) (src : Ipv4Addr) (conn : TcpConn) (hdr : TcpHeader)
    (s x : UInt32) (hconn : Receiver s x conn) (hflags : hdr.flags = PSH ||| ACK)
    (hpayload : hdr.payload ≠ []) (hseq : hdr.seq ≠ s) :
    Receiver s x (conn.deliver env src hdr).1 ∧ (conn.deliver env src hdr).2.length ≤ 1 ∧
    ∀ d ∈ (conn.deliver env src hdr).2, IsAck x d := by
  obtain ⟨hstate, rfl, rfl, hsend, hrecv⟩ := hconn
  have hrst : has hdr.flags RST = false := by rw [hflags]; decide
  obtain ⟨hout, hsend'⟩ := establishedAck_of_empty env (conn.bindRemote src hdr) hdr hsend
  rw [deliver_of_established env conn hdr src hstate hrst,
    handleEstablished_of_outOfOrder env (conn.bindRemote src hdr) hdr hpayload hseq, andThen_fst,
    andThen_snd, hout,
    List.nil_append]
  refine ⟨?_, length_sendSegmentRaw_le _ _ _ _, ?_⟩
  · constructor <;> simp [hsend', hstate, hrecv]
  · intro d hd
    have hack := bareAck_isAck _ _ d hd
    rw [(establishedAck_frame env (conn.bindRemote src hdr) hdr).2.2.2.2.1] at hack
    exact hack

private theorem deliverAll_cons (env : Env) (d : Datagram) (ds : List Datagram) (conn : TcpConn)
    (hdr : TcpHeader) (hparse : TcpHeader.parse d.bytes = some hdr) :
    deliverAll env (d :: ds) conn = (conn.deliver env d.src hdr).andThen (deliverAll env ds) := by
  rw [deliverAll, hparse]

private theorem deliverAll_refuses (env : Env) (s x : UInt32) (total : Nat)
    (htotal : total < 2 ^ 32)
    (ds : List Datagram) (conn : TcpConn) (hconn : Receiver s x conn)
    (hds : ∀ d ∈ ds, IsData s total d) :
    Receiver s x (deliverAll env ds conn).1 ∧ (deliverAll env ds conn).2.length ≤ ds.length ∧
    ∀ d ∈ (deliverAll env ds conn).2, IsAck x d := by
  induction ds generalizing conn with
  | nil => exact ⟨hconn, by simp [deliverAll], by simp [deliverAll]⟩
  | cons d ds ih =>
    obtain ⟨hdr, hparse, hflags, hpayload, k, hseq, hpos, hle⟩ := hds d List.mem_cons_self
    have hne : hdr.seq ≠ s := by
      rw [hseq]
      exact add_ofNat_ne s k hpos (by omega)
    obtain ⟨hconn', hlen, hacks⟩ := deliver_refuses env d.src conn hdr s x hconn hflags hpayload hne
    obtain ⟨hfinal, hlens, hall⟩ := ih _ hconn' fun d' hd' => hds d' (List.mem_cons_of_mem d hd')
    rw [deliverAll_cons env d ds conn hdr hparse, andThen_fst, andThen_snd]
    refine ⟨hfinal, ?_, ?_⟩
    · rw [List.length_append, List.length_cons]
      omega
    · intro d' hd'
      rcases List.mem_append.mp hd' with h | h
      · exact hacks d' h
      · exact hall d' h

/-! ### The sending side -/

/-- How far acknowledgement `x` lies past the oldest unacknowledged number. -/
def ackGap (x : UInt32) (conn : TcpConn) : Nat :=
  (x - (conn.localSeq - UInt32.ofNat conn.sendBuf.length)).toNat

/-- An established connection that has numbered `total` bytes past `s`. -/
structure Sender (s : UInt32) (total : Nat) (conn : TcpConn) : Prop where
  state : conn.state = .established
  localSeq : conn.localSeq = s + UInt32.ofNat total
  bounded : conn.sendBuf.length ≤ SEND_BUF_LEN

theorem Sender.bindRemote {s : UInt32} {total : Nat} {conn : TcpConn} (h : Sender s total conn)
    (src : Ipv4Addr) (hdr : TcpHeader) : Sender s total (conn.bindRemote src hdr) :=
  ⟨h.state, h.localSeq, h.bounded⟩

private theorem add_ofNat_add (s : UInt32) (m n : Nat) :
    s + UInt32.ofNat m + UInt32.ofNat n = s + UInt32.ofNat (m + n) := by
  rw [UInt32.add_assoc, UInt32.ofNat_add]

/-- A flush numbers as many bytes as it sends. -/
private theorem flushSend_sender (env : Env) (conn : TcpConn) (s : UInt32) (total : Nat)
    (hconn : Sender s total conn) :
    Sender s (total + flushLen conn) (flushSend env conn).1 ∧
    (flushSend env conn).1.sendBuf = conn.sendBuf ∧
    (flushSend env conn).2.length ≤ 1 ∧
    ∀ d ∈ (flushSend env conn).2, IsData s (total + flushLen conn) d := by
  obtain ⟨hstate, hseq, hbound⟩ := hconn
  refine ⟨⟨by simp [hstate], ?_, by simp [hbound]⟩, by simp, length_flushSend_le _ _, ?_⟩
  · simp [hseq, UInt32.add_assoc, UInt32.ofNat_add]
  · intro d hd
    obtain ⟨hne, -, cksum, hparse⟩ := flushSend_carries env conn d hd
    have hpos : 0 < conn.sendBuf.length := List.length_pos_iff.mpr hne
    refine ⟨_, hparse, rfl, ?_, total + flushLen conn, ?_, ?_, le_rfl⟩
    · simp only [builtHeader, ne_eq, List.take_eq_nil_iff, flushLen, MSS]
      simp only [hne, or_false]
      omega
    · simp only [builtHeader, hseq, add_ofNat_add]
    · simp only [flushLen, MSS]
      omega

/-- An acknowledgement behind the unacknowledged range is ignored. -/
private theorem establishedAck_behind (env : Env) (conn : TcpConn) (hdr : TcpHeader) (s : UInt32)
    (total : Nat) (hconn : Sender s total conn) (hgap : 2 ^ 31 ≤ ackGap hdr.ack conn) :
    establishedAck env conn hdr = (conn, []) := by
  have hbound := hconn.bounded
  have hlt : seqLt (conn.localSeq - UInt32.ofNat conn.sendBuf.length) hdr.ack = false := by
    simp only [seqLt, decide_eq_false_iff_not, UInt32.lt_iff_toNat_lt]
    exact Nat.not_lt.mpr hgap
  have hne : hdr.ack ≠ conn.localSeq := by
    intro heq
    have hl := conn.localSeq.toNat_lt
    simp only [ackGap, heq, UInt32.toNat_sub, UInt32.toNat_ofNat', SEND_BUF_LEN] at hgap hbound
    omega
  simp [establishedAck, hlt, hne]

/-- Any other acknowledgement removes what it covers and flushes the rest. -/
private theorem establishedAck_ahead (env : Env) (conn : TcpConn) (hdr : TcpHeader)
    (hack : has hdr.flags ACK = true) (hgap : ackGap hdr.ack conn < 2 ^ 31) :
    establishedAck env conn hdr = flushSend env
      { conn with
        retries := 0
        rtoMs := RTO_MS
        sendBuf := conn.sendBuf.drop (min (ackGap hdr.ack conn) conn.sendBuf.length)
        sendAcked := hdr.ack.toNat } := by
  have hlt : seqLt (conn.localSeq - UInt32.ofNat conn.sendBuf.length) hdr.ack = true := by
    simp only [seqLt, decide_eq_true_eq, UInt32.lt_iff_toNat_lt]
    exact hgap
  simp [establishedAck, hack, hlt, ackedBytes, ackGap]

/-- After a flush behind a partial acknowledgement, the acknowledgement is behind. -/
private theorem ackGap_after_flush (x : UInt32) (env : Env) (conn : TcpConn)
    (hbound : conn.sendBuf.length ≤ SEND_BUF_LEN) (hne : conn.sendBuf ≠ [])
    (hgap : ackGap x conn = 0) : 2 ^ 32 ≤ ackGap x (flushSend env conn).1 + MSS := by
  have hpos : 0 < conn.sendBuf.length := List.length_pos_iff.mpr hne
  have hx := x.toNat_lt
  have hl := conn.localSeq.toNat_lt
  obtain ⟨-, -, -, -, hseq, -, -, hbuf, -⟩ := flushSend_frame env conn
  simp only [ackGap, hseq, hbuf, flushLen, MSS, SEND_BUF_LEN, UInt32.toNat_sub, UInt32.toNat_add,
    UInt32.toNat_ofNat'] at *
  omega

/-- What an acknowledgement does to the sender: nothing is numbered, or a flush happens
    once and leaves the acknowledgement behind. -/
private theorem establishedAck_sender (env : Env) (conn : TcpConn) (hdr : TcpHeader) (s : UInt32)
    (total : Nat) (hconn : Sender s total conn) (hack : has hdr.flags ACK = true) :
    ∃ total', Sender s total' (establishedAck env conn hdr).1 ∧
      (∀ d ∈ (establishedAck env conn hdr).2, IsData s total' d) ∧
      ((establishedAck env conn hdr).2 = [] ∧ total' = total ∨
        (establishedAck env conn hdr).2.length ≤ 1 ∧ total' ≤ total + MSS ∧
          2 ^ 32 ≤ ackGap hdr.ack (establishedAck env conn hdr).1 + MSS) := by
  by_cases hgap : ackGap hdr.ack conn < 2 ^ 31
  · rw [establishedAck_ahead env conn hdr hack hgap]
    generalize hconn' : ({ conn with
        retries := 0
        rtoMs := RTO_MS
        sendBuf := conn.sendBuf.drop (min (ackGap hdr.ack conn) conn.sendBuf.length)
        sendAcked := hdr.ack.toNat } : TcpConn) = conn'
    have hbuf : conn'.sendBuf =
        conn.sendBuf.drop (min (ackGap hdr.ack conn) conn.sendBuf.length) := by rw [← hconn']
    have hsender : Sender s total conn' := by
      refine ⟨by rw [← hconn']; exact hconn.state, by rw [← hconn']; exact hconn.localSeq, ?_⟩
      rw [hbuf, List.length_drop]
      have hbound := hconn.bounded
      omega
    obtain ⟨hafter, -, hlen, hdata⟩ := flushSend_sender env conn' s total hsender
    refine ⟨total + flushLen conn', hafter, hdata, ?_⟩
    by_cases hempty : conn'.sendBuf = []
    · left
      simp [flushSend, flushLen, hempty]
    · right
      refine ⟨hlen, by simp only [flushLen]; omega, ?_⟩
      apply ackGap_after_flush hdr.ack env conn' hsender.bounded hempty
      -- the acknowledged prefix is gone, so the range now starts at the acknowledgement
      have hlt : ackGap hdr.ack conn < conn.sendBuf.length := by
        by_contra hge
        rw [Nat.min_eq_right (by omega), List.drop_length] at hbuf
        exact hempty hbuf
      have hseq : conn'.localSeq = conn.localSeq := by rw [← hconn']
      have hlength : conn'.sendBuf.length = conn.sendBuf.length - ackGap hdr.ack conn := by
        rw [hbuf, List.length_drop, Nat.min_eq_left (by omega)]
      have hbound := hconn.bounded
      have hx := hdr.ack.toNat_lt
      have hl := conn.localSeq.toNat_lt
      simp only [ackGap, hseq, hlength, SEND_BUF_LEN, UInt32.toNat_sub, UInt32.toNat_ofNat'] at *
      omega
  · rw [establishedAck_behind env conn hdr s total hconn (by omega)]
    exact ⟨total, hconn, by simp, .inl ⟨rfl, rfl⟩⟩

private theorem deliver_ack (env : Env) (src : Ipv4Addr) (conn : TcpConn) (hdr : TcpHeader)
    (hstate : conn.state = .established) (hflags : hdr.flags = ACK) (hpayload : hdr.payload = []) :
    conn.deliver env src hdr = establishedAck env (conn.bindRemote src hdr) hdr := by
  rw [deliver_of_established env conn hdr src hstate (by rw [hflags]; decide),
    handleEstablished_of_bare env _ hdr hpayload (by rw [hflags]; decide)]

/-- Acknowledgements that are behind leave the sender as it was. -/
private theorem deliverAll_behind (env : Env) (s x : UInt32) (total : Nat) (ds : List Datagram)
    (conn : TcpConn) (hconn : Sender s total conn) (hgap : 2 ^ 31 ≤ ackGap x conn)
    (hds : ∀ d ∈ ds, IsAck x d) :
    Sender s total (deliverAll env ds conn).1 ∧ (deliverAll env ds conn).2 = [] ∧
    ackGap x (deliverAll env ds conn).1 = ackGap x conn := by
  induction ds generalizing conn with
  | nil => exact ⟨hconn, rfl, rfl⟩
  | cons d ds ih =>
    obtain ⟨hdr, hparse, hflags, hpayload, rfl⟩ := hds d List.mem_cons_self
    rw [deliverAll_cons env d ds conn hdr hparse,
      deliver_ack env d.src conn hdr hconn.state hflags hpayload,
      establishedAck_behind env _ hdr s total (hconn.bindRemote d.src hdr) hgap]
    obtain ⟨hsender, hout, hsame⟩ := ih _ (hconn.bindRemote d.src hdr) hgap
      fun d' hd' => hds d' (List.mem_cons_of_mem d hd')
    exact ⟨hsender, by simp [hout], hsame⟩

/-- `send` on an established connection appends and flushes, or finds the buffer full. -/
private theorem send_sender (env : Env) (conn : TcpConn) (data : List UInt8) (s x : UInt32)
    (total : Nat)
    (hconn : Sender s total conn) (hdata : data.length ≤ MSS) :
    ∃ total', Sender s total' (conn.send env data).2.1 ∧ total' ≤ total + MSS ∧
      (conn.send env data).2.2.length ≤ 1 ∧ total ≤ total' ∧
      (∀ d ∈ (conn.send env data).2.2, IsData s total' d) ∧
      (MSS ≤ ackGap x conn → ackGap x conn ≤ ackGap x (conn.send env data).2.1 + MSS) := by
  have hbound := hconn.bounded
  rw [TcpConn.send, if_neg (by simp [hconn.state])]
  dsimp only
  split
  · -- a full buffer takes nothing
    exact ⟨total, hconn, by omega, by simp, le_rfl, by simp, by simp only; omega⟩
  · generalize htake : data.take (min data.length (SEND_BUF_LEN - conn.sendBuf.length)) = chunk
    have hchunk : chunk.length = min data.length (SEND_BUF_LEN - conn.sendBuf.length) := by
      rw [← htake, List.length_take, Nat.min_eq_left (Nat.min_le_left _ _)]
    have hsender : Sender s total { conn with sendBuf := conn.sendBuf ++ chunk } := by
      refine ⟨hconn.state, hconn.localSeq, ?_⟩
      simp only [List.length_append, hchunk]
      omega
    obtain ⟨hafter, -, hlen, hall⟩ := flushSend_sender env _ s total hsender
    refine ⟨_, hafter, by simp only [flushLen]; omega, hlen, by omega, hall, ?_⟩
    -- a flush moves the number ahead by no more than a segment
    intro hgap
    obtain ⟨-, -, -, -, hseq, -, -, hbuf, -⟩ :=
      flushSend_frame env { conn with sendBuf := conn.sendBuf ++ chunk }
    have hx := x.toNat_lt
    have hl := conn.localSeq.toNat_lt
    simp only [ackGap, hseq, hbuf, flushLen, List.length_append, hchunk, MSS, SEND_BUF_LEN,
      UInt32.toNat_sub, UInt32.toNat_add, UInt32.toNat_ofNat'] at *
    omega

/-! ### Rounds -/

/-- After `n` rounds: the receiver has refused everything, and the sender has numbered
    few bytes. Once a reply has made the sender flush again, one more segment may be on
    its way, and the acknowledgement stays behind for the rest of the run. -/
def Progress (s x : UInt32) (n : Nat) (l : Link) : Prop :=
  Receiver s x l.b ∧ ∃ total, Sender s total l.a ∧ (∀ d ∈ l.toB, IsData s total d) ∧
    (l.toB = [] ∧ total ≤ MSS * n ∨
      l.toB.length ≤ 1 ∧ total ≤ MSS * n + MSS ∧ 2 ^ 32 ≤ ackGap x l.a + MSS * n + MSS)

private theorem round_progress (cfgA cfgB : NetConfig) (s x : UInt32) (n : Nat) (l : Link)
    (r : Round)
    (hl : Progress s x n l) (hr : r.data.length ≤ MSS) (hn : n < 4096) :
    Progress s x (n + 1) (l.round cfgA cfgB r) := by
  obtain ⟨hb, total, ha, htoB, hphase⟩ := hl
  obtain ⟨total', ha', hle, hlen, hmono, hout, hgap⟩ :=
    send_sender ⟨cfgA, r.atSend⟩ l.a r.data s x total ha hr
  rw [Link.round]
  generalize hsend : (l.a.send ⟨cfgA, r.atSend⟩ r.data).2 = sent at ha' hlen hout hgap
  obtain ⟨a, out⟩ := sent
  dsimp only at ha' hlen hout hgap ⊢
  have hds : ∀ d ∈ l.toB ++ out, IsData s total' d := by
    intro d hd
    rcases List.mem_append.mp hd with h | h
    · exact (htoB d h).mono hmono
    · exact hout d h
  have hsmall : total' < 2 ^ 32 := by
    simp only [MSS] at hphase hle
    omega
  obtain ⟨hb', hreplies, hacks⟩ :=
    deliverAll_refuses ⟨cfgB, r.atB⟩ s x total' hsmall (l.toB ++ out) l.b hb hds
  generalize deliverAll ⟨cfgB, r.atB⟩ (l.toB ++ out) l.b = received at hb' hreplies hacks
  obtain ⟨b, replies⟩ := received
  dsimp only at hb' hreplies hacks ⊢
  refine ⟨hb', ?_⟩
  rw [Nat.mul_succ, ← Nat.add_assoc]
  rcases hphase with ⟨hempty, htotal⟩ | ⟨-, htotal, hbehind⟩
  · -- at most one acknowledgement comes back
    rw [hempty, List.nil_append] at hreplies
    match replies, hreplies, hacks with
    | [], _, _ =>
      exact ⟨total', ha', by simp [deliverAll], .inl ⟨rfl, by simp only [MSS] at *; omega⟩⟩
    | [d], _, hacks =>
      obtain ⟨hdr, hparse, hflags, hpayload, rfl⟩ := hacks d List.mem_cons_self
      obtain ⟨total'', hsender, hdata, hcase⟩ := establishedAck_sender ⟨cfgA, r.atA⟩
        (a.bindRemote d.src hdr) hdr s total' (ha'.bindRemote d.src hdr) (by rw [hflags]; decide)
      rw [deliverAll_cons _ d [] a hdr hparse,
        deliver_ack _ d.src a hdr ha'.state hflags hpayload]
      simp only [deliverAll, andThen_fst, andThen_snd, List.append_nil]
      refine ⟨total'', hsender, hdata, ?_⟩
      rcases hcase with ⟨hnone, rfl⟩ | ⟨hone, hle', hgap'⟩
      · exact .inl ⟨hnone, by simp only [MSS] at *; omega⟩
      · exact .inr ⟨hone, by simp only [MSS] at *; omega, by simp only [MSS] at *; omega⟩
    | _ :: _ :: _, hreplies, _ =>
      simp only [List.length_cons] at hreplies
      omega
  · have hstill : 2 ^ 31 ≤ ackGap x a := by
      simp only [MSS] at *
      omega
    obtain ⟨hsender, hnone, hsame⟩ :=
      deliverAll_behind ⟨cfgA, r.atA⟩ s x total' replies a ha' hstill hacks
    refine ⟨total', hsender, by simp [hnone], .inr ⟨by simp [hnone], ?_, ?_⟩⟩
    · simp only [MSS] at *
      omega
    · rw [hsame]
      simp only [MSS] at *
      omega

private theorem rounds_progress (cfgA cfgB : NetConfig) (s x : UInt32) (rounds : List Round)
    (n : Nat)
    (l : Link) (hl : Progress s x n l) (hrounds : ∀ r ∈ rounds, r.data.length ≤ MSS)
    (hn : n + rounds.length ≤ 4096) :
    Progress s x (n + rounds.length) (rounds.foldl (Link.round cfgA cfgB) l) := by
  induction rounds generalizing n l with
  | nil => exact hl
  | cons r rounds ih =>
    rw [List.length_cons] at hn
    have hstep := round_progress cfgA cfgB s x n l r hl (hrounds r List.mem_cons_self) (by omega)
    have hrest := ih (n + 1) _ hstep (fun r' hr' => hrounds r' (List.mem_cons_of_mem r hr'))
      (by omega)
    rw [List.length_cons, List.foldl_cons,
      show n + (rounds.length + 1) = n + 1 + rounds.length by omega]
    exact hrest

/-- Every round carries a byte, so there are no more rounds than bytes. -/
private theorem length_le_total (rounds : List Round) (h : ∀ r ∈ rounds, 1 ≤ r.data.length) :
    rounds.length ≤ (rounds.map Round.data).flatten.length := by
  induction rounds with
  | nil => simp
  | cons r rounds ih =>
    have hr := h r List.mem_cons_self
    have hrest := ih fun r' hr' => h r' (List.mem_cons_of_mem r hr')
    simp only [List.map_cons, List.flatten_cons, List.length_append, List.length_cons]
    omega

private theorem Peers.receiver_empty {cfgA cfgB : NetConfig} {a b : TcpConn}
    (h : Peers cfgA cfgB a b)
    (rounds : List Round) (hrounds : ∀ r ∈ rounds, 1 ≤ r.data.length ∧ r.data.length ≤ MSS)
    (htotal : (rounds.map Round.data).flatten.length ≤ 4096) :
    (rounds.foldl (Link.round cfgA cfgB) ⟨a, b, []⟩).b.recvBuf = [] := by
  have hlength := length_le_total rounds fun r hr => (hrounds r hr).1
  have hstart : Progress b.remoteSeq b.localAck 0 ⟨a, b, []⟩ := by
    refine ⟨⟨h.stateB, rfl, rfl, h.emptyB.1, h.emptyB.2⟩, 0, ⟨h.stateA, ?_, ?_⟩, by simp,
      .inl ⟨rfl, by simp⟩⟩
    · simp [h.seqAB]
    · simp [h.emptyA.1]
  have hfinal := rounds_progress cfgA cfgB _ _ rounds 0 _ hstart (fun r hr => (hrounds r hr).2)
    (by omega)
  exact hfinal.1.recvBuf

private theorem Peers.not_delivered {cfgA cfgB : NetConfig} {a b : TcpConn}
    (h : Peers cfgA cfgB a b)
    (rounds : List Round) (hrounds : ∀ r ∈ rounds, 1 ≤ r.data.length ∧ r.data.length ≤ MSS)
    (htotal : (rounds.map Round.data).flatten.length ≤ 4096) (hsome : rounds ≠ []) :
    ¬(rounds.foldl (Link.round cfgA cfgB) ⟨a, b, []⟩).Delivered rounds := by
  rintro ⟨hrecv, -⟩
  rw [h.receiver_empty rounds hrounds htotal] at hrecv
  have hlength := length_le_total rounds fun r hr => (hrounds r hr).1
  rw [← hrecv, List.length_nil] at hlength
  exact hsome (List.length_eq_zero_iff.mp (by omega))

/-- **Stream delivery**: the stream of a run reaches the other side iff the run sends nothing. -/
theorem delivers_iff_no_rounds (cfgA cfgB : NetConfig) (a b : TcpConn) (h : Peers cfgA cfgB a b)
    (rounds : List Round) (hrounds : ∀ r ∈ rounds, 1 ≤ r.data.length ∧ r.data.length ≤ MSS)
    (htotal : (rounds.map Round.data).flatten.length ≤ 4096) :
    (rounds.foldl (Link.round cfgA cfgB) ⟨a, b, []⟩).Delivered rounds ↔ rounds = [] := by
  constructor
  · intro hdelivered
    by_contra hsome
    exact h.not_delivered rounds hrounds htotal hsome hdelivered
  · rintro rfl
    exact ⟨h.emptyB.2, h.emptyA.1⟩

/-! ### One byte between two connections -/

section OneByte

private def cfg15 : NetConfig := ⟨⟨10, 0, 2, 15⟩⟩
private def cfg16 : NetConfig := ⟨⟨10, 0, 2, 16⟩⟩

private def senderConn : TcpConn :=
  { TcpConn.new with
    state := .established, localPort := 5000, remoteIp := ⟨10, 0, 2, 16⟩, remotePort := 80,
    localSeq := 1000, remoteSeq := 2000, localAck := 2000 }

private def receiverConn : TcpConn :=
  { TcpConn.new with
    state := .established, localPort := 80, remoteIp := ⟨10, 0, 2, 15⟩, remotePort := 5000,
    localSeq := 2000, remoteSeq := 1000, localAck := 1000 }

private theorem onePeers : Peers cfg15 cfg16 senderConn receiverConn := by
  constructor <;> first | rfl | exact ⟨rfl, rfl⟩

/-- A single byte sent on a fresh connection is not delivered. -/
theorem one_byte_lost :
    ¬([⟨[65], 10, 11, 12⟩].foldl (Link.round cfg15 cfg16) ⟨senderConn, receiverConn, []⟩).Delivered
      [⟨[65], 10, 11, 12⟩] :=
  onePeers.not_delivered _ (by simp [MSS]) (by simp) (by simp)

/-- The run of one round, through the general statement. -/
theorem one_round_not_delivered :
    ¬([⟨[65], 10, 11, 12⟩].foldl (Link.round cfg15 cfg16) ⟨senderConn, receiverConn, []⟩).Delivered
      [⟨[65], 10, 11, 12⟩] := by
  rw [delivers_iff_no_rounds cfg15 cfg16 senderConn receiverConn onePeers _ (by simp [MSS])
    (by simp)]
  simp

end OneByte

end RustKernel.Net.Tcp
