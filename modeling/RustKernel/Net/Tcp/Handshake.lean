import RustKernel.Net.Tcp.Demux

/-!
# RustKernel.Net.Tcp.Handshake

The three-way handshake between two endpoints that both run this module.

## Main result

`handshake_never_agrees`: whatever the initial sequence numbers, ports and other
connections, delivering the SYN, the answer to it and the answer to that in order
never leaves both ends established on each other's sequence numbers.

`send_segment` advances `local_seq` over the SYN before the segment is built, so the
SYN carries the number after the initial one. The listener acknowledges the number
after that, and the connecting side, which expects its own `local_seq`, drops the
SYN+ACK. The invariant carried over the deliveries is `AwaitsSynAck`.
-/

namespace RustKernel.Net.Tcp

/-! ### Delivery in order -/

/-- `receive` of every datagram in turn, with everything the table transmits in reply. -/
def receiveAll (env : Env) : List Datagram → ConnTable → ConnTable × Sent
  | [], conns => (conns, [])
  | d :: ds, conns =>
    let (conns, out) := receive env d.src d.bytes conns
    let (conns, out') := receiveAll env ds conns
    (conns, out ++ out')

/-- The datagrams of a call, without the slot that sent them. -/
def Sent.datagrams (sent : Sent) : List Datagram := sent.map Prod.snd

private theorem datagrams_append (out₁ out₂ : Sent) :
    Sent.datagrams (out₁ ++ out₂) = out₁.datagrams ++ out₂.datagrams := List.map_append

private theorem datagrams_store (conns : ConnTable) (i : Nat) (tx : Tx) :
    (conns.store i tx).2.datagrams = tx.2 := by
  simp [ConnTable.store, Sent.datagrams]

/-- What a table transmits on receiving a segment is what one delivery transmits. -/
private theorem receive_cases (env : Env) (src : Ipv4Addr) (data : List UInt8) (conns : ConnTable) :
    receive env src data conns = (conns, []) ∨
    ∃ hdr i conn, TcpHeader.parse data = some hdr ∧ conns[i]? = some conn ∧
      conn.accepts src hdr = true ∧
      receive env src data conns = conns.store i (conn.deliver env src hdr) := by
  cases hparse : TcpHeader.parse data with
  | none => exact .inl (by simp [receive, hparse])
  | some hdr =>
    cases hfirst : conns.findIdx? (TcpConn.accepts src hdr) with
    | none => exact .inl (by simp [receive, hparse, hfirst])
    | some i =>
      obtain ⟨conn, hi, haccepts, -⟩ := (findIdx?_eq_some_iff_first _ _ _).mp hfirst
      exact .inr ⟨hdr, i, conn, rfl, hi, haccepts,
        receive_eq_store env src data conns hdr i conn hparse hfirst hi⟩

private theorem receive_synAnswers (env : Env) (src : Ipv4Addr) (data : List UInt8)
    (conns : ConnTable)
    (ack : UInt32) (h : ∀ hdr, TcpHeader.parse data = some hdr → hdr.seq + 1 = ack) :
    SynAnswers ack (receive env src data conns).2.datagrams := by
  rcases receive_cases env src data conns with hsame | ⟨hdr, i, conn, hparse, -, -, hstore⟩
  · rw [hsame]
    exact .nil ack
  · rw [hstore, datagrams_store, ← h hdr hparse]
    exact deliver_synAnswers env conn hdr src

private theorem receiveAll_synAnswers (env : Env) (ack : UInt32) (ds : List Datagram)
    (conns : ConnTable)
    (h : ∀ d ∈ ds, ∀ hdr, TcpHeader.parse d.bytes = some hdr → hdr.seq + 1 = ack) :
    SynAnswers ack (receiveAll env ds conns).2.datagrams := by
  induction ds generalizing conns with
  | nil => exact .nil ack
  | cons d ds ih =>
    rw [receiveAll]
    dsimp only
    rw [datagrams_append]
    apply SynAnswers.append
    · exact receive_synAnswers env _ _ conns ack (h d List.mem_cons_self)
    · exact ih _ fun d' hd' => h d' (List.mem_cons_of_mem d hd')

/-! ### The connecting side -/

/-- Slot `i` still waits for a SYN+ACK that acknowledges `seq`, or was reset. -/
def AwaitsSynAck (seq : UInt32) (i : Nat) (conns : ConnTable) : Prop :=
  ∃ conn : TcpConn, conns[i]? = some conn ∧
    (conn.state = .closed ∨ conn.state = .synSent ∧ conn.localSeq = seq)

/-- A connection in SYN_SENT stays there unless a SYN+ACK acknowledges its `localSeq`. -/
private theorem deliver_awaits (env : Env) (src : Ipv4Addr) (conn : TcpConn) (hdr : TcpHeader)
    (hstate : conn.state = .synSent)
    (hack : has hdr.flags SYN = true → hdr.ack ≠ conn.localSeq) :
    (conn.deliver env src hdr).1.state = .closed ∨
    (conn.deliver env src hdr).1.state = .synSent ∧
      (conn.deliver env src hdr).1.localSeq = conn.localSeq := by
  rw [TcpConn.deliver]
  split
  · exact .inl rfl
  · right
    have hbound : (conn.bindRemote src hdr).state = .synSent := hstate
    rw [processSegment, hbound]
    dsimp only
    rw [handleSynSent]
    split
    · exact ⟨hstate, rfl⟩
    · next hflags =>
      rw [if_pos]
      · exact ⟨hstate, rfl⟩
      · exact hack (has_syn_of_synAck (by simpa using hflags))

private theorem receive_awaits (env : Env) (src : Ipv4Addr) (data : List UInt8) (seq : UInt32)
    (i : Nat)
    (conns : ConnTable) (hwait : AwaitsSynAck seq i conns)
    (hack : ∀ hdr, TcpHeader.parse data = some hdr → has hdr.flags SYN = true → hdr.ack ≠ seq) :
    AwaitsSynAck seq i (receive env src data conns).1 := by
  obtain ⟨conn, hi, hconn⟩ := hwait
  rcases receive_cases env src data conns with hsame | ⟨hdr, k, c, hparse, hk, haccepts, hstore⟩
  · rw [hsame]
    exact ⟨conn, hi, hconn⟩
  · rw [hstore]
    by_cases hik : i = k
    · subst hik
      obtain rfl := Option.some.inj (hi.symm.trans hk)
      refine ⟨_, store_getElem?_eq conns i _ conn hi, ?_⟩
      rcases hconn with hclosed | ⟨hstate, rfl⟩
      · simp [TcpConn.accepts, hclosed] at haccepts
      · exact deliver_awaits env src conn hdr hstate (hack hdr hparse)
    · exact ⟨conn, (store_getElem?_ne conns k i _ hik).trans hi, hconn⟩

private theorem receiveAll_awaits (env : Env) (seq : UInt32) (i : Nat) (ds : List Datagram)
    (conns : ConnTable) (hwait : AwaitsSynAck seq i conns)
    (hack : ∀ d ∈ ds, ∀ hdr, TcpHeader.parse d.bytes = some hdr → has hdr.flags SYN = true →
      hdr.ack ≠ seq) :
    AwaitsSynAck seq i (receiveAll env ds conns).1 := by
  induction ds generalizing conns with
  | nil => exact hwait
  | cons d ds ih =>
    rw [receiveAll]
    dsimp only
    apply ih
    · exact receive_awaits env _ _ seq i conns hwait (hack d List.mem_cons_self)
    · exact fun d' hd' => hack d' (List.mem_cons_of_mem d hd')

/-- `connect` leaves its slot waiting, one past the initial sequence number. -/
private theorem connect_awaits (env : Env) (localPort : UInt16) (remoteIp : Ipv4Addr)
    (remotePort : UInt16)
    (conns : ConnTable) (i : Nat) (hfree : conns.freeSlot = some i) :
    AwaitsSynAck (isn env + 1) i (connect env localPort remoteIp remotePort conns).2.1 := by
  obtain ⟨conn, hi, -, -⟩ := (findIdx?_eq_some_iff_first _ _ _).mp hfree
  simp only [connect, hfree, hi]
  refine ⟨_, store_getElem?_eq conns i _ conn hi, .inr ⟨?_, ?_⟩⟩
  · simp [TcpConn.openConnect]
  · have hone : consumed SYN [] = 1 := by decide
    simp [TcpConn.openConnect, hone]

/-- The SYN that `connect` sends carries the number after the initial one. -/
private theorem connect_syn_seq (env : Env) (localPort : UInt16) (remoteIp : Ipv4Addr)
    (remotePort : UInt16) (conns : ConnTable) (d : Datagram)
    (hd : d ∈ (connect env localPort remoteIp remotePort conns).2.2.datagrams) (hdr : TcpHeader)
    (hparse : TcpHeader.parse d.bytes = some hdr) : hdr.seq = isn env + 1 := by
  rw [connect] at hd
  split at hd
  · simp [Sent.datagrams] at hd
  · split at hd
    · simp [Sent.datagrams] at hd
    · rw [datagrams_store] at hd
      obtain ⟨-, cksum, hcarries⟩ := sendSegment_carries env _ SYN [] (by decide) d hd
      obtain rfl := Option.some.inj (hparse.symm.trans hcarries)
      rfl

/-! ### The handshake -/

/-- The two endpoints, their ports and the clock readings of the five calls. -/
structure HandshakeRun where
  cfgA : NetConfig
  cfgB : NetConfig
  localPort : UInt16
  port : UInt16
  connsA : ConnTable
  connsB : ConnTable
  atListen : UInt64
  atConnect : UInt64
  atSyn : UInt64
  atSynAck : UInt64
  atAck : UInt64

namespace HandshakeRun

variable (run : HandshakeRun)

/-- B listens and A connects: A's table and the SYN. -/
def afterConnect : ConnTable × Sent :=
  (connect ⟨run.cfgA, run.atConnect⟩ run.localPort run.cfgB.ip run.port run.connsA).2

/-- B receives the SYN: B's table and the SYN+ACK. -/
def afterSyn : ConnTable × Sent :=
  receiveAll ⟨run.cfgB, run.atSyn⟩ run.afterConnect.2.datagrams
    (listen ⟨run.cfgB, run.atListen⟩ run.port run.connsB).2

/-- A receives the SYN+ACK: A's table and the ACK. -/
def afterSynAck : ConnTable × Sent :=
  receiveAll ⟨run.cfgA, run.atSynAck⟩ run.afterSyn.2.datagrams run.afterConnect.1

/-- B receives the ACK. -/
def afterAck : ConnTable × Sent :=
  receiveAll ⟨run.cfgB, run.atAck⟩ run.afterSynAck.2.datagrams run.afterSyn.1

/-- Both slots taken by `connect` and `listen` are established on each other's numbers. -/
def Agrees : Prop :=
  ∃ i j : Nat, ∃ a b : TcpConn,
    run.connsA.freeSlot = some i ∧ run.connsB.freeSlot = some j ∧
    run.afterSynAck.1[i]? = some a ∧ run.afterAck.1[j]? = some b ∧
    a.state = .established ∧ b.state = .established ∧
    a.localSeq = b.remoteSeq ∧ b.localSeq = a.remoteSeq

end HandshakeRun

private theorem succ_ne_self (x : UInt32) : x + 1 ≠ x := by simp

/-- The connecting slot still waits after everything the other side sent. -/
private theorem afterSynAck_awaits (run : HandshakeRun) (i : Nat)
    (hfree : run.connsA.freeSlot = some i) :
    AwaitsSynAck (run.atConnect.toUInt32 + 1) i run.afterSynAck.1 := by
  apply receiveAll_awaits
  · exact connect_awaits _ _ _ _ _ i hfree
  · intro d hd hdr hparse hsyn
    have hanswers : SynAnswers (run.atConnect.toUInt32 + 1 + 1) run.afterSyn.2.datagrams := by
      apply receiveAll_synAnswers
      intro d' hd' hdr' hparse'
      rw [connect_syn_seq _ _ _ _ _ d' hd' hdr' hparse']
      rfl
    rw [hanswers d hd hdr hparse hsyn]
    exact succ_ne_self _

private theorem not_established_of_awaits {seq : UInt32} {i : Nat} {conns : ConnTable}
    {conn : TcpConn}
    (h : AwaitsSynAck seq i conns) (hi : conns[i]? = some conn) : conn.state ≠ .established := by
  obtain ⟨c, hc, hstate⟩ := h
  obtain rfl := Option.some.inj (hi.symm.trans hc)
  rcases hstate with hclosed | ⟨hsent, -⟩
  · simp [hclosed]
  · simp [hsent]

/-- **Handshake**: no run of the three segments ends in agreement. -/
theorem handshake_never_agrees (run : HandshakeRun) : ¬run.Agrees := by
  rintro ⟨i, j, a, b, hfree, -, ha, -, hestablished, -⟩
  exact not_established_of_awaits (afterSynAck_awaits run i hfree) ha hestablished

/-- Two freshly booted kernels: `connect` from port 5000 to a listener on port 80. -/
def bootRun : HandshakeRun where
  cfgA := ⟨⟨10, 0, 2, 15⟩⟩
  cfgB := ⟨⟨10, 0, 2, 16⟩⟩
  localPort := 5000
  port := 80
  connsA := ConnTable.init
  connsB := ConnTable.init
  atListen := 100
  atConnect := 200
  atSyn := 201
  atSynAck := 202
  atAck := 203

/-- On freshly booted kernels the connecting side never leaves SYN_SENT. -/
theorem bootRun_stays_synSent :
    (∃ a, bootRun.afterSynAck.1[0]? = some a ∧ a.state ≠ .established) ∧ ¬bootRun.Agrees := by
  have hwait := afterSynAck_awaits bootRun 0 (by decide)
  obtain ⟨a, ha, -⟩ := id hwait
  refine ⟨⟨a, ha, not_established_of_awaits hwait ha⟩, ?_⟩
  rintro ⟨i, j, a', b, hfree, -, ha', -, hestablished, -⟩
  exact not_established_of_awaits (afterSynAck_awaits bootRun i hfree) ha' hestablished

end RustKernel.Net.Tcp
