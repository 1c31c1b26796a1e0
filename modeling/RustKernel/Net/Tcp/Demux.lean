import RustKernel.Net.Tcp.Handlers

/-!
# RustKernel.Net.Tcp.Demux

Which slot of the connection table a received segment reaches.

## Main result

`demultiplexes_iff`: when some slot has exactly the segment's ports and source
address, the segment reaches such a slot and no other one, if and only if no
wildcard match (a listener, or a slot whose remote end is not bound yet) stands
ahead of the first exact match.

`receive` takes the first slot that matches with wildcards, and it binds the
wildcard fields before it looks at the segment; so a wildcard match ahead of the
exact one is always changed.
-/

namespace RustKernel.Net.Tcp

/-! ### First match in a table -/

theorem findIdx?_eq_some_iff_first {α : Type} (p : α → Bool) (xs : List α) (i : Nat) :
    xs.findIdx? p = some i ↔
      ∃ x, xs[i]? = some x ∧ p x = true ∧ ∀ j < i, ∀ y, xs[j]? = some y → p y = false := by
  rw [List.findIdx?_eq_some_iff_getElem]
  constructor
  · rintro ⟨hi, hp, hbefore⟩
    refine ⟨xs[i], List.getElem?_eq_getElem hi, hp, ?_⟩
    intro j hj y hy
    obtain ⟨hlt, rfl⟩ := List.getElem?_eq_some_iff.mp hy
    simpa using hbefore j hj
  · rintro ⟨x, hx, hp, hbefore⟩
    obtain ⟨hi, rfl⟩ := List.getElem?_eq_some_iff.mp hx
    refine ⟨hi, hp, ?_⟩
    intro j hj
    have hget := List.getElem?_eq_getElem (show j < xs.length by omega)
    simpa using hbefore j hj _ hget

private theorem exists_findIdx?_of_mem {α : Type} (p : α → Bool) (xs : List α) (x : α) (hx : x ∈ xs)
    (hp : p x = true) : ∃ i, xs.findIdx? p = some i :=
  ⟨_, List.findIdx?_eq_some_of_exists ⟨x, hx, hp⟩⟩

theorem store_getElem?_ne (conns : ConnTable) (i k : Nat) (tx : Tx) (h : k ≠ i) :
    (conns.store i tx).1[k]? = conns[k]? := by
  rw [ConnTable.store, List.getElem?_set_ne (Ne.symm h)]

theorem store_getElem?_eq (conns : ConnTable) (i : Nat) (tx : Tx) (conn : TcpConn)
    (h : conns[i]? = some conn) : (conns.store i tx).1[i]? = some tx.1 := by
  obtain ⟨hi, -⟩ := List.getElem?_eq_some_iff.mp h
  rw [ConnTable.store, List.getElem?_set_self hi]

/-- `receive` is delivery to the first slot whose lookup predicate holds. -/
theorem receive_eq_store (env : Env) (src : Ipv4Addr) (data : List UInt8) (conns : ConnTable)
    (hdr : TcpHeader) (i : Nat) (conn : TcpConn) (hparse : TcpHeader.parse data = some hdr)
    (hfirst : conns.findIdx? (TcpConn.accepts src hdr) = some i) (hi : conns[i]? = some conn) :
    receive env src data conns = conns.store i (conn.deliver env src hdr) := by
  simp only [receive, hparse, hfirst, hi]

/-! ### Exact and wildcard matches -/

/-- The slot is neither free nor in TIME_WAIT and has exactly the segment's ports and source. -/
def TcpConn.matchesExactly (src : Ipv4Addr) (hdr : TcpHeader) (c : TcpConn) : Bool :=
  c.state ≠ .closed && c.state ≠ .timeWait && c.localPort == hdr.dstPort &&
    c.remoteIp == src && c.remotePort == hdr.srcPort

private theorem TcpConn.accepts_of_matchesExactly {src : Ipv4Addr} {hdr : TcpHeader} {c : TcpConn}
    (h : c.matchesExactly src hdr = true) : c.accepts src hdr = true := by
  simp only [TcpConn.matchesExactly, TcpConn.accepts, Bool.and_eq_true, Bool.or_eq_true] at *
  obtain ⟨⟨⟨⟨hopen, hwait⟩, hport⟩, hip⟩, hrport⟩ := h
  exact ⟨⟨⟨⟨hopen, hwait⟩, hport⟩, .inr hip⟩, .inr hrport⟩

/-- A slot with the segment's remote end that matches at all matches exactly. -/
private theorem TcpConn.matchesExactly_of_peer {src : Ipv4Addr} {hdr : TcpHeader} {c : TcpConn}
    (h : c.accepts src hdr = true) (hpeer : c.peer = (src, hdr.srcPort)) :
    c.matchesExactly src hdr = true := by
  obtain ⟨hip, hport⟩ := Prod.mk.inj hpeer
  simp only [TcpConn.matchesExactly, TcpConn.accepts, Bool.and_eq_true] at *
  obtain ⟨⟨⟨⟨hopen, hwait⟩, hlocal⟩, -⟩, -⟩ := h
  exact ⟨⟨⟨⟨hopen, hwait⟩, hlocal⟩, by simp [hip]⟩, by simp [hport]⟩

/-- After the wildcard fields are bound, an accepting slot has the segment's remote end. -/
private theorem TcpConn.bindRemote_peer {src : Ipv4Addr} {hdr : TcpHeader} {c : TcpConn}
    (h : c.accepts src hdr = true) : (c.bindRemote src hdr).peer = (src, hdr.srcPort) := by
  simp only [TcpConn.accepts, Bool.and_eq_true, Bool.or_eq_true, beq_iff_eq] at h
  obtain ⟨⟨-, hip⟩, hport⟩ := h
  simp only [TcpConn.peer, TcpConn.bindRemote, Prod.mk.injEq]
  constructor
  · rcases hip with hip | hip <;> simp [hip]
  · rcases hport with hport | hport <;> simp [hport]

/-- Delivery to a wildcard match always changes the slot. -/
private theorem deliver_ne_of_wildcard (env : Env) {src : Ipv4Addr} {hdr : TcpHeader} {c : TcpConn}
    (haccepts : c.accepts src hdr = true) (hwild : c.matchesExactly src hdr = false) :
    (c.deliver env src hdr).1 ≠ c := by
  intro hsame
  rw [TcpConn.deliver] at hsame
  split at hsame
  · -- a reset frees the slot, and no free slot accepts a segment
    rw [← hsame] at haccepts
    simp [TcpConn.accepts, TcpConn.new] at haccepts
  · have hpeer : c.peer = (src, hdr.srcPort) := by
      rw [← hsame, processSegment_peer, TcpConn.bindRemote_peer haccepts]
    rw [TcpConn.matchesExactly_of_peer haccepts hpeer] at hwild
    contradiction

/-! ### Demultiplexing -/

/-- The segment is processed on a slot that matches it exactly, and only there. -/
def Demultiplexes (env : Env) (src : Ipv4Addr) (data : List UInt8) (hdr : TcpHeader)
    (conns : ConnTable) : Prop :=
  ∃ i : Nat, ∃ conn : TcpConn, conns[i]? = some conn ∧ conn.matchesExactly src hdr = true ∧
    (receive env src data conns).1[i]? = some (conn.deliver env src hdr).1 ∧
    (receive env src data conns).2 = (conn.deliver env src hdr).2.map (fun d => (i, d)) ∧
    ∀ k ≠ i, (receive env src data conns).1[k]? = conns[k]?

/-- Every wildcard match stands behind some exact match. -/
def NoShadow (src : Ipv4Addr) (hdr : TcpHeader) (conns : ConnTable) : Prop :=
  ∀ k : Nat, ∀ c : TcpConn, conns[k]? = some c → c.accepts src hdr = true →
    c.matchesExactly src hdr = false →
    ∃ j < k, ∃ c' : TcpConn, conns[j]? = some c' ∧ c'.matchesExactly src hdr = true

private theorem demultiplexes_of_first_exact (env : Env) (src : Ipv4Addr) (data : List UInt8)
    (hdr : TcpHeader) (conns : ConnTable) (hparse : TcpHeader.parse data = some hdr) (i : Nat)
    (conn : TcpConn) (hfirst : conns.findIdx? (TcpConn.accepts src hdr) = some i)
    (hi : conns[i]? = some conn) (hexact : conn.matchesExactly src hdr = true) :
    Demultiplexes env src data hdr conns := by
  have hreceive := receive_eq_store env src data conns hdr i conn hparse hfirst hi
  refine ⟨i, conn, hi, hexact, ?_, ?_, ?_⟩
  · rw [hreceive]
    exact store_getElem?_eq conns i _ conn hi
  · rw [hreceive]
    rfl
  · intro k hk
    rw [hreceive]
    exact store_getElem?_ne conns i k _ hk

/-- Delivery to a wildcard match that comes first disturbs a slot that is no exact match. -/
private theorem not_demultiplexes_of_first_wildcard (env : Env) (src : Ipv4Addr) (data : List UInt8)
    (hdr : TcpHeader) (conns : ConnTable) (hparse : TcpHeader.parse data = some hdr) (i : Nat)
    (conn : TcpConn) (hfirst : conns.findIdx? (TcpConn.accepts src hdr) = some i)
    (hi : conns[i]? = some conn) (haccepts : conn.accepts src hdr = true)
    (hwild : conn.matchesExactly src hdr = false) :
    ¬Demultiplexes env src data hdr conns := by
  rintro ⟨k, c, hk, hexact, -, -, hothers⟩
  have hne : i ≠ k := by
    rintro rfl
    obtain rfl := Option.some.inj (hi.symm.trans hk)
    rw [hexact] at hwild
    contradiction
  have hreceive := receive_eq_store env src data conns hdr i conn hparse hfirst hi
  have hsame := hothers i hne
  rw [hreceive, store_getElem?_eq conns i _ conn hi, hi] at hsame
  exact deliver_ne_of_wildcard env haccepts hwild (Option.some.inj hsame)

private theorem noShadow_iff_first_exact (src : Ipv4Addr) (hdr : TcpHeader) (conns : ConnTable)
    (i : Nat)
    (conn : TcpConn) (hi : conns[i]? = some conn) (haccepts : conn.accepts src hdr = true)
    (hbefore : ∀ j < i, ∀ c, conns[j]? = some c → c.accepts src hdr = false) :
    NoShadow src hdr conns ↔ conn.matchesExactly src hdr = true := by
  constructor
  · intro hshadow
    by_contra hwild
    obtain ⟨j, hj, c, hc, hexact⟩ := hshadow i conn hi haccepts (by simpa using hwild)
    have hno := hbefore j hj c hc
    rw [TcpConn.accepts_of_matchesExactly hexact] at hno
    contradiction
  · intro hexact k c hk hacc hwild
    refine ⟨i, ?_, conn, hi, hexact⟩
    rcases lt_trichotomy i k with hlt | rfl | hgt
    · exact hlt
    · obtain rfl := Option.some.inj (hi.symm.trans hk)
      rw [hexact] at hwild
      contradiction
    · rw [hbefore k hgt c hk] at hacc
      contradiction

/-- **Demultiplexing**: with an exact match in the table, `receive` processes the segment on an
    exact match and leaves every other slot alone iff no wildcard match comes before the
    first exact one. -/
theorem demultiplexes_iff (env : Env) (src : Ipv4Addr) (data : List UInt8) (hdr : TcpHeader)
    (conns : ConnTable) (hparse : TcpHeader.parse data = some hdr)
    (hexists : ∃ c ∈ conns, c.matchesExactly src hdr = true) :
    Demultiplexes env src data hdr conns ↔ NoShadow src hdr conns := by
  obtain ⟨c, hmem, hexact⟩ := hexists
  obtain ⟨i, hfirst⟩ := exists_findIdx?_of_mem (TcpConn.accepts src hdr) conns c hmem
    (TcpConn.accepts_of_matchesExactly hexact)
  obtain ⟨conn, hi, haccepts, hbefore⟩ := (findIdx?_eq_some_iff_first _ _ _).mp hfirst
  rw [noShadow_iff_first_exact src hdr conns i conn hi haccepts hbefore]
  constructor
  · intro hdemux
    by_contra hwild
    exact not_demultiplexes_of_first_wildcard env src data hdr conns hparse i conn hfirst hi
      haccepts (by simpa using hwild) hdemux
  · exact demultiplexes_of_first_exact env src data hdr conns hparse i conn hfirst hi

/-! ### A listener ahead of the connection it spawned -/

section Shadowed

/-- The peer 10.0.2.2:4000 and the local port 80 of the examples below. -/
private def peerIp : Ipv4Addr := ⟨10, 0, 2, 2⟩

/-- A bare ACK from the peer. -/
private def strayAck : List UInt8 := segmentBytes 4000 80 1 1 ACK 0 0 []

private def strayHdr : TcpHeader := builtHeader 4000 80 1 1 ACK 0 0 []

private def establishedSlot : TcpConn :=
  { TcpConn.new with state := .established, localPort := 80, remoteIp := peerIp, remotePort := 4000 }

private def listenerSlot : TcpConn := { TcpConn.new with state := .listen, localPort := 80 }

/-- An established connection in slot 1 is cut off by a listener that took the freed slot 0. -/
theorem listener_shadows_connection :
    TcpHeader.parse strayAck = some strayHdr ∧
    (∃ c ∈ [listenerSlot, establishedSlot], c.matchesExactly peerIp strayHdr = true) ∧
    ¬Demultiplexes ⟨none, 0⟩ peerIp strayAck strayHdr [listenerSlot, establishedSlot] := by
  have hparse : TcpHeader.parse strayAck = some strayHdr :=
    parse_segmentBytes _ _ _ _ _ _ _ _ (by decide)
  refine ⟨hparse, ⟨establishedSlot, by simp, by decide⟩, ?_⟩
  exact not_demultiplexes_of_first_wildcard _ _ _ _ _ hparse 0 listenerSlot (by decide) rfl
    (by decide) (by decide)

/-- With the connection in slot 0 the listener behind it is harmless. -/
theorem connection_ahead_of_listener :
    Demultiplexes ⟨none, 0⟩ peerIp strayAck strayHdr [establishedSlot, listenerSlot] := by
  have hparse : TcpHeader.parse strayAck = some strayHdr :=
    parse_segmentBytes _ _ _ _ _ _ _ _ (by decide)
  refine (demultiplexes_iff _ _ _ _ _ hparse ⟨establishedSlot, by simp, by decide⟩).mpr ?_
  rw [noShadow_iff_first_exact peerIp strayHdr _ 0 establishedSlot rfl (by decide) (by simp)]
  decide

end Shadowed

end RustKernel.Net.Tcp
