import RustKernel.Lib.Run
import RustKernel.Net.Tcp.Handlers

/-!
# RustKernel.Net.Tcp.Reassembly

The receive side of an established connection: what `recv` has returned, what is
still buffered, and what has been acknowledged of the remote byte stream.

## Main result

`keeps_acknowledged_iff_fits`: along a run, the bytes returned and buffered are the
acknowledged prefix of the stream exactly when every in-order payload fits in the
free part of the receive buffer.

## Proof strategy

`Reader.Inv` bundles the property with the bounds that make sequence arithmetic
exact. A fitting step keeps it (`step_inv`); an in-order payload that does not fit is
acknowledged whole but stored in part, so the stored bytes fall short of the
acknowledged range at once (`step_loses`).
-/

namespace RustKernel.Net.Tcp

open Lib

/-! ### The run -/

/-- A connection with everything `recv` returned and every segment it transmitted. -/
structure Reader where
  conn : TcpConn
  returned : List UInt8
  sent : List Datagram

inductive ReadEvent where
  | segment (env : Env) (src : Ipv4Addr) (hdr : TcpHeader)
  | recv (bufLen : Nat)

def Reader.step (t : Reader) : ReadEvent → Reader
  | .segment env src hdr =>
    let (conn, out) := t.conn.deliver env src hdr
    { t with conn, sent := t.sent ++ out }
  | .recv bufLen =>
    let (conn, bytes) := t.conn.recv bufLen
    { t with conn, returned := t.returned ++ bytes }

/-- A FIN-free and RST-free segment whose payload is a slice of the stream `s`,
    numbered from `r`. -/
def TcpHeader.OfStream (r : UInt32) (s : List UInt8) (hdr : TcpHeader) : Prop :=
  has hdr.flags FIN = false ∧ has hdr.flags RST = false ∧
  (hdr.payload ≠ [] → ∃ i, i + hdr.payload.length ≤ s.length ∧ hdr.seq = r + UInt32.ofNat i ∧
    hdr.payload = Lib.window s i hdr.payload.length)

def ReadEvent.OfStream (r : UInt32) (s : List UInt8) : ReadEvent → Prop
  | .segment _ _ hdr => hdr.OfStream r s
  | .recv _ => True

/-! ### The property -/

/-- The bytes the connection has taken in and kept. -/
def Reader.stored (t : Reader) : List UInt8 := t.returned ++ t.conn.recvBuf

/-- The number of stream bytes counted as received. -/
def Reader.received (r : UInt32) (t : Reader) : Nat := (t.conn.remoteSeq - r).toNat

/-- What is stored is the prefix of the stream up to the receive sequence number. -/
def Reader.Kept (r : UInt32) (s : List UInt8) (t : Reader) : Prop :=
  t.stored = s.take (t.received r)

/-- Beyond the number `x` acknowledged at the start, only stored bytes are acknowledged. -/
def Reader.AcksStored (r x : UInt32) (t : Reader) : Prop :=
  ∀ d ∈ t.sent, ∀ hdr, TcpHeader.parse d.bytes = some hdr →
    hdr.ack = x ∨ (hdr.ack - r).toNat ≤ t.stored.length

/-- An in-order payload fits in the free part of the receive buffer. -/
def Reader.Fits (t : Reader) : ReadEvent → Prop
  | .segment _ _ hdr =>
    hdr.seq = t.conn.remoteSeq → t.conn.recvBuf.length + hdr.payload.length ≤ RECV_BUF_LEN
  | .recv _ => True

structure Reader.Inv (r x : UInt32) (s : List UInt8) (t : Reader) : Prop where
  state : t.conn.state = .established
  kept : t.Kept r s
  inside : t.received r ≤ s.length
  bounded : t.conn.recvBuf.length ≤ RECV_BUF_LEN
  localAck : t.conn.localAck = x ∨ (t.conn.localAck - r).toNat ≤ t.stored.length
  acks : t.AcksStored r x

private theorem Reader.Inv.length_stored {r x : UInt32} {s : List UInt8} {t : Reader}
    (h : t.Inv r x s) :
    t.stored.length = t.received r := by
  rw [h.kept, List.length_take, Nat.min_eq_left h.inside]

/-! ### What a segment does to the receive side -/

/-- The segments `out` acknowledge one of two numbers. -/
def AcksOneOf (x y : UInt32) (out : List Datagram) : Prop :=
  ∀ d ∈ out, ∀ hdr, TcpHeader.parse d.bytes = some hdr → hdr.ack = x ∨ hdr.ack = y

section Deliver

variable (env : Env) (conn : TcpConn) (hdr : TcpHeader)

private theorem sendSegmentRaw_acks (flags : UInt8) (payload : List UInt8)
    (hflags : flags &&& 0x3F = flags) (y : UInt32) :
    AcksOneOf y conn.localAck (sendSegmentRaw env conn flags payload).2 := by
  intro d hd hdr' hparse
  obtain ⟨-, cksum, hcarries⟩ := sendSegmentRaw_carries env conn flags payload hflags d hd
  obtain rfl := Option.some.inj (hparse.symm.trans hcarries)
  exact .inr rfl

private theorem establishedAck_acks (y : UInt32) :
    AcksOneOf conn.localAck y (establishedAck env conn hdr).2 := by
  rw [establishedAck]
  split
  · simp [AcksOneOf]
  · dsimp only
    split
    · intro d hd hdr' hparse
      obtain ⟨-, -, cksum, hcarries⟩ := flushSend_carries env _ d hd
      obtain rfl := Option.some.inj (hparse.symm.trans hcarries)
      exact .inl rfl
    · simp [AcksOneOf]

theorem AcksOneOf.append {x y : UInt32} {out₁ out₂ : List Datagram} (h₁ : AcksOneOf x y out₁)
    (h₂ : AcksOneOf x y out₂) : AcksOneOf x y (out₁ ++ out₂) := by
  intro d hd
  rcases List.mem_append.mp hd with h | h
  · exact h₁ d h
  · exact h₂ d h

/-- A segment that brings no in-order payload leaves the receive side as it is. -/
private theorem deliver_ignores (src : Ipv4Addr) (hstate : conn.state = .established)
    (hfin : has hdr.flags FIN = false) (hrst : has hdr.flags RST = false)
    (hnone : hdr.payload = [] ∨ hdr.seq ≠ conn.remoteSeq) :
    let after := conn.deliver env src hdr
    after.1.state = .established ∧ after.1.remoteSeq = conn.remoteSeq ∧
    after.1.localAck = conn.localAck ∧ after.1.recvBuf = conn.recvBuf ∧
    AcksOneOf conn.localAck conn.localAck after.2 := by
  rw [deliver_of_established env conn hdr src hstate hrst]
  by_cases hpayload : hdr.payload = []
  · rw [handleEstablished_of_bare env _ hdr hpayload hfin]
    exact ⟨by simp [hstate], by simp, by simp, by simp, establishedAck_acks env _ hdr _⟩
  · have hseq : hdr.seq ≠ conn.remoteSeq := hnone.resolve_left hpayload
    rw [handleEstablished_of_outOfOrder env (conn.bindRemote src hdr) hdr hpayload hseq]
    refine ⟨by simp [hstate], by simp, by simp, by simp, ?_⟩
    apply (establishedAck_acks env (conn.bindRemote src hdr) hdr _).append
    have hacks := sendSegmentRaw_acks env (establishedAck env (conn.bindRemote src hdr) hdr).1 ACK []
      (by decide) conn.localAck
    rwa [(establishedAck_frame env (conn.bindRemote src hdr) hdr).2.2.2.2.1] at hacks

/-- An in-order payload is stored as far as it fits, and counted and acknowledged whole. -/
private theorem deliver_inOrder (src : Ipv4Addr) (hstate : conn.state = .established)
    (hfin : has hdr.flags FIN = false) (hrst : has hdr.flags RST = false)
    (hpayload : hdr.payload ≠ []) (hseq : hdr.seq = conn.remoteSeq) :
    let after := conn.deliver env src hdr
    let next := conn.remoteSeq + UInt32.ofNat hdr.payload.length
    after.1.state = .established ∧ after.1.remoteSeq = next ∧ after.1.localAck = next ∧
    after.1.recvBuf = conn.recvBuf ++
      hdr.payload.take (min hdr.payload.length (RECV_BUF_LEN - conn.recvBuf.length)) ∧
    AcksOneOf conn.localAck next after.2 := by
  rw [deliver_of_established env conn hdr src hstate hrst,
    handleEstablished_of_inOrder env (conn.bindRemote src hdr) hdr (fun _ => hseq) hfin]
  have hsome : hdr.payload.isEmpty = false := by simpa using hpayload
  simp only [andThen_fst, andThen_snd, establishedData, hsome, Bool.false_eq_true, if_false]
  refine ⟨by simp [acceptPayload, hstate], by simp [acceptPayload], by simp [acceptPayload],
    by simp [acceptPayload], ?_⟩
  apply (establishedAck_acks env (conn.bindRemote src hdr) hdr _).append
  have hremote := (establishedAck_frame env (conn.bindRemote src hdr) hdr).2.2.2.1
  intro d hd hdr' hparse
  have hack := sendSegmentRaw_acks env _ ACK [] (by decide) conn.localAck d hd hdr' hparse
  simpa [acceptPayload, hremote] using hack

end Deliver

/-! ### Steps -/

section Steps

variable {r x : UInt32} {s : List UInt8} {t : Reader}

private theorem toNat_sub_add_ofNat (a r : UInt32) (n : Nat) (h : (a - r).toNat + n < 2 ^ 32) :
    (a + UInt32.ofNat n - r).toNat = (a - r).toNat + n := by
  have ha := a.toNat_lt
  have hr := r.toNat_lt
  rw [UInt32.toNat_sub] at h ⊢
  rw [UInt32.toNat_sub, UInt32.toNat_add, UInt32.toNat_ofNat']
  omega

/-- The offset a stream segment claims is the number of bytes received, if it is in order. -/
private theorem offset_of_inOrder (a r : UInt32) (i : Nat) (hi : i < 2 ^ 32)
    (h : r + UInt32.ofNat i = a) : i = (a - r).toNat := by
  have hr := r.toNat_lt
  rw [← h, UInt32.toNat_sub, UInt32.toNat_add, UInt32.toNat_ofNat']
  omega

private theorem take_append_window (s : List UInt8) (m n : Nat) :
    s.take m ++ window s m n = s.take (m + n) := by
  rw [window, List.take_add]

private theorem recv_stored (bufLen : Nat) : (t.step (.recv bufLen)).stored = t.stored := by
  simp [Reader.step, Reader.stored, TcpConn.recv]

private theorem AcksStored_mono {t t' : Reader} (h : t.AcksStored r x)
    (hlen : t.stored.length ≤ t'.stored.length) (out : List Datagram)
    (hsent : t'.sent = t.sent ++ out)
    (hout : ∀ d ∈ out, ∀ hdr, TcpHeader.parse d.bytes = some hdr →
      hdr.ack = x ∨ (hdr.ack - r).toNat ≤ t'.stored.length) : t'.AcksStored r x := by
  intro d hd hdr hparse
  rw [hsent] at hd
  rcases List.mem_append.mp hd with hd | hd
  · exact (h d hd hdr hparse).imp_right fun hack => hack.trans hlen
  · exact hout d hd hdr hparse

private theorem recv_inv (h : t.Inv r x s) (bufLen : Nat) : (t.step (.recv bufLen)).Inv r x s := by
  have hstored := recv_stored (t := t) bufLen
  refine ⟨h.state, ?_, h.inside, ?_, ?_, ?_⟩
  · rw [Reader.Kept, hstored]
    exact h.kept
  · have hbounded := h.bounded
    simp only [Reader.step, TcpConn.recv, List.length_drop]
    omega
  · rw [hstored]
    exact h.localAck
  · exact AcksStored_mono h.acks (by rw [hstored]) [] (by simp [Reader.step]) (by simp)

/-- An ignored segment keeps the invariant. -/
private theorem ignored_inv (h : t.Inv r x s) (env : Env) (src : Ipv4Addr) (hdr : TcpHeader)
    (hfin : has hdr.flags FIN = false) (hrst : has hdr.flags RST = false)
    (hnone : hdr.payload = [] ∨ hdr.seq ≠ t.conn.remoteSeq) :
    (t.step (.segment env src hdr)).Inv r x s := by
  obtain ⟨hstate, hremote, hlocal, hbuf, hacks⟩ :=
    deliver_ignores env t.conn hdr src h.state hfin hrst hnone
  have hstored : (t.step (.segment env src hdr)).stored = t.stored := by
    simp only [Reader.stored, Reader.step, hbuf]
  have hreceived : (t.step (.segment env src hdr)).received r = t.received r := by
    simp only [Reader.received, Reader.step, hremote]
  refine ⟨hstate, ?_, ?_, ?_, ?_, ?_⟩
  · rw [Reader.Kept, hstored, hreceived]
    exact h.kept
  · rw [hreceived]
    exact h.inside
  · simp only [Reader.step, hbuf]
    exact h.bounded
  · rw [hstored]
    simp only [Reader.step, hlocal]
    exact h.localAck
  · apply AcksStored_mono h.acks (by rw [hstored]) _ rfl
    intro d hd hdr' hparse
    rw [hstored]
    rcases hacks d hd hdr' hparse with hack | hack <;> rw [hack] <;> exact h.localAck

/-- The receive side after an in-order payload: all of it counted, a prefix of it stored. -/
private theorem inOrder_stored (h : t.Inv r x s) (hs : s.length < 2 ^ 31) (env : Env)
    (src : Ipv4Addr)
    (hdr : TcpHeader) (hstream : hdr.OfStream r s) (hpayload : hdr.payload ≠ [])
    (hseq : hdr.seq = t.conn.remoteSeq) :
    let after := t.step (.segment env src hdr)
    after.received r = t.received r + hdr.payload.length ∧
    t.received r + hdr.payload.length ≤ s.length ∧
    after.stored = s.take (t.received r +
      min hdr.payload.length (RECV_BUF_LEN - t.conn.recvBuf.length)) := by
  obtain ⟨hfin, hrst, hslice⟩ := hstream
  obtain ⟨i, hi, hat, hwindow⟩ := hslice hpayload
  obtain ⟨-, hremote, -, hbuf, -⟩ :=
    deliver_inOrder env t.conn hdr src h.state hfin hrst hpayload hseq
  obtain rfl : i = t.received r := offset_of_inOrder _ r i (by omega) (hat ▸ hseq)
  refine ⟨?_, hi, ?_⟩
  · simp only [Reader.received, Reader.step, hremote]
    exact toNat_sub_add_ofNat _ _ _ (by rw [Reader.received] at hi; omega)
  · have hkept := h.kept
    rw [Reader.Kept, Reader.stored] at hkept
    simp only [Reader.stored, Reader.step, hbuf]
    rw [← List.append_assoc, hkept, ← take_append_window, hwindow]
    congr 1
    rw [window, window, List.length_take, List.take_take]
    congr 1
    rw [List.length_drop]
    omega

/-- A fitting in-order payload keeps the invariant. -/
private theorem inOrder_inv (h : t.Inv r x s) (hs : s.length < 2 ^ 31) (env : Env) (src : Ipv4Addr)
    (hdr : TcpHeader) (hstream : hdr.OfStream r s) (hpayload : hdr.payload ≠ [])
    (hseq : hdr.seq = t.conn.remoteSeq)
    (hfits : t.conn.recvBuf.length + hdr.payload.length ≤ RECV_BUF_LEN) :
    (t.step (.segment env src hdr)).Inv r x s := by
  obtain ⟨hreceived, hinside, hstored⟩ := inOrder_stored h hs env src hdr hstream hpayload hseq
  obtain ⟨hstate, hremote, hlocal, hbuf, hacks⟩ :=
    deliver_inOrder env t.conn hdr src h.state hstream.1 hstream.2.1 hpayload hseq
  rw [Nat.min_eq_left (by omega)] at hstored hbuf
  have hlen : (t.step (.segment env src hdr)).stored.length =
      t.received r + hdr.payload.length := by
    rw [hstored, List.length_take, Nat.min_eq_left hinside]
  have hgrows : t.stored.length ≤ (t.step (.segment env src hdr)).stored.length := by
    rw [h.length_stored, hlen]
    omega
  have hnext : (t.conn.remoteSeq + UInt32.ofNat hdr.payload.length - r).toNat ≤
      (t.step (.segment env src hdr)).stored.length := by
    rw [Reader.received, Reader.step] at hreceived
    rw [hlen, ← hremote, hreceived]
  refine ⟨hstate, ?_, ?_, ?_, ?_, ?_⟩
  · rw [Reader.Kept, hreceived, hstored]
  · rw [hreceived]
    exact hinside
  · simp only [Reader.step, hbuf, List.length_append, List.take_length]
    exact hfits
  · right
    simp only [Reader.step, hlocal] at hnext ⊢
    exact hnext
  · apply AcksStored_mono h.acks hgrows _ rfl
    intro d hd hdr' hparse
    -- a flush carries the old number, the answer the new one
    rcases hacks d hd hdr' hparse with hack | hack <;> rw [hack]
    · exact h.localAck.imp_right fun hack' => hack'.trans hgrows
    · exact .inr hnext

/-- A step whose payload fits keeps the invariant. -/
theorem step_inv (hs : s.length < 2 ^ 31) (t : Reader) (e : ReadEvent) (h : t.Inv r x s)
    (he : e.OfStream r s) (hfits : t.Fits e) : (t.step e).Inv r x s := by
  cases e with
  | recv bufLen => exact recv_inv h bufLen
  | segment env src hdr =>
    by_cases hnone : hdr.payload = [] ∨ hdr.seq ≠ t.conn.remoteSeq
    · exact ignored_inv h env src hdr he.1 he.2.1 hnone
    · obtain ⟨hpayload, hseq⟩ := not_or.mp hnone
      have hseq' : hdr.seq = t.conn.remoteSeq := not_not.mp hseq
      exact inOrder_inv h hs env src hdr he hpayload hseq' (hfits hseq')

/-- A step whose payload does not fit acknowledges bytes that are not stored. -/
theorem step_loses (hs : s.length < 2 ^ 31) (t : Reader) (e : ReadEvent) (h : t.Inv r x s)
    (he : e.OfStream r s) (hfits : ¬t.Fits e) : ¬(t.step e).Kept r s := by
  cases e with
  | recv bufLen => exact absurd trivial hfits
  | segment env src hdr =>
    obtain ⟨hseq, hover⟩ := Classical.not_imp.mp hfits
    have hbounded := h.bounded
    have hpayload : hdr.payload ≠ [] := by
      intro hnil
      rw [hnil, List.length_nil] at hover
      omega
    obtain ⟨hreceived, hinside, hstored⟩ := inOrder_stored h hs env src hdr he hpayload hseq
    intro hkept
    rw [Reader.Kept, hreceived, hstored] at hkept
    have hlen := congrArg List.length hkept
    rw [List.length_take, List.length_take] at hlen
    omega

end Steps

/-! ### Runs -/

theorem Reader.Inv.start (conn : TcpConn) (s : List UInt8) (hstate : conn.state = .established)
    (hempty : conn.recvBuf = []) :
    Reader.Inv conn.remoteSeq conn.localAck s ⟨conn, [], []⟩ := by
  constructor
  · exact hstate
  · simp [Reader.Kept, Reader.stored, Reader.received, hempty]
  · simp [Reader.received]
  · simp [hempty]
  · exact .inl rfl
  · simp [Reader.AcksStored]

/-- **Reassembly**: along a run of stream segments and reads, the stored bytes are the
    acknowledged prefix of the stream iff every in-order payload fits when it arrives. -/
theorem keeps_acknowledged_iff_fits (conn : TcpConn) (hstate : conn.state = .established)
    (hempty : conn.recvBuf = []) (s : List UInt8) (hs : s.length < 2 ^ 31)
    (events : List ReadEvent) (hevents : ∀ e ∈ events, e.OfStream conn.remoteSeq s) :
    (∀ t ∈ states Reader.step ⟨conn, [], []⟩ events,
      t.Kept conn.remoteSeq s ∧ t.AcksStored conn.remoteSeq conn.localAck) ↔
    ∀ p ∈ steps Reader.step ⟨conn, [], []⟩ events, p.1.Fits p.2 :=
  guardedRun_iff Reader.step (Reader.Inv conn.remoteSeq conn.localAck s) _
    (ReadEvent.OfStream conn.remoteSeq s) Reader.Fits
    (fun _ h => ⟨h.kept, h.acks⟩)
    (step_inv hs)
    (fun t e h he hfits hP => step_loses hs t e h he hfits hP.1)
    _ events (Reader.Inv.start conn s hstate hempty) hevents

/-! ### A burst inside the advertised window -/

section Burst

private def burstConn : TcpConn :=
  { TcpConn.new with
    state := .established, localPort := 80, remoteIp := ⟨10, 0, 2, 2⟩, remotePort := 5000,
    localSeq := 2000, remoteSeq := 1000, localAck := 1000 }

private def burstStream : List UInt8 := List.replicate 4200 7

private def burstSegment (i : Nat) : ReadEvent :=
  .segment ⟨some ⟨⟨10, 0, 2, 15⟩⟩, 5⟩ ⟨10, 0, 2, 2⟩
    (builtHeader 5000 80 (1000 + UInt32.ofNat (1400 * i)) 2000 (PSH ||| ACK) WINDOW 0
      (List.replicate 1400 7))

private theorem burstSegment_ofStream (i : Nat) (hi : i < 3) :
    (burstSegment i).OfStream burstConn.remoteSeq burstStream := by
  have hfin : has (PSH ||| ACK) FIN = false := by decide
  have hrst : has (PSH ||| ACK) RST = false := by decide
  refine ⟨hfin, hrst, fun _ => ⟨1400 * i, ?_, rfl, ?_⟩⟩
  · simp only [builtHeader, burstStream, List.length_replicate]
    omega
  · simp only [builtHeader, burstStream, Lib.window, List.length_replicate, List.drop_replicate,
      List.take_replicate]
    congr 1
    omega

/-- Three segments of 1400 bytes, 4200 in all and within the window of 8192: the last one is
    acknowledged whole and stored in part. -/
theorem burst_overruns_buffer :
    ¬∀ t ∈ states Reader.step ⟨burstConn, [], []⟩ [burstSegment 0, burstSegment 1, burstSegment 2],
      t.Kept burstConn.remoteSeq burstStream := by
  intro h
  have hlast := h _ (List.mem_cons_of_mem _ (List.mem_cons_of_mem _ (List.mem_cons_of_mem _
    List.mem_cons_self)))
  have hlen := congrArg List.length hlast
  revert hlen
  decide +kernel

/-- A single segment fits, through the general statement. -/
theorem single_segment_kept :
    (∀ p ∈ steps Reader.step ⟨burstConn, [], []⟩ [burstSegment 0], p.1.Fits p.2) ∧
      ∀ t ∈ states Reader.step ⟨burstConn, [], []⟩ [burstSegment 0],
        t.Kept burstConn.remoteSeq burstStream ∧
          t.AcksStored burstConn.remoteSeq burstConn.localAck := by
  have hfits : ∀ p ∈ steps Reader.step ⟨burstConn, [], []⟩ [burstSegment 0], p.1.Fits p.2 := by
    intro p hp
    obtain rfl := List.mem_singleton.mp hp
    simp only [Reader.Fits, burstSegment, builtHeader, List.length_replicate, RECV_BUF_LEN]
    exact fun _ => by decide
  have hofStream : ∀ e ∈ [burstSegment 0], e.OfStream burstConn.remoteSeq burstStream := by
    intro e he
    obtain rfl := List.mem_singleton.mp he
    exact burstSegment_ofStream 0 (by decide)
  have hlong : burstStream.length < 2 ^ 31 := by
    rw [burstStream, List.length_replicate]
    decide
  exact ⟨hfits, (keeps_acknowledged_iff_fits burstConn rfl rfl burstStream hlong [burstSegment 0]
    hofStream).mpr hfits⟩

end Burst

end RustKernel.Net.Tcp
