import RustKernel.Net.Tcp.Closing
import RustKernel.Net.Tcp.Demux

/-!
# RustKernel.Net.Tcp.Listener

What segments without SYN leave of a listener.

## Main result

`listenerSurvives_iff`: after a sequence of segments without SYN a listener is what it was, and
takes every SYN that it would have taken before, exactly when each segment that the lookup handed to
it was harmless: no RST, and nothing to bind. A listener has both remote fields unbound, so in
practice every such segment breaks it: `receive` binds the fields and handles RST before the handler
sees the segment.

## Proof strategy

A segment that is not harmless spoils the slot, and a spoiled slot stays so (`step_spoiled`); this
is the direction from the result to the segments. In the other direction the slots ahead of the
listener accept no more segments than before (`NarrowerThan`), so the lookup still finds it.
-/

namespace RustKernel.Net.Tcp

/-! ### The property and its condition -/

/-- The call hands a segment without SYN to the module, or bytes that are no segment. -/
def Call.isStray : Call → Bool
  | .receive _ data => (TcpHeader.parse data).all fun hdr => !has hdr.flags SYN
  | _ => false

/-- The listener in slot `i` of `s` is in `t` what it was, and takes the SYNs it would have
    taken. -/
structure ListenerSurvives (s t : Stack) (i : Nat) (listener : TcpConn) : Prop where
  unchanged : t.conns[i]? = some listener
  answers : ∀ (now : UInt64) (src : Ipv4Addr) (data : List UInt8) (hdr : TcpHeader),
    TcpHeader.parse data = some hdr → has hdr.flags SYN = true → has hdr.flags RST = false →
    s.conns.findIdx? (TcpConn.accepts src hdr) = some i →
    ∃ conn, (t.step ⟨now, .receive src data⟩).1.conns[i]? = some conn ∧ conn.state = .synReceived

/-- The segment is no RST, and the listener has no remote field that it would bind. -/
def TcpConn.harmless (src : Ipv4Addr) (hdr : TcpHeader) (listener : TcpConn) : Bool :=
  !has hdr.flags RST && (listener.remoteIp != .unspecified || src == .unspecified) &&
    (listener.remotePort != 0 || hdr.srcPort == 0)

/-- A call does not hand the listener in slot `i` a segment that is not harmless. -/
def Call.spares (conns : ConnTable) (i : Nat) (listener : TcpConn) : Call → Bool
  | .receive src data => (TcpHeader.parse data).all fun hdr =>
      conns.findIdx? (TcpConn.accepts src hdr) != some i || listener.harmless src hdr
  | _ => true

/-! ### One segment at the listener -/

section Listening

variable {env : Env} {conn listener : TcpConn} {src : Ipv4Addr} {hdr : TcpHeader}

/-- Without SYN the handler of LISTEN does nothing, so binding and RST are all that happens. -/
private theorem deliver_of_listen (hstate : conn.state = .listen)
    (hsyn : has hdr.flags SYN = false) :
    (conn.deliver env src hdr).1 =
      if has hdr.flags RST then TcpConn.new else conn.bindRemote src hdr := by
  have hbound : (conn.bindRemote src hdr).state = .listen := hstate
  rw [TcpConn.deliver]
  split
  · rfl
  · rw [processSegment, hbound]
    simp [handleListen, hsyn]

private theorem bindRemote_of_harmless (h : conn.harmless src hdr = true) :
    conn.bindRemote src hdr = conn := by
  simp only [TcpConn.harmless, Bool.and_eq_true, Bool.or_eq_true, bne_iff_ne, beq_iff_eq] at h
  obtain ⟨⟨-, hip⟩, hport⟩ := h
  -- a field is bound already, or open and given the value it has
  have hsameIp : (if conn.remoteIp = .unspecified then src else conn.remoteIp) = conn.remoteIp := by
    rcases hip with hbound | hwild
    · rw [if_neg hbound]
    · split <;> simp [*]
  have hsamePort : (if conn.remotePort = 0 then hdr.srcPort else conn.remotePort) =
      conn.remotePort := by
    rcases hport with hbound | hwild
    · rw [if_neg hbound]
    · split <;> simp [*]
  rw [TcpConn.bindRemote, hsameIp, hsamePort]

/-- A SYN moves the listener on. -/
private theorem deliver_of_syn (hstate : conn.state = .listen) (hsyn : has hdr.flags SYN = true)
    (hrst : has hdr.flags RST = false) : (conn.deliver env src hdr).1.state = .synReceived := by
  have hbound : (conn.bindRemote src hdr).state = .listen := hstate
  rw [TcpConn.deliver, hrst, if_neg Bool.false_ne_true, processSegment, hbound]
  simp [handleListen, hsyn]

private theorem deliver_of_harmless (hstate : conn.state = .listen)
    (hsyn : has hdr.flags SYN = false)
    (h : conn.harmless src hdr = true) : (conn.deliver env src hdr).1 = conn := by
  have hrst : has hdr.flags RST = false := by
    simp only [TcpConn.harmless, Bool.and_eq_true, Bool.not_eq_true'] at h
    exact h.1.1
  rw [deliver_of_listen hstate hsyn, hrst, if_neg Bool.false_ne_true, bindRemote_of_harmless h]

/-- The slot no longer holds the listener and never will again through `receive`: it is free, or a
    remote field that the listener left open is bound. -/
structure Spoiled (listener conn : TcpConn) : Prop where
  idle : conn.state = .closed ∨ conn.state = .listen
  lost : conn.state = .closed ∨
    listener.remoteIp = .unspecified ∧ conn.remoteIp ≠ .unspecified ∨
    listener.remotePort = 0 ∧ conn.remotePort ≠ 0

theorem Spoiled.ne (h : Spoiled listener conn) (hstate : listener.state = .listen) :
    conn ≠ listener := by
  rintro rfl
  rcases h.lost with hclosed | ⟨hopen, hbound⟩ | ⟨hopen, hbound⟩
  · rw [hstate] at hclosed
    cases hclosed
  · exact hbound hopen
  · exact hbound hopen

private theorem spoiled_new : Spoiled listener TcpConn.new := ⟨.inl rfl, .inl rfl⟩

/-- A segment that is not harmless spoils the listener. -/
private theorem deliver_spoils (hstate : listener.state = .listen)
    (hsyn : has hdr.flags SYN = false)
    (h : listener.harmless src hdr = false) :
    Spoiled listener (listener.deliver env src hdr).1 := by
  rw [deliver_of_listen hstate hsyn]
  split
  · exact spoiled_new
  · next hrst =>
    refine ⟨.inr hstate, .inr ?_⟩
    -- one of the two fields is open and the segment has a value for it
    simp only [TcpConn.harmless, hrst, Bool.not_false, Bool.true_and, Bool.and_eq_false_iff,
      Bool.or_eq_false_iff, bne_eq_false_iff_eq, beq_eq_false_iff_ne] at h
    rcases h with ⟨hopen, hvalue⟩ | ⟨hopen, hvalue⟩
    · left
      simp [TcpConn.bindRemote, hopen, hvalue]
    · right
      simp [TcpConn.bindRemote, hopen, hvalue]

/-- What is bound stays bound, so a spoiled slot that still listens stays spoiled. -/
private theorem deliver_spoiled (h : Spoiled listener conn) (haccepts : conn.accepts src hdr = true)
    (hsyn : has hdr.flags SYN = false) : Spoiled listener (conn.deliver env src hdr).1 := by
  have hopen : conn.state ≠ .closed := by
    simp only [TcpConn.accepts, Bool.and_eq_true, decide_eq_true_eq] at haccepts
    exact haccepts.1.1.1.1
  have hlisten := h.idle.resolve_left hopen
  rw [deliver_of_listen hlisten hsyn]
  split
  · exact spoiled_new
  · refine ⟨.inr hlisten, .inr ?_⟩
    rcases h.lost.resolve_left hopen with ⟨hwas, hbound⟩ | ⟨hwas, hbound⟩
    · left
      simp [TcpConn.bindRemote, hwas, hbound]
    · right
      simp [TcpConn.bindRemote, hwas, hbound]

end Listening

/-! ### The slots ahead of the listener -/

/-- `after` accepts no segment that `conn` does not. -/
def NarrowerThan (conn after : TcpConn) : Prop :=
  ∀ src hdr, after.accepts src hdr = true → conn.accepts src hdr = true

section Narrowing

variable {env : Env} {conn : TcpConn} {src : Ipv4Addr} {hdr : TcpHeader}

private theorem not_accepts_new : TcpConn.new.accepts src hdr = false := rfl

/-- A slot that takes a segment accepts fewer segments afterwards, or the same. -/
private theorem deliver_narrower (haccepts : conn.accepts src hdr = true) :
    NarrowerThan conn (conn.deliver env src hdr).1 := by
  intro src' hdr' hafter
  rw [TcpConn.deliver] at hafter
  split at hafter
  · rw [not_accepts_new] at hafter
    cases hafter
  · have hport := processSegment_localPort env (conn.bindRemote src hdr) hdr
    have hpeer := processSegment_peer env (conn.bindRemote src hdr) hdr
    generalize (processSegment env (conn.bindRemote src hdr) hdr).1 = after at *
    obtain ⟨hip, hrport⟩ := Prod.mk.inj hpeer
    -- after the step: the same local port, and the remote end as bound by this segment
    simp only [TcpConn.accepts, hport, hip, hrport, TcpConn.bindRemote, Bool.and_eq_true,
      Bool.or_eq_true, beq_iff_eq] at haccepts hafter ⊢
    obtain ⟨⟨⟨hlive, -⟩, -⟩, -⟩ := haccepts
    obtain ⟨⟨⟨-, hlocal⟩, hremote⟩, hremotePort⟩ := hafter
    refine ⟨⟨⟨hlive, hlocal⟩, ?_⟩, ?_⟩
    · -- a wildcard accepts what its bound value accepts
      split at hremote
      · next hwild => exact .inl hwild
      · exact hremote
    · split at hremotePort
      · next hwild => exact .inl hwild
      · exact hremotePort

end Narrowing

/-! ### A stray segment at a table -/

section Steps

variable {s : Stack} {e : Event} {i : Nat} {conn listener : TcpConn}

/-- A stray segment goes to slot `i`. -/
structure Reaches (s : Stack) (e : Event) (i : Nat) (src : Ipv4Addr) (data : List UInt8)
    (hdr : TcpHeader) : Prop where
  call_eq : e.call = .receive src data
  parse_eq : TcpHeader.parse data = some hdr
  syn_eq : has hdr.flags SYN = false
  first : s.conns.findIdx? (TcpConn.accepts src hdr) = some i

theorem Reaches.accepts {src : Ipv4Addr} {data : List UInt8} {hdr : TcpHeader}
    (h : Reaches s e i src data hdr) (hconn : s.conns[i]? = some conn) :
    conn.accepts src hdr = true := by
  obtain ⟨c, hc, haccepts, -⟩ := (findIdx?_eq_some_iff_first _ _ _).mp h.first
  obtain rfl := Option.some.inj (hconn.symm.trans hc)
  exact haccepts

/-- The step of a stray segment: slot `i` is left alone, or it is the first match. -/
private theorem stray_step (hstray : e.call.isStray = true) (hconn : s.conns[i]? = some conn) :
    (s.step e).1.conns[i]? = some conn ∧ (∀ src data hdr, ¬Reaches s e i src data hdr) ∨
    ∃ src data hdr, Reaches s e i src data hdr ∧
      (s.step e).1.conns[i]? = some (conn.deliver ⟨s.cfg, e.now⟩ src hdr).1 := by
  have hstep := step_conns s e i
  rw [hconn, Option.map_some] at hstep
  obtain ⟨now, call⟩ := e
  cases call with
  | receive src data =>
    cases hparse : TcpHeader.parse data with
    | none =>
      -- bytes that are no segment are dropped
      left
      constructor
      · simpa [Call.touches, Call.isPoll, Call.target, hparse] using hstep
      · intro src' data' hdr' h
        obtain ⟨rfl, rfl⟩ := Call.receive.inj h.call_eq
        cases hparse.symm.trans h.parse_eq
    | some hdr =>
      have hsyn : has hdr.flags SYN = false := by simpa [Call.isStray, hparse] using hstray
      by_cases hfirst : s.conns.findIdx? (TcpConn.accepts src hdr) = some i
      · right
        refine ⟨src, data, hdr, ⟨rfl, hparse, hsyn, hfirst⟩, ?_⟩
        simpa [Call.touches, Call.isPoll, Call.target, Call.act, Tx.seen, hparse, hfirst]
          using hstep
      · -- some other slot takes the segment, or none
        left
        constructor
        · simpa [Call.touches, Call.isPoll, Call.target, hparse, hfirst] using hstep
        · intro src' data' hdr' h
          obtain ⟨rfl, rfl⟩ := Call.receive.inj h.call_eq
          obtain rfl := Option.some.inj (hparse.symm.trans h.parse_eq)
          exact hfirst h.first
  | _ => cases hstray

private theorem harmless_of_spares {src : Ipv4Addr} {data : List UInt8} {hdr : TcpHeader}
    (hspares : e.call.spares s.conns i listener = true) (h : Reaches s e i src data hdr) :
    listener.harmless src hdr = true := by
  rw [h.call_eq] at hspares
  simpa [Call.spares, h.parse_eq, h.first] using hspares

private theorem exists_reaches_of_not_spares (hstray : e.call.isStray = true)
    (hspares : e.call.spares s.conns i listener = false) :
    ∃ src data hdr, Reaches s e i src data hdr ∧ listener.harmless src hdr = false := by
  obtain ⟨now, call⟩ := e
  cases call with
  | receive src data =>
    cases hparse : TcpHeader.parse data with
    | none => simp [Call.spares, hparse] at hspares
    | some hdr =>
      have hsyn : has hdr.flags SYN = false := by simpa [Call.isStray, hparse] using hstray
      simp only [Call.spares, hparse, Option.all_some, Bool.or_eq_false_iff,
        bne_eq_false_iff_eq] at hspares
      exact ⟨src, data, hdr, ⟨rfl, hparse, hsyn, hspares.1⟩, hspares.2⟩
  | _ => cases hstray

/-- A step that spares the listener leaves it alone. -/
private theorem step_of_spares (hstate : listener.state = .listen)
    (hlistener : s.conns[i]? = some listener) (hstray : e.call.isStray = true)
    (hspares : e.call.spares s.conns i listener = true) :
    (s.step e).1.conns[i]? = some listener := by
  rcases stray_step hstray hlistener with ⟨hsame, -⟩ | ⟨src, data, hdr, hreach, hafter⟩
  · exact hsame
  · rw [hafter, deliver_of_harmless hstate hreach.syn_eq (harmless_of_spares hspares hreach)]

/-- A step that does not spoils the slot. -/
private theorem step_spoils (hstate : listener.state = .listen)
    (hlistener : s.conns[i]? = some listener)
    (hstray : e.call.isStray = true) (hspares : e.call.spares s.conns i listener = false) :
    ∃ conn, (s.step e).1.conns[i]? = some conn ∧ Spoiled listener conn := by
  obtain ⟨src, data, hdr, hreach, hharm⟩ := exists_reaches_of_not_spares hstray hspares
  rcases stray_step hstray hlistener with ⟨-, hnot⟩ | ⟨src', data', hdr', hreach', hafter⟩
  · exact absurd hreach (hnot src data hdr)
  · obtain ⟨rfl, rfl⟩ := Call.receive.inj (hreach.call_eq.symm.trans hreach'.call_eq)
    obtain rfl := Option.some.inj (hreach.parse_eq.symm.trans hreach'.parse_eq)
    exact ⟨_, hafter, deliver_spoils hstate hreach.syn_eq hharm⟩

theorem step_spoiled (hconn : s.conns[i]? = some conn) (h : Spoiled listener conn)
    (hstray : e.call.isStray = true) :
    ∃ after, (s.step e).1.conns[i]? = some after ∧ Spoiled listener after := by
  rcases stray_step hstray hconn with ⟨hsame, -⟩ | ⟨src, data, hdr, hreach, hafter⟩
  · exact ⟨conn, hsame, h⟩
  · exact ⟨_, hafter, deliver_spoiled h (hreach.accepts hconn) hreach.syn_eq⟩

/-- Every slot of `t` accepts at most what the same slot of `s` accepts. -/
def Narrowed (s t : Stack) : Prop :=
  ∀ (j : Nat) (after : TcpConn), t.conns[j]? = some after →
    ∃ conn, s.conns[j]? = some conn ∧ NarrowerThan conn after

theorem Narrowed.refl (s : Stack) : Narrowed s s := by
  intro j conn hconn
  exact ⟨conn, hconn, fun _ _ h => h⟩

theorem Narrowed.trans {s t u : Stack} (h₁ : Narrowed s t) (h₂ : Narrowed t u) : Narrowed s u := by
  intro j after hafter
  obtain ⟨mid, hmid, hnarrow₂⟩ := h₂ j after hafter
  obtain ⟨conn, hconn, hnarrow₁⟩ := h₁ j mid hmid
  exact ⟨conn, hconn, fun src hdr h => hnarrow₁ src hdr (hnarrow₂ src hdr h)⟩

private theorem step_narrowed (hstray : e.call.isStray = true) : Narrowed s (s.step e).1 := by
  intro j after hafter
  obtain ⟨conn, hconn, -⟩ := Option.map_eq_some_iff.mp ((step_conns s e j).symm.trans hafter)
  refine ⟨conn, hconn, ?_⟩
  rcases stray_step hstray hconn with ⟨hsame, -⟩ | ⟨src, data, hdr, hreach, hmoved⟩
  · obtain rfl := Option.some.inj (hsame.symm.trans hafter)
    exact fun _ _ h => h
  · obtain rfl := Option.some.inj (hmoved.symm.trans hafter)
    exact deliver_narrower (hreach.accepts hconn)

/-- The lookup that found the listener still does when the slots ahead of it have narrowed. -/
theorem Narrowed.first {t : Stack} (h : Narrowed s t) {src : Ipv4Addr} {hdr : TcpHeader}
    (hfirst : s.conns.findIdx? (TcpConn.accepts src hdr) = some i)
    (hs : s.conns[i]? = some listener) (ht : t.conns[i]? = some listener) :
    t.conns.findIdx? (TcpConn.accepts src hdr) = some i := by
  obtain ⟨c, hc, haccepts, hbefore⟩ := (findIdx?_eq_some_iff_first _ _ _).mp hfirst
  obtain rfl := Option.some.inj (hs.symm.trans hc)
  refine (findIdx?_eq_some_iff_first _ _ _).mpr ⟨listener, ht, haccepts, ?_⟩
  intro j hj after hafter
  obtain ⟨conn, hconn, hnarrow⟩ := h j after hafter
  have hrefused := hbefore j hj conn hconn
  cases hmatch : after.accepts src hdr with
  | false => rfl
  | true => exact absurd (hnarrow src hdr hmatch) (by simp [hrefused])

end Steps

/-! ### Whole sequences -/

section Runs

variable {i : Nat} {listener : TcpConn}

private theorem after_narrowed (s : Stack) (es : List Event)
    (hstray : ∀ e ∈ es, e.call.isStray = true) :
    Narrowed s (s.after es) := by
  induction es generalizing s with
  | nil => exact .refl s
  | cons e es ih =>
    have hhead := step_narrowed (s := s) (hstray e List.mem_cons_self)
    exact hhead.trans (ih _ fun e' he' => hstray e' (List.mem_cons_of_mem _ he'))

private theorem after_spoiled (s : Stack) (es : List Event)
    (hstray : ∀ e ∈ es, e.call.isStray = true)
    (conn : TcpConn) (hconn : s.conns[i]? = some conn) (h : Spoiled listener conn) :
    ∃ after, (s.after es).conns[i]? = some after ∧ Spoiled listener after := by
  induction es generalizing s conn with
  | nil => exact ⟨conn, hconn, h⟩
  | cons e es ih =>
    obtain ⟨mid, hmid, hspoiled⟩ := step_spoiled hconn h (hstray e List.mem_cons_self)
    exact ih _ (fun e' he' => hstray e' (List.mem_cons_of_mem _ he')) mid hmid hspoiled

/-- The listener is what it was exactly when every step spared it. -/
private theorem after_unchanged_iff (s : Stack) (es : List Event)
    (hstray : ∀ e ∈ es, e.call.isStray = true) (hstate : listener.state = .listen)
    (hlistener : s.conns[i]? = some listener) :
    (s.after es).conns[i]? = some listener ↔
      ∀ p ∈ s.steps es, p.2.call.spares p.1.conns i listener = true := by
  induction es generalizing s with
  | nil => exact iff_of_true hlistener (fun p hp => by cases hp)
  | cons e es ih =>
    have hhead := hstray e List.mem_cons_self
    have htail : ∀ e' ∈ es, e'.call.isStray = true := fun e' he' =>
      hstray e' (List.mem_cons_of_mem _ he')
    have hsteps : s.steps (e :: es) = (s, e) :: (s.step e).1.steps es := rfl
    rw [hsteps, List.forall_mem_cons]
    cases hspares : e.call.spares s.conns i listener with
    | true =>
      simp only [true_and]
      exact ih _ htail (step_of_spares hstate hlistener hhead hspares)
    | false =>
      -- once spoiled the slot never holds the listener again
      simp only [Bool.false_eq_true, false_and, iff_false]
      obtain ⟨mid, hmid, hspoiled⟩ := step_spoils hstate hlistener hhead hspares
      obtain ⟨conn, hconn, hend⟩ := after_spoiled _ es htail mid hmid hspoiled
      intro hkept
      exact hend.ne hstate (Option.some.inj (hconn.symm.trans hkept))

/-- **A listener survives stray segments** exactly when each one that was handed to it was
    harmless. -/
theorem listenerSurvives_iff (s : Stack) (es : List Event)
    (hstray : ∀ e ∈ es, e.call.isStray = true) (hstate : listener.state = .listen)
    (hlistener : s.conns[i]? = some listener) :
    ListenerSurvives s (s.after es) i listener ↔
      ∀ p ∈ s.steps es, p.2.call.spares p.1.conns i listener = true := by
  constructor
  · exact fun h => (after_unchanged_iff s es hstray hstate hlistener).mp h.unchanged
  · intro hspares
    have hkept := (after_unchanged_iff s es hstray hstate hlistener).mpr hspares
    refine ⟨hkept, fun now src data hdr hparse hsyn hrst hfirst => ?_⟩
    have hstill := (after_narrowed s es hstray).first hfirst hlistener hkept
    have hstep := step_conns (s.after es) ⟨now, .receive src data⟩ i
    rw [hkept, Option.map_some] at hstep
    simp only [Call.touches, Call.isPoll, Call.target, Call.act, hparse, Option.bind_some, hstill,
      Tx.seen, beq_self_eq_true, Bool.or_true, if_true] at hstep
    exact ⟨_, hstep, deliver_of_syn hstate hsyn hrst⟩

end Runs

/-! ### A listener on port 80 -/

section OnPort80

private def webListener : TcpConn := TcpConn.new.openListen ⟨none, 0⟩ 80

private def webServer : Stack := (Stack.boot.step ⟨0, .listen 80⟩).1

/-- A segment without payload from port 4000 of 10.0.2.2. -/
private def strayTo (port : UInt16) (flags : UInt8) : Event :=
  ⟨1, .receive ⟨10, 0, 2, 2⟩ (segmentBytes 4000 port 7 7 flags WINDOW 0 [])⟩

/-- Segments to another port do not reach the listener. -/
theorem other_port_harmless :
    webServer.conns[0]? = some webListener ∧
    ListenerSurvives webServer (webServer.after [strayTo 81 ACK, strayTo 81 RST]) 0 webListener :=
  ⟨rfl, (listenerSurvives_iff webServer _ (by decide +kernel) rfl rfl).mpr (by decide +kernel)⟩

/-- One ACK to its port binds the listener to the host that sent it. -/
theorem stray_ack_binds_listener :
    webServer.conns[0]? = some webListener ∧ webListener.state = .listen ∧
    (strayTo 80 ACK).call.isStray = true ∧
    ¬ListenerSurvives webServer (webServer.after [strayTo 80 ACK]) 0 webListener := by
  refine ⟨rfl, rfl, by decide +kernel, fun h => ?_⟩
  have hbound : (webServer.after [strayTo 80 ACK]).conns[0]?.map TcpConn.peer =
      some (⟨10, 0, 2, 2⟩, 4000) := by decide +kernel
  rw [h.unchanged] at hbound
  exact absurd hbound (by decide)

end OnPort80

end RustKernel.Net.Tcp
