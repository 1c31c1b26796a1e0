import RustKernel.Net.Tcp.Connection

/-!
# RustKernel.Net.Tcp.Stack

The TCP module as one transition system: the network configuration, the connection
table, and every entry point as an event with its clock reading.

An event acts on one slot of the table, on all of them (`poll`), or on none.
`Call.touches` says which, `Call.act` what happens there, and `step_conns` and
`step_output` that this is all a step does.
-/

namespace RustKernel.Net.Tcp

/-! ### Events -/

inductive Call where
  | listen (port : UInt16)
  | connect (localPort : UInt16) (remoteIp : Ipv4Addr) (remotePort : UInt16)
  | send (idx : Nat) (data : List UInt8)
  | recv (idx bufLen : Nat)
  | close (idx : Nat)
  | receive (src : Ipv4Addr) (data : List UInt8)
  | poll
  | setConfig (cfg : NetConfig)

/-- A call with the clock reading at which it happens. -/
structure Event where
  now : UInt64
  call : Call

structure Stack where
  cfg : Option NetConfig
  conns : ConnTable

/-- The module at boot. -/
def Stack.boot : Stack := ⟨none, ConnTable.init⟩

/-- What an observer of a slot sees: a datagram on the wire, or bytes returned by `recv`. -/
inductive Seen where
  | sent (d : Datagram)
  | returned (bytes : List UInt8)

/-- Observations, tagged with the slot they are made on. -/
abbrev Output := List (Nat × Seen)

def transmitted (sent : Sent) : Output := sent.map fun p => (p.1, .sent p.2)

def Stack.step (s : Stack) (e : Event) : Stack × Output :=
  let env : Env := ⟨s.cfg, e.now⟩
  match e.call with
  | .listen port => ({ s with conns := (listen env port s.conns).2 }, [])
  | .connect localPort remoteIp remotePort =>
    let (_, conns, sent) := connect env localPort remoteIp remotePort s.conns
    ({ s with conns }, transmitted sent)
  | .send idx data =>
    let (_, conns, sent) := send env idx data s.conns
    ({ s with conns }, transmitted sent)
  | .recv idx bufLen =>
    let (result, conns) := recv idx bufLen s.conns
    ({ s with conns }, match result with
      | .ok bytes => [(idx, .returned bytes)]
      | .error _ => [])
  | .close idx =>
    let (_, conns, sent) := close env idx s.conns
    ({ s with conns }, transmitted sent)
  | .receive src data =>
    let (conns, sent) := receive env src data s.conns
    ({ s with conns }, transmitted sent)
  | .poll =>
    let (conns, sent) := poll env s.conns
    ({ s with conns }, transmitted sent)
  | .setConfig cfg => ({ s with cfg := some cfg }, [])

/-- The state after a run. -/
def Stack.after (s : Stack) : List Event → Stack
  | [] => s
  | e :: es => (s.step e).1.after es

/-- Everything observed along a run. -/
def Stack.outputs (s : Stack) : List Event → Output
  | [] => []
  | e :: es => (s.step e).2 ++ (s.step e).1.outputs es

/-- The observations made on one slot. -/
def Output.onSlot (out : Output) (i : Nat) : List Seen :=
  out.filterMap fun p => if p.1 = i then some p.2 else none

/-! ### Slot by slot -/

/-- The single slot a call acts on. -/
def Call.target (conns : ConnTable) : Call → Option Nat
  | .listen .. | .connect .. => conns.freeSlot
  | .send idx _ | .recv idx _ | .close idx => some idx
  | .receive src data =>
    (TcpHeader.parse data).bind fun hdr => conns.findIdx? (TcpConn.accepts src hdr)
  | .poll | .setConfig _ => none

def Call.isPoll : Call → Bool
  | .poll => true
  | _ => false

/-- Whether a call acts on slot `i`. -/
def Call.touches (conns : ConnTable) (i : Nat) (call : Call) : Bool :=
  call.isPoll || call.target conns == some i

/-- The datagrams of a step, as observations. -/
def Tx.seen (tx : Tx) : TcpConn × List Seen := (tx.1, tx.2.map .sent)

/-- What a call does on a slot it acts on. -/
def Call.act (env : Env) (conn : TcpConn) : Call → TcpConn × List Seen
  | .listen port => (conn.openListen env port, [])
  | .connect localPort remoteIp remotePort =>
    Tx.seen (conn.openConnect env localPort remoteIp remotePort)
  | .send _ data => Tx.seen (conn.send env data).2
  | .recv _ bufLen => ((conn.recv bufLen).1, [.returned (conn.recv bufLen).2])
  | .close _ => Tx.seen (conn.close env).2
  | .receive src data =>
    match TcpHeader.parse data with
    | none => (conn, [])
    | some hdr => Tx.seen (conn.deliver env src hdr)
  | .poll => Tx.seen (conn.poll env)
  | .setConfig _ => (conn, [])

/-- Replace one slot of the table, if the target exists. -/
def ConnTable.update (conns : ConnTable) (target : Option Nat)
    (act : TcpConn → TcpConn × List Seen) : ConnTable × Output :=
  match target with
  | none => (conns, [])
  | some k =>
    match conns[k]? with
    | none => (conns, [])
    | some conn => (conns.set k (act conn).1, (act conn).2.map fun x => (k, x))

private theorem transmitted_store (conns : ConnTable) (k : Nat) (tx : Tx) :
    transmitted (conns.store k tx).2 = (Tx.seen tx).2.map fun x => (k, x) := by
  rw [transmitted, ConnTable.store, Tx.seen, List.map_map, List.map_map]
  rfl

private theorem store_fst (conns : ConnTable) (k : Nat) (tx : Tx) :
    (conns.store k tx).1 = conns.set k tx.1 := rfl

private theorem modify_of_none {conns : ConnTable} {k : Nat} {f : TcpConn → TcpConn}
    (h : conns[k]? = none) : conns.modify k f = conns :=
  List.modify_eq_self (List.getElem?_eq_none_iff.mp h)

private theorem modify_of_some {conns : ConnTable} {k : Nat} {f : TcpConn → TcpConn}
    {conn : TcpConn}
    (h : conns[k]? = some conn) : conns.modify k f = conns.set k (f conn) := by
  apply List.ext_getElem?
  intro i
  obtain ⟨hlt, -⟩ := List.getElem?_eq_some_iff.mp h
  rw [List.getElem?_modify, List.getElem?_set]
  by_cases hik : k = i
  · subst hik
    simp only [h, hlt, if_true]
    rfl
  · simp [hik]

/-- Every call but `poll` is an update of its target. -/
theorem step_eq_update (s : Stack) (e : Event) (hpoll : e.call.isPoll = false) :
    ((s.step e).1.conns, (s.step e).2) =
      s.conns.update (e.call.target s.conns) (e.call.act ⟨s.cfg, e.now⟩) := by
  obtain ⟨now, call⟩ := e
  cases call with
  | poll => contradiction
  | setConfig cfg => rfl
  -- each call looks for its slot first, so the cases are: no slot, an empty one, a connection
  | listen port =>
    simp only [Stack.step, listen, Call.target, Call.act, ConnTable.update]
    rcases Option.eq_none_or_eq_some s.conns.freeSlot with hfree | ⟨k, hfree⟩
    · simp only [hfree]
    · rcases Option.eq_none_or_eq_some s.conns[k]? with hconn | ⟨conn, hconn⟩
      · simp only [hfree, hconn, modify_of_none hconn]
      · simp only [hfree, hconn, modify_of_some hconn, List.map_nil]
  | connect localPort remoteIp remotePort =>
    simp only [Stack.step, connect, Call.target, Call.act, ConnTable.update]
    rcases Option.eq_none_or_eq_some s.conns.freeSlot with hfree | ⟨k, hfree⟩
    · simp only [hfree, transmitted, List.map_nil]
    · rcases Option.eq_none_or_eq_some s.conns[k]? with hconn | ⟨conn, hconn⟩
      · simp only [hfree, hconn, transmitted, List.map_nil]
      · simp only [hfree, hconn, transmitted_store, store_fst, Tx.seen]
  | send idx data =>
    simp only [Stack.step, send, Call.target, Call.act, ConnTable.update]
    rcases Option.eq_none_or_eq_some s.conns[idx]? with hconn | ⟨conn, hconn⟩
    · simp only [hconn, transmitted, List.map_nil]
    · simp only [hconn, transmitted_store, store_fst, Tx.seen]
  | recv idx bufLen =>
    simp only [Stack.step, recv, Call.target, Call.act, ConnTable.update]
    rcases Option.eq_none_or_eq_some s.conns[idx]? with hconn | ⟨conn, hconn⟩
    · simp only [hconn]
    · simp only [hconn, List.map_cons, List.map_nil]
  | close idx =>
    simp only [Stack.step, close, Call.target, Call.act, ConnTable.update]
    rcases Option.eq_none_or_eq_some s.conns[idx]? with hconn | ⟨conn, hconn⟩
    · simp only [hconn, transmitted, List.map_nil]
    · simp only [hconn, transmitted_store, store_fst, Tx.seen]
  | receive src data =>
    simp only [Stack.step, receive, Call.target, Call.act, ConnTable.update]
    rcases Option.eq_none_or_eq_some (TcpHeader.parse data) with hparse | ⟨hdr, hparse⟩
    · simp only [hparse, transmitted, List.map_nil, Option.bind_none]
    · simp only [hparse, Option.bind_some]
      rcases Option.eq_none_or_eq_some (s.conns.findIdx? (TcpConn.accepts src hdr)) with
        hfirst | ⟨k, hfirst⟩
      · simp only [hfirst, transmitted, List.map_nil]
      · rcases Option.eq_none_or_eq_some s.conns[k]? with hconn | ⟨conn, hconn⟩
        · simp only [hfirst, hconn, transmitted, List.map_nil]
        · simp only [hfirst, hconn, transmitted_store, store_fst, Tx.seen]

theorem onSlot_append (out₁ out₂ : Output) (i : Nat) :
    Output.onSlot (out₁ ++ out₂) i = out₁.onSlot i ++ out₂.onSlot i :=
  List.filterMap_append

private theorem onSlot_tagged (i k : Nat) (seen : List Seen) :
    Output.onSlot (seen.map fun x => (k, x)) i = if k = i then seen else [] := by
  rw [Output.onSlot, List.filterMap_map]
  split
  · next h => simp [h]
  · next h => simp [h]

private theorem update_conns (conns : ConnTable) (target : Option Nat)
    (act : TcpConn → TcpConn × List Seen) (i : Nat) :
    (conns.update target act).1[i]? =
      conns[i]?.map fun conn => if target == some i then (act conn).1 else conn := by
  unfold ConnTable.update
  split
  · simp
  · next k =>
    by_cases hik : k = i
    · subst hik
      split <;> rename_i hk
      · simp [hk]
      · obtain ⟨hlt, -⟩ := List.getElem?_eq_some_iff.mp hk
        simp [hk, List.getElem?_set_self hlt]
    · split <;> simp [hik]

private theorem update_output (conns : ConnTable) (target : Option Nat)
    (act : TcpConn → TcpConn × List Seen) (i : Nat) :
    (conns.update target act).2.onSlot i =
      (conns[i]?.map fun conn => if target == some i then (act conn).2 else []).getD [] := by
  unfold ConnTable.update
  split
  · cases conns[i]? <;> simp [Output.onSlot]
  · next k =>
    by_cases hik : k = i
    · subst hik
      split <;> rename_i hk
      · simp [hk, Output.onSlot]
      · simp [hk, onSlot_tagged]
    · split
      · cases conns[i]? <;> simp [Output.onSlot, hik]
      · cases conns[i]? <;> simp [onSlot_tagged, hik]

/-- The observations of `poll` on the slots of a table that starts at index `k`. -/
private theorem onSlot_mapIdx (act : TcpConn → List Seen) (conns : ConnTable) (i k : Nat) :
    Output.onSlot (conns.mapIdx fun j conn => (act conn).map fun x => (j + k, x)).flatten i =
      if k ≤ i then (conns[i - k]?.map act).getD [] else [] := by
  induction conns generalizing k with
  | nil => simp [Output.onSlot]
  | cons conn conns ih =>
    have hshift : ∀ j : Nat, j + 1 + k = j + (k + 1) := by omega
    simp only [List.mapIdx_cons, List.flatten_cons, onSlot_append, onSlot_tagged, hshift, ih,
      Nat.zero_add]
    rcases Nat.lt_trichotomy i k with h | rfl | h
    · rw [if_neg (by omega), if_neg (by omega), if_neg (by omega)]
      rfl
    · simp
    · obtain ⟨d, rfl⟩ : ∃ d, i = k + 1 + d := ⟨i - (k + 1), by omega⟩
      rw [if_neg (by omega), if_pos (by omega), if_pos (by omega),
        show k + 1 + d - (k + 1) = d by omega, show k + 1 + d - k = d + 1 by omega]
      simp

theorem transmitted_poll (env : Env) (conns : ConnTable) : transmitted (poll env conns).2 =
    (conns.mapIdx fun j conn => (Tx.seen (conn.poll env)).2.map fun x => (j + 0, x)).flatten := by
  rw [transmitted, poll, List.map_flatten, List.mapIdx_eq_zipIdx_map, List.mapIdx_eq_zipIdx_map,
    List.map_map]
  congr 2
  funext p
  simp only [Function.comp_apply, Tx.seen, List.map_map]
  rfl

/-- A step changes the touched slots by `act`, and no other slot. -/
theorem step_conns (s : Stack) (e : Event) (i : Nat) :
    (s.step e).1.conns[i]? = s.conns[i]?.map fun conn =>
      if e.call.touches s.conns i then (e.call.act ⟨s.cfg, e.now⟩ conn).1 else conn := by
  cases hpoll : e.call.isPoll with
  | false =>
    have hupdate := congrArg (fun p => p.1[i]?) (step_eq_update s e hpoll)
    rw [update_conns] at hupdate
    simpa only [Call.touches, hpoll, Bool.false_or] using hupdate
  | true =>
    obtain ⟨now, call⟩ := e
    cases call <;> try contradiction
    simp [Stack.step, poll, Call.touches, Call.isPoll, Call.act, Tx.seen]

/-- A step is observed on the touched slots as `act` says, and on no other slot. -/
theorem step_output (s : Stack) (e : Event) (i : Nat) :
    (s.step e).2.onSlot i = (s.conns[i]?.map fun conn =>
      if e.call.touches s.conns i then (e.call.act ⟨s.cfg, e.now⟩ conn).2 else []).getD [] := by
  cases hpoll : e.call.isPoll with
  | false =>
    have hupdate := congrArg (fun p => p.2.onSlot i) (step_eq_update s e hpoll)
    rw [update_output] at hupdate
    simpa only [Call.touches, hpoll, Bool.false_or] using hupdate
  | true =>
    obtain ⟨now, call⟩ := e
    cases call <;> try contradiction
    simp only [Stack.step, transmitted_poll]
    rw [onSlot_mapIdx (fun conn => (Tx.seen (conn.poll _)).2)]
    simp [Call.touches, Call.isPoll, Call.act]

/-- Only `setConfig` changes the configuration. -/
theorem step_cfg (s : Stack) (e : Event) : (s.step e).1.cfg =
    match e.call with
    | .setConfig cfg => some cfg
    | _ => s.cfg := by
  obtain ⟨now, call⟩ := e
  cases call <;> rfl

end RustKernel.Net.Tcp
