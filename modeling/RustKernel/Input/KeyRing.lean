import RustKernel.Input.Keyboard
import RustKernel.Lib.Run

/-!
# RustKernel.Input.KeyRing

The lock-free ring under interruption: `pop` and `clear` advance by one atomic step at a time, and
whole `push` calls happen between any two of these steps.

## Main result

`keyring_fifo`: after every run, the events popped so far followed by those between
`tail` and `head` are the accepted pushes without those that `clear` discarded; `clear` discards
only pushes accepted before it loaded the head; a push is refused only at 63 pending events.
`driver_fifo` says so for the pushes of `handle_irq`, whatever the controller sends.

## Proof strategy

The indices count modulo 64 what was taken and what was accepted, and less than 64 events lie
between the two counts. `Trace.Inv` says so for every place at which the consumer can be
interrupted; only the consumer moves the tail, so what it has loaded stays true under pushes.
-/

namespace RustKernel.Keyboard

open Lib

/-! ### Runs -/

inductive Event where
  /-- The interrupt pushes an event. -/
  | push (ev : {ev // Produced ev})
  /-- The consumer, if idle, calls `pop`: its first step loads the tail. -/
  | pop
  /-- The consumer, if idle, calls `clear`: its first step loads the head. -/
  | clear
  /-- The consumer takes the next step of its call. -/
  | advance

/-- The ring and its consumer, with what happened so far. -/
structure Trace where
  ring : LockFreeRing
  consumer : Consumer
  /-- The events that `push` stored. -/
  accepted : List KeyEvent
  /-- For each event that left the ring, whether it was popped; otherwise it was discarded. -/
  fates : List Bool
  /-- What `pop` returned, when it found the ring nonempty. -/
  popped : List (Option KeyEvent)
  /-- The number of accepted pushes when the last `clear` loaded the head. -/
  loadedAt : Nat
  /-- For each `clear`, `loadedAt` and the number of events that had left the ring after it. -/
  clears : List (Nat × Nat)
  /-- The number of events between tail and head at each refused push. -/
  refused : List Nat

def Trace.start : Trace := ⟨.empty, .idle, [], [], [], 0, [], []⟩

def Trace.push (t : Trace) (ev : KeyEvent) : Trace :=
  match t.ring.push ev with
  | (true, ring) => { t with ring := ring, accepted := t.accepted ++ [ev] }
  | (false, ring) => { t with ring := ring, refused := t.refused ++ [t.ring.pending.length] }

/-- The next atomic step of the consumer's call. -/
def Trace.advance (t : Trace) : Trace :=
  match t.consumer with
  | .idle => t
  | .popHead tl =>
    if tl = t.ring.head then { t with consumer := .idle } else { t with consumer := .popSlot tl }
  | .popSlot tl => { t with consumer := .popStore tl (t.ring.buf tl) }
  | .popStore tl val =>
    { t with
      consumer := .idle
      ring := { t.ring with tail := (tl + 1) % BUF_SIZE }
      popped := t.popped ++ [decode val]
      fates := t.fates ++ [true] }
  | .clearStore h =>
    { t with
      consumer := .idle
      ring := { t.ring with tail := h }
      fates := t.fates ++ List.replicate (t.ring.upTo h) false
      clears := t.clears ++ [(t.loadedAt, t.fates.length + t.ring.upTo h)] }

def Trace.step (t : Trace) : Event → Trace
  | .push ev => t.push ev
  | .pop =>
    match t.consumer with
    | .idle => { t with consumer := .popHead t.ring.tail }
    | _ => t
  | .clear =>
    match t.consumer with
    | .idle => { t with consumer := .clearStore t.ring.head, loadedAt := t.accepted.length }
    | _ => t
  | .advance => t.advance

/-- A list without the entries whose fate is `false`; the entries behind the fates stay. -/
def minusDiscarded {α : Type} : List α → List Bool → List α
  | x :: xs, true :: fates => x :: minusDiscarded xs fates
  | _ :: xs, false :: fates => minusDiscarded xs fates
  | xs, [] => xs
  | [], _ => []

section

variable {α : Type} {xs ys : List α} {fates fates' : List Bool}

@[simp] theorem minusDiscarded_nil : minusDiscarded xs [] = xs := by
  cases xs <;> rfl

private theorem minusDiscarded_append (h : fates.length = xs.length) :
    minusDiscarded (xs ++ ys) (fates ++ fates') =
      minusDiscarded xs fates ++ minusDiscarded ys fates' := by
  induction xs generalizing fates with
  | nil =>
    obtain rfl := List.length_eq_zero_iff.mp h
    rfl
  | cons x xs ih =>
    cases fates with
    | nil => cases h
    | cons f fates =>
      have hrest := ih (Nat.succ.inj h)
      cases f with
      | true => exact congrArg (x :: ·) hrest
      | false => exact hrest

private theorem minusDiscarded_replicate (xs : List α) :
    minusDiscarded xs (List.replicate xs.length false) = [] := by
  induction xs with
  | nil => rfl
  | cons x xs ih => exact ih

/-- The entries that have no fate yet come last. -/
private theorem minusDiscarded_split (h : fates.length ≤ xs.length) :
    minusDiscarded xs fates =
      minusDiscarded (xs.take fates.length) fates ++ xs.drop fates.length := by
  have happ : minusDiscarded (xs.take fates.length ++ xs.drop fates.length) (fates ++ []) = _ :=
    minusDiscarded_append (by simpa using h)
  rwa [List.take_append_drop, List.append_nil, minusDiscarded_nil] at happ

end

/-! ### The invariant -/

/-- What the consumer has loaded, relative to the events taken out of the ring. -/
def Trace.Loaded (t : Trace) : Consumer → Prop
  | .idle => True
  | .popHead tl => tl = t.ring.tail
  | .popSlot tl => tl = t.ring.tail ∧ t.fates.length < t.accepted.length
  | .popStore tl val =>
    tl = t.ring.tail ∧ (t.accepted.drop t.fates.length).head?.map encode = some val
  | .clearStore h =>
    h = t.loadedAt % BUF_SIZE ∧ t.fates.length ≤ t.loadedAt ∧ t.loadedAt ≤ t.accepted.length

structure Trace.Inv (t : Trace) : Prop where
  taken_le : t.fates.length ≤ t.accepted.length
  room : t.accepted.length < t.fates.length + BUF_SIZE
  tail_eq : t.ring.tail = t.fates.length % BUF_SIZE
  head_eq : t.ring.head = t.accepted.length % BUF_SIZE
  stored : ringRead t.ring.buf BUF_SIZE t.fates.length (t.accepted.length - t.fates.length) =
    (t.accepted.drop t.fates.length).map encode
  produced : ∀ ev ∈ t.accepted, Produced ev
  popped_eq : t.popped = (minusDiscarded (t.accepted.take t.fates.length) t.fates).map some
  clears_le : ∀ c ∈ t.clears, c.2 ≤ c.1
  refused_eq : ∀ n ∈ t.refused, n = 63
  loaded : t.Loaded t.consumer

variable {t : Trace}

/-- The slots up to an index, from the counts modulo 64 that tail and index are. -/
private theorem Trace.Inv.upTo_eq (h : t.Inv) {n : Nat} (hle : t.fates.length ≤ n)
    (hlt : n < t.fates.length + BUF_SIZE) : t.ring.upTo (n % BUF_SIZE) = n - t.fates.length := by
  rw [LockFreeRing.upTo, h.tail_eq]
  have hdist := mod_distance (n := BUF_SIZE) t.fates.length (i := n - t.fates.length) (by omega)
  rwa [show t.fates.length + (n - t.fates.length) = n by omega] at hdist

private theorem Trace.Inv.pending_eq (h : t.Inv) :
    t.ring.pending = (t.accepted.drop t.fates.length).map some := by
  rw [LockFreeRing.pending, h.head_eq, h.upTo_eq h.taken_le h.room, h.tail_eq, ringRead_mod,
    h.stored, List.map_map]
  apply List.map_congr_left
  intro ev hev
  exact decode_encode (h.produced ev (List.mem_of_mem_drop hev))

/-- The first slot of a nonempty ring holds the oldest event. -/
theorem Trace.Inv.slot_eq (h : t.Inv) (hlt : t.fates.length < t.accepted.length) :
    (t.accepted.drop t.fates.length).head?.map encode = some (t.ring.buf t.ring.tail) := by
  have hstored := h.stored
  rw [show t.accepted.length - t.fates.length =
    (t.accepted.length - t.fates.length - 1) + 1 by omega, ringRead_succ] at hstored
  rw [h.tail_eq, ← List.head?_map, ← hstored]
  rfl

theorem Trace.Inv.start : Trace.start.Inv where
  taken_le := le_rfl
  room := by decide
  tail_eq := rfl
  head_eq := rfl
  stored := rfl
  produced := List.forall_mem_nil _
  popped_eq := rfl
  clears_le := List.forall_mem_nil _
  refused_eq := List.forall_mem_nil _
  loaded := trivial

/-! ### The steps -/

private theorem LockFreeRing.push_refused {r : LockFreeRing} (ev : KeyEvent)
    (h : (r.head + 1) % BUF_SIZE = r.tail) : r.push ev = (false, r) := if_pos h

private theorem LockFreeRing.push_stored {r : LockFreeRing} (ev : KeyEvent)
    (h : (r.head + 1) % BUF_SIZE ≠ r.tail) :
    r.push ev = (true, { r with
      buf := fun c => if c = r.head then encode ev else r.buf c
      head := (r.head + 1) % BUF_SIZE }) := if_neg h

theorem Trace.Inv.push (h : t.Inv) {ev : KeyEvent} (hev : Produced ev) : (t.push ev).Inv := by
  obtain ⟨hle, hroom⟩ := And.intro h.taken_le h.room
  by_cases hfull : (t.ring.head + 1) % BUF_SIZE = t.ring.tail
  · -- the counts are 63 apart, since they are less than 64 apart
    have hcount : t.accepted.length - t.fates.length = 63 := by
      rw [h.head_eq, h.tail_eq, BUF_SIZE] at hfull
      rw [BUF_SIZE] at hroom
      omega
    have hpending : t.ring.pending.length = 63 := by
      rw [h.pending_eq, List.length_map, List.length_drop, hcount]
    rw [Trace.push, LockFreeRing.push_refused ev hfull]
    exact { h with
      refused_eq := by
        intro n hn
        rcases List.mem_append.mp hn with hn | hn
        · exact h.refused_eq n hn
        · rw [List.mem_singleton.mp hn, hpending] }
  · rw [Trace.push, LockFreeRing.push_stored ev hfull]
    have hlt : t.accepted.length + 1 < t.fates.length + BUF_SIZE := by
      rw [h.head_eq, h.tail_eq, BUF_SIZE] at hfull
      rw [BUF_SIZE] at hroom ⊢
      omega
    have hdrop : (t.accepted ++ [ev]).drop t.fates.length =
        t.accepted.drop t.fates.length ++ [ev] := List.drop_append_of_le_length hle
    refine
      { taken_le := ?_, room := ?_, tail_eq := h.tail_eq, head_eq := ?_, stored := ?_
        produced := ?_, popped_eq := ?_, clears_le := h.clears_le, refused_eq := h.refused_eq
        loaded := ?_ }
    · simp only [List.length_append, List.length_singleton]
      omega
    · simpa only [List.length_append, List.length_singleton] using hlt
    · show (t.ring.head + 1) % BUF_SIZE = _
      rw [h.head_eq, Nat.mod_add_mod, List.length_append, List.length_singleton]
    · -- the slot lies behind the stored ones
      show ringRead (fun c => if c = t.ring.head then encode ev else t.ring.buf c) _ _ _ = _
      have hwrite := @ringRead_append_write _ t.ring.buf BUF_SIZE t.fates.length
        (t.accepted.length - t.fates.length) [encode ev] (by rw [List.length_singleton]; omega)
      rw [show t.fates.length + (t.accepted.length - t.fates.length) = t.accepted.length by omega,
        h.stored, List.length_singleton] at hwrite
      rw [hdrop, List.map_append, List.map_singleton, ← hwrite, List.length_append,
        List.length_singleton,
        show t.accepted.length + 1 - t.fates.length = t.accepted.length - t.fates.length + 1 by
          omega]
      apply ringRead_congr (by decide)
      intro c hc
      rw [ringWrite_singleton _ hc, h.head_eq]
    · intro e he
      rcases List.mem_append.mp he with he | he
      · exact h.produced e he
      · rwa [List.mem_singleton.mp he]
    · show t.popped = _
      rw [List.take_append_of_le_length hle]
      exact h.popped_eq
    · -- a push leaves the tail and the events in the ring as they are
      have hloaded := h.loaded
      show Trace.Loaded _ t.consumer
      cases hc : t.consumer with
      | idle => trivial
      | popHead tl =>
        rw [hc] at hloaded
        exact hloaded
      | popSlot tl =>
        rw [hc] at hloaded
        constructor
        · exact hloaded.1
        · rw [List.length_append]
          exact Nat.lt_add_right _ hloaded.2
      | popStore tl val =>
        rw [hc] at hloaded
        constructor
        · exact hloaded.1
        · rw [hdrop, List.head?_append, Option.map_or, hloaded.2]
          rfl
      | clearStore hd =>
        rw [hc] at hloaded
        obtain ⟨heq, hfrom, hto⟩ := hloaded
        refine ⟨heq, hfrom, ?_⟩
        rw [List.length_append]
        exact Nat.le_add_right_of_le hto

/-- `pop` takes the oldest event. -/
theorem Trace.Inv.popStore (h : t.Inv) {tl : Nat} {val : UInt32}
    (hc : t.consumer = .popStore tl val) : t.advance.Inv := by
  have hloaded := h.loaded
  rw [hc] at hloaded
  obtain ⟨htail, hval⟩ := hloaded
  cases hrest : t.accepted.drop t.fates.length with
  | nil => simp [hrest] at hval
  | cons ev rest =>
    rw [hrest] at hval
    obtain rfl : encode ev = val := Option.some.inj hval
    have hlt : t.fates.length < t.accepted.length := by
      have := congrArg List.length hrest
      rw [List.length_drop, List.length_cons] at this
      omega
    have hget : t.accepted[t.fates.length]? = some ev := by
      rw [← List.head?_drop, hrest, List.head?_cons]
    have hdrop : t.accepted.drop (t.fates.length + 1) = rest := by
      rw [← List.tail_drop, hrest, List.tail_cons]
    have htake : t.accepted.take (t.fates.length + 1) = t.accepted.take t.fates.length ++ [ev] := by
      rw [List.take_add_one, hget]
      rfl
    have hdecode : decode (encode ev) = some ev :=
      decode_encode (h.produced ev (List.mem_of_getElem? hget))
    rw [Trace.advance, hc]
    refine
      { taken_le := ?_, room := ?_, tail_eq := ?_, head_eq := h.head_eq, stored := ?_
        produced := h.produced, popped_eq := ?_, clears_le := h.clears_le
        refused_eq := h.refused_eq, loaded := trivial }
    · simp only [List.length_append, List.length_singleton]
      omega
    · have hroom := h.room
      simp only [List.length_append, List.length_singleton]
      omega
    · show (tl + 1) % BUF_SIZE = _
      rw [htail, h.tail_eq, Nat.mod_add_mod, List.length_append, List.length_singleton]
    · -- the rest of what was stored
      have hstored := h.stored
      rw [show t.accepted.length - t.fates.length =
          (t.accepted.length - (t.fates.length + 1)) + 1 by omega,
        ringRead_succ, hrest] at hstored
      simp only [List.length_append, List.length_singleton]
      rw [hdrop]
      exact (List.cons.inj hstored).2
    · show t.popped ++ [decode (encode ev)] = _
      simp only [List.length_append, List.length_singleton]
      rw [htake, minusDiscarded_append (by simpa using h.taken_le), List.map_append,
        ← h.popped_eq, hdecode]
      rfl

/-- `clear` takes everything up to the head it loaded. -/
theorem Trace.Inv.clearStore (h : t.Inv) {hd : Nat} (hc : t.consumer = .clearStore hd) :
    t.advance.Inv := by
  have hloaded := h.loaded
  rw [hc] at hloaded
  obtain ⟨rfl, hfrom, hto⟩ := hloaded
  have hroom := h.room
  have hupTo : t.ring.upTo (t.loadedAt % BUF_SIZE) = t.loadedAt - t.fates.length :=
    h.upTo_eq hfrom (by omega)
  have hlen : (t.fates ++ List.replicate (t.loadedAt - t.fates.length) false).length =
      t.loadedAt := by
    rw [List.length_append, List.length_replicate]
    omega
  rw [Trace.advance, hc]
  simp only [hupTo]
  refine
    { taken_le := ?_, room := ?_, tail_eq := ?_, head_eq := h.head_eq, stored := ?_
      produced := h.produced, popped_eq := ?_, clears_le := ?_
      refused_eq := h.refused_eq, loaded := trivial }
  · simpa only [hlen] using hto
  · simp only [hlen]
    omega
  · simp only [hlen]
  · -- what was stored behind the loaded head
    have hstored := congrArg (List.drop (t.loadedAt - t.fates.length)) h.stored
    rw [show t.accepted.length - t.fates.length =
        (t.loadedAt - t.fates.length) + (t.accepted.length - t.loadedAt) by omega,
      ringRead_add, List.drop_left' length_ringRead, ← List.map_drop, List.drop_drop,
      show t.fates.length + (t.loadedAt - t.fates.length) = t.loadedAt by omega] at hstored
    simpa only [hlen] using hstored
  · -- everything taken now is discarded
    show t.popped = _
    have htaken : t.accepted.take t.loadedAt = t.accepted.take t.fates.length ++
        (t.accepted.drop t.fates.length).take (t.loadedAt - t.fates.length) := by
      rw [← List.take_add]
      congr 1
      omega
    have hcount : ((t.accepted.drop t.fates.length).take
        (t.loadedAt - t.fates.length)).length = t.loadedAt - t.fates.length := by
      rw [List.length_take, List.length_drop]
      omega
    have hnone := minusDiscarded_replicate
      ((t.accepted.drop t.fates.length).take (t.loadedAt - t.fates.length))
    rw [hcount] at hnone
    simp only [hlen]
    rw [htaken, minusDiscarded_append (by simpa using h.taken_le), hnone, List.append_nil]
    exact h.popped_eq
  · intro c hmem
    rcases List.mem_append.mp hmem with hmem | hmem
    · exact h.clears_le c hmem
    · rw [List.mem_singleton.mp hmem]
      show t.fates.length + (t.loadedAt - t.fates.length) ≤ t.loadedAt
      omega

theorem Trace.Inv.advance (h : t.Inv) : t.advance.Inv := by
  have hloaded := h.loaded
  cases hc : t.consumer with
  | idle =>
    rw [Trace.advance, hc]
    exact h
  | popHead tl =>
    rw [hc] at hloaded
    obtain rfl : tl = t.ring.tail := hloaded
    rw [Trace.advance, hc]
    show Trace.Inv (if t.ring.tail = t.ring.head then _ else _)
    by_cases hempty : t.ring.tail = t.ring.head
    · rw [if_pos hempty]
      exact { h with loaded := trivial }
    · rw [if_neg hempty]
      -- equal counts would give equal indices
      have hlt : t.fates.length < t.accepted.length := by
        apply lt_of_le_of_ne h.taken_le
        intro heq
        exact hempty (by rw [h.tail_eq, h.head_eq, heq])
      exact { h with loaded := ⟨rfl, hlt⟩ }
  | popSlot tl =>
    rw [hc] at hloaded
    obtain ⟨rfl, hlt⟩ := hloaded
    rw [Trace.advance, hc]
    exact { h with loaded := ⟨rfl, h.slot_eq hlt⟩ }
  | popStore tl val => exact h.popStore hc
  | clearStore hd => exact h.clearStore hc

theorem Trace.Inv.step (h : t.Inv) (e : Event) : (t.step e).Inv := by
  cases e with
  | push ev => exact h.push ev.2
  | pop =>
    cases hc : t.consumer with
    | idle =>
      simp only [Trace.step, hc]
      exact { h with loaded := rfl }
    | _ =>
      simp only [Trace.step, hc]
      exact h
  | clear =>
    cases hc : t.consumer with
    | idle =>
      simp only [Trace.step, hc]
      exact { h with loaded := ⟨h.head_eq, h.taken_le, le_rfl⟩ }
    | _ =>
      simp only [Trace.step, hc]
      exact h
  | advance => exact h.advance

/-! ### First in, first out -/

structure Trace.Fifo (t : Trace) : Prop where
  in_order : t.popped ++ t.ring.pending = (minusDiscarded t.accepted t.fates).map some
  /-- No event accepted after the head was loaded had left the ring when `clear` was done. -/
  clears_le : ∀ c ∈ t.clears, c.2 ≤ c.1
  refused_full : ∀ n ∈ t.refused, n = 63

private theorem Trace.Inv.fifo (h : t.Inv) : t.Fifo := by
  refine ⟨?_, h.clears_le, h.refused_eq⟩
  rw [h.popped_eq, h.pending_eq, ← List.map_append, ← minusDiscarded_split h.taken_le]

theorem keyring_fifo (es : List Event) : (es.foldl Trace.step .start).Fifo := by
  have hinv : (es.foldl Trace.step .start).Inv :=
    invariant_after Trace.step Trace.Inv (fun _ e h => h.step e) .start es .start
  exact hinv.fifo

/-! ### The interrupt handler -/

inductive DriverEvent where
  /-- A keyboard interrupt, with what the controller's status and data ports give. -/
  | irq (status sc : UInt8)
  /-- The consumer calls `pop`, calls `clear`, or takes the next step of its call. -/
  | pop
  | clear
  | advance

/-- The ring and the modifier keys. -/
structure Driver where
  trace : Trace
  keys : Keys

def Driver.start : Driver := ⟨.start, ⟨false, false, false⟩⟩

def Driver.step (m : Driver) : DriverEvent → Driver
  | .irq status sc =>
    match handleIrq status sc m.keys with
    | (some ev, keys) => ⟨m.trace.push ev, keys⟩
    | (none, keys) => { m with keys }
  | .pop => { m with trace := m.trace.step .pop }
  | .clear => { m with trace := m.trace.step .clear }
  | .advance => { m with trace := m.trace.step .advance }

/-- The handler pushes only what decodes to itself, so the invariant of the ring holds under it. -/
private theorem Driver.inv_step {m : Driver} (h : m.trace.Inv) (e : DriverEvent) :
    (m.step e).trace.Inv := by
  cases e with
  | irq status sc =>
    rw [Driver.step]
    split
    · next ev keys hev => exact h.push (produced_of_handleIrq (congrArg Prod.fst hev))
    · exact h
  | pop => exact h.step .pop
  | clear => exact h.step .clear
  | advance => exact h.step .advance

/-- Whatever the controller sends and however the consumer is interrupted, the events that
    `handle_irq` pushes come out first in, first out. -/
theorem driver_fifo (es : List DriverEvent) : (es.foldl Driver.step .start).trace.Fifo := by
  have hinv : (es.foldl Driver.step .start).trace.Inv :=
    invariant_after Driver.step (fun m => m.trace.Inv) (fun _ e h => Driver.inv_step h e) .start es
      .start
  exact hinv.fifo

end RustKernel.Keyboard
