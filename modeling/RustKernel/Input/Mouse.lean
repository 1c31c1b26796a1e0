import RustKernel.Lib.Ring

/-!
# RustKernel.Input.Mouse

The mouse: bytes arrive one by one with the interrupt, every three or four of them are a packet, and
the events of a packet wait in a ring until they are popped.

## Main result

`mouse_refines`: under every sequence of interrupts and pops the driver does not panic, and what is
popped comes from a queue of at most 31 events, to which each packet of the byte stream adds its
events as far as there is room. The stream is cut every three or four bytes from the first one on: a
packet without the marker bit has no events, but the driver does not look for another start.

## Proof strategy

`EventRing.Holds` is the queue in the ring, and `Follows` says that the bytes of the packet that
is not complete yet are the last ones of the stream.
-/

namespace RustKernel.Mouse

open Lib

/-! ### The ring -/

inductive MouseEvent where
  | move (dx dy : Int)
  | scroll (delta : Int)
  | leftClick
  | rightClick
  | middleClick
  deriving DecidableEq, Repr

structure EventRing where
  buf : Nat → Option MouseEvent
  head : Nat
  tail : Nat

namespace EventRing

def new : EventRing := ⟨fun _ => none, 0, 0⟩

def push (r : EventRing) (ev : MouseEvent) : Bool × EventRing :=
  let next := (r.head + 1) % 32
  if next = r.tail then (false, r)
  else (true, { r with buf := fun i => if i = r.head then some ev else r.buf i, head := next })

def pop (r : EventRing) : Option MouseEvent × EventRing :=
  if r.tail = r.head then (none, r)
  else
    -- `take` leaves nothing in the slot
    (r.buf r.tail, { r with
      buf := fun i => if i = r.tail then none else r.buf i
      tail := (r.tail + 1) % 32 })

end EventRing

/-! ### The driver -/

structure MouseState where
  cycle : Nat
  bytes : Nat → UInt8
  hasScroll : Bool

/-- `INITIALIZED`, `MOUSE_STATE` and `EVENT_QUEUE`. -/
structure Driver where
  initialized : Bool
  state : MouseState
  queue : EventRing

namespace Driver

/-- `init`, with the controller's configuration and the identification of the device, 0 for an
    answer that did not come. -/
def init (config deviceId : UInt8) : Driver :=
  if config &&& 0x20 ≠ 0 then ⟨false, ⟨0, fun _ => 0, false⟩, .new⟩
  else ⟨true, ⟨0, fun _ => 0, deviceId = 0x03 ∨ deviceId = 0x04⟩, .new⟩

def push (m : Driver) (ev : MouseEvent) : Driver := { m with queue := (m.queue.push ev).2 }

/-- The end of `handle_irq`, once a packet is complete. -/
def parsePacket (m : Driver) : Driver :=
  let flags := m.state.bytes 0
  let dx : Int := (m.state.bytes 1).toNat
  let dy : Int := (m.state.bytes 2).toNat
  if flags &&& 0x08 = 0 then m
  else
    let m := if m.state.hasScroll ∧ m.state.bytes 3 ≠ 0 then
      m.push (.scroll (m.state.bytes 3).toInt8.toInt) else m
    let m := if dx.natAbs > 2 ∨ dy.natAbs > 2 then m.push (.move dx dy) else m
    let m := if flags &&& 0x01 ≠ 0 then m.push .leftClick else m
    let m := if flags &&& 0x02 ≠ 0 then m.push .rightClick else m
    if flags &&& 0x04 ≠ 0 then m.push .middleClick else m

/-- `handle_irq`; none if the index of the byte is out of bounds. -/
def handleIrq (m : Driver) (status byte : UInt8) : Option Driver :=
  if ¬m.initialized then some m
  else if status &&& 0x20 = 0 then some m
  else if 4 ≤ m.state.cycle then none
  else
    let bytes := fun i => if i = m.state.cycle then byte else m.state.bytes i
    let cycle := m.state.cycle + 1
    let packetSize := if m.state.hasScroll then 4 else 3
    if packetSize ≤ cycle then
      some (parsePacket { m with state := { m.state with bytes := bytes, cycle := 0 } })
    else some { m with state := { m.state with bytes := bytes, cycle := cycle } }

end Driver

/-! ### Runs -/

inductive Event where
  /-- IRQ 12, with the status and the data of the controller. -/
  | irq (status byte : UInt8)
  /-- `pop_event` -/
  | pop

/-- The mouse, and what `pop_event` has returned. -/
structure Desk where
  mouse : Driver
  popped : List (Option MouseEvent)

def Desk.step (d : Desk) : Event → Option Desk
  | .irq status byte => (d.mouse.handleIrq status byte).map fun m => { d with mouse := m }
  | .pop =>
    let (ev, queue) := d.mouse.queue.pop
    some ⟨{ d.mouse with queue := queue }, d.popped ++ [ev]⟩

/-! ### The stream of packets -/

/-- The events of a packet. -/
def decodePacket (hasScroll : Bool) (packet : List UInt8) : List MouseEvent :=
  let flags := packet.getD 0 0
  let dx : Int := (packet.getD 1 0).toNat
  let dy : Int := (packet.getD 2 0).toNat
  if flags &&& 0x08 = 0 then []
  else
    (if hasScroll ∧ packet.getD 3 0 ≠ 0 then [.scroll (packet.getD 3 0).toInt8.toInt] else []) ++
    (if dx.natAbs > 2 ∨ dy.natAbs > 2 then [.move dx dy] else []) ++
    (if flags &&& 0x01 ≠ 0 then [.leftClick] else []) ++
    (if flags &&& 0x02 ≠ 0 then [.rightClick] else []) ++
    (if flags &&& 0x04 ≠ 0 then [.middleClick] else [])

/-- The bytes that the mouse has sent, the events that wait, and what has been popped. -/
structure Stream where
  bytes : List UInt8
  waiting : List MouseEvent
  popped : List (Option MouseEvent)

/-- An event is lost when 31 are waiting. -/
def offer (waiting : List MouseEvent) (ev : MouseEvent) : List MouseEvent :=
  if waiting.length < 31 then waiting ++ [ev] else waiting

/-- The stream is cut into packets of `size` bytes. -/
def Stream.receive (s : Stream) (size : Nat) (byte : UInt8) : Stream :=
  let bytes := s.bytes ++ [byte]
  if bytes.length % size = 0 then
    let packet := bytes.drop (bytes.length - size)
    { s with bytes := bytes, waiting := (decodePacket (size = 4) packet).foldl offer s.waiting }
  else { s with bytes := bytes }

def Stream.step (connected : Bool) (size : Nat) (s : Stream) : Event → Stream
  | .irq status byte => if connected ∧ status &&& 0x20 ≠ 0 then s.receive size byte else s
  | .pop => { s with waiting := s.waiting.tail, popped := s.popped ++ [s.waiting.head?] }

/-! ### The ring is a queue -/

/-- The events of a queue, one behind the other from the tail on. -/
def EventRing.Holds (r : EventRing) (q : List MouseEvent) : Prop :=
  ∃ taken, r.tail = taken % 32 ∧ r.head = (taken + q.length) % 32 ∧ q.length < 32 ∧
    ringRead r.buf 32 taken q.length = q.map some

variable {r : EventRing} {q : List MouseEvent}

private theorem holds_new : EventRing.new.Holds [] := ⟨0, rfl, rfl, Nat.zero_lt_succ 31, rfl⟩

theorem EventRing.Holds.push (h : r.Holds q) (ev : MouseEvent) :
    (r.push ev).2.Holds (offer q ev) := by
  obtain ⟨taken, htail, hhead, hlen, hread⟩ := h
  have hfull : (r.head + 1) % 32 = r.tail ↔ ¬q.length < 31 := by
    rw [htail, hhead]
    omega
  by_cases hroom : q.length < 31
  · rw [EventRing.push, if_neg (fun heq => hfull.mp heq hroom), offer, if_pos hroom]
    refine ⟨taken, htail, ?_, ?_, ?_⟩
    · show (r.head + 1) % 32 = _
      rw [hhead, Nat.mod_add_mod, List.length_append, List.length_singleton, Nat.add_assoc]
    · rw [List.length_append, List.length_singleton]
      omega
    · -- the slot lies behind those of the queue
      have hwrite := @ringRead_append_write _ r.buf 32 taken q.length [some ev]
        (by rw [List.length_singleton]; omega)
      rw [hread, List.length_singleton] at hwrite
      rw [List.length_append, List.length_singleton, List.map_append, List.map_singleton, ← hwrite]
      apply ringRead_congr (by decide)
      intro i hi
      rw [ringWrite_singleton _ hi, hhead]
  · rw [EventRing.push, if_pos (hfull.mpr hroom), offer, if_neg hroom]
    exact ⟨taken, htail, hhead, hlen, hread⟩

theorem EventRing.Holds.pop (h : r.Holds q) : r.pop.1 = q.head? ∧ r.pop.2.Holds q.tail := by
  obtain ⟨taken, htail, hhead, hlen, hread⟩ := h
  cases q with
  | nil =>
    have hempty : r.tail = r.head := htail.trans hhead.symm
    rw [EventRing.pop, if_pos hempty]
    exact ⟨rfl, taken, htail, hhead, hlen, hread⟩
  | cons ev rest =>
    rw [List.length_cons] at hhead hlen hread
    have hne : r.tail ≠ r.head := by
      rw [htail, hhead]
      omega
    rw [ringRead_succ, List.map_cons, List.cons.injEq, ← htail] at hread
    obtain ⟨hfirst, hrest⟩ := hread
    rw [EventRing.pop, if_neg hne]
    refine ⟨hfirst, taken + 1, ?_, ?_, Nat.lt_of_succ_lt hlen, ?_⟩
    · show (r.tail + 1) % 32 = _
      rw [htail, Nat.mod_add_mod]
    · show r.head = _
      rw [hhead, List.tail_cons, Nat.add_assoc, Nat.add_comm 1]
    · rw [List.tail_cons, ← hrest]
      -- the slot that was taken lies in front of the others
      apply List.map_congr_left
      intro i hi
      have hi := List.mem_range.mp hi
      show (if (taken + 1 + i) % 32 = r.tail then none else r.buf ((taken + 1 + i) % 32)) = _
      rw [if_neg (by rw [htail]; omega)]

private theorem EventRing.Holds.pushAll {m : Driver} (h : m.queue.Holds q) (evs : List MouseEvent) :
    (evs.foldl Driver.push m).queue.Holds (evs.foldl offer q) ∧
      (evs.foldl Driver.push m).state = m.state ∧
      (evs.foldl Driver.push m).initialized = m.initialized := by
  induction evs generalizing m q with
  | nil => exact ⟨h, rfl, rfl⟩
  | cons ev evs ih =>
    obtain ⟨hholds, hstate, hinit⟩ := ih (m := m.push ev) (h.push ev)
    exact ⟨hholds, hstate, hinit⟩

/-! ### Packets -/

private theorem foldl_ite {α β : Type} (f : α → β → α) (a : α) (b : β) (p : Prop) [Decidable p] :
    (if p then [b] else []).foldl f a = if p then f a b else a := by
  split
  · rfl
  · rfl

/-- What the driver does with a packet is to push its events. -/
private theorem parsePacket_eq (m : Driver) {packet : List UInt8}
    (hbytes : ∀ i < 3, packet.getD i 0 = m.state.bytes i)
    (hwheel : m.state.hasScroll → packet.getD 3 0 = m.state.bytes 3) :
    m.parsePacket = (decodePacket m.state.hasScroll packet).foldl Driver.push m := by
  have hflags := hbytes 0 (by decide)
  have hdx := hbytes 1 (by decide)
  have hdy := hbytes 2 (by decide)
  rw [Driver.parsePacket, decodePacket, hflags, hdx, hdy]
  by_cases hmarker : m.state.bytes 0 &&& 0x08 = 0
  · simp only [if_pos hmarker, List.foldl_nil]
  · simp only [if_neg hmarker, List.foldl_append, foldl_ite]
    cases hscroll : m.state.hasScroll with
    | true => rw [hwheel hscroll]
    | false => simp only [Bool.false_eq_true, false_and, if_false]

/-! ### Refinement -/

/-- The driver has the last bytes of the stream, and its ring the events that wait. -/
structure Follows (connected : Bool) (size : Nat) (d : Desk) (s : Stream) : Prop where
  connected_eq : d.mouse.initialized = connected
  size_eq : connected = true → size = if d.mouse.state.hasScroll then 4 else 3
  cycle_eq : d.mouse.state.cycle = s.bytes.length % size
  bytes_eq : ∀ i < d.mouse.state.cycle,
    d.mouse.state.bytes i = s.bytes.getD (s.bytes.length - d.mouse.state.cycle + i) 0
  holds : d.mouse.queue.Holds s.waiting
  popped : d.popped = s.popped

variable {connected : Bool} {size : Nat} {d : Desk} {s : Stream}

theorem Follows.pop (h : Follows connected size d s) : ∃ d', d.step .pop = some d' ∧
    Follows connected size d' (s.step connected size .pop) := by
  obtain ⟨hfirst, hrest⟩ := h.holds.pop
  refine ⟨_, rfl, ?_⟩
  exact
    { connected_eq := h.connected_eq
      size_eq := h.size_eq
      cycle_eq := h.cycle_eq
      bytes_eq := h.bytes_eq
      holds := hrest
      popped := by
        show d.popped ++ [d.mouse.queue.pop.1] = s.popped ++ [s.waiting.head?]
        rw [h.popped, hfirst] }

private theorem getD_concat (xs : List UInt8) (x : UInt8) (i : Nat) :
    (xs ++ [x]).getD i 0 = if i = xs.length then x else xs.getD i 0 := by
  simp only [List.getD_eq_getElem?_getD]
  rcases Nat.lt_trichotomy i xs.length with hlt | rfl | hgt
  · rw [List.getElem?_append_left hlt, if_neg hlt.ne]
  · rw [List.getElem?_concat_length, if_pos rfl]
    rfl
  · rw [List.getElem?_eq_none (by simpa using hgt), List.getElem?_eq_none hgt.le, if_neg hgt.ne']

private theorem Follows.size_bounds (h : Follows connected size d s)
    (hconnected : connected = true) :
    3 ≤ size ∧ size ≤ 4 ∧ d.mouse.state.cycle < size := by
  have hsize : size = 3 ∨ size = 4 := by
    rw [h.size_eq hconnected]
    cases d.mouse.state.hasScroll with
    | true => exact .inr rfl
    | false => exact .inl rfl
  have hcycle : d.mouse.state.cycle < size := by
    rw [h.cycle_eq]
    exact Nat.mod_lt _ (by omega)
  omega

/-- The bytes of the packet so far, with a new one behind them. -/
private theorem Follows.bytes_concat (h : Follows connected size d s) (byte : UInt8) {i : Nat}
    (hi : i < d.mouse.state.cycle + 1) :
    (if i = d.mouse.state.cycle then byte else d.mouse.state.bytes i) =
      (s.bytes ++ [byte]).getD (s.bytes.length - d.mouse.state.cycle + i) 0 := by
  have hle : d.mouse.state.cycle ≤ s.bytes.length := by
    rw [h.cycle_eq]
    exact Nat.mod_le _ _
  rw [getD_concat]
  by_cases hlast : i = d.mouse.state.cycle
  · rw [if_pos hlast, if_pos (by omega)]
  · rw [if_neg hlast, if_neg (by omega), ← h.bytes_eq i (by omega)]

/-- One more byte of a packet. -/
theorem Follows.receive (h : Follows connected size d s) (hconnected : connected = true)
    {status : UInt8} (hmouse : status &&& 0x20 ≠ 0) (byte : UInt8) :
    ∃ m, d.mouse.handleIrq status byte = some m ∧
      Follows connected size { d with mouse := m } (s.receive size byte) := by
  have hsize := h.size_eq hconnected
  have hcycle := h.cycle_eq
  obtain ⟨hthree, hfour, hlt⟩ := h.size_bounds hconnected
  have hinit : ¬¬d.mouse.initialized = true := by
    rw [h.connected_eq, not_not]
    exact hconnected
  rw [Driver.handleIrq, if_neg hinit, if_neg hmouse, if_neg (by omega)]
  simp only [← hsize, Stream.receive, List.length_append, List.length_singleton]
  by_cases hcomplete : size ≤ d.mouse.state.cycle + 1
  · -- the packet is complete, and its bytes are the last ones of the stream
    have hmod : (s.bytes.length + 1) % size = 0 := by
      rw [Nat.add_mod, ← hcycle, Nat.mod_eq_of_lt (show 1 < size by omega),
        show d.mouse.state.cycle + 1 = size by omega, Nat.mod_self]
    rw [if_pos hcomplete, if_pos hmod]
    have hpacket : ∀ i < size,
        ((s.bytes ++ [byte]).drop (s.bytes.length + 1 - size)).getD i 0 =
          if i = d.mouse.state.cycle then byte else d.mouse.state.bytes i := by
      intro i hi
      rw [h.bytes_concat byte (by omega), List.getD_eq_getElem?_getD, List.getElem?_drop,
        ← List.getD_eq_getElem?_getD]
      congr 1
      omega
    have hwheel : decide (size = 4) = d.mouse.state.hasScroll := by
      rw [hsize]
      cases d.mouse.state.hasScroll <;> rfl
    let m : Driver := { d.mouse with
      state := { d.mouse.state with
        bytes := fun i => if i = d.mouse.state.cycle then byte else d.mouse.state.bytes i
        cycle := 0 } }
    have hparse := parsePacket_eq m (fun i hi => hpacket i (by omega)) (fun hscroll =>
      hpacket 3 (by
        have := of_decide_eq_true (hwheel.trans hscroll)
        omega))
    obtain ⟨hholds, hstate, hinitialized⟩ := @EventRing.Holds.pushAll s.waiting m h.holds
      (decodePacket d.mouse.state.hasScroll ((s.bytes ++ [byte]).drop (s.bytes.length + 1 - size)))
    refine ⟨_, rfl, ?_⟩
    rw [hparse, hwheel]
    exact
      { connected_eq := hinitialized.trans h.connected_eq
        size_eq := fun _ => by rw [hstate]; exact hsize
        cycle_eq := by
          rw [hstate, List.length_append, List.length_singleton]
          exact hmod.symm
        bytes_eq := by
          intro i hi
          rw [hstate] at hi
          exact absurd hi (Nat.not_lt_zero i)
        holds := hholds
        popped := h.popped }
  · have hmod : (s.bytes.length + 1) % size = d.mouse.state.cycle + 1 := by
      rw [Nat.add_mod, ← hcycle, Nat.mod_eq_of_lt (show 1 < size by omega),
        Nat.mod_eq_of_lt (by omega)]
    rw [if_neg hcomplete, if_neg (by omega)]
    refine ⟨_, rfl, ?_⟩
    exact
      { connected_eq := h.connected_eq
        size_eq := h.size_eq
        cycle_eq := by
          rw [List.length_append, List.length_singleton]
          exact hmod.symm
        bytes_eq := by
          intro i hi
          have hplace : s.bytes.length + 1 - (d.mouse.state.cycle + 1) =
              s.bytes.length - d.mouse.state.cycle := Nat.add_sub_add_right _ 1 _
          rw [List.length_append, List.length_singleton, hplace]
          exact h.bytes_concat byte hi
        holds := h.holds
        popped := h.popped }

theorem Follows.irq (h : Follows connected size d s) (status byte : UInt8) :
    ∃ d', d.step (.irq status byte) = some d' ∧
      Follows connected size d' (s.step connected size (.irq status byte)) := by
  simp only [Desk.step, Stream.step]
  by_cases hmine : connected = true ∧ status &&& 0x20 ≠ 0
  · obtain ⟨m, hm, hfollows⟩ := h.receive hmine.1 hmine.2 byte
    rw [hm, if_pos hmine]
    exact ⟨_, rfl, hfollows⟩
  · have hignored : d.mouse.handleIrq status byte = some d.mouse := by
      rw [Driver.handleIrq, h.connected_eq]
      by_cases hconnected : connected = true
      · have hstatus : status &&& 0x20 = 0 := by
          by_contra hne
          exact hmine ⟨hconnected, hne⟩
        rw [if_neg (not_not.mpr hconnected), if_pos hstatus]
      · rw [if_pos hconnected]
    rw [hignored, if_neg hmine]
    exact ⟨_, rfl, h⟩

theorem Follows.step (h : Follows connected size d s) (e : Event) :
    ∃ d', d.step e = some d' ∧ Follows connected size d' (s.step connected size e) := by
  cases e with
  | irq status byte => exact h.irq status byte
  | pop => exact h.pop

theorem Follows.run (h : Follows connected size d s) (es : List Event) :
    ∃ d', es.foldlM Desk.step d = some d' ∧
      Follows connected size d' (es.foldl (Stream.step connected size) s) := by
  induction es generalizing d s with
  | nil => exact ⟨d, rfl, h⟩
  | cons e es ih =>
    obtain ⟨d', hstep, hnext⟩ := h.step e
    obtain ⟨d'', hrun, hfollows⟩ := ih hnext
    refine ⟨d'', ?_, hfollows⟩
    rw [List.foldlM_cons, hstep]
    exact hrun

/-- The bytes of a packet, by the identification of the device. -/
def packetSize (deviceId : UInt8) : Nat := if deviceId = 0x03 ∨ deviceId = 0x04 then 4 else 3

private theorem follows_init (config deviceId : UInt8) :
    Follows (config &&& 0x20 = 0) (packetSize deviceId) ⟨.init config deviceId, []⟩
      ⟨[], [], []⟩ := by
  by_cases hport : config &&& 0x20 = 0
  · rw [Driver.init, if_neg (not_not.mpr hport), packetSize]
    refine ⟨(decide_eq_true hport).symm, fun _ => ?_, (Nat.zero_mod _).symm, ?_, holds_new, rfl⟩
    · by_cases hwheel : deviceId = 0x03 ∨ deviceId = 0x04
      · simp only [if_pos hwheel, decide_eq_true hwheel, if_true]
      · simp [hwheel]
    · intro i hi
      exact absurd hi (Nat.not_lt_zero i)
  · rw [Driver.init, if_pos hport]
    refine ⟨(decide_eq_false hport).symm, fun h => ?_, (Nat.zero_mod _).symm, ?_, holds_new, rfl⟩
    · exact absurd (of_decide_eq_true h) hport
    · intro i hi
      exact absurd hi (Nat.not_lt_zero i)

theorem mouse_refines (config deviceId : UInt8) (es : List Event) :
    ∃ d, es.foldlM Desk.step ⟨.init config deviceId, []⟩ = some d ∧
      d.popped = (es.foldl (Stream.step (config &&& 0x20 = 0) (packetSize deviceId))
        ⟨[], [], []⟩).popped := by
  obtain ⟨d, hrun, hfollows⟩ := (follows_init config deviceId).run es
  exact ⟨d, hrun, hfollows.popped⟩

end RustKernel.Mouse
