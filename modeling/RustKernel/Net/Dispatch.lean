import RustKernel.Net.RxRing
import RustKernel.Net.Tcp.Stack
import RustKernel.Net.Wire

/-!
# RustKernel.Net.Dispatch

The receive path as a whole: the card writes frames into its ring while `poll_and_dispatch` takes
them out, parses them layer by layer and hands the segments to TCP.

## Main result

`dispatch_refines`: when frames arrive, iterations of the loop run and the rest of the kernel
calls TCP, in any order, the node behaves like a queue of segments (`Line`). Every segment that is
sent to the address of the kernel reaches TCP once, in the order of arrival, with the fields that
were sent and the payload up to the end of the padding. Nothing else reaches it.
`dispatch_returns`: a call of the loop ends, also when frames arrive meanwhile, once none waits.

As in `RxRing`, no packet may reach beyond the end of the ring when it is taken.

## Proof strategy

`Refines` is kept by every step. The ring is the queue of the packets that are not read yet
(`Rx.Inv.poll_eq`), and `route_content` says what the parsers make of each kind of frame.
-/

namespace RustKernel.Net.Dispatch

open Tcp RxRing

/-! ### `poll_and_dispatch` -/

/-- `cfg.map(|c| c.ip).unwrap_or([10, 0, 2, 15])` -/
def myIp (cfg : Option NetConfig) : Ipv4Addr := (cfg.map NetConfig.ip).getD ⟨10, 0, 2, 15⟩

/-- The address and the data with which the loop calls `tcp::receive`. -/
def route (cfg : Option NetConfig) (pkt : List UInt8) : Option (Ipv4Addr × List UInt8) := do
  let eth ← EthernetFrame.parse pkt
  if eth.ethertype = ETHERTYPE_IPV4 then
    let ip ← Ipv4Packet.parse eth.payload
    if ip.dst ≠ myIp cfg ∧ ip.dst ≠ ⟨255, 255, 255, 255⟩ then none
    else if ip.protocol = 6 then some (ip.src, ip.payload)
    else none
  else none

/-- The ring of the card, TCP, and what TCP has sent and returned so far. -/
structure Node where
  rx : Rx
  tcp : Tcp.Stack
  out : Output

def Node.call (n : Node) (e : Tcp.Event) : Node :=
  { n with tcp := (n.tcp.step e).1, out := n.out ++ (n.tcp.step e).2 }

/-- The body of the loop for a packet. -/
def Node.handle (n : Node) (now : UInt64) (pkt : List UInt8) : Node :=
  match route n.tcp.cfg pkt with
  | none => n
  | some (src, data) => n.call ⟨now, .receive src data⟩

/-- An iteration of the loop; the last one, without a packet, goes on with `tcp::poll`. -/
def Node.iterate (n : Node) (now : UInt64) : Node :=
  let polled := { n with rx := n.rx.poll }
  match (pollRx n.rx.buf n.rx.capr n.rx.cbr).1 with
  | none => polled.call ⟨now, .poll⟩
  | some pkt => polled.handle now pkt

/-! ### Frames on the wire -/

/-- What a frame is about. -/
inductive Content where
  /-- a segment of a peer, padded on the wire -/
  | segment (dstMac srcMac : MacAddr) (ip : IpFields) (tcp : TcpFields) (pad : List UInt8)
      (hlong : 46 ≤ (ip.bytes 6 ++ (tcp.bytes ++ pad)).length)
  /-- a datagram of another protocol than TCP -/
  | datagram (dstMac srcMac : MacAddr) (ip : IpFields) (protocol : UInt8) (data : List UInt8)
      (hprotocol : protocol ≠ 6) (hlong : 46 ≤ (ip.bytes protocol ++ data).length)
  /-- a frame of another protocol than IPv4 -/
  | foreign (dstMac srcMac : MacAddr) (ethertype : UInt16) (data : List UInt8)
      (htype : ethertype ≠ ETHERTYPE_IPV4) (hlong : 46 ≤ data.length)
  /-- a frame below the least length -/
  | runt (data : List UInt8) (hshort : data.length < 60)

def Content.frame : Content → List UInt8
  | .segment dstMac srcMac ip tcp pad _ =>
    frameBytes dstMac srcMac ETHERTYPE_IPV4 (ip.bytes 6 ++ (tcp.bytes ++ pad))
  | .datagram dstMac srcMac ip protocol data _ _ =>
    frameBytes dstMac srcMac ETHERTYPE_IPV4 (ip.bytes protocol ++ data)
  | .foreign dstMac srcMac ethertype data _ _ => frameBytes dstMac srcMac ethertype data
  | .runt data _ => data

/-- A frame as the card stores it. -/
structure Arrival where
  status : UInt16
  crc : UInt32
  content : Content
  length_le : content.frame.length ≤ 1518

def Arrival.packet (a : Arrival) : Packet := ⟨a.status, a.content.frame, a.crc, a.length_le⟩

/-! ### Runs of the node -/

inductive Event where
  | arrive (a : Arrival)
  | iterate (now : UInt64)
  | call (e : Tcp.Event)

def Node.step (n : Node) : Event → Node
  | .arrive a => { n with rx := n.rx.append a.packet }
  | .iterate now => n.iterate now
  | .call e => n.call e

/-- The frames that arrive before an iteration, and its reading of the clock. -/
structure Round where
  arrivals : List Arrival
  now : UInt64

def Round.events (r : Round) : List Event := r.arrivals.map .arrive ++ [.iterate r.now]

/-- `poll_and_dispatch`, while the card goes on writing frames. -/
def Node.pollAndDispatch (n : Node) : List Round → Option Node
  | [] => none
  | r :: rounds =>
    let filled := (r.arrivals.map .arrive).foldl Node.step n
    match (pollRx filled.rx.buf filled.rx.capr filled.rx.cbr).1 with
    | none => some (filled.iterate r.now)
    | some _ => (filled.iterate r.now).pollAndDispatch rounds

/-- The packet that an iteration takes ends within the ring, and no packet that arrives fills the
    ring to its last byte: then `CAPR = CBR`, and the loop takes the ring for empty. -/
def Fits (n : Node) : Event → Prop
  | .arrive a => (n.rx.unread.map Packet.size).sum + a.packet.size ≠ RX_BUF_SIZE
  | .iterate _ => WithinRing n.rx .poll
  | .call _ => True

def Node.boot (buf : Nat → UInt8) : Node := ⟨.start buf, .boot, []⟩

/-! ### A queue of segments -/

/-- The frames that wait, TCP, and what TCP has sent and returned so far. -/
structure Line where
  waiting : List Arrival
  tcp : Tcp.Stack
  out : Output

def Line.call (l : Line) (e : Tcp.Event) : Line :=
  { l with tcp := (l.tcp.step e).1, out := l.out ++ (l.tcp.step e).2 }

/-- A segment for this kernel goes to the first connection that accepts it. -/
def Line.deliver (l : Line) (now : UInt64) (src : Ipv4Addr) (hdr : TcpHeader) : Line :=
  let updated := l.tcp.conns.update (l.tcp.conns.findIdx? (TcpConn.accepts src hdr))
    fun conn => Tx.seen (conn.deliver ⟨l.tcp.cfg, now⟩ src hdr)
  { l with tcp := { l.tcp with conns := updated.1 }, out := l.out ++ updated.2 }

/-- Only segments that are sent to this kernel are delivered. -/
def Line.handle (l : Line) (now : UInt64) : Content → Line
  | .segment _ _ ip tcp pad _ =>
    if ip.dst = myIp l.tcp.cfg ∨ ip.dst = ⟨255, 255, 255, 255⟩ then
      l.deliver now ip.src (tcp.header pad)
    else l
  | _ => l

def Line.step (l : Line) : Event → Line
  | .arrive a =>
    -- the card drops what it has no room for
    if ((l.waiting.map Arrival.packet).map Packet.size).sum + a.packet.size ≤ RX_BUF_SIZE then
      { l with waiting := l.waiting ++ [a] }
    else l
  | .iterate now =>
    match l.waiting with
    | [] => l.call ⟨now, .poll⟩
    | a :: rest => { l with waiting := rest }.handle now a.content
  | .call e => l.call e

/-- A call handles frames until none waits. -/
def Line.pollAndDispatch (l : Line) : List Round → Option Line
  | [] => none
  | r :: rounds =>
    let filled := (r.arrivals.map .arrive).foldl Line.step l
    let next := filled.step (.iterate r.now)
    if filled.waiting = [] then some next else next.pollAndDispatch rounds

def Line.boot : Line := ⟨[], .boot, []⟩

/-! ### The parsers -/

/-- An IPv4 packet in a frame that is long enough. -/
private theorem route_ip (cfg : Option NetConfig) (dstMac srcMac : MacAddr) (f : IpFields)
    (protocol : UInt8) (data : List UInt8) (hlong : 46 ≤ (f.bytes protocol ++ data).length) :
    route cfg (frameBytes dstMac srcMac ETHERTYPE_IPV4 (f.bytes protocol ++ data)) =
      if f.dst ≠ myIp cfg ∧ f.dst ≠ ⟨255, 255, 255, 255⟩ then none
      else if protocol = 6 then some (f.src, data)
      else none := by
  obtain ⟨ip, hparse, hprotocol, hsrc, hdst, hpayload⟩ := f.parse_bytes protocol data
  rw [route, parse_frameBytes _ _ _ _ hlong]
  simp only [Option.bind_eq_bind, Option.bind_some, if_true, hparse, hprotocol, hsrc, hdst,
    hpayload]

/-- The address and the data that TCP gets from a frame. -/
def Content.routed (cfg : Option NetConfig) : Content → Option (Ipv4Addr × List UInt8)
  | .segment _ _ ip tcp pad _ =>
    if ip.dst = myIp cfg ∨ ip.dst = ⟨255, 255, 255, 255⟩ then
      some (ip.src, tcp.bytes ++ pad)
    else none
  | _ => none

theorem route_content (cfg : Option NetConfig) (c : Content) :
    route cfg c.frame = c.routed cfg := by
  cases c with
  | segment dstMac srcMac ip tcp pad hlong =>
    rw [Content.frame, route_ip _ _ _ _ _ _ hlong, if_pos rfl, Content.routed]
    by_cases hmine : ip.dst = myIp cfg ∨ ip.dst = ⟨255, 255, 255, 255⟩
    · rw [if_pos hmine, if_neg (by tauto)]
    · rw [if_neg hmine, if_pos (not_or.mp hmine)]
  | datagram dstMac srcMac ip protocol data hprotocol hlong =>
    simp only [Content.frame, Content.routed, route_ip _ _ _ _ _ _ hlong, if_neg hprotocol,
      ite_self]
  | foreign dstMac srcMac ethertype data htype hlong =>
    simp only [Content.frame, Content.routed, route, parse_frameBytes _ _ _ _ hlong,
      Option.bind_eq_bind, Option.bind_some, if_neg htype]
  | runt data hshort =>
    have hnone : EthernetFrame.parse data = none := if_pos hshort
    simp only [Content.frame, Content.routed, route, hnone, Option.bind_eq_bind, Option.bind_none]

/-! ### Refinement -/

/-- The node does what the line does. -/
structure Refines (n : Node) (l : Line) : Prop where
  inv : n.rx.Inv
  sum_lt : (n.rx.unread.map Packet.size).sum < RX_BUF_SIZE
  waiting : n.rx.unread = l.waiting.map Arrival.packet
  tcp : n.tcp = l.tcp
  out : n.out = l.out

variable {n : Node} {l : Line}

theorem Refines.call (h : Refines n l) (e : Tcp.Event) : Refines (n.call e) (l.call e) where
  inv := h.inv
  sum_lt := h.sum_lt
  waiting := h.waiting
  tcp := by rw [Node.call, Line.call, h.tcp]
  out := by rw [Node.call, Line.call, h.tcp, h.out]

private theorem Line.call_receive (l : Line) (now : UInt64) (src : Ipv4Addr) {data : List UInt8}
    {hdr : TcpHeader} (hparse : TcpHeader.parse data = some hdr) :
    l.call ⟨now, .receive src data⟩ = l.deliver now src hdr := by
  have hupdate := step_eq_update l.tcp ⟨now, .receive src data⟩ rfl
  simp only [Call.target, Call.act, hparse, Option.bind_some] at hupdate
  rw [Line.call, Line.deliver, ← hupdate]
  rfl

theorem Refines.handle (h : Refines n l) (now : UInt64) (c : Content) :
    Refines (n.handle now c.frame) (l.handle now c) := by
  cases c with
  | segment dstMac srcMac ip tcp pad hlong =>
    rw [Node.handle, route_content, Content.routed, h.tcp, Line.handle]
    by_cases hmine : ip.dst = myIp l.tcp.cfg ∨ ip.dst = ⟨255, 255, 255, 255⟩
    · rw [if_pos hmine, if_pos hmine, ← l.call_receive now ip.src (tcp.parse_bytes pad)]
      exact h.call _
    · rw [if_neg hmine, if_neg hmine]
      exact h
  | datagram => rwa [Node.handle, route_content]
  | foreign => rwa [Node.handle, route_content]
  | runt => rwa [Node.handle, route_content]

private theorem Refines.arrive (h : Refines n l) (a : Arrival) (hfits : Fits n (.arrive a)) :
    Refines (n.step (.arrive a)) (l.step (.arrive a)) := by
  have hinv := h.inv.append a.packet
  simp only [Fits] at hfits
  simp only [Node.step, Line.step, ← h.waiting]
  simp only [Rx.append] at hinv ⊢
  by_cases hroom : (n.rx.unread.map Packet.size).sum + a.packet.size ≤ RX_BUF_SIZE
  · simp only [if_pos hroom] at hinv ⊢
    have hunread : (n.rx.appended ++ [a.packet]).drop n.rx.returned.length =
        n.rx.unread ++ [a.packet] := List.drop_append_of_le_length h.inv.returned_le
    refine ⟨hinv, ?_, ?_, h.tcp, h.out⟩
    · show (((n.rx.appended ++ [a.packet]).drop n.rx.returned.length).map Packet.size).sum < _
      rw [hunread, List.map_append, List.sum_append, List.map_singleton, List.sum_singleton]
      omega
    · show (n.rx.appended ++ [a.packet]).drop n.rx.returned.length = _
      rw [hunread, h.waiting, List.map_append, List.map_singleton]
  · simp only [if_neg hroom]
    exact h

/-- Without a frame in the ring an iteration finds none. -/
private theorem Refines.poll_nil (h : Refines n l) (hnil : l.waiting = []) :
    (pollRx n.rx.buf n.rx.capr n.rx.cbr).1 = none ∧ n.rx.poll = n.rx := by
  have hcbr := h.inv.cbr_eq
  rw [h.waiting, hnil] at hcbr
  have hsame : n.rx.capr = n.rx.cbr := by
    rw [hcbr]
    exact (Nat.mod_eq_of_lt h.inv.capr_lt).symm
  constructor
  · rw [pollRx, if_pos hsame]
  · simp only [Rx.poll, pollRx, if_pos hsame, Option.toList_none, List.append_nil]

/-- An iteration takes the frame that arrived first. -/
private theorem Refines.poll_cons (h : Refines n l) {a : Arrival} {rest : List Arrival}
    (hcons : l.waiting = a :: rest) :
    (pollRx n.rx.buf n.rx.capr n.rx.cbr).1 = some a.content.frame ∧
      n.rx.poll.unread = rest.map Arrival.packet := by
  have hunread : n.rx.unread = a.packet :: rest.map Arrival.packet := by
    rw [h.waiting, hcons, List.map_cons]
  have hne : n.rx.capr ≠ n.rx.cbr := by
    have hsum := h.sum_lt
    have hcbr := h.inv.cbr_eq
    have hcapr := h.inv.capr_lt
    rw [hunread, List.map_cons, List.sum_cons] at hsum hcbr
    have hsize : 8 ≤ a.packet.size := by
      rw [Packet.size, align4]
      omega
    generalize ((rest.map Arrival.packet).map Packet.size).sum = sum at hsum hcbr
    rw [RX_BUF_SIZE] at hsum hcbr hcapr
    omega
  have hpoll := h.inv.poll_eq hne hunread
  constructor
  · -- what is returned is what the poll took
    have hreturned := congrArg Rx.returned hpoll
    simp only [Rx.poll] at hreturned
    have hdata := List.append_cancel_left hreturned
    cases hrx : (pollRx n.rx.buf n.rx.capr n.rx.cbr).1 with
    | none => simp [hrx] at hdata
    | some pkt =>
      simp only [hrx, Option.toList_some, List.cons.injEq, and_true] at hdata
      rw [hdata]
      rfl
  · rw [hpoll]
    show n.rx.appended.drop (n.rx.returned ++ [a.packet.frame]).length = _
    rw [List.length_append, List.length_singleton, ← List.tail_drop, ← Rx.unread, hunread,
      List.tail_cons]

theorem Refines.iterate (h : Refines n l) (now : UInt64) (hfits : Fits n (.iterate now)) :
    Refines (n.step (.iterate now)) (l.step (.iterate now)) := by
  have hinv := h.inv.poll hfits
  cases hwaiting : l.waiting with
  | nil =>
    obtain ⟨hnone, hsame⟩ := h.poll_nil hwaiting
    simp only [Node.step, Node.iterate, Line.step, hwaiting, hnone, hsame]
    exact h.call _
  | cons a rest =>
    obtain ⟨hsome, hunread⟩ := h.poll_cons hwaiting
    simp only [Node.step, Node.iterate, Line.step, hwaiting, hsome]
    have hsum := h.sum_lt
    rw [h.waiting, hwaiting, List.map_cons, List.map_cons, List.sum_cons] at hsum
    have hnext : Refines { n with rx := n.rx.poll } { l with waiting := rest } :=
      ⟨hinv, by rw [hunread]; omega, hunread, h.tcp, h.out⟩
    exact hnext.handle now a.content

theorem Refines.step (h : Refines n l) (e : Event) (hfits : Fits n e) :
    Refines (n.step e) (l.step e) := by
  cases e with
  | arrive a => exact h.arrive a hfits
  | iterate now => exact h.iterate now hfits
  | call e => exact h.call e

private theorem refines_boot (buf : Nat → UInt8) : Refines (.boot buf) .boot :=
  ⟨.start buf, show 0 < RX_BUF_SIZE by decide, rfl, rfl, rfl⟩

theorem Refines.run (h : Refines n l) (es : List Event)
    (hfits : ∀ q ∈ Lib.steps Node.step n es, Fits q.1 q.2) :
    Refines (es.foldl Node.step n) (es.foldl Line.step l) := by
  induction es generalizing n l with
  | nil => exact h
  | cons e es ih =>
    have hnext := h.step e (hfits (n, e) List.mem_cons_self)
    exact ih hnext fun q hq => hfits q (List.mem_cons_of_mem _ hq)

/-! ### A call of `poll_and_dispatch` -/

private theorem handle_waiting (l : Line) (now : UInt64) (c : Content) :
    (l.handle now c).waiting = l.waiting := by
  cases c with
  | segment =>
    rw [Line.handle]
    split
    · rfl
    · rfl
  | datagram => rfl
  | foreign => rfl
  | runt => rfl

private theorem iterate_waiting (l : Line) (now : UInt64) :
    (l.step (.iterate now)).waiting = l.waiting.tail := by
  rw [Line.step]
  split
  case h_1 hnil => rw [hnil]; exact hnil
  case h_2 hcons => rw [hcons]; exact handle_waiting _ _ _

private theorem arrive_waiting (l : Line) (arrivals : List Arrival) :
    ((arrivals.map .arrive).foldl Line.step l).waiting.length ≤
      l.waiting.length + arrivals.length := by
  induction arrivals generalizing l with
  | nil => exact Nat.le_refl _
  | cons a arrivals ih =>
    have hstep : (l.step (.arrive a)).waiting.length ≤ l.waiting.length + 1 := by
      rw [Line.step]
      split
      · exact (List.length_append).le
      · exact Nat.le_succ _
    have hrest := ih (l.step (.arrive a))
    rw [List.map_cons, List.foldl_cons, List.length_cons]
    omega

/-- The call ends behind the iteration that finds no frame. -/
theorem Refines.pollAndDispatch (h : Refines n l) (rounds : List Round)
    (hfits : ∀ q ∈ Lib.steps Node.step n (rounds.flatMap Round.events), Fits q.1 q.2)
    (hlong : l.waiting.length + (rounds.map (·.arrivals.length)).sum < rounds.length) :
    ∃ n' l', n.pollAndDispatch rounds = some n' ∧ l.pollAndDispatch rounds = some l' ∧
      Refines n' l' ∧ l'.waiting = [] := by
  induction rounds generalizing n l with
  | nil => exact absurd hlong (Nat.not_lt_zero _)
  | cons r rounds ih =>
    rw [List.flatMap_cons, Round.events, List.append_assoc, Lib.steps_append] at hfits
    rw [List.map_cons, List.sum_cons, List.length_cons] at hlong
    have hfilled := h.run (r.arrivals.map .arrive) fun q hq => hfits q (List.mem_append_left _ hq)
    have hmore := arrive_waiting l r.arrivals
    rw [Node.pollAndDispatch, Line.pollAndDispatch]
    -- the node and the line before the iteration
    generalize (r.arrivals.map Event.arrive).foldl Node.step n = filled at hfits hfilled ⊢
    generalize (r.arrivals.map Event.arrive).foldl Line.step l = line at hfilled hmore ⊢
    have htail : ∀ q ∈ (filled, Event.iterate r.now) :: Lib.steps Node.step
        (filled.step (.iterate r.now)) (rounds.flatMap Round.events), Fits q.1 q.2 :=
      fun q hq => hfits q (List.mem_append_right _ hq)
    have hnext := hfilled.step (.iterate r.now) (htail _ List.mem_cons_self)
    cases hwaiting : line.waiting with
    | nil =>
      obtain ⟨hnone, -⟩ := hfilled.poll_nil hwaiting
      rw [hnone, if_pos rfl]
      exact ⟨_, _, rfl, rfl, hnext, by rw [iterate_waiting, hwaiting, List.tail_nil]⟩
    | cons a rest =>
      obtain ⟨hsome, -⟩ := hfilled.poll_cons hwaiting
      rw [hsome, if_neg (List.cons_ne_nil a rest)]
      refine ih hnext (fun q hq => htail q (List.mem_cons_of_mem _ hq)) ?_
      rw [iterate_waiting, hwaiting, List.tail_cons]
      rw [hwaiting, List.length_cons] at hmore
      omega

/-! ### The receive path -/

/-- The ring, the parsers and the loop are a queue of segments in front of TCP. -/
theorem dispatch_refines (buf : Nat → UInt8) (es : List Event)
    (hfits : ∀ q ∈ Lib.steps Node.step (.boot buf) es, Fits q.1 q.2) :
    let n := es.foldl Node.step (.boot buf)
    let l := es.foldl Line.step .boot
    n.tcp = l.tcp ∧ n.out = l.out ∧ n.rx.unread = l.waiting.map Arrival.packet := by
  have h := (refines_boot buf).run es hfits
  exact ⟨h.tcp, h.out, h.waiting⟩

/-- A call of `poll_and_dispatch` returns once it has handled every frame, those that arrive
    meanwhile included. -/
theorem dispatch_returns (buf : Nat → UInt8) (es : List Event) (rounds : List Round)
    (hfits : ∀ q ∈ Lib.steps Node.step (.boot buf) (es ++ rounds.flatMap Round.events),
      Fits q.1 q.2)
    (hlong : (es.foldl Line.step .boot).waiting.length +
      (rounds.map (·.arrivals.length)).sum < rounds.length) :
    ∃ n' l', (es.foldl Node.step (.boot buf)).pollAndDispatch rounds = some n' ∧
      (es.foldl Line.step .boot).pollAndDispatch rounds = some l' ∧
      n'.tcp = l'.tcp ∧ n'.out = l'.out ∧ n'.rx.unread = [] := by
  rw [Lib.steps_append] at hfits
  have h := (refines_boot buf).run es fun q hq => hfits q (List.mem_append_left _ hq)
  obtain ⟨n', l', hnode, hline, hrefines, hempty⟩ :=
    h.pollAndDispatch rounds (fun q hq => hfits q (List.mem_append_right _ hq)) hlong
  have hunread := hrefines.waiting
  rw [hempty, List.map_nil] at hunread
  exact ⟨n', l', hnode, hline, hrefines.tcp, hrefines.out, hunread⟩

/-! ### A segment from a peer -/

private theorem no_options : 4 ∣ ([] : List UInt8).length ∧ ([] : List UInt8).length ≤ 40 := by decide

/-- The option that announces segments of up to 1460 bytes. -/
def mssOption : List UInt8 := [2, 4, 5, 0xB4]

private theorem mss_option : 4 ∣ mssOption.length ∧ mssOption.length ≤ 40 := by decide

def synIp : IpFields :=
  ⟨0, 44, 0x1234, 0x4000, 128, 0xD087, ⟨10, 0, 2, 2⟩, ⟨10, 0, 2, 15⟩, [], no_options⟩

/-- A request to connect to the port 80. -/
def synTcp : TcpFields := ⟨4000, 80, 1, 0, SYN, 64240, 0x7534, 0, mssOption, [], mss_option⟩

private theorem syn_data : 46 ≤ (synIp.bytes 6 ++ (synTcp.bytes ++ [0, 0])).length := by decide

def peerSyn : Content :=
  .segment ⟨0x52, 0x54, 0, 0xAB, 0xCD, 0xEF⟩ ⟨0x52, 0x55, 10, 0, 2, 2⟩ synIp synTcp [0, 0]
    syn_data

private theorem length_peerSyn : peerSyn.frame.length ≤ 1518 := by decide

def synArrival : Arrival := ⟨1, 0, peerSyn, length_peerSyn⟩

/-- A frame that ends within the empty ring, and the iterations of a call that takes it. -/
private theorem Refines.exchange_fits (h : Refines n l) (hempty : l.waiting = []) (a : Arrival)
    (hend : n.rx.capr + a.packet.size ≤ RX_BUF_SIZE) (t u : UInt64) :
    ∀ q ∈ Lib.steps Node.step n [.arrive a, .iterate t, .iterate u], Fits q.1 q.2 := by
  -- one event after the other: the frame arrives, is taken, and the second poll finds nothing
  have hlen := a.length_le
  have hsize : a.packet.size < RX_BUF_SIZE := by
    simp only [Packet.size, Arrival.packet, align4, RX_BUF_SIZE]
    omega
  have hunread : n.rx.unread = [] := by rw [h.waiting, hempty, List.map_nil]
  have harrive : Fits n (.arrive a) := by
    simp only [Fits, hunread, List.map_nil, List.sum_nil]
    omega
  have h₁ := h.step _ harrive
  have hwaiting₁ : (l.step (.arrive a)).waiting = [a] := by
    simp only [Line.step, hempty, List.map_nil, List.sum_nil, Nat.zero_add, List.nil_append,
      if_pos hsize.le]
  have htake : Fits (n.step (.arrive a)) (.iterate t) := by
    have hcapr : (n.step (.arrive a)).rx.capr = n.rx.capr := by
      simp only [Node.step, Rx.append]
      split
      · rfl
      · rfl
    intro _ p hp
    rw [h₁.waiting, hwaiting₁, List.map_singleton, List.head?_cons, Option.mem_some_iff] at hp
    rw [hcapr, ← hp]
    exact hend
  have h₂ := h₁.step _ htake
  have hwaiting₂ : ((l.step (.arrive a)).step (.iterate t)).waiting = [] := by
    rw [iterate_waiting, hwaiting₁, List.tail_cons]
  have hlast : Fits ((n.step (.arrive a)).step (.iterate t)) (.iterate u) := by
    intro _ p hp
    rw [h₂.waiting, hwaiting₂, List.map_nil, List.head?_nil] at hp
    cases hp
  intro q hq
  simp only [Lib.steps, List.mem_cons, List.not_mem_nil, or_false] at hq
  rcases hq with rfl | rfl | rfl
  · exact harrive
  · exact htake
  · exact hlast

def listening : List Event := [.call ⟨0, .setConfig ⟨⟨10, 0, 2, 15⟩⟩⟩, .call ⟨0, .listen 80⟩]

/-- A call during which the request arrives. -/
def connecting : List Round := [⟨[synArrival], 1⟩, ⟨[], 2⟩]

private theorem connecting_fits : ∀ q ∈ Lib.steps Node.step (.boot fun _ => 0)
    (listening ++ connecting.flatMap Round.events), Fits q.1 q.2 := by
  have hstart := ((refines_boot fun _ => 0).call ⟨0, .setConfig ⟨⟨10, 0, 2, 15⟩⟩⟩).call
    ⟨0, .listen 80⟩
  have hlen := length_peerSyn
  have hend : 0 + synArrival.packet.size ≤ RX_BUF_SIZE := by
    simp only [Packet.size, Arrival.packet, synArrival, align4, RX_BUF_SIZE]
    omega
  intro q hq
  rcases List.mem_cons.mp hq with rfl | hq
  · trivial
  rcases List.mem_cons.mp hq with rfl | hq
  · trivial
  exact hstart.exchange_fits rfl synArrival hend 1 2 q hq

theorem dispatch_refines_connecting :
    let es := listening ++ connecting.flatMap Round.events
    let n := es.foldl Node.step (.boot fun _ => 0)
    let l := es.foldl Line.step .boot
    n.tcp = l.tcp ∧ n.out = l.out ∧ n.rx.unread = l.waiting.map Arrival.packet :=
  dispatch_refines (fun _ => 0) _ connecting_fits

theorem dispatch_returns_connecting : ∃ n' l',
    (listening.foldl Node.step (.boot fun _ => 0)).pollAndDispatch connecting = some n' ∧
      (listening.foldl Line.step .boot).pollAndDispatch connecting = some l' ∧
      n'.tcp = l'.tcp ∧ n'.out = l'.out ∧ n'.rx.unread = [] :=
  dispatch_returns (fun _ => 0) listening connecting connecting_fits (Nat.lt_succ_self 1)

end RustKernel.Net.Dispatch
