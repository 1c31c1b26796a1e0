import Mathlib.Data.List.TakeWhile
import RustKernel.Net.Dhcp.Message
import RustKernel.Net.Timeouts

/-!
# RustKernel.Net.Dhcp.Exchange

The DHCP transaction: DISCOVER and a wait for the answer, REQUEST and a second wait.

A wait is given by what its loop sees turn by turn, the clock and the next frame if there is one.
The frames may be anything, from any number of servers and in any order.

## Main results

`agreement_iff`: the configuration that is returned was offered and acknowledged by one server
exactly in the runs that `AgreementGuard` describes.

`stray_iff`: with an OFFER and a later ACK, the acknowledged options are returned exactly when no
other reply ends the second wait before the ACK, or one that acknowledges the same.

## Proof strategy

Either wait ends with the first reply to the transaction, of whatever type
(`waitReply_eq_some_iff`). So the result is a function of two replies, `dhcpRequest_eq_some_iff`,
and `Wait.reply_eq_some_iff` takes them back to the frames.
-/

namespace RustKernel.Net.Dhcp

open Lib Tcp

/-! ### The transaction -/

/-- A turn of the wait loop. -/
structure Turn where
  now : UInt64
  frame : Option (List UInt8)

/-- What `send_and_recv` meets: the network card that takes the message or not, the clock when the
    wait starts, and the turns of its loop. -/
structure Wait where
  send : List UInt8 → Bool
  start : UInt64
  turns : List Turn

/-- A run without a result: a failed check, or a loop that is still waiting. -/
inductive Unfinished where
  | trapped (trap : Trap)
  | waiting
  deriving DecidableEq, Repr

abbrev Proc := Except Unfinished

/-- The wait loop. -/
def waitReply (mac : MacAddr) (xid : UInt32) (start : UInt64) :
    List Turn → Proc (Option DhcpReply)
  | [] => .error .waiting
  | turn :: turns =>
    if dhcpWaits start turn.now then
      match turn.frame with
      | none => waitReply mac xid start turns
      | some pkt =>
        match receiveReply mac xid pkt with
        | .error trap => .error (.trapped trap)
        | .ok (some result) => .ok (some result)
        | .ok none => waitReply mac xid start turns
    else .ok none

/-- The frame around a message, in the buffers of `send_and_recv`. -/
def dhcpFrame (payload : List UInt8) (mac : MacAddr) : Option (List UInt8) := do
  let udp ← UdpHeader.build DHCP_CLIENT DHCP_SERVER payload 512
  let header ← Ipv4Packet.build .unspecified BROADCAST 17 (UInt16.ofNat udp.length) 532
  EthernetFrame.build BROADCAST_MAC mac 0x0800 (header ++ udp) (14 + 532)

/-- Send a DHCP message and poll for the response with a timer-based timeout. -/
def sendAndRecv (payload : List UInt8) (mac : MacAddr) (xid : UInt32) (wait : Wait) :
    Proc (Option DhcpReply) :=
  match dhcpFrame payload mac with
  | none => .ok none
  | some frame =>
    if wait.send frame then waitReply mac xid wait.start wait.turns
    else .ok none

/-- All of `NetConfig`. -/
structure LeasedConfig extends NetConfig where
  subnet : Ipv4Addr
  gateway : Ipv4Addr
  dns : Ipv4Addr
  deriving DecidableEq, Repr

/-- The configuration from an address and a reply. -/
def DhcpReply.leased (reply : DhcpReply) (ip : Ipv4Addr) : LeasedConfig where
  ip
  subnet := reply.subnet.getD ⟨255, 255, 255, 0⟩
  gateway := reply.gateway.getD ⟨10, 0, 2, 2⟩
  dns := reply.dns.getD ⟨8, 8, 8, 8⟩

def discoverMsg (mac : MacAddr) (xid : UInt32) : List UInt8 :=
  buildDhcpMsg OP_BOOTREQUEST xid mac DHCP_DISCOVER none none

def requestMsg (mac : MacAddr) (xid : UInt32) (ip : Ipv4Addr) (serverId : Option Ipv4Addr) :
    List UInt8 :=
  buildDhcpMsg OP_BOOTREQUEST xid mac DHCP_REQUEST (some ip) serverId

/-- Run a full DHCP transaction (discover → offer → request → ack). -/
def dhcpRequest (mac : MacAddr) (xid : UInt32) (discovering requesting : Wait) :
    Proc (Option LeasedConfig) := do
  match ← sendAndRecv (discoverMsg mac xid) mac xid discovering with
  | none => .ok none
  | some offered =>
    match offered.yiaddr with
    | none => .ok none
    | some offeredIp =>
      match ← sendAndRecv (requestMsg mac xid offeredIp offered.serverId) mac xid requesting with
      | none => .ok none
      | some acked =>
        if acked.msgType ≠ DHCP_ACK then .ok none else .ok (some (acked.leased offeredIp))

/-! ### A wait -/

/-- The first reply to the transaction. -/
def firstReply (mac : MacAddr) (xid : UInt32) (turns : List Turn) : Option DhcpReply :=
  turns.findSome? fun turn => turn.frame.bind (accepted mac xid)

/-- The turns before the deadline. -/
def Wait.inTime (wait : Wait) : List Turn :=
  wait.turns.takeWhile fun turn => dhcpWaits wait.start turn.now

def Wait.reply (wait : Wait) (mac : MacAddr) (xid : UInt32) : Option DhcpReply :=
  firstReply mac xid wait.inTime

/-- The message is built and taken by the network card. -/
def Wait.Sends (wait : Wait) (mac : MacAddr) (payload : List UInt8) : Prop :=
  ∃ frame, dhcpFrame payload mac = some frame ∧ wait.send frame

/-- The loop polls the frame: each turn up to it is before the deadline, and no earlier frame ended
    the wait. -/
def Wait.Receives (wait : Wait) (mac : MacAddr) (xid : UInt32) (pkt : List UInt8) : Prop :=
  ∃ before now after, wait.turns = before ++ ⟨now, some pkt⟩ :: after ∧
    (∀ turn ∈ before ++ [⟨now, some pkt⟩], dhcpWaits wait.start turn.now) ∧
    firstReply mac xid before = none

section Waits

variable {mac : MacAddr} {xid : UInt32} {start : UInt64} {wait : Wait} {turns : List Turn}
  {reply : DhcpReply} {payload : List UInt8}

theorem waitReply_eq_some_iff :
    waitReply mac xid start turns = .ok (some reply) ↔
      firstReply mac xid (turns.takeWhile fun turn => dhcpWaits start turn.now) = some reply := by
  induction turns with
  | nil => simp [waitReply, firstReply]
  | cons turn turns ih =>
    rw [waitReply]
    split
    case isFalse hover =>
      rw [List.takeWhile_cons, if_neg hover]
      simp [firstReply]
    case isTrue hwaits =>
      rw [List.takeWhile_cons, if_pos hwaits, firstReply, List.findSome?_cons]
      -- without a frame, or with one that is not a reply, the loop goes on
      cases hframe : turn.frame with
      | none => exact ih
      | some pkt =>
        rw [Option.bind_some]
        dsimp only
        rw [receiveReply_eq]
        cases accepted mac xid pkt with
        | none => exact ih
        | some result => simp

private theorem sendAndRecv_eq_some_iff :
    sendAndRecv payload mac xid wait = .ok (some reply) ↔
      wait.Sends mac payload ∧ wait.reply mac xid = some reply := by
  rw [sendAndRecv, Wait.Sends, Wait.reply, Wait.inTime, ← waitReply_eq_some_iff]
  cases hframe : dhcpFrame payload mac with
  | none => simp
  | some frame =>
    cases hsend : wait.send frame with
    | false => simp [hsend]
    | true => simp [hsend]

private theorem firstReply_append (before after : List Turn) :
    firstReply mac xid (before ++ after) =
      (firstReply mac xid before).or (firstReply mac xid after) :=
  List.findSome?_append

/-- Up to a frame that is accepted in time, nothing behind it matters. -/
private theorem Wait.reply_of_accepted {before after : List Turn} {now : UInt64} {pkt : List UInt8}
    (hturns : wait.turns = before ++ ⟨now, some pkt⟩ :: after)
    (hwaits : ∀ turn ∈ before ++ [⟨now, some pkt⟩], dhcpWaits wait.start turn.now)
    (hpkt : accepted mac xid pkt = some reply) :
    wait.reply mac xid = some ((firstReply mac xid before).getD reply) := by
  have hsplit : wait.turns = (before ++ [⟨now, some pkt⟩]) ++ after := by
    rw [hturns, List.append_assoc]
    rfl
  have hlast : firstReply mac xid [⟨now, some pkt⟩] = some reply := by
    rw [firstReply, List.findSome?_singleton, Option.bind_some, hpkt]
  rw [Wait.reply, Wait.inTime, hsplit, List.takeWhile_append_of_pos hwaits, firstReply_append,
    firstReply_append, hlast]
  cases firstReply mac xid before <;> rfl

/-- A reply in a wait comes from a frame that the loop polls. -/
theorem Wait.reply_eq_some_iff :
    wait.reply mac xid = some reply ↔
      ∃ pkt, wait.Receives mac xid pkt ∧ accepted mac xid pkt = some reply := by
  constructor
  · intro hreply
    obtain ⟨before, turn, after, hinTime, hturn, hbefore⟩ := List.findSome?_eq_some_iff.mp hreply
    obtain ⟨pkt, hframe, hpkt⟩ := Option.bind_eq_some_iff.mp hturn
    obtain ⟨now, frame⟩ := turn
    obtain rfl : frame = some pkt := hframe
    -- behind the turns in time come those from the deadline on
    refine ⟨pkt, ⟨before, now, after ++ wait.turns.dropWhile
      (fun turn => dhcpWaits wait.start turn.now), ?_, ?_, ?_⟩, hpkt⟩
    · rw [← List.cons_append, ← List.append_assoc, ← hinTime, Wait.inTime,
        List.takeWhile_append_dropWhile]
    · intro turn hmem
      have hpolled : turn ∈ wait.inTime := by
        rw [hinTime, List.append_cons]
        exact List.mem_append_left after hmem
      exact List.mem_takeWhile_imp (p := fun turn : Turn => dhcpWaits wait.start turn.now) hpolled
    · exact List.findSome?_eq_none_iff.mpr hbefore
  · rintro ⟨pkt, ⟨before, now, after, hturns, hwaits, hbefore⟩, hpkt⟩
    rw [Wait.reply_of_accepted hturns hwaits hpkt, hbefore]
    rfl

end Waits

/-- What fits into a datagram of 512 bytes can be sent. -/
private theorem Wait.sends (wait : Wait) (mac : MacAddr) {payload : List UInt8}
    (hlen : payload.length ≤ 504) (hsend : ∀ frame, wait.send frame) : wait.Sends mac payload := by
  have hdatagram := length_datagramBytes DHCP_CLIENT DHCP_SERVER payload
  have hframe : ∃ frame, dhcpFrame payload mac = some frame := by
    rw [dhcpFrame, UdpHeader.build, if_neg (by omega)]
    simp only [Option.bind_eq_bind, Option.bind_some]
    rw [Ipv4Packet.build, if_neg (by omega)]
    simp only [Option.bind_some]
    refine ⟨_, if_neg ?_⟩
    rw [List.length_append, length_headerBytes]
    omega
  obtain ⟨frame, hframe⟩ := hframe
  exact ⟨frame, hframe, hsend frame⟩

/-- Every message of the client fits. -/
private theorem Wait.sends_msg (wait : Wait) (mac : MacAddr) (xid : UInt32) (msgType : UInt8)
    (reqIp serverId : Option Ipv4Addr) (hsend : ∀ frame, wait.send frame) :
    wait.Sends mac (buildDhcpMsg OP_BOOTREQUEST xid mac msgType reqIp serverId) := by
  have hlen := length_buildDhcpMsg_le OP_BOOTREQUEST xid mac msgType reqIp serverId
  exact wait.sends mac (by omega) hsend

/-! ### Both waits -/

/-- Both messages are sent, the first wait ends with a reply that has an address, and the second one
    with a reply. -/
structure Exchanged (mac : MacAddr) (xid : UInt32) (discovering requesting : Wait)
    (offered : DhcpReply) (ip : Ipv4Addr) (acked : DhcpReply) : Prop where
  discover : discovering.Sends mac (discoverMsg mac xid)
  offered_eq : discovering.reply mac xid = some offered
  yiaddr_eq : offered.yiaddr = some ip
  request : requesting.Sends mac (requestMsg mac xid ip offered.serverId)
  acked_eq : requesting.reply mac xid = some acked

section Transaction

variable {mac : MacAddr} {xid : UInt32} {discovering requesting : Wait} {cfg : LeasedConfig}

/-- The transaction goes on with a reply only. -/
private theorem replied_iff {x : Proc (Option DhcpReply)}
    {f : DhcpReply → Proc (Option LeasedConfig)} :
    (do match ← x with | none => .ok none | some reply => f reply) = .ok (some cfg) ↔
      ∃ reply, x = .ok (some reply) ∧ f reply = .ok (some cfg) := by
  rcases x with unfinished | reply | reply
  · exact iff_of_false nofun (by rintro ⟨reply, hreply, -⟩; cases hreply)
  · exact iff_of_false nofun (by rintro ⟨reply, hreply, -⟩; cases hreply)
  · exact ⟨fun h => ⟨reply, rfl, h⟩, fun ⟨_, hreply, h⟩ => by cases hreply; exact h⟩

/-- A result of the transaction comes from two replies. -/
theorem dhcpRequest_eq_some_iff :
    dhcpRequest mac xid discovering requesting = .ok (some cfg) ↔
      ∃ offered ip acked, Exchanged mac xid discovering requesting offered ip acked ∧
        acked.msgType = DHCP_ACK ∧ cfg = acked.leased ip := by
  rw [dhcpRequest, replied_iff]
  -- the first reply is only asked for its address, the second for its type
  constructor
  · rintro ⟨offered, hoffered, hrest⟩
    obtain ⟨hdiscover, hoffer⟩ := sendAndRecv_eq_some_iff.mp hoffered
    cases hip : offered.yiaddr with
    | none =>
      rw [hip] at hrest
      cases hrest
    | some ip =>
      rw [hip] at hrest
      obtain ⟨acked, hacked, hrest⟩ := replied_iff.mp hrest
      obtain ⟨hrequest, hack⟩ := sendAndRecv_eq_some_iff.mp hacked
      split at hrest
      · cases hrest
      · next htype =>
        cases hrest
        exact ⟨offered, ip, acked, ⟨hdiscover, hoffer, hip, hrequest, hack⟩, not_not.mp htype, rfl⟩
  · rintro ⟨offered, ip, acked, hexchanged, htype, rfl⟩
    refine ⟨offered, sendAndRecv_eq_some_iff.mpr ⟨hexchanged.discover, hexchanged.offered_eq⟩, ?_⟩
    rw [hexchanged.yiaddr_eq]
    refine replied_iff.mpr ⟨acked, sendAndRecv_eq_some_iff.mpr
      ⟨hexchanged.request, hexchanged.acked_eq⟩, ?_⟩
    rw [if_neg (not_not.mpr htype)]

end Transaction

/-! ### Sample runs -/

namespace Sample

def clientMac : MacAddr := ⟨0x52, 0x54, 0, 0x12, 0x34, 0x56⟩

def serverA : Ipv4Addr := ⟨10, 0, 2, 2⟩
def serverB : Ipv4Addr := ⟨10, 0, 2, 3⟩

/-- A reply of a server in transaction 7. -/
def serverReply (msgType : UInt8) (server ip : Ipv4Addr) : List UInt8 :=
  let cksum := ipChecksum (headerBytes server BROADCAST 17 278 0)
  replyFrame BROADCAST_MAC ⟨0x52, 0x55, 10, 0, 2, server.d⟩ server BROADCAST 278 cksum 7 clientMac
    ip (Tlv.encoded 0 255 [(0, ⟨53, [msgType], messageType_tag, by simp⟩),
      (0, ⟨54, [server.a, server.b, server.c, server.d], by decide, by simp⟩)] 0 [])

/-- What the client reads from it. -/
def seenReply (msgType : UInt8) (server ip : Ipv4Addr) : DhcpReply :=
  ⟨⟨msgType, none, none, none, some server⟩, some ip⟩

private theorem accepted_serverReply (msgType : UInt8) (server ip : Ipv4Addr)
    (hip : ip ≠ .unspecified) :
    accepted clientMac 7 (serverReply msgType server ip) = some (seenReply msgType server ip) :=
  accepted_replyFrame _ _ _ _ _ _ _ _ hip _ _ _

/-- A wait that sends and then gets the frames at once. -/
def hears (frames : List (List UInt8)) : Wait where
  send := fun _ => true
  start := 0
  turns := frames.map fun pkt => ⟨0, some pkt⟩

private theorem hears_sends (frames : List (List UInt8)) (msgType : UInt8)
    (reqIp serverId : Option Ipv4Addr) :
    (hears frames).Sends clientMac
      (buildDhcpMsg OP_BOOTREQUEST 7 clientMac msgType reqIp serverId) :=
  (hears frames).sends_msg clientMac 7 msgType reqIp serverId fun _ => rfl

private theorem hears_inTime {turn : Turn} {frames : List (List UInt8)}
    (h : turn ∈ (hears frames).turns) :
    dhcpWaits 0 turn.now := by
  obtain ⟨pkt, -, rfl⟩ := List.mem_map.mp h
  exact (by decide : dhcpWaits 0 0 = true)

private theorem hears_reply {pkt : List UInt8} {reply : DhcpReply} (frames : List (List UInt8))
    (h : accepted clientMac 7 pkt = some reply) :
    (hears (pkt :: frames)).reply clientMac 7 = some reply := by
  have hturns : (hears (pkt :: frames)).turns = [] ++ ⟨0, some pkt⟩ :: (hears frames).turns := rfl
  refine Wait.reply_of_accepted hturns (fun turn hmem => ?_) h
  have hmem' : turn ∈ (hears [pkt]).turns := hmem
  exact hears_inTime hmem'

end Sample

/-! ### Agreement -/

/-- The type of an OFFER, which the source does not name. -/
def DHCP_OFFER : UInt8 := 2

/-- The address was offered in the first wait, requested from the server of the offer, and
    acknowledged by it in the second wait. -/
def Agreement (mac : MacAddr) (xid : UInt32) (discovering requesting : Wait)
    (cfg : LeasedConfig) : Prop :=
  ∃ offer ack offered acked server,
    (discovering.Receives mac xid offer ∧ accepted mac xid offer = some offered ∧
      offered.msgType = DHCP_OFFER ∧ offered.yiaddr = some cfg.ip ∧
      offered.serverId = some server) ∧
    requesting.Sends mac (requestMsg mac xid cfg.ip (some server)) ∧
    (requesting.Receives mac xid ack ∧ accepted mac xid ack = some acked ∧
      acked.msgType = DHCP_ACK ∧ acked.yiaddr = some cfg.ip ∧ acked.serverId = some server)

/-- If the first reply with the address is followed by an ACK, it was an OFFER, and the ACK is from
    the same server and for the same address. -/
def AgreementGuard (mac : MacAddr) (xid : UInt32) (discovering requesting : Wait) : Prop :=
  ∀ offered ip acked, Exchanged mac xid discovering requesting offered ip acked →
    acked.msgType = DHCP_ACK →
    offered.msgType = DHCP_OFFER ∧ acked.yiaddr = some ip ∧
      ∃ server, offered.serverId = some server ∧ acked.serverId = some server

/-- **Agreement**: what is returned was offered, and then acknowledged by the server that offered
    it, exactly when the first replies of both waits say so. -/
theorem agreement_iff (mac : MacAddr) (xid : UInt32) (discovering requesting : Wait) :
    (∀ cfg, dhcpRequest mac xid discovering requesting = .ok (some cfg) →
        Agreement mac xid discovering requesting cfg) ↔
      AgreementGuard mac xid discovering requesting := by
  constructor
  · intro hall offered ip acked hexchanged htype
    have hresult := dhcpRequest_eq_some_iff.mpr ⟨offered, ip, acked, hexchanged, htype, rfl⟩
    obtain ⟨offer, ack, offered', acked', server, ⟨hoffer, haccepted, hoffer_type, hip, hserver⟩, -,
      hack, hacked, -, hack_ip, hack_server⟩ := hall _ hresult
    -- a wait has one reply only
    obtain rfl : offered = offered' := Option.some.inj
      (hexchanged.offered_eq.symm.trans (Wait.reply_eq_some_iff.mpr ⟨offer, hoffer, haccepted⟩))
    obtain rfl : acked = acked' := Option.some.inj
      (hexchanged.acked_eq.symm.trans (Wait.reply_eq_some_iff.mpr ⟨ack, hack, hacked⟩))
    exact ⟨hoffer_type, hack_ip, server, hserver, hack_server⟩
  · intro hguard cfg hresult
    obtain ⟨offered, ip, acked, hexchanged, htype, rfl⟩ := dhcpRequest_eq_some_iff.mp hresult
    obtain ⟨hoffer_type, hack_ip, server, hserver, hack_server⟩ :=
      hguard offered ip acked hexchanged htype
    obtain ⟨offer, hoffer, haccepted⟩ := Wait.reply_eq_some_iff.mp hexchanged.offered_eq
    obtain ⟨ack, hack, hacked⟩ := Wait.reply_eq_some_iff.mp hexchanged.acked_eq
    have hrequest := hexchanged.request
    rw [hserver] at hrequest
    exact ⟨offer, ack, offered, acked, server,
      ⟨hoffer, haccepted, hoffer_type, hexchanged.yiaddr_eq, hserver⟩, hrequest,
      hack, hacked, htype, hack_ip, hack_server⟩

/-- Server A offers an address, and server B acknowledges another one: the configuration has the
    first one. -/
theorem other_server_acknowledges :
    ¬∀ mac xid discovering requesting cfg,
      dhcpRequest mac xid discovering requesting = .ok (some cfg) →
        Agreement mac xid discovering requesting cfg := by
  intro hall
  have hoffer := Sample.hears_reply []
    (Sample.accepted_serverReply DHCP_OFFER Sample.serverA ⟨10, 0, 2, 15⟩ (by decide))
  have hack := Sample.hears_reply []
    (Sample.accepted_serverReply DHCP_ACK Sample.serverB ⟨10, 0, 2, 99⟩ (by decide))
  have hresult := dhcpRequest_eq_some_iff.mpr ⟨_, _, _, ⟨Sample.hears_sends _ _ _ _, hoffer, rfl,
    Sample.hears_sends _ _ _ _, hack⟩, rfl, rfl⟩
  obtain ⟨_, ack, _, acked, _, -, -, hreceives, haccepted, -, hip, -⟩ := hall _ _ _ _ _ hresult
  -- the ACK that was received has the other address
  have hsame := hack.symm.trans (Wait.reply_eq_some_iff.mpr ⟨ack, hreceives, haccepted⟩)
  obtain rfl := Option.some.inj hsame
  revert hip
  decide

/-! ### Stray offers -/

/-- An OFFER ends the first wait, the REQUEST for its address is sent, and in the second wait an ACK
    of the same server is the frame behind the turns `before`, in time. -/
structure OfferThenAck (mac : MacAddr) (xid : UInt32) (discovering requesting : Wait)
    (offered acked : DhcpReply) (before : List Turn) : Prop where
  discover : discovering.Sends mac (discoverMsg mac xid)
  offered_eq : discovering.reply mac xid = some offered
  offer : offered.msgType = DHCP_OFFER
  request : ∀ ip, offered.yiaddr = some ip →
    requesting.Sends mac (requestMsg mac xid ip offered.serverId)
  arrives : ∃ now pkt after, requesting.turns = before ++ ⟨now, some pkt⟩ :: after ∧
    (∀ turn ∈ before ++ [⟨now, some pkt⟩], dhcpWaits requesting.start turn.now) ∧
    accepted mac xid pkt = some acked
  ack : acked.msgType = DHCP_ACK
  server : acked.serverId = offered.serverId

theorem OfferThenAck.reply_eq {mac : MacAddr} {xid : UInt32} {discovering requesting : Wait}
    {offered acked : DhcpReply} {before : List Turn}
    (h : OfferThenAck mac xid discovering requesting offered acked before) :
    requesting.reply mac xid = some ((firstReply mac xid before).getD acked) := by
  obtain ⟨now, pkt, after, hturns, hwaits, hpkt⟩ := h.arrives
  exact Wait.reply_of_accepted hturns hwaits hpkt

/-- **Stray offers**: the acknowledged options are returned exactly when the OFFER has an address
    and the first reply before the ACK, if there is one, is an ACK of the same options. -/
theorem stray_iff (mac : MacAddr) (xid : UInt32) (discovering requesting : Wait)
    (offered acked : DhcpReply) (before : List Turn)
    (h : OfferThenAck mac xid discovering requesting offered acked before) :
    (∃ ip, dhcpRequest mac xid discovering requesting = .ok (some (acked.leased ip))) ↔
      ∃ ip, offered.yiaddr = some ip ∧ ∀ stray, firstReply mac xid before = some stray →
        stray.msgType = DHCP_ACK ∧ stray.leased ip = acked.leased ip := by
  constructor
  · rintro ⟨ip', hresult⟩
    obtain ⟨offered', ip, reply, hexchanged, htype, hleased⟩ := dhcpRequest_eq_some_iff.mp hresult
    obtain rfl : offered = offered' :=
      Option.some.inj (h.offered_eq.symm.trans hexchanged.offered_eq)
    obtain rfl : ip' = ip := congrArg (fun cfg => cfg.ip) hleased
    -- a reply before the ACK is the one that ended the wait
    refine ⟨ip', hexchanged.yiaddr_eq, fun stray hstray => ?_⟩
    have hreply := h.reply_eq
    rw [hstray, hexchanged.acked_eq] at hreply
    obtain rfl : reply = stray := Option.some.inj hreply
    exact ⟨htype, hleased.symm⟩
  · rintro ⟨ip, hip, hstrays⟩
    refine ⟨ip, dhcpRequest_eq_some_iff.mpr ⟨offered, ip, (firstReply mac xid before).getD acked,
      ⟨h.discover, h.offered_eq, hip, h.request ip hip, h.reply_eq⟩, ?_⟩⟩
    cases hfirst : firstReply mac xid before with
    | none => exact ⟨h.ack, rfl⟩
    | some stray =>
      obtain ⟨htype, hleased⟩ := hstrays stray hfirst
      exact ⟨htype, hleased.symm⟩

/-- An OFFER of server A, and in the second wait an ACK behind the given replies. -/
private theorem offer_then_ack (strays : List (List UInt8)) :
    OfferThenAck Sample.clientMac 7
      (Sample.hears [Sample.serverReply DHCP_OFFER Sample.serverA ⟨10, 0, 2, 15⟩])
      (Sample.hears (strays ++ [Sample.serverReply DHCP_ACK Sample.serverA ⟨10, 0, 2, 15⟩]))
      (Sample.seenReply DHCP_OFFER Sample.serverA ⟨10, 0, 2, 15⟩)
      (Sample.seenReply DHCP_ACK Sample.serverA ⟨10, 0, 2, 15⟩)
      (Sample.hears strays).turns where
  discover := Sample.hears_sends _ _ _ _
  offered_eq := Sample.hears_reply [] (Sample.accepted_serverReply _ _ _ (by decide))
  offer := rfl
  request := fun ip _ => Sample.hears_sends _ _ _ _
  arrives := by
    have hturns : (Sample.hears (strays ++
        [Sample.serverReply DHCP_ACK Sample.serverA ⟨10, 0, 2, 15⟩])).turns =
        (Sample.hears strays).turns ++
          [⟨0, some (Sample.serverReply DHCP_ACK Sample.serverA ⟨10, 0, 2, 15⟩)⟩] :=
      List.map_append
    refine ⟨0, _, [], hturns, fun turn hmem => ?_, Sample.accepted_serverReply _ _ _ (by decide)⟩
    rw [← hturns] at hmem
    exact Sample.hears_inTime hmem
  ack := rfl
  server := rfl

/-- Without other replies the transaction succeeds. -/
theorem acknowledged_at_once :
    ∃ ip, dhcpRequest Sample.clientMac 7
        (Sample.hears [Sample.serverReply DHCP_OFFER Sample.serverA ⟨10, 0, 2, 15⟩])
        (Sample.hears [Sample.serverReply DHCP_ACK Sample.serverA ⟨10, 0, 2, 15⟩]) =
      .ok (some ((Sample.seenReply DHCP_ACK Sample.serverA ⟨10, 0, 2, 15⟩).leased ip)) :=
  (stray_iff Sample.clientMac 7 _ _ _ _ _ (offer_then_ack [])).mpr
    ⟨⟨10, 0, 2, 15⟩, rfl, fun _ hstray => absurd hstray nofun⟩

/-- A late OFFER of server B ends the second wait, and the transaction. -/
theorem late_offer_ends_wait :
    ¬∀ mac xid discovering requesting offered acked before,
      OfferThenAck mac xid discovering requesting offered acked before →
      ∃ ip, dhcpRequest mac xid discovering requesting = .ok (some (acked.leased ip)) := by
  intro hall
  obtain ⟨ip, hresult⟩ := hall _ _ _ _ _ _ _
    (offer_then_ack [Sample.serverReply DHCP_OFFER Sample.serverB ⟨10, 0, 2, 99⟩])
  obtain ⟨offered, ip', acked, hexchanged, htype, -⟩ := dhcpRequest_eq_some_iff.mp hresult
  have hlate := Sample.hears_reply
    [Sample.serverReply DHCP_ACK Sample.serverA ⟨10, 0, 2, 15⟩]
    (Sample.accepted_serverReply DHCP_OFFER Sample.serverB ⟨10, 0, 2, 99⟩ (by decide))
  -- the reply that ended the second wait is the OFFER
  obtain rfl := Option.some.inj (hlate.symm.trans hexchanged.acked_eq)
  exact absurd htype (by decide)

end RustKernel.Net.Dhcp
