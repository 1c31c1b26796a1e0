import RustKernel.Net.Dhcp.Options
import RustKernel.Net.Ethernet
import RustKernel.Net.Udp

/-!
# RustKernel.Net.Dhcp.Message

DHCP messages: the builder of what the client sends, the parser of what a server answers, and the
layers around both.

## Main result

`receiveReply_replyFrame`: a reply to the transaction number and the hardware address of the client
is accepted, with its address and what its options say. `receiveReply_eq` says that no frame makes
the receiver trap.
-/

namespace RustKernel.Net.Dhcp

open Lib Tcp

/-! ### Constants -/

def DHCP_SERVER : UInt16 := 67
def DHCP_CLIENT : UInt16 := 68

def BROADCAST : Ipv4Addr := ⟨255, 255, 255, 255⟩
def BROADCAST_MAC : MacAddr := ⟨0xFF, 0xFF, 0xFF, 0xFF, 0xFF, 0xFF⟩

def OP_BOOTREQUEST : UInt8 := 1
def OP_BOOTREPLY : UInt8 := 2

def DHCP_DISCOVER : UInt8 := 1
def DHCP_REQUEST : UInt8 := 3
def DHCP_ACK : UInt8 := 5

/-- Standard DHCP magic cookie. -/
def MAGIC_COOKIE : List UInt8 := [0x63, 0x82, 0x53, 0x63]

def DHCP_MSG_SIZE : Nat := 240

def MAGIC_COOKIE_POS : Nat := 236

/-! ### Building -/

/-- The message up to the options. The client leaves `yiaddr` zero. -/
def fixedPart (op : UInt8) (xid : UInt32) (mac : MacAddr) (yiaddr : Ipv4Addr) : List UInt8 :=
  [op, 1, 6, 0] ++ beEncode 4 xid.toNat ++
    -- secs, flags (broadcast) and ciaddr
    [0, 0] ++ [0x80, 0] ++ [0, 0, 0, 0] ++
    [yiaddr.a, yiaddr.b, yiaddr.c, yiaddr.d] ++
    -- siaddr and giaddr
    [0, 0, 0, 0] ++ [0, 0, 0, 0] ++
    mac.bytes ++ List.replicate 10 0 ++
    -- sname and file
    List.replicate 64 0 ++ List.replicate 128 0 ++ MAGIC_COOKIE

def buildDhcpMsg (op : UInt8) (xid : UInt32) (mac : MacAddr) (msgType : UInt8)
    (reqIp serverId : Option Ipv4Addr) : List UInt8 :=
  let buf := fixedPart op xid mac .unspecified ++ [53, 1, msgType] ++
    reqIp.elim [] (fun ip => [50, 4, ip.a, ip.b, ip.c, ip.d]) ++
    serverId.elim [] (fun srv => [54, 4, srv.a, srv.b, srv.c, srv.d]) ++
    [55, 3, 1, 3, 6] ++ [12, 2, 0x6F, 0x73] ++ [255]
  buf ++ List.replicate (DHCP_MSG_SIZE - buf.length) 0

private theorem length_fixedPart (op : UInt8) (xid : UInt32) (mac : MacAddr) (yiaddr : Ipv4Addr) :
    (fixedPart op xid mac yiaddr).length = 240 := by
  simp only [fixedPart, MacAddr.bytes, MAGIC_COOKIE, List.length_append, length_beEncode,
    List.length_cons, List.length_nil, List.length_replicate]

theorem length_buildDhcpMsg_le (op : UInt8) (xid : UInt32) (mac : MacAddr) (msgType : UInt8)
    (reqIp serverId : Option Ipv4Addr) :
    (buildDhcpMsg op xid mac msgType reqIp serverId).length ≤ 265 := by
  have hfixed := length_fixedPart op xid mac .unspecified
  cases reqIp <;> cases serverId <;>
    simp only [buildDhcpMsg, Option.elim_none, Option.elim_some, List.length_append,
      List.length_cons, List.length_nil, List.length_replicate, hfixed] <;> decide

/-! ### Parsing -/

/-- The result of `parse_dhcp_reply`. -/
structure DhcpReply extends DhcpOptions where
  yiaddr : Option Ipv4Addr
  deriving DecidableEq, Repr

/-- Parse a DHCP reply packet. -/
def parseDhcpReply (data : List UInt8) (xid : UInt32) (mac : MacAddr) :
    Checked (Option DhcpReply) :=
  if data.length < DHCP_MSG_SIZE then .ok none
  else if data.getD 0 0 ≠ OP_BOOTREPLY then .ok none
  else if Tcp.u32At data 4 ≠ xid then .ok none
  else if macAt data 28 ≠ mac then .ok none
  else
    let yiaddr := ipAt data 16
    let yiaddr := if yiaddr ≠ .unspecified then some yiaddr else none
    if data.length < MAGIC_COOKIE_POS + 4 then .ok none
    else if window data MAGIC_COOKIE_POS 4 ≠ MAGIC_COOKIE then .ok none
    else do
      let opts ← parseDhcpOptions (data.drop (MAGIC_COOKIE_POS + 4))
      .ok (some { opts with yiaddr })

/-- What the wait loop makes of a frame: a reply, or nothing. -/
def receiveReply (mac : MacAddr) (xid : UInt32) (pkt : List UInt8) : Checked (Option DhcpReply) :=
  match EthernetFrame.parse pkt with
  | none => .ok none
  | some eth =>
    if eth.ethertype = ETHERTYPE_IPV4 then
      match Ipv4Packet.parse eth.payload with
      | none => .ok none
      | some ip =>
        if ip.protocol = 17 then
          match UdpHeader.parse ip.payload with
          | none => .ok none
          | some udp =>
            if udp.dstPort = DHCP_CLIENT then parseDhcpReply udp.payload xid mac
            else .ok none
        else .ok none
    else .ok none

/-! ### No frame makes the receiver trap -/

private theorem parseDhcpReply_ok (data : List UInt8) (xid : UInt32) (mac : MacAddr) :
    ∃ reply, parseDhcpReply data xid mac = .ok reply := by
  unfold parseDhcpReply
  split
  · exact ⟨none, rfl⟩
  split
  · exact ⟨none, rfl⟩
  split
  · exact ⟨none, rfl⟩
  split
  · exact ⟨none, rfl⟩
  dsimp only
  split
  · exact ⟨none, rfl⟩
  split
  · exact ⟨none, rfl⟩
  rw [parseDhcpOptions_eq, ok_bind]
  exact ⟨_, rfl⟩

private theorem receiveReply_ok (mac : MacAddr) (xid : UInt32) (pkt : List UInt8) :
    ∃ reply, receiveReply mac xid pkt = .ok reply := by
  unfold receiveReply
  split
  · exact ⟨none, rfl⟩
  split
  case isFalse => exact ⟨none, rfl⟩
  split
  · exact ⟨none, rfl⟩
  split
  case isFalse => exact ⟨none, rfl⟩
  split
  · exact ⟨none, rfl⟩
  split
  case isFalse => exact ⟨none, rfl⟩
  exact parseDhcpReply_ok _ _ _

/-- The reply for which the wait loop would end, if the frame is one. -/
def accepted (mac : MacAddr) (xid : UInt32) (pkt : List UInt8) : Option DhcpReply :=
  match receiveReply mac xid pkt with
  | .ok reply => reply
  | .error _ => none

theorem receiveReply_eq (mac : MacAddr) (xid : UInt32) (pkt : List UInt8) :
    receiveReply mac xid pkt = .ok (accepted mac xid pkt) := by
  obtain ⟨reply, hreply⟩ := receiveReply_ok mac xid pkt
  rw [accepted, hreply]

/-! ### The replies of a server -/

/-- A reply as a server sends it, with options of its own. -/
def replyBytes (xid : UInt32) (mac : MacAddr) (yiaddr : Ipv4Addr) (opts : List UInt8) :
    List UInt8 :=
  fixedPart OP_BOOTREPLY xid mac yiaddr ++ opts

/-- The frame around a reply. -/
def replyFrame (dst src : MacAddr) (srcIp dstIp : Ipv4Addr) (totalLen cksum : UInt16)
    (xid : UInt32) (mac : MacAddr) (yiaddr : Ipv4Addr) (opts : List UInt8) : List UInt8 :=
  frameBytes dst src ETHERTYPE_IPV4 (headerBytes srcIp dstIp 17 totalLen cksum ++
    datagramBytes DHCP_SERVER DHCP_CLIENT (replyBytes xid mac yiaddr opts))

private theorem parseDhcpReply_replyBytes (xid : UInt32) (mac : MacAddr) {yiaddr : Ipv4Addr}
    (hyiaddr : yiaddr ≠ .unspecified) (opts : List UInt8) :
    parseDhcpReply (replyBytes xid mac yiaddr opts) xid mac =
      .ok (some { (Tlv.records 0 255 opts).foldl DhcpOptions.take .initial with yiaddr }) := by
  have hlen := length_fixedPart OP_BOOTREPLY xid mac yiaddr
  have hopts : (replyBytes xid mac yiaddr opts).drop (MAGIC_COOKIE_POS + 4) = opts :=
    List.drop_left' hlen
  have hlong : DHCP_MSG_SIZE ≤ (replyBytes xid mac yiaddr opts).length := by
    rw [replyBytes, List.length_append, hlen]
    exact Nat.le_add_right 240 _
  have hlong' : MAGIC_COOKIE_POS + 4 ≤ (replyBytes xid mac yiaddr opts).length := hlong
  -- the fields that are checked, each at its offset
  have hop : (replyBytes xid mac yiaddr opts).getD 0 0 = OP_BOOTREPLY := rfl
  have hxid : Tcp.u32At (replyBytes xid mac yiaddr opts) 4 = xid := by
    have hdecode := u32_ofNat_beDecode xid
    simp only [replyBytes, fixedPart, Tcp.u32At, Lib.window, beEncode_four, List.cons_append,
      List.nil_append, List.drop_succ_cons, List.drop_zero, List.take_succ_cons,
      List.take_zero] at hdecode ⊢
    exact hdecode
  have hmac : macAt (replyBytes xid mac yiaddr opts) 28 = mac := by
    simp only [replyBytes, fixedPart, MacAddr.bytes, macAt, beEncode_four, List.cons_append,
      List.nil_append, List.getD_cons_succ, List.getD_cons_zero]
  have hip : ipAt (replyBytes xid mac yiaddr opts) 16 = yiaddr := by
    simp only [replyBytes, fixedPart, ipAt, beEncode_four, List.cons_append, List.nil_append,
      List.getD_cons_succ, List.getD_cons_zero]
  have hcookie : window (replyBytes xid mac yiaddr opts) MAGIC_COOKIE_POS 4 = MAGIC_COOKIE := by
    rw [replyBytes, fixedPart, List.append_assoc, window, List.drop_left']
    · rfl
    simp only [MacAddr.bytes, MAGIC_COOKIE_POS, List.length_append, length_beEncode,
      List.length_cons, List.length_nil, List.length_replicate]
  rw [parseDhcpReply, if_neg (Nat.not_lt.mpr hlong), if_neg (not_not.mpr hop),
    if_neg (not_not.mpr hxid), if_neg (not_not.mpr hmac)]
  dsimp only
  rw [hip, if_pos hyiaddr, if_neg (Nat.not_lt.mpr hlong'), if_neg (not_not.mpr hcookie), hopts,
    parseDhcpOptions_eq]
  rfl

/-- A reply to the transaction number and the hardware address is accepted. -/
theorem receiveReply_replyFrame (dst src : MacAddr) (srcIp dstIp : Ipv4Addr)
    (totalLen cksum : UInt16) (xid : UInt32) (mac : MacAddr) {yiaddr : Ipv4Addr}
    (hyiaddr : yiaddr ≠ .unspecified) (opts : List UInt8) :
    receiveReply mac xid (replyFrame dst src srcIp dstIp totalLen cksum xid mac yiaddr opts) =
      .ok (some { (Tlv.records 0 255 opts).foldl DhcpOptions.take .initial with yiaddr }) := by
  have hlong : 46 ≤ (headerBytes srcIp dstIp 17 totalLen cksum ++
      datagramBytes DHCP_SERVER DHCP_CLIENT (replyBytes xid mac yiaddr opts)).length := by
    rw [List.length_append, length_headerBytes, length_datagramBytes, replyBytes,
      List.length_append, length_fixedPart]
    omega
  rw [receiveReply, replyFrame, parse_frameBytes _ _ _ _ hlong]
  dsimp only
  rw [if_pos rfl, parse_headerBytes]
  dsimp only
  rw [if_pos rfl, parse_datagramBytes]
  dsimp only
  rw [if_pos rfl, parseDhcpReply_replyBytes xid mac hyiaddr opts]

theorem accepted_replyFrame (dst src : MacAddr) (srcIp dstIp : Ipv4Addr) (totalLen cksum : UInt16)
    (xid : UInt32) (mac : MacAddr) {yiaddr : Ipv4Addr} (hyiaddr : yiaddr ≠ .unspecified)
    (fields : List (Nat × Tlv.Field 0 255)) (pads : Nat) (tail : List UInt8) :
    accepted mac xid (replyFrame dst src srcIp dstIp totalLen cksum xid mac yiaddr
        (Tlv.encoded 0 255 fields pads tail)) =
      some { (recordsOf fields).foldl DhcpOptions.take .initial with yiaddr } := by
  rw [accepted, receiveReply_replyFrame _ _ _ _ _ _ _ _ hyiaddr, Tlv.records_encoded (by decide)]
  rfl

end RustKernel.Net.Dhcp
