import RustKernel.Net.Ethernet
import RustKernel.Net.Ipv4

/-!
# RustKernel.Net.Encapsulation

A segment on its way through the layers: built as TCP in IPv4 in Ethernet, padded on the wire, and
parsed again as `poll_and_dispatch` does.

## Main result

`recovers_iff`: the fields and the payload are recovered exactly when no padding was added.
`Ipv4Packet.parse` does not cut its payload at the total length, so the padding of a short frame
ends up in the payload of the segment (`parseFrame_padded`).
-/

namespace RustKernel.Net

open Tcp

/-- What is sent: addresses, header fields and payload, within the limits of a segment. -/
structure Outgoing where
  dstMac : MacAddr
  srcMac : MacAddr
  srcIp : Ipv4Addr
  dstIp : Ipv4Addr
  srcPort : UInt16
  dstPort : UInt16
  seq : UInt32
  ack : UInt32
  flags : UInt8
  window : UInt16
  payload : List UInt8
  flags_lt : flags < 64
  length_le : payload.length ≤ MSS

/-- The frame, built in the buffers of `send_segment_raw`. -/
def Outgoing.buildFrame (o : Outgoing) : Option (List UInt8) := do
  let segment ← TcpHeader.build o.srcPort o.dstPort o.seq o.ack o.flags o.window o.srcIp o.dstIp
    o.payload (20 + MSS)
  let header ← Ipv4Packet.build o.srcIp o.dstIp 6 (UInt16.ofNat segment.length) (20 + 20 + MSS)
  EthernetFrame.build o.dstMac o.srcMac ETHERTYPE_IPV4 (header ++ segment) (14 + 20 + 20 + MSS)

/-- The parsers of `poll_and_dispatch` and `receive`. -/
def parseFrame (data : List UInt8) : Option (EthernetFrame × Ipv4Packet × TcpHeader) := do
  let eth ← EthernetFrame.parse data
  let ip ← Ipv4Packet.parse eth.payload
  let tcp ← TcpHeader.parse ip.payload
  some (eth, ip, tcp)

/-- A frame with zeros up to 60 bytes, and `extra` more. -/
def zeroPad (frame : List UInt8) (extra : Nat) : List UInt8 :=
  frame ++ List.replicate (60 - frame.length + extra) 0

/-- The three layers have the fields that were sent. -/
structure Outgoing.SameFields (o : Outgoing) (eth : EthernetFrame) (ip : Ipv4Packet)
    (tcp : TcpHeader) : Prop where
  macs : eth.dst = o.dstMac ∧ eth.src = o.srcMac ∧ eth.ethertype = ETHERTYPE_IPV4
  addresses : ip.src = o.srcIp ∧ ip.dst = o.dstIp
  header : ip.version = 4 ∧ ip.headerLen = 20 ∧ ip.protocol = 6 ∧
    ip.totalLen = UInt16.ofNat (40 + o.payload.length)
  ports : tcp.srcPort = o.srcPort ∧ tcp.dstPort = o.dstPort
  numbers : tcp.seq = o.seq ∧ tcp.ack = o.ack
  control : tcp.flags = o.flags ∧ tcp.window = o.window

/-- Fields and payload are recovered from the padded frame. -/
def Outgoing.Recovers (o : Outgoing) (extra : Nat) : Prop :=
  ∃ frame eth ip tcp, o.buildFrame = some frame ∧
    parseFrame (zeroPad frame extra) = some (eth, ip, tcp) ∧
    o.SameFields eth ip tcp ∧ tcp.payload = o.payload

/-! ### The layers -/

theorem flags_mask {flags : UInt8} (h : flags < 64) : flags &&& 0x3F = flags := by
  have hall : ∀ n : Fin 64, (UInt8.ofNat n) &&& 0x3F = UInt8.ofNat n := by decide +kernel
  have hflags := hall ⟨flags.toNat, h⟩
  rwa [UInt8.ofNat_toNat] at hflags

/-- The IPv4 packet around the segment with a payload. -/
def Outgoing.packet (o : Outgoing) (ipCksum tcpCksum : UInt16) (payload : List UInt8) :
    List UInt8 :=
  headerBytes o.srcIp o.dstIp 6 (UInt16.ofNat (40 + o.payload.length)) ipCksum ++
    segmentBytes o.srcPort o.dstPort o.seq o.ack o.flags o.window tcpCksum payload

private theorem Outgoing.length_packet (o : Outgoing) (ipCksum tcpCksum : UInt16)
    (payload : List UInt8) :
    (o.packet ipCksum tcpCksum payload).length = 40 + payload.length := by
  rw [Outgoing.packet, List.length_append, length_headerBytes, length_segmentBytes]
  omega

/-- The checksum that `TcpHeader.build` fills in. -/
def Outgoing.tcpCksum (o : Outgoing) : UInt16 :=
  tcpChecksum o.srcIp o.dstIp
    (segmentBytes o.srcPort o.dstPort o.seq o.ack o.flags o.window 0 o.payload)

private theorem buildFrame_bytes (o : Outgoing) :
    ∃ ipCksum, o.buildFrame = some (frameBytes o.dstMac o.srcMac ETHERTYPE_IPV4
      (o.packet ipCksum o.tcpCksum o.payload)) := by
  have hlen := o.length_le
  have htotal : (20 : UInt16) + UInt16.ofNat (20 + o.payload.length) =
      UInt16.ofNat (40 + o.payload.length) := by
    apply UInt16.toNat_inj.mp
    rw [UInt16.toNat_add, UInt16.toNat_ofNat', UInt16.toNat_ofNat',
      show (20 : UInt16).toNat = 20 from rfl]
    omega
  rw [Outgoing.buildFrame, TcpHeader.build, if_neg (by omega)]
  simp only [Option.bind_eq_bind, Option.bind_some, length_segmentBytes]
  rw [Ipv4Packet.build, if_neg (by omega)]
  simp only [Option.bind_some, htotal]
  refine ⟨_, if_neg ?_⟩
  rw [List.length_append, length_headerBytes, length_segmentBytes]
  omega

private theorem buildFrame_eq (o : Outgoing) :
    ∃ ipCksum tcpCksum, o.buildFrame = some (frameBytes o.dstMac o.srcMac ETHERTYPE_IPV4
      (o.packet ipCksum tcpCksum o.payload)) := by
  obtain ⟨ipCksum, hbuild⟩ := buildFrame_bytes o
  exact ⟨ipCksum, o.tcpCksum, hbuild⟩

/-- Padding behind a frame is a longer payload of its segment. -/
private theorem zeroPad_frame (o : Outgoing) (ipCksum tcpCksum : UInt16) (extra : Nat) :
    zeroPad (frameBytes o.dstMac o.srcMac ETHERTYPE_IPV4 (o.packet ipCksum tcpCksum o.payload))
        extra =
      frameBytes o.dstMac o.srcMac ETHERTYPE_IPV4 (o.packet ipCksum tcpCksum
        (o.payload ++ List.replicate (6 - o.payload.length + extra) 0)) := by
  have hpad : 60 - (14 + (40 + o.payload.length)) = 6 - o.payload.length := by omega
  rw [zeroPad, length_frameBytes, o.length_packet, hpad]
  simp only [frameBytes, Outgoing.packet, segmentBytes, List.append_assoc]

private theorem parseFrame_of {data : List UInt8} {eth : EthernetFrame} {ip : Ipv4Packet}
    {tcp : TcpHeader}
    (heth : EthernetFrame.parse data = some eth) (hip : Ipv4Packet.parse eth.payload = some ip)
    (htcp : TcpHeader.parse ip.payload = some tcp) : parseFrame data = some (eth, ip, tcp) := by
  simp only [parseFrame, heth, hip, htcp, Option.bind_eq_bind, Option.bind_some]

/-- From the padded frame, every field is recovered, and the payload together with the padding. -/
theorem parseFrame_padded (o : Outgoing) (extra : Nat) :
    ∃ frame eth ip tcp, o.buildFrame = some frame ∧
      parseFrame (zeroPad frame extra) = some (eth, ip, tcp) ∧ o.SameFields eth ip tcp ∧
      tcp.payload = o.payload ++ List.replicate (6 - o.payload.length + extra) 0 := by
  obtain ⟨ipCksum, tcpCksum, hbuild⟩ := buildFrame_eq o
  let payload := o.payload ++ List.replicate (6 - o.payload.length + extra) 0
  have hlong : 46 ≤ (o.packet ipCksum tcpCksum payload).length := by
    rw [o.length_packet, List.length_append, List.length_replicate]
    omega
  have heth := parse_frameBytes o.dstMac o.srcMac ETHERTYPE_IPV4 _ hlong
  rw [← zeroPad_frame] at heth
  have hip := parse_headerBytes o.srcIp o.dstIp 6 (UInt16.ofNat (40 + o.payload.length)) ipCksum
    (segmentBytes o.srcPort o.dstPort o.seq o.ack o.flags o.window tcpCksum payload)
  have htcp := parse_segmentBytes o.srcPort o.dstPort o.seq o.ack o.flags o.window tcpCksum payload
    (flags_mask o.flags_lt)
  refine ⟨_, _, _, _, hbuild, parseFrame_of heth hip htcp, ?_, rfl⟩
  exact ⟨⟨rfl, rfl, rfl⟩, ⟨rfl, rfl⟩, ⟨rfl, rfl, rfl, rfl⟩, ⟨rfl, rfl⟩, ⟨rfl, rfl⟩, ⟨rfl, rfl⟩⟩

/-! ### Payload and padding -/

theorem recovers_iff (o : Outgoing) (extra : Nat) :
    o.Recovers extra ↔ 6 ≤ o.payload.length ∧ extra = 0 := by
  obtain ⟨frame, eth, ip, tcp, hbuild, hparse, hfields, hpayload⟩ := parseFrame_padded o extra
  constructor
  · rintro ⟨frame', eth', ip', tcp', hbuild', hparse', -, hpayload'⟩
    obtain rfl : frame = frame' := Option.some.inj (hbuild.symm.trans hbuild')
    have hsame := Option.some.inj (hparse.symm.trans hparse')
    obtain rfl : tcp = tcp' := congrArg (fun layers => layers.2.2) hsame
    have hlen := congrArg List.length (hpayload.symm.trans hpayload')
    rw [List.length_append, List.length_replicate] at hlen
    omega
  · rintro ⟨hlong, rfl⟩
    rw [show 6 - o.payload.length + 0 = 0 by omega, List.replicate_zero, List.append_nil] at hpayload
    exact ⟨frame, eth, ip, tcp, hbuild, hparse, hfields, hpayload⟩

/-- A segment without data: the parsed payload is the six bytes of padding. -/
theorem bare_ack_gains_padding : ¬∀ (o : Outgoing) (extra : Nat), o.Recovers extra := by
  intro hall
  let mac : MacAddr := ⟨0x52, 0x54, 0, 0xAB, 0xCD, 0xEF⟩
  let o : Outgoing := ⟨mac, mac, ⟨10, 0, 2, 15⟩, ⟨10, 0, 2, 2⟩, 80, 4000, 1, 1, ACK, WINDOW, [],
    by decide, by decide⟩
  obtain ⟨frame, eth, ip, tcp, hbuild, hparse, -, hpayload⟩ := parseFrame_padded o 0
  obtain ⟨frame', eth', ip', tcp', hbuild', hparse', -, hpayload'⟩ := hall o 0
  obtain rfl : frame = frame' := Option.some.inj (hbuild.symm.trans hbuild')
  have hsame := Option.some.inj (hparse.symm.trans hparse')
  obtain rfl : tcp = tcp' := congrArg (fun layers => layers.2.2) hsame
  cases hpayload.symm.trans hpayload'

end RustKernel.Net
