import RustKernel.Lib.EndAround
import RustKernel.Net.Encapsulation

/-!
# RustKernel.Net.Checksums

The Internet checksum of what the builders write: the fields of a segment come back, the checksum
over the bytes with their checksum field is 0, and the sums stay below `2 ^ 32`.

`tcpChecksumChecked` and `checksumChecked` are the two checksum functions turn by turn, with every
addition checked for overflow, as a debug build checks it.

## Main result

* `checksums_verify`: `TcpHeader::parse` recovers what `TcpHeader::build` was given, both checksums
  verify, and no addition overflows
-/

namespace RustKernel.Net

open Tcp Lib
open Lib (beEncode)

/-! ### Sums with checked additions -/

/-- `a + b` on `u32`, where an overflow stops the computation. -/
def addChecked (a b : Nat) : Option Nat := if a + b < 2 ^ 32 then some (a + b) else none

/-- The loop over the words of `data`, from the value `sum` on. -/
def sumWords : List UInt8 → Nat → Option Nat
  | a :: b :: rest, sum => do
    let sum ← addChecked sum (a.toNat * 256 + b.toNat)
    sumWords rest sum
  | [a], sum => addChecked sum (a.toNat * 256)
  | [], sum => some sum

/-- `while sum >> 16 != 0 { sum = (sum & 0xFFFF) + (sum >> 16) }` -/
def foldChecked (sum : Nat) : Option Nat :=
  if sum / 2 ^ 16 = 0 then some sum
  else if sum % 2 ^ 16 + sum / 2 ^ 16 < 2 ^ 32 then
    foldChecked (sum % 2 ^ 16 + sum / 2 ^ 16)
  else none
termination_by sum
decreasing_by omega

/-- `tcp_checksum`, with its additions checked. -/
def tcpChecksumChecked (srcIp dstIp : Ipv4Addr) (segment : List UInt8) : Option UInt16 := do
  let sum ← addChecked 0 (srcIp.a.toNat * 256 + srcIp.b.toNat)
  let sum ← addChecked sum (srcIp.c.toNat * 256 + srcIp.d.toNat)
  let sum ← addChecked sum (dstIp.a.toNat * 256 + dstIp.b.toNat)
  let sum ← addChecked sum (dstIp.c.toNat * 256 + dstIp.d.toNat)
  let sum ← addChecked sum 6
  let sum ← addChecked sum segment.length
  let sum ← sumWords segment sum
  let sum ← foldChecked sum
  return ~~~(UInt16.ofNat sum)

/-- `checksum` of an IPv4 header, with its additions checked. -/
def checksumChecked (data : List UInt8) : Option UInt16 := do
  let sum ← sumWords data 0
  let sum ← foldChecked sum
  return ~~~(UInt16.ofNat sum)

/-! ### Bounds -/

private theorem addChecked_eq {a b : Nat} (h : a + b < 2 ^ 32) :
    addChecked a b = some (a + b) := if_pos h

theorem wordSum_le (data : List UInt8) : wordSum data ≤ 65535 * ((data.length + 1) / 2) := by
  fun_induction wordSum data with
  | case1 a b rest ih =>
    have ha := a.toNat_lt
    have hb := b.toNat_lt
    simp only [List.length_cons]
    omega
  | case2 a =>
    have ha := a.toNat_lt
    simp only [List.length_cons, List.length_nil]
    omega
  | case3 => omega

theorem Ipv4Addr.wordSum_le (ip : Ipv4Addr) : ip.wordSum ≤ 2 * 65535 := by
  have ha := ip.a.toNat_lt
  have hb := ip.b.toNat_lt
  have hc := ip.c.toNat_lt
  have hd := ip.d.toNat_lt
  rw [Ipv4Addr.wordSum]
  omega

/-- Every partial sum is at most the whole. -/
private theorem sumWords_eq (data : List UInt8) (sum : Nat) (h : sum + wordSum data < 2 ^ 32) :
    sumWords data sum = some (sum + wordSum data) := by
  fun_induction wordSum data generalizing sum with
  | case1 a b rest ih =>
    rw [← Nat.add_assoc] at h ⊢
    simp only [sumWords, Option.bind_eq_bind]
    rw [addChecked_eq (lt_of_le_of_lt (Nat.le_add_right _ _) h), Option.bind_some, ih _ h]
  | case2 a => exact addChecked_eq h
  | case3 => rfl

private theorem foldChecked_eq (sum : Nat) (h : sum < 2 ^ 32) :
    foldChecked sum = some (foldCarries sum) := by
  fun_induction foldCarries sum with
  | case1 sum hzero => rw [foldChecked, if_pos hzero]
  | case2 sum hcarry ih =>
    rw [foldChecked, if_neg hcarry, if_pos (by omega)]
    exact ih (by omega)

/-- A segment whose length fits in 16 bits is summed without an overflow. -/
private theorem tcpChecksumChecked_eq (srcIp dstIp : Ipv4Addr) (segment : List UInt8)
    (hlen : segment.length ≤ 65535) :
    tcpChecksumChecked srcIp dstIp segment = some (tcpChecksum srcIp dstIp segment) := by
  have hsrc := srcIp.wordSum_le
  have hdst := dstIp.wordSum_le
  have hwords := wordSum_le segment
  have hsum : srcIp.wordSum + dstIp.wordSum + 6 + segment.length + wordSum segment < 2 ^ 32 := by
    omega
  rw [tcpChecksum, Nat.mod_eq_of_lt hsum]
  simp only [Ipv4Addr.wordSum] at hsum ⊢
  simp only [tcpChecksumChecked, Option.bind_eq_bind]
  rw [addChecked_eq (by omega), Option.bind_some, addChecked_eq (by omega), Option.bind_some,
    addChecked_eq (by omega), Option.bind_some, addChecked_eq (by omega), Option.bind_some,
    addChecked_eq (by omega), Option.bind_some, addChecked_eq (by omega), Option.bind_some,
    sumWords_eq _ _ (by omega), Option.bind_some, foldChecked_eq _ (by omega), Option.bind_some]
  simp only [Nat.zero_add, Nat.add_assoc]
  rfl

/-- A header is summed without an overflow. -/
private theorem checksumChecked_eq (data : List UInt8) (hlen : data.length ≤ 65535) :
    checksumChecked data = some (ipChecksum data) := by
  have hwords := wordSum_le data
  have hsum : wordSum data < 2 ^ 32 := by omega
  rw [ipChecksum, Nat.mod_eq_of_lt hsum]
  simp only [checksumChecked, Option.bind_eq_bind]
  rw [sumWords_eq _ _ (by omega), Option.bind_some, foldChecked_eq _ (by omega), Option.bind_some,
    Nat.zero_add]
  rfl

/-! ### Check fields -/

/-- The folding loop is the reduction of a one's complement sum. -/
private theorem foldCarries_eq_fold (sum : Nat) :
    foldCarries sum = EndAround.fold (2 ^ 16) sum := by
  fun_induction foldCarries sum with
  | case1 sum hzero => rw [EndAround.fold_of_lt (by omega)]
  | case2 sum hcarry ih =>
    rw [EndAround.fold, if_pos ⟨by decide, by omega⟩]
    exact ih

/-- The complement of a reduced sum, as a number. -/
private theorem toNat_not_foldCarries (sum : Nat) :
    (~~~(UInt16.ofNat (foldCarries sum))).toNat = 65535 - foldCarries sum := by
  have hlt : foldCarries sum < 2 ^ 16 := by
    rw [foldCarries_eq_fold]
    exact EndAround.fold_lt (by decide) sum
  rw [UInt16.toNat_not, UInt16.toNat_ofNat', Nat.mod_eq_of_lt hlt]
  rfl

/-- With the complement of the reduced sum added, a sum has the checksum 0. -/
private theorem checksum_filled (sum : Nat) :
    ~~~(UInt16.ofNat (foldCarries (sum + (~~~(UInt16.ofNat (foldCarries sum))).toNat))) = 0 := by
  have hfilled := EndAround.fold_add_complement (m := 2 ^ 16) (by decide) sum
  rw [← foldCarries_eq_fold, ← foldCarries_eq_fold] at hfilled
  rw [toNat_not_foldCarries]
  exact congrArg (fun n => ~~~(UInt16.ofNat n)) hfilled

/-- The same with sums in 32 bits, where both sums fit. -/
private theorem checksum_verifies {sum : Nat} {cksum : UInt16}
    (hcksum : cksum = ~~~(UInt16.ofNat (foldCarries (sum % 2 ^ 32))))
    (hsmall : sum + cksum.toNat < 2 ^ 32) :
    ~~~(UInt16.ofNat (foldCarries ((sum + cksum.toNat) % 2 ^ 32))) = 0 := by
  rw [Nat.mod_eq_of_lt (by omega)] at hcksum
  rw [Nat.mod_eq_of_lt hsmall, hcksum]
  exact checksum_filled sum

/-- Words may be summed piece by piece, if the pieces have even lengths. -/
private theorem wordSum_append (as bs : List UInt8) (heven : as.length % 2 = 0) :
    wordSum (as ++ bs) = wordSum as + wordSum bs := by
  fun_induction wordSum as with
  | case1 a b rest ih =>
    have hrest : rest.length % 2 = 0 := by
      simp only [List.length_cons] at heven
      omega
    rw [List.cons_append, List.cons_append, wordSum, ih hrest]
    exact (Nat.add_assoc _ _ _).symm
  | case2 a => cases heven
  | case3 => rw [List.nil_append, Nat.zero_add]

private theorem wordSum_beEncode (n : UInt16) : wordSum (beEncode 2 n.toNat) = n.toNat := by
  have hlt := n.toNat_lt
  rw [beEncode_two, wordSum, wordSum, UInt8.toNat_ofNat', UInt8.toNat_ofNat']
  omega

/-- A check field at an even position counts as its value. -/
private theorem wordSum_field (as bs : List UInt8) (cksum : UInt16) (heven : as.length % 2 = 0) :
    wordSum (as ++ beEncode 2 cksum.toNat ++ bs) =
      wordSum (as ++ beEncode 2 (UInt16.toNat 0) ++ bs) + cksum.toNat := by
  have hlen : ∀ n : UInt16, (as ++ beEncode 2 n.toNat).length % 2 = 0 := by
    intro n
    rw [List.length_append, length_beEncode]
    omega
  rw [wordSum_append _ _ (hlen _), wordSum_append _ _ (hlen _), wordSum_append _ _ heven,
    wordSum_append _ _ heven, wordSum_beEncode, wordSum_beEncode, UInt16.toNat_zero]
  omega

private theorem wordSum_segmentBytes (srcPort dstPort : UInt16) (seq ack : UInt32) (flags : UInt8)
    (window cksum : UInt16) (payload : List UInt8) :
    wordSum (segmentBytes srcPort dstPort seq ack flags window cksum payload) =
      wordSum (segmentBytes srcPort dstPort seq ack flags window 0 payload) + cksum.toNat := by
  rw [segmentBytes, segmentBytes, List.append_assoc _ [0, 0] payload,
    List.append_assoc _ [0, 0] payload]
  refine wordSum_field _ _ cksum ?_
  simp only [List.length_append, length_beEncode, List.length_cons, List.length_nil]

private theorem wordSum_headerBytes (src dst : Ipv4Addr) (protocol : UInt8)
    (totalLen cksum : UInt16) :
    wordSum (headerBytes src dst protocol totalLen cksum) =
      wordSum (headerBytes src dst protocol totalLen 0) + cksum.toNat := by
  rw [headerBytes, headerBytes]
  refine wordSum_field _ _ cksum ?_
  simp only [List.length_append, length_beEncode, List.length_cons, List.length_nil]

/-! ### What the builders write -/

/-- The checksum over a segment whose check field holds the checksum of the segment without it. -/
private theorem tcpChecksum_filled (srcPort dstPort : UInt16) (seq ack : UInt32) (flags : UInt8)
    (window : UInt16) (srcIp dstIp : Ipv4Addr) (payload : List UInt8)
    (hlen : payload.length ≤ 65515) :
    tcpChecksum srcIp dstIp (segmentBytes srcPort dstPort seq ack flags window
      (tcpChecksum srcIp dstIp (segmentBytes srcPort dstPort seq ack flags window 0 payload))
      payload) = 0 := by
  set cksum := tcpChecksum srcIp dstIp
    (segmentBytes srcPort dstPort seq ack flags window 0 payload) with hcksum
  have hsrc := srcIp.wordSum_le
  have hdst := dstIp.wordSum_le
  have hlt := cksum.toNat_lt
  have hlength := length_segmentBytes srcPort dstPort seq ack flags window 0 payload
  have hlength' := length_segmentBytes srcPort dstPort seq ack flags window cksum payload
  have hwords := wordSum_le (segmentBytes srcPort dstPort seq ack flags window 0 payload)
  have hfield := wordSum_segmentBytes srcPort dstPort seq ack flags window cksum payload
  -- with an empty check field the words have one sum, and the field adds its value
  rw [tcpChecksum, hlength', hfield, ← Nat.add_assoc]
  refine checksum_verifies ?_ (by omega)
  rw [hcksum, tcpChecksum, hlength]

private theorem ipChecksum_filled (src dst : Ipv4Addr) (protocol : UInt8) (totalLen : UInt16) :
    ipChecksum (headerBytes src dst protocol totalLen
      (ipChecksum (headerBytes src dst protocol totalLen 0))) = 0 := by
  set cksum := ipChecksum (headerBytes src dst protocol totalLen 0) with hcksum
  have hlt := cksum.toNat_lt
  have hlength := length_headerBytes src dst protocol totalLen 0
  have hwords := wordSum_le (headerBytes src dst protocol totalLen 0)
  have hfield := wordSum_headerBytes src dst protocol totalLen cksum
  rw [ipChecksum, hfield]
  refine checksum_verifies ?_ (by omega)
  rw [hcksum, ipChecksum]

/-- The fields and the payload of a segment that was built come back, its checksum verifies, and no
    addition overflows, neither in the builder nor over the bytes that were built. -/
def SegmentVerifies (srcPort dstPort : UInt16) (seq ack : UInt32) (flags : UInt8) (window : UInt16)
    (srcIp dstIp : Ipv4Addr) (payload : List UInt8) (outLen : Nat) : Prop :=
  ∃ bytes cksum,
    TcpHeader.build srcPort dstPort seq ack flags window srcIp dstIp payload outLen = some bytes ∧
    TcpHeader.parse bytes =
      some (builtHeader srcPort dstPort seq ack flags window cksum payload) ∧
    tcpChecksum srcIp dstIp bytes = 0 ∧
    tcpChecksumChecked srcIp dstIp
      (segmentBytes srcPort dstPort seq ack flags window 0 payload) = some cksum ∧
    tcpChecksumChecked srcIp dstIp bytes = some 0

/-- The checksum of a header that was built verifies, and no addition overflows. -/
def HeaderVerifies (src dst : Ipv4Addr) (protocol : UInt8) (payloadLen : UInt16) (outLen : Nat) :
    Prop :=
  ∃ header cksum, Ipv4Packet.build src dst protocol payloadLen outLen = some header ∧
    ipChecksum header = 0 ∧
    checksumChecked (headerBytes src dst protocol (20 + payloadLen) 0) = some cksum ∧
    checksumChecked header = some 0

private theorem segmentVerifies (srcPort dstPort : UInt16) (seq ack : UInt32) (flags : UInt8)
    (window : UInt16) (srcIp dstIp : Ipv4Addr) (payload : List UInt8) (outLen : Nat)
    (hflags : flags < 64) (hlen : payload.length ≤ 65515) (hfits : 20 + payload.length ≤ outLen) :
    SegmentVerifies srcPort dstPort seq ack flags window srcIp dstIp payload outLen := by
  have hlength := fun cksum =>
    length_segmentBytes srcPort dstPort seq ack flags window cksum payload
  have hzero := tcpChecksum_filled srcPort dstPort seq ack flags window srcIp dstIp payload hlen
  refine ⟨_, _, if_neg (by omega), parse_segmentBytes _ _ _ _ _ _ _ _ (flags_mask hflags), hzero,
    tcpChecksumChecked_eq _ _ _ (by rw [hlength]; omega), ?_⟩
  rw [tcpChecksumChecked_eq _ _ _ (by rw [hlength]; omega), hzero]

private theorem headerVerifies (src dst : Ipv4Addr) (protocol : UInt8) (payloadLen : UInt16)
    (outLen : Nat)
    (hroom : 20 ≤ outLen) : HeaderVerifies src dst protocol payloadLen outLen := by
  have hlength := length_headerBytes src dst protocol (20 + payloadLen)
  have hzero := ipChecksum_filled src dst protocol (20 + payloadLen)
  refine ⟨_, _, if_neg (by omega), hzero, checksumChecked_eq _ (by rw [hlength]; decide), ?_⟩
  rw [checksumChecked_eq _ (by rw [hlength]; decide), hzero]

/-- Every segment and every header that is built verifies. -/
theorem checksums_verify (srcPort dstPort : UInt16) (seq ack : UInt32) (flags : UInt8)
    (window : UInt16) (srcIp dstIp : Ipv4Addr) (payload : List UInt8) (outLen : Nat)
    (hflags : flags < 64) (hlen : payload.length ≤ 65515) (hfits : 20 + payload.length ≤ outLen) :
    SegmentVerifies srcPort dstPort seq ack flags window srcIp dstIp payload outLen ∧
      ∀ (protocol : UInt8) (payloadLen : UInt16) (headerOut : Nat), 20 ≤ headerOut →
        HeaderVerifies srcIp dstIp protocol payloadLen headerOut :=
  ⟨segmentVerifies _ _ _ _ _ _ _ _ _ _ hflags hlen hfits, fun _ _ _ hroom =>
    headerVerifies _ _ _ _ _ hroom⟩

/-- A segment with a payload of three bytes. -/
theorem three_bytes_verify :
    SegmentVerifies 80 49152 1000 2000 (PSH ||| ACK) 8192 ⟨10, 0, 2, 15⟩ ⟨10, 0, 2, 2⟩
        [104, 101, 121] 556 ∧
      ∀ (protocol : UInt8) (payloadLen : UInt16) (headerOut : Nat), 20 ≤ headerOut →
        HeaderVerifies ⟨10, 0, 2, 15⟩ ⟨10, 0, 2, 2⟩ protocol payloadLen headerOut :=
  checksums_verify 80 49152 1000 2000 (PSH ||| ACK) 8192 ⟨10, 0, 2, 15⟩ ⟨10, 0, 2, 2⟩
    [104, 101, 121] 556 (by decide) (by decide) (by decide)

end RustKernel.Net
