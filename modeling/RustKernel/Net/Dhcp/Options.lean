import RustKernel.Lib.Buffer
import RustKernel.Lib.Tlv
import RustKernel.Net.Ipv4

/-!
# RustKernel.Net.Dhcp.Options

The options of a DHCP message.

## Main result

`parseDhcpOptions_iff`: the loop ends without a trap on every byte string, and from encoded options
it gets the last value of each kind, but for the gateway, which is the last router option with
exactly one address. `RouterGuard` says when that is the first address of the last router option.

## Proof strategy

`optionsLoop_eq` is the simulation: from cursor `i` the loop takes one record of
`Tlv.records 0 255 (opts.drop i)` after the other. What it keeps of them is read off by
`Tlv.foldl_last`, one field at a time.
-/

namespace RustKernel.Net.Dhcp

open Lib

/-! ### The cursor loop -/

/-- The result of `parse_dhcp_options`, in the order of the source. -/
@[ext] structure DhcpOptions where
  msgType : UInt8
  subnet : Option Ipv4Addr
  gateway : Option Ipv4Addr
  dns : Option Ipv4Addr
  serverId : Option Ipv4Addr
  deriving DecidableEq, Repr

def DhcpOptions.initial : DhcpOptions := ⟨0, none, none, none, none⟩

/-- `s.copy_from_slice(&opts[lo..lo + 4])` into four bytes. -/
def addressAt (opts : List UInt8) (lo : Nat) : Checked Ipv4Addr := do
  let bytes ← slice opts lo (lo + 4)
  if bytes.length = 4 then .ok (ipAt bytes 0) else .error .copyLength

/-- The inner match, for the option at `i`. -/
def takeOption (opts : List UInt8) (i : Nat) (tag : UInt8) (len : Nat) (found : DhcpOptions) :
    Checked DhcpOptions :=
  if tag = 53 ∧ len = 1 then do
    let msgType ← index opts (i + 2)
    .ok { found with msgType }
  else if tag = 54 ∧ len = 4 then do
    let s ← addressAt opts (i + 2)
    .ok { found with serverId := some s }
  else if tag = 1 ∧ len = 4 then do
    let s ← addressAt opts (i + 2)
    .ok { found with subnet := some s }
  else if tag = 3 ∧ len = 4 then do
    let s ← addressAt opts (i + 2)
    .ok { found with gateway := some s }
  else if tag = 6 ∧ 4 ≤ len then do
    let s ← addressAt opts (i + 2)
    .ok { found with dns := some s }
  else .ok found

/-- The loop, from cursor `i`. -/
def optionsLoop (opts : List UInt8) (i : Nat) (found : DhcpOptions) : Checked DhcpOptions :=
  if _hlt : i < opts.length then do
    let tag ← index opts i
    if tag = 0 then optionsLoop opts (i + 1) found
    else if tag = 255 then .ok found
    else if opts.length ≤ i + 1 then .ok found
    else do
      let len ← index opts (i + 1)
      if opts.length < i + 2 + len.toNat then .ok found
      else do
        let found ← takeOption opts i tag len.toNat found
        optionsLoop opts (i + (2 + len.toNat)) found
  else .ok found
termination_by opts.length - i
decreasing_by all_goals omega

/-- Parse DHCP TLV options. -/
def parseDhcpOptions (opts : List UInt8) : Checked DhcpOptions := optionsLoop opts 0 .initial

/-! ### What the loop takes of a record -/

/-- One record: a later one of its kind replaces an earlier one. -/
def DhcpOptions.take (found : DhcpOptions) : Tlv.Record → DhcpOptions
  | (tag, value) =>
    if tag = 53 ∧ value.length = 1 then { found with msgType := value.getD 0 0 }
    else if tag = 54 ∧ value.length = 4 then { found with serverId := some (ipAt value 0) }
    else if tag = 1 ∧ value.length = 4 then { found with subnet := some (ipAt value 0) }
    else if tag = 3 ∧ value.length = 4 then { found with gateway := some (ipAt value 0) }
    else if tag = 6 ∧ 4 ≤ value.length then { found with dns := some (ipAt value 0) }
    else found

section Simulation

variable {opts : List UInt8} {i len : Nat}

private theorem index_drop (h : i < opts.length) : index opts i = .ok ((opts.drop i).getD 0 0) := by
  rw [index_ok h, List.drop_eq_getElem_cons h]
  rfl

private theorem addressAt_ok (hlen : 4 ≤ len) (h : i + len ≤ opts.length) :
    addressAt opts i = .ok (ipAt ((opts.drop i).take len) 0) := by
  have hbytes : ((opts.take (i + 4)).drop i).length = 4 := by
    rw [List.length_drop, List.length_take, Nat.min_eq_left (by omega)]
    omega
  -- the slice is the front of the value
  have hfront : (opts.take (i + 4)).drop i = ((opts.drop i).take len).take 4 := by
    rw [List.take_take, Nat.min_eq_left hlen, List.drop_take, Nat.add_sub_cancel_left]
  rw [addressAt, slice, if_pos (by omega), ok_bind, if_pos hbytes, hfront]
  simp only [ipAt, List.getD_eq_getElem?_getD]
  simp

private theorem takeOption_ok {tag : UInt8} {found : DhcpOptions} (h : i + 2 + len ≤ opts.length) :
    takeOption opts i tag len found = .ok (found.take (tag, (opts.drop (i + 2)).take len)) := by
  have hvalue : ((opts.drop (i + 2)).take len).length = len := by
    rw [List.length_take, List.length_drop]
    omega
  have haddress : 4 ≤ len →
      addressAt opts (i + 2) = .ok (ipAt ((opts.drop (i + 2)).take len) 0) :=
    fun hlen => addressAt_ok hlen h
  simp only [takeOption, DhcpOptions.take, hvalue]
  split
  · next hkind =>
    rw [index_drop (by omega), ok_bind, hkind.2]
    simp
  split
  · next hkind =>
    rw [haddress hkind.2.ge, ok_bind]
  split
  · next hkind =>
    rw [haddress hkind.2.ge, ok_bind]
  split
  · next hkind =>
    rw [haddress hkind.2.ge, ok_bind]
  split
  · next hkind =>
    rw [haddress hkind.2, ok_bind]
  · rfl

/-- The loop takes the records behind the cursor. -/
theorem optionsLoop_eq (opts : List UInt8) (i : Nat) (found : DhcpOptions) :
    optionsLoop opts i found =
      .ok ((Tlv.records 0 255 (opts.drop i)).foldl DhcpOptions.take found) := by
  -- the induction is on the bytes behind the cursor
  induction hroom : opts.length - i using Nat.strong_induction_on generalizing i found with
  | _ room ih =>
    rw [optionsLoop]
    split
    case isFalse hend =>
      rw [List.drop_of_length_le (by omega), Tlv.records]
      rfl
    case isTrue hlt =>
      rw [index_ok hlt, ok_bind, List.drop_eq_getElem_cons hlt, Tlv.records_cons]
      simp only [List.get_eq_getElem]
      split
      · exact ih _ (by omega) _ _ rfl
      split
      · rfl
      split
      case isTrue hlast =>
        rw [List.drop_of_length_le hlast]
        rfl
      case isFalse hlast =>
        have hnext : i + 1 < opts.length := by omega
        rw [index_ok hnext, ok_bind, List.drop_eq_getElem_cons hnext]
        simp only [List.get_eq_getElem, List.length_drop]
        -- both sides test that the value is there in full
        by_cases hshort : opts.length < i + 2 + opts[i + 1].toNat
        · rw [if_pos hshort, if_pos (by omega)]
          rfl
        · rw [if_neg hshort, if_neg (by omega), takeOption_ok (by omega), ok_bind,
            ih _ (by omega) _ _ rfl, List.foldl_cons, List.drop_drop, ← Nat.add_assoc]

end Simulation

theorem parseDhcpOptions_eq (opts : List UInt8) :
    parseDhcpOptions opts = .ok ((Tlv.records 0 255 opts).foldl DhcpOptions.take .initial) :=
  optionsLoop_eq opts 0 .initial

/-! ### What the options announce -/

/-- The value of a record with the tag and a length that fits. -/
def valueOf (tag : UInt8) (fits : Nat → Bool) (record : Tlv.Record) : Option (List UInt8) :=
  if record.1 = tag ∧ fits record.2.length then some record.2 else none

/-- The value of the last such record. -/
def lastValue (tag : UInt8) (fits : Nat → Bool) (options : List Tlv.Record) :
    Option (List UInt8) :=
  (options.filterMap (valueOf tag fits)).getLast?

/-- One address or more, of four bytes each. -/
def isAddressList (len : Nat) : Bool := 0 < len ∧ len % 4 = 0

/-- The last value of each kind, and of a list of addresses the first one. -/
def announced (options : List Tlv.Record) : DhcpOptions where
  msgType := (lastValue 53 (· = 1) options).elim 0 (·.getD 0 0)
  subnet := (lastValue 1 (· = 4) options).map (ipAt · 0)
  gateway := (lastValue 3 isAddressList options).map (ipAt · 0)
  dns := (lastValue 6 isAddressList options).map (ipAt · 0)
  serverId := (lastValue 54 (· = 4) options).map (ipAt · 0)

/-- With a router option there is one of a single address, and the last of these begins like the
    last router option. -/
def RouterGuard (options : List Tlv.Record) : Prop :=
  ∀ routers, lastValue 3 isAddressList options = some routers →
    ∃ router, lastValue 3 (· = 4) options = some router ∧ ipAt router 0 = ipAt routers 0

section Announced

variable {options : List Tlv.Record}

/-- A length test may be replaced by one that says the same of all records with the tag. -/
private theorem lastValue_congr {tag : UInt8} {fits fits' : Nat → Bool}
    (h : ∀ record ∈ options, record.1 = tag → fits record.2.length = fits' record.2.length) :
    lastValue tag fits options = lastValue tag fits' options := by
  rw [lastValue, lastValue]
  congr 1
  apply List.filterMap_congr
  intro record hmem
  simp only [valueOf]
  by_cases htag : record.1 = tag
  · rw [h record hmem htag]
  · rw [if_neg fun hkind => htag hkind.1, if_neg fun hkind => htag hkind.1]

private theorem lastValue_eq_none_iff {tag : UInt8} {fits : Nat → Bool} :
    lastValue tag fits options = none ↔
      ∀ record ∈ options, record.1 = tag → fits record.2.length = false := by
  rw [lastValue, List.getLast?_eq_none_iff, List.filterMap_eq_nil_iff]
  refine forall₂_congr fun record _ => ?_
  simp [valueOf]

/-- Every field is set by the records of its own kind. -/
private theorem take_eq (found : DhcpOptions) (record : Tlv.Record) :
    found.take record =
      { msgType := (valueOf 53 (· = 1) record).elim found.msgType (·.getD 0 0)
        subnet := (valueOf 1 (· = 4) record).elim found.subnet fun value => some (ipAt value 0)
        gateway := (valueOf 3 (· = 4) record).elim found.gateway fun value => some (ipAt value 0)
        dns := (valueOf 6 (4 ≤ ·) record).elim found.dns fun value => some (ipAt value 0)
        serverId :=
          (valueOf 54 (· = 4) record).elim found.serverId fun value => some (ipAt value 0) } := by
  obtain ⟨tag, value⟩ := record
  simp only [DhcpOptions.take, valueOf, decide_eq_true_eq]
  -- the tags are different, so at most one field is set
  by_cases hmsgType : tag = 53 ∧ value.length = 1
  · simp [hmsgType]
  by_cases hserverId : tag = 54 ∧ value.length = 4
  · simp [hserverId]
  by_cases hsubnet : tag = 1 ∧ value.length = 4
  · simp [hsubnet]
  by_cases hgateway : tag = 3 ∧ value.length = 4
  · simp [hgateway]
  by_cases hdns : tag = 6 ∧ 4 ≤ value.length
  · simp [hdns]
  simp only [hmsgType, hserverId, hsubnet, hgateway, hdns, if_false, Option.elim_none]

/-- A field that every record of its kind sets holds the value of the last one. -/
private theorem map_lastValue {π : DhcpOptions → Option Ipv4Addr} {tag : UInt8} {fits : Nat → Bool}
    (hinitial : π .initial = none)
    (h : ∀ found record, π (found.take record) =
      (valueOf tag fits record).elim (π found) fun value => some (ipAt value 0)) :
    π (options.foldl DhcpOptions.take .initial) = (lastValue tag fits options).map (ipAt · 0) := by
  rw [Tlv.foldl_last h, hinitial, lastValue]
  cases (options.filterMap (valueOf tag fits)).getLast? <;> rfl

/-- What the loop finds, field by field. -/
private theorem foldl_take (options : List Tlv.Record) :
    options.foldl DhcpOptions.take .initial =
      { announced options with
        gateway := (lastValue 3 (· = 4) options).map (ipAt · 0)
        dns := (lastValue 6 (4 ≤ ·) options).map (ipAt · 0) } := by
  apply DhcpOptions.ext
  · exact Tlv.foldl_last (fun found record => congrArg DhcpOptions.msgType (take_eq found record))
      options .initial
  · exact map_lastValue rfl fun found record => congrArg DhcpOptions.subnet (take_eq found record)
  · exact map_lastValue rfl fun found record => congrArg DhcpOptions.gateway (take_eq found record)
  · exact map_lastValue rfl fun found record => congrArg DhcpOptions.dns (take_eq found record)
  · exact map_lastValue rfl fun found record => congrArg DhcpOptions.serverId (take_eq found record)

private theorem isAddressList_four : isAddressList 4 = true := rfl

/-- With DNS options of addresses only, what the loop finds is what was announced when the router
    options are guarded. -/
private theorem foldl_take_eq_announced_iff
    (hdns : ∀ record ∈ options, record.1 = 6 → isAddressList record.2.length) :
    options.foldl DhcpOptions.take .initial = announced options ↔ RouterGuard options := by
  have hlast : lastValue 6 (4 ≤ ·) options = lastValue 6 isAddressList options := by
    apply lastValue_congr
    intro record hmem htag
    have hlist := hdns record hmem htag
    rw [hlist]
    simp only [isAddressList, Bool.decide_and, Bool.and_eq_true, decide_eq_true_eq] at hlist ⊢
    omega
  -- what is left is the gateway
  rw [foldl_take, hlast]
  constructor
  · intro heq routers hrouters
    have hgateway : (lastValue 3 (· = 4) options).map (ipAt · 0) =
        (lastValue 3 isAddressList options).map (ipAt · 0) := congrArg DhcpOptions.gateway heq
    rw [hrouters] at hgateway
    exact Option.map_eq_some_iff.mp hgateway
  · intro hguard
    apply DhcpOptions.ext
    case gateway =>
      change (lastValue 3 (· = 4) options).map (ipAt · 0) =
        (lastValue 3 isAddressList options).map (ipAt · 0)
      cases hrouters : lastValue 3 isAddressList options with
      | none =>
        -- without a list of addresses there is no single address either
        have hnone : lastValue 3 (· = 4) options = none := by
          rw [lastValue_eq_none_iff] at hrouters ⊢
          intro record hmem htag
          by_contra hfour
          have hlist := hrouters record hmem htag
          rw [of_decide_eq_true (Bool.eq_true_of_not_eq_false hfour), isAddressList_four] at hlist
          cases hlist
        rw [hnone]
      | some routers =>
        obtain ⟨router, hrouter, hsame⟩ := hguard routers hrouters
        rw [hrouter, Option.map_some, Option.map_some, hsame]
    all_goals rfl

end Announced

/-- The records that are encoded. -/
def recordsOf (fields : List (Nat × Tlv.Field 0 255)) : List Tlv.Record :=
  fields.map fun (_, field) => field.record

/-- **Option decoding**: no byte string makes the loop trap, and from encoded options it gets what
    they announce exactly when the router options are guarded. -/
theorem parseDhcpOptions_iff (fields : List (Nat × Tlv.Field 0 255)) (pads : Nat)
    (tail : List UInt8)
    (hlists : ∀ record ∈ recordsOf fields, record.1 = 3 ∨ record.1 = 6 →
      isAddressList record.2.length) :
    (∀ opts, ∃ found, parseDhcpOptions opts = .ok found) ∧
      (parseDhcpOptions (Tlv.encoded 0 255 fields pads tail) = .ok (announced (recordsOf fields)) ↔
        RouterGuard (recordsOf fields)) := by
  refine ⟨fun opts => ⟨_, parseDhcpOptions_eq opts⟩, ?_⟩
  rw [parseDhcpOptions_eq, Tlv.records_encoded (by decide), Except.ok.injEq]
  exact foldl_take_eq_announced_iff fun record hmem htag => hlists record hmem (.inr htag)

/-- The tag of the message type is none of the two without a length. -/
theorem messageType_tag : (53 : UInt8) ≠ 0 ∧ (53 : UInt8) ≠ 255 := by decide

/-- Router options of the given addresses, after a mask and before a name server. -/
private def leaseFields (routers : Tlv.Field 0 255) : List (Nat × Tlv.Field 0 255) :=
  [(0, ⟨53, [5], messageType_tag, by decide⟩), (2, ⟨1, [255, 255, 255, 0], by decide, by decide⟩),
    (0, routers), (1, ⟨6, [10, 0, 2, 3, 8, 8, 8, 8], by decide, by decide⟩)]

/-- One router and two name servers. -/
theorem one_router_found :
    parseDhcpOptions (Tlv.encoded 0 255 (leaseFields ⟨3, [10, 0, 2, 2], by decide, by decide⟩) 1
        [7, 7]) =
      .ok ⟨5, some ⟨255, 255, 255, 0⟩, some ⟨10, 0, 2, 2⟩, some ⟨10, 0, 2, 3⟩, none⟩ := by
  refine ((parseDhcpOptions_iff _ 1 [7, 7] (by decide)).2.mpr ?_).trans rfl
  intro routers hrouters
  exact ⟨routers, hrouters, rfl⟩

/-- Of two routers none is taken. -/
theorem two_routers_missed :
    ¬∀ (fields : List (Nat × Tlv.Field 0 255)) (pads : Nat) (tail : List UInt8),
      (∀ record ∈ recordsOf fields, record.1 = 3 ∨ record.1 = 6 →
        isAddressList record.2.length) →
      parseDhcpOptions (Tlv.encoded 0 255 fields pads tail) =
        .ok (announced (recordsOf fields)) := by
  intro hall
  have hfound := hall (leaseFields ⟨3, [10, 0, 2, 2, 10, 0, 2, 4], by decide, by decide⟩) 0 []
    (by decide)
  rw [parseDhcpOptions_eq, Tlv.records_encoded (by decide), Except.ok.injEq] at hfound
  exact absurd (congrArg DhcpOptions.gateway hfound) (by decide)

end RustKernel.Net.Dhcp
