import RustKernel.Lib.Buffer
import Mathlib.Data.List.Destutter
import Mathlib.Data.List.DropRight

/-!
# RustKernel.Shell.History

The command history of the shell: the last commands, and an index into them that is -1 while none is
selected. Every access to a command is checked.

## Main result

`history`: for every sequence of calls, no index is out of range, the commands are the last of those
pushed with repeats removed, and after a push the selection goes back with `prev` and forth with
`next`.
-/

namespace RustKernel.Shell

open Lib

def MAX_HISTORY : Nat := 16

structure History where
  items : List String
  index : Int
  deriving DecidableEq, Repr

namespace History

def new : History := ⟨[], -1⟩

def push (h : History) (cmd : String) : History :=
  if cmd = "" then { h with index := -1 }
  else if h.items.getLast? = some cmd then { h with index := -1 }
  else
    let items := h.items ++ [cmd]
    ⟨if MAX_HISTORY < items.length then items.drop 1 else items, -1⟩

/-- `self.items[index as usize]`. As a `usize`, a negative index is beyond every length. -/
def item (h : History) (index : Int) : Checked String :=
  if index < 0 then .error .index else Lib.index h.items index.toNat

def prev (h : History) : Checked (Option String × History) :=
  if h.items.length = 0 then .ok (none, h)
  else do
    let index : Int :=
      if h.index < 0 then (h.items.length : Int) - 1
      else if 0 < h.index then h.index - 1
      else h.index
    let selected ← h.item index
    .ok (some selected, { h with index })

def next (h : History) : Checked (Option String × History) :=
  if h.items.length = 0 ∨ h.index < 0 then .ok (none, h)
  else if (h.items.length : Int) - 1 ≤ h.index then .ok (none, { h with index := -1 })
  else do
    let selected ← h.item (h.index + 1)
    .ok (some selected, { h with index := h.index + 1 })

/-- The history with the command `i` selected. -/
def select (h : History) (i : Nat) : History := { h with index := i }

@[simp] theorem select_items (h : History) (i : Nat) : (h.select i).items = h.items := rfl

@[simp] theorem select_index (h : History) (i : Nat) : (h.select i).index = i := rfl

inductive Call
  | push (cmd : String)
  | prev
  | next
  deriving DecidableEq, Repr

/-- A call and what it returns; `push` returns nothing. -/
def call (h : History) : Call → Checked (Option String × History)
  | .push cmd => .ok (none, h.push cmd)
  | .prev => h.prev
  | .next => h.next

/-- The results of a sequence of calls and the history behind it. -/
def calls (h : History) : List Call → Checked (List (Option String) × History)
  | [] => .ok ([], h)
  | c :: cs => do
    let (result, h) ← h.call c
    let (results, h) ← h.calls cs
    .ok (result :: results, h)

private theorem calls_cons {h h' h'' : History} {c : Call} {cs : List Call} {r : Option String}
    {rs : List (Option String)} (hc : h.call c = .ok (r, h')) (hcs : h'.calls cs = .ok (rs, h'')) :
    h.calls (c :: cs) = .ok (r :: rs, h'') := by
  simp only [calls, hc, ok_bind, hcs]

private theorem calls_append {h h' h'' : History} {cs ds : List Call}
    {rs rs' : List (Option String)}
    (hcs : h.calls cs = .ok (rs, h')) (hds : h'.calls ds = .ok (rs', h'')) :
    h.calls (cs ++ ds) = .ok (rs ++ rs', h'') := by
  induction cs generalizing h rs with
  | nil =>
    obtain ⟨rfl, rfl⟩ := Prod.mk.inj (Except.ok.inj hcs)
    exact hds
  | cons c cs ih =>
    rw [calls] at hcs
    cases hc : h.call c with
    | error e =>
      rw [hc] at hcs
      cases hcs
    | ok r =>
      simp only [hc, ok_bind] at hcs
      cases hrest : r.2.calls cs with
      | error e =>
        rw [hrest] at hcs
        cases hcs
      | ok p =>
        rw [hrest] at hcs
        obtain ⟨rfl, rfl⟩ := Prod.mk.inj (Except.ok.inj hcs)
        exact calls_cons hc (ih hrest)

/-! ### What is kept -/

/-- The commands of a sequence of calls that are not empty. -/
def pushed : List Call → List String :=
  List.filterMap fun
    | .push cmd => if cmd = "" then none else some cmd
    | _ => none

private theorem pushed_append (cs ds : List Call) : pushed (cs ++ ds) = pushed cs ++ pushed ds :=
  List.filterMap_append

/-- The last commands, without those that repeat the one before. -/
def kept (cmds : List String) : List String := (cmds.destutter (· ≠ ·)).rtake MAX_HISTORY

private theorem destutter'_concat (a : String) (l : List String) (b : String) :
    (l ++ [b]).destutter' (· ≠ ·) a =
      if (a :: l).getLast? = some b then l.destutter' (· ≠ ·) a
      else l.destutter' (· ≠ ·) a ++ [b] := by
  induction l generalizing a with
  | nil => by_cases h : a = b <;> simp [h]
  | cons c l ih =>
    by_cases h : a ≠ c
    · rw [List.cons_append, List.destutter'_cons_pos _ h, List.destutter'_cons_pos _ h, ih,
        List.getLast?_cons_cons]
      split <;> rfl
    · rw [List.cons_append, List.destutter'_cons_neg _ h, List.destutter'_cons_neg _ h, ih]
      simp [not_not.mp h, List.getLast?_cons_cons]

/-- A command that repeats the last one does not count; any other one comes last. -/
private theorem destutter_concat (l : List String) (b : String) :
    (l ++ [b]).destutter (· ≠ ·) =
      if l.getLast? = some b then l.destutter (· ≠ ·) else l.destutter (· ≠ ·) ++ [b] := by
  cases l with
  | nil => rfl
  | cons a l => exact destutter'_concat a l b

private theorem getLast?_destutter (l : List String) :
    (l.destutter (· ≠ ·)).getLast? = l.getLast? := by
  induction l using List.reverseRecOn with
  | nil => rfl
  | append_singleton l b ih =>
    rw [destutter_concat]
    split
    · rename_i h
      rw [ih, h]
      simp
    · simp

private theorem getLast?_rtake (l : List String) {n : Nat} (h : 0 < n) :
    (l.rtake n).getLast? = l.getLast? := by
  rw [List.rtake_eq_reverse_take_reverse, List.getLast?_reverse, ← List.head?_reverse,
    List.head?_take, if_neg h.ne']

private theorem getLast?_kept (cmds : List String) : (kept cmds).getLast? = cmds.getLast? := by
  rw [kept, getLast?_rtake _ (by decide), getLast?_destutter]

private theorem length_rtake (l : List String) (n : Nat) : (l.rtake n).length = min n l.length := by
  simp [List.rtake_eq_reverse_take_reverse]

/-- One more command than is kept pushes out the first one. -/
private theorem rtake_concat (l : List String) (b : String) :
    (l ++ [b]).rtake MAX_HISTORY =
      if MAX_HISTORY < (l.rtake MAX_HISTORY ++ [b]).length then
        (l.rtake MAX_HISTORY ++ [b]).drop 1
      else l.rtake MAX_HISTORY ++ [b] := by
  have hlen := length_rtake l MAX_HISTORY
  simp only [List.rtake, List.length_append, List.length_singleton] at hlen ⊢
  rw [hlen]
  split
  · rename_i h
    -- as many as are kept, so the first of them drops out
    have hge : MAX_HISTORY ≤ l.length := by omega
    have hsub : l.length + 1 - MAX_HISTORY = l.length - MAX_HISTORY + 1 := by omega
    rw [hsub, List.drop_append_of_le_length (by unfold MAX_HISTORY at *; omega),
      List.drop_append_of_le_length (by rw [List.length_drop]; unfold MAX_HISTORY at *; omega),
      List.drop_drop]
  · rename_i h
    have hle : l.length + 1 ≤ MAX_HISTORY := by omega
    rw [Nat.sub_eq_zero_of_le hle, Nat.sub_eq_zero_of_le (by omega)]
    rfl

/-- A push keeps what is to be kept. -/
private theorem items_push {h : History} {cmds : List String} (hitems : h.items = kept cmds)
    (cmd : String) :
    (h.push cmd).items = kept (cmds ++ if cmd = "" then [] else [cmd]) ∧
      (h.push cmd).index = -1 := by
  unfold push
  by_cases hempty : cmd = ""
  · simp [hempty, hitems]
  · rw [if_neg hempty, if_neg hempty, hitems, getLast?_kept, kept, kept, destutter_concat]
    split
    · exact ⟨rfl, rfl⟩
    · rw [rtake_concat]
      exact ⟨rfl, rfl⟩

/-! ### Navigation -/

/-- The index is -1 or that of a command. -/
def Valid (h : History) : Prop := -1 ≤ h.index ∧ h.index < h.items.length

private theorem item_ok {h : History} {i : Nat} (hi : i < h.items.length) :
    h.item i = .ok (h.items.get ⟨i, hi⟩) := by
  have hneg : ¬(i : Int) < 0 := by omega
  rw [item, if_neg hneg, Int.toNat_natCast, index_ok hi]

/-- `prev` selects the command before; from no selection the last one, and from the first one that
    one again. -/
private theorem prev_eq {h : History} {i : Nat} (hi : i < h.items.length)
    (hindex : (h.index < 0 ∧ i + 1 = h.items.length) ∨ h.index = i + 1 ∨ (h.index = 0 ∧ i = 0)) :
    h.prev = .ok (some (h.items.get ⟨i, hi⟩), h.select i) := by
  have hval : (if h.index < 0 then (h.items.length : Int) - 1
      else if 0 < h.index then h.index - 1 else h.index) = i := by
    split_ifs <;> omega
  have hpos : h.items.length ≠ 0 := by omega
  simp only [prev, if_neg hpos, hval, item_ok hi]
  rfl

/-- `next` selects the command behind. -/
private theorem next_eq {h : History} {i : Nat} (hindex : h.index = i)
    (hi : i + 1 < h.items.length) :
    h.next = .ok (some (h.items.get ⟨i + 1, hi⟩), h.select (i + 1)) := by
  have hnone : ¬(h.items.length = 0 ∨ h.index < 0) := by omega
  have hlast : ¬(h.items.length : Int) - 1 ≤ h.index := by omega
  have hsucc : h.index + 1 = ((i + 1 : Nat) : Int) := by omega
  rw [next, if_neg hnone, if_neg hlast, hsucc, item_ok hi]
  rfl

/-- A call moved the selection: the index is valid again, the commands are the same, and what was
    returned is one of them. -/
structure Moved (h : History) (selected : Option String) (h' : History) : Prop where
  valid : h'.Valid
  items : h'.items = h.items
  mem : ∀ s, selected = some s → s ∈ h.items

private theorem moved_none {h : History} {index : Int} (hlow : -1 ≤ index)
    (hhigh : index < h.items.length) : h.Moved none { h with index } :=
  ⟨⟨hlow, hhigh⟩, rfl, fun s hs => absurd hs (Option.some_ne_none s).symm⟩

private theorem moved_select {h : History} {i : Nat} (hi : i < h.items.length) :
    h.Moved (some (h.items.get ⟨i, hi⟩)) (h.select i) where
  valid := ⟨by rw [select_index]; omega, by rw [select_index, select_items]; omega⟩
  items := rfl
  mem := by
    intro s hs
    rw [← Option.some.inj hs]
    exact List.getElem_mem hi

/-- `prev` finds a command or leaves the history as it is. -/
theorem prev_ok {h : History} (hvalid : h.Valid) :
    ∃ selected h', h.prev = .ok (selected, h') ∧ h.Moved selected h' := by
  obtain ⟨hlow, hhigh⟩ := hvalid
  by_cases hnil : h.items.length = 0
  · exact ⟨none, h, if_pos hnil, moved_none hlow hhigh⟩
  · obtain ⟨i, hi, hindex⟩ : ∃ i, i < h.items.length ∧ ((h.index < 0 ∧ i + 1 = h.items.length) ∨
        h.index = i + 1 ∨ (h.index = 0 ∧ i = 0)) := by
      -- from no selection, from the first command and from one behind it
      rcases lt_trichotomy h.index 0 with hneg | hzero | hpos
      · exact ⟨h.items.length - 1, by omega, .inl ⟨hneg, by omega⟩⟩
      · exact ⟨0, by omega, .inr (.inr ⟨hzero, rfl⟩)⟩
      · exact ⟨(h.index - 1).toNat, by omega, .inr (.inl (by omega))⟩
    exact ⟨_, _, prev_eq hi hindex, moved_select hi⟩

theorem next_ok {h : History} (hvalid : h.Valid) :
    ∃ selected h', h.next = .ok (selected, h') ∧ h.Moved selected h' := by
  obtain ⟨hlow, hhigh⟩ := hvalid
  by_cases hnone : h.items.length = 0 ∨ h.index < 0
  · exact ⟨none, h, if_pos hnone, moved_none hlow hhigh⟩
  by_cases hlast : (h.items.length : Int) - 1 ≤ h.index
  · -- behind the last command the selection ends
    refine ⟨none, { h with index := -1 }, ?_, moved_none le_rfl (by omega)⟩
    rw [next, if_neg hnone, if_pos hlast]
  · obtain ⟨i, hi⟩ := Int.eq_ofNat_of_zero_le (show 0 ≤ h.index by omega)
    have hlt : i + 1 < h.items.length := by omega
    exact ⟨_, _, next_eq hi hlt, moved_select hlt⟩

/-- Every call returns, with an index that is valid again; only `push` changes the commands. -/
private theorem call_ok {h : History} (hvalid : h.Valid) {cmds : List String}
    (hitems : h.items = kept cmds)
    (c : Call) : ∃ r h', h.call c = .ok (r, h') ∧ h'.Valid ∧
      h'.items = kept (cmds ++ pushed [c]) := by
  have hstay : h.items = kept (cmds ++ []) := by rw [List.append_nil, hitems]
  cases c with
  | push cmd =>
    obtain ⟨hkept, hindex⟩ := items_push hitems cmd
    refine ⟨none, h.push cmd, rfl, ?_, ?_⟩
    · constructor <;> omega
    · rw [hkept]
      by_cases hempty : cmd = "" <;> simp [pushed, hempty]
  | prev =>
    obtain ⟨r, h', hprev, hmoved⟩ := prev_ok hvalid
    exact ⟨r, h', hprev, hmoved.valid, hmoved.items.trans hstay⟩
  | next =>
    obtain ⟨r, h', hnext, hmoved⟩ := next_ok hvalid
    exact ⟨r, h', hnext, hmoved.valid, hmoved.items.trans hstay⟩

/-- Every sequence of calls returns. -/
private theorem calls_ok {h : History} (hvalid : h.Valid) {cmds : List String}
    (hitems : h.items = kept cmds) (cs : List Call) :
    ∃ rs h', h.calls cs = .ok (rs, h') ∧ h'.Valid ∧
      h'.items = kept (cmds ++ pushed cs) := by
  induction cs generalizing h cmds with
  | nil => exact ⟨[], h, rfl, hvalid, by simpa [pushed] using hitems⟩
  | cons c cs ih =>
    obtain ⟨r, h', hcall, hvalid', hitems'⟩ := call_ok hvalid hitems c
    obtain ⟨rs, h'', hcalls, hvalid'', hitems''⟩ := ih hvalid' hitems'
    refine ⟨r :: rs, h'', calls_cons hcall hcalls, hvalid'', ?_⟩
    rw [hitems'', List.append_assoc, ← pushed_append]
    rfl

/-- From no selection, `k` calls of `prev` select the `k`-th command from the end. -/
private theorem calls_prev {h : History} (hindex : h.index = -1) {k : Nat} (hk : 1 ≤ k)
    (hle : k ≤ h.items.length) : ∃ rs, ∃ hi : h.items.length - k < h.items.length,
      h.calls (List.replicate k .prev) = .ok (rs, h.select (h.items.length - k)) ∧
      rs.getLast? = some (some (h.items.get ⟨h.items.length - k, hi⟩)) := by
  induction k, hk using Nat.le_induction with
  | base =>
    have hi : h.items.length - 1 < h.items.length := by omega
    have hprev := prev_eq hi (.inl ⟨by omega, by omega⟩)
    exact ⟨_, hi, calls_cons hprev rfl, rfl⟩
  | succ k hk ih =>
    obtain ⟨rs, -, hcalls, -⟩ := ih (by omega)
    have hi : h.items.length - (k + 1) < h.items.length := by omega
    have hprev := prev_eq (h := h.select (h.items.length - k)) hi
      (.inr (.inl (by rw [select_index]; omega)))
    rw [List.replicate_succ']
    exact ⟨_, hi, calls_append hcalls (calls_cons hprev rfl), List.getLast?_concat⟩

/-- From the command `i`, `j` calls of `next` select the `j`-th one behind it. -/
private theorem calls_next {h : History} {i : Nat} (hindex : h.index = i) {j : Nat} (hj : 1 ≤ j)
    (hlt : i + j < h.items.length) : ∃ rs,
      h.calls (List.replicate j .next) = .ok (rs, h.select (i + j)) ∧
      rs.getLast? = some (some (h.items.get ⟨i + j, hlt⟩)) := by
  induction j, hj using Nat.le_induction with
  | base => exact ⟨_, calls_cons (next_eq hindex hlt) rfl, rfl⟩
  | succ j hj ih =>
    obtain ⟨rs, hcalls, -⟩ := ih (by omega)
    have hnext := next_eq (h := h.select (i + j)) rfl hlt
    rw [List.replicate_succ']
    exact ⟨_, calls_append hcalls (calls_cons hnext rfl), List.getLast?_concat⟩

/-- Back `k` commands and forth `j`, with less forth than back. -/
private theorem calls_back_and_forth {h : History} (hindex : h.index = -1) {k j : Nat} (hk : 1 ≤ k)
    (hle : k ≤ h.items.length) (hj : j < k) : ∃ rs h',
      h.calls (List.replicate k .prev ++ List.replicate j .next) = .ok (rs, h') ∧
      h'.items = h.items ∧ h'.index = (h.items.length - k + j : Nat) ∧
      ∃ cmd, h.items[h.items.length - k + j]? = some cmd ∧ rs.getLast? = some (some cmd) := by
  obtain ⟨rs, hi, hprev, hlast⟩ := calls_prev hindex hk hle
  rcases Nat.eq_zero_or_pos j with rfl | hpos
  · rw [List.replicate_zero, List.append_nil]
    exact ⟨rs, _, hprev, rfl, rfl, _, List.getElem?_eq_getElem hi, hlast⟩
  · have hlt : h.items.length - k + j < h.items.length := by omega
    obtain ⟨rs', hnext, hlast'⟩ :=
      calls_next (h := h.select (h.items.length - k)) rfl hpos hlt
    refine ⟨rs ++ rs', _, calls_append hprev hnext, rfl, rfl, _, List.getElem?_eq_getElem hlt, ?_⟩
    rw [List.getLast?_append, hlast']
    rfl

/-- The command history, for every sequence of calls on a new one. -/
theorem history (cs : List Call) : ∃ rs h, new.calls cs = .ok (rs, h) ∧
    h.items = kept (pushed cs) ∧
    ∀ cmd k j, 1 ≤ k → k ≤ (h.push cmd).items.length → j < k → ∃ rs' h',
      (h.push cmd).calls (List.replicate k .prev ++ List.replicate j .next) = .ok (rs', h') ∧
      h'.items = (h.push cmd).items ∧ h'.index = ((h.push cmd).items.length - k + j : Nat) ∧
      ∃ selected, (h.push cmd).items[(h.push cmd).items.length - k + j]? = some selected ∧
        rs'.getLast? = some (some selected) := by
  have hvalid : new.Valid := ⟨le_rfl, by decide⟩
  have hnone : new.items = kept [] := rfl
  obtain ⟨rs, h, hcalls, -, hitems⟩ := calls_ok hvalid hnone cs
  rw [List.nil_append] at hitems
  refine ⟨rs, h, hcalls, hitems, ?_⟩
  intro cmd k j hk hle hj
  exact calls_back_and_forth (items_push hitems cmd).2 hk hle hj

example : (new.calls [.push "ls", .push "cat a", .push "cat a", .prev, .prev, .next]).map (·.1) =
    .ok [none, none, none, some "cat a", some "ls", some "cat a"] := by
  decide +kernel

end History

end RustKernel.Shell
