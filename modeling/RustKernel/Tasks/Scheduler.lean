import Mathlib.Data.Fin.Basic
import Mathlib.Logic.Function.Basic
import RustKernel.Lib.Run

/-!
# RustKernel.Tasks.Scheduler

The round-robin scheduler: a table of eight tasks, `spawn`, and `schedule`, which the timer
interrupt calls with the stack pointer of the task it preempts.

## Main result

`round_robin`: in every run of `spawn` and `schedule` calls after `init`, a `schedule` call leaves
exactly one task running, the current one; it returns the stack pointer that this task was last
preempted with, or its initial frame; and a ready task is selected within `MAX_TASKS` calls.

## Proof strategy

`schedule_eq` says once what a call does: it saves the current task and moves to the first ready
task after it, which exists because the current task is the last candidate. `Inv` follows for whole
runs. For the bound, the distance from the current task to a ready task drops at every call that
does not select it.
-/

namespace RustKernel.Scheduler

open Lib

abbrev MAX_TASKS : Nat := 8
def STACK_SIZE : UInt64 := 32768

inductive TaskState where
  | free
  | ready
  | running
  deriving DecidableEq, Repr

/-- A task, without the bytes of its stack. -/
structure Task where
  rsp : UInt64
  state : TaskState
  deriving DecidableEq, Repr

/-- `TASKS` and `CURRENT`. -/
structure Table where
  tasks : Vector Task MAX_TASKS
  current : Fin MAX_TASKS

/-- The statics, before `init`. -/
def Table.boot : Table := ⟨Vector.replicate MAX_TASKS ⟨0, .free⟩, 0⟩

/-- The state of a task. -/
def Table.state (s : Table) (i : Fin MAX_TASKS) : TaskState := (s.tasks.get i).state

/-- Task 0 starts as ready: it becomes running on the first `schedule`. -/
def init (s : Table) : Table :=
  { s with tasks := s.tasks.set 0 { s.tasks.get 0 with state := .ready } (by decide) }

/-- Where the frame of 20 words that `spawn` builds starts, on a stack at `stackBottom`. -/
def initialFrame (stackBottom : UInt64) : UInt64 := stackBottom + STACK_SIZE - 20 * 8

/-- `spawn`: the first free slot other than 0 gets the initial frame; `none` stands for -1. The
    stacks start at the addresses `stackBottom`. -/
def spawn (stackBottom : Fin MAX_TASKS → UInt64) (s : Table) : Option (Fin MAX_TASKS) × Table :=
  match (List.finRange MAX_TASKS).find? fun i => 1 ≤ i.val ∧ s.state i = .free with
  | none => (none, s)
  | some i => (some i, { s with tasks := s.tasks.set i ⟨initialFrame (stackBottom i), .ready⟩ })

/-- The loop of `schedule`: the first ready task among `tries` candidates from `next` on. -/
def findReady (tasks : Vector Task MAX_TASKS) (next : Fin MAX_TASKS) : Nat → Option (Fin MAX_TASKS)
  | 0 => none
  | tries + 1 =>
    if (tasks.get next).state = .ready then some next else findReady tasks (next + 1) tries

/-- The current task, saved: it is ready again if it was running. -/
def saveCurrent (s : Table) (currentRsp : UInt64) : Vector Task MAX_TASKS :=
  s.tasks.set s.current
    ⟨currentRsp, if s.state s.current = .running then .ready else s.state s.current⟩

/-- `schedule`: the stack pointer to go on with, and the table. -/
def schedule (s : Table) (currentRsp : UInt64) : UInt64 × Table :=
  let tasks := saveCurrent s currentRsp
  match findReady tasks (s.current + 1) MAX_TASKS with
  | some next =>
    ((tasks.get next).rsp, ⟨tasks.set next { tasks.get next with state := .running }, next⟩)
  | none =>
    -- no ready task found, stay on the current one
    (currentRsp, { s with
      tasks := tasks.set s.current { tasks.get s.current with state := .running } })

/-! ### Runs -/

inductive Event where
  | spawn
  | schedule (rsp : UInt64)

/-- The scheduler with what each task was last preempted with: the stack pointer of the last
    `schedule` call that found it current. -/
structure History where
  table : Table
  saved : Fin MAX_TASKS → Option UInt64

def History.start : History := ⟨init .boot, fun _ => none⟩

variable (stackBottom : Fin MAX_TASKS → UInt64)

def History.step (t : History) : Event → History
  | .spawn => { t with table := (spawn stackBottom t.table).2 }
  | .schedule rsp =>
    { table := (schedule t.table rsp).2
      saved := Function.update t.saved t.table.current (some rsp) }

/-- The state after a run. -/
def History.after (t : History) (es : List Event) : History := es.foldl (History.step stackBottom) t

def Event.isSchedule : Event → Bool
  | .spawn => false
  | .schedule _ => true

/-- The number of `schedule` calls of a run. -/
def scheduleCalls (es : List Event) : Nat := es.countP Event.isSchedule

@[simp] theorem scheduleCalls_spawn (es : List Event) :
    scheduleCalls (.spawn :: es) = scheduleCalls es :=
  List.countP_cons_of_neg Bool.false_ne_true

@[simp] theorem scheduleCalls_schedule (rsp : UInt64) (es : List Event) :
    scheduleCalls (.schedule rsp :: es) = scheduleCalls es + 1 :=
  List.countP_cons_of_pos rfl

/-- Exactly the current task is running. -/
def Table.OneRunning (s : Table) : Prop := ∀ i, s.state i = .running ↔ i = s.current

/-- The context of a task: what it was last preempted with, or its initial frame. -/
def History.context (t : History) (i : Fin MAX_TASKS) : UInt64 :=
  (t.saved i).getD (initialFrame (stackBottom i))

/-- The task is selected by one of the first `MAX_TASKS` calls of `schedule` in `es`. -/
def History.SelectsWithin (t : History) (i : Fin MAX_TASKS) (es : List Event) : Prop :=
  ∃ es₁ rsp es₂, es = es₁ ++ .schedule rsp :: es₂ ∧ scheduleCalls es₁ < MAX_TASKS ∧
    (t.after stackBottom (es₁ ++ [.schedule rsp])).table.current = i

variable {stackBottom}

/-! ### The scan -/

/-- The candidate `k` places further on. -/
def ahead (i : Fin MAX_TASKS) (k : Nat) : Fin MAX_TASKS :=
  ⟨(i.val + k) % MAX_TASKS, Nat.mod_lt _ (by decide)⟩

private theorem ahead_zero (i : Fin MAX_TASKS) : ahead i 0 = i := by
  apply Fin.ext
  exact Nat.mod_eq_of_lt i.isLt

private theorem ahead_succ (i : Fin MAX_TASKS) (k : Nat) : ahead (i + 1) k = ahead i (k + 1) := by
  have hsucc : (i + 1).val = (i.val + 1) % 8 := Fin.val_add i 1
  apply Fin.ext
  simp only [ahead, MAX_TASKS, hsucc]
  omega

/-- How many candidates the scan from the task after `i` tries before `j`. -/
def distance (i j : Fin MAX_TASKS) : Nat := (j.val + 7 - i.val) % MAX_TASKS

private theorem distance_lt (i j : Fin MAX_TASKS) :
    distance i j < MAX_TASKS := Nat.mod_lt _ (by decide)

private theorem ahead_distance (i j : Fin MAX_TASKS) : ahead (i + 1) (distance i j) = j := by
  revert i j
  decide

/-- A step of the scan that does not reach `j` brings it closer. -/
private theorem distance_ahead (i j : Fin MAX_TASKS) (k : Nat) (hk : k < distance i j) :
    distance (ahead (i + 1) k) j < distance i j := by
  have hj : j.val < 8 := j.isLt
  have hi : i.val < 8 := i.isLt
  have hsucc : (i + 1).val = (i.val + 1) % 8 := Fin.val_add i 1
  simp only [distance, ahead, MAX_TASKS, hsucc] at hk ⊢
  omega

private theorem findReady_some {tasks : Vector Task MAX_TASKS} {next j : Fin MAX_TASKS} {n : Nat}
    (h : findReady tasks next n = some j) :
    ∃ k < n, j = ahead next k ∧ (tasks.get j).state = .ready ∧
      ∀ k' < k, (tasks.get (ahead next k')).state ≠ .ready := by
  induction n generalizing next with
  | zero => cases h
  | succ n ih =>
    rw [findReady] at h
    split at h
    case isTrue hready =>
      obtain rfl := Option.some.inj h
      refine ⟨0, Nat.succ_pos n, (ahead_zero next).symm, hready, ?_⟩
      intro k' hk'
      exact absurd hk' (Nat.not_lt_zero k')
    -- the scan goes on, and `next` is one of those it has passed
    case isFalse hnot =>
      obtain ⟨k, hk, rfl, hready, hbefore⟩ := ih h
      refine ⟨k + 1, Nat.succ_lt_succ hk, ahead_succ next k, hready, ?_⟩
      intro k' hk'
      cases k' with
      | zero =>
        rw [ahead_zero]
        exact hnot
      | succ k' =>
        rw [← ahead_succ]
        exact hbefore k' (Nat.lt_of_succ_lt_succ hk')

/-- The scan finds a task if one of the candidates is ready. -/
private theorem findReady_ne_none {tasks : Vector Task MAX_TASKS} {next : Fin MAX_TASKS} {n k : Nat}
    (hk : k < n) (hready : (tasks.get (ahead next k)).state = .ready) :
    findReady tasks next n ≠ none := by
  induction n generalizing next k with
  | zero => exact absurd hk (Nat.not_lt_zero k)
  | succ n ih =>
    rw [findReady]
    split
    case isTrue => exact Option.some_ne_none _
    case isFalse hnot =>
      cases k with
      | zero =>
        rw [ahead_zero] at hready
        exact absurd hready hnot
      | succ k =>
        rw [← ahead_succ] at hready
        exact ih (Nat.lt_of_succ_lt_succ hk) hready

/-! ### What a call does -/

theorem get_set (tasks : Vector Task MAX_TASKS) (i j : Fin MAX_TASKS) (x : Task) :
    (tasks.set i x).get j = if j = i then x else tasks.get j := by
  change (tasks.set i.val x)[j.val] = _
  rw [Vector.getElem_set]
  by_cases hij : j = i
  · rw [if_pos hij, if_pos (congrArg Fin.val hij).symm]
  · rw [if_neg hij, if_neg fun h => hij (Fin.ext h.symm)]
    rfl

/-- The state of a task once the current one is saved. -/
private theorem state_saveCurrent (s : Table) (rsp : UInt64) (i : Fin MAX_TASKS) :
    ((saveCurrent s rsp).get i).state =
      if i = s.current ∧ s.state i = .running then .ready else s.state i := by
  rw [saveCurrent, get_set]
  by_cases hi : i = s.current
  · subst hi
    simp
  · rw [if_neg hi, if_neg fun h => hi h.1]
    rfl

private theorem rsp_saveCurrent (s : Table) (rsp : UInt64) (i : Fin MAX_TASKS) :
    ((saveCurrent s rsp).get i).rsp = if i = s.current then rsp else (s.tasks.get i).rsp := by
  rw [saveCurrent, get_set]
  split <;> rfl

/-- A `schedule` call has saved the current task and moved to the first ready one after it, having
    passed `k` candidates. -/
structure Scheduled (s : Table) (rsp : UInt64) (k : Nat) (returned : UInt64) (s' : Table) :
    Prop where
  current : s'.current = ahead (s.current + 1) k
  selected : s.state s'.current ≠ .free
  passed : ∀ k' < k, s.state (ahead (s.current + 1) k') ≠ .ready
  states : ∀ i, s'.state i = if i = s'.current then .running
    else if i = s.current ∧ s.state i = .running then .ready else s.state i
  contexts : ∀ i, (s'.tasks.get i).rsp = if i = s.current then rsp else (s.tasks.get i).rsp
  returned : returned = (s'.tasks.get s'.current).rsp

theorem schedule_spec (s : Table) (rsp : UInt64) (hcur : s.state s.current ≠ .free) :
    ∃ k < MAX_TASKS, Scheduled s rsp k (schedule s rsp).1 (schedule s rsp).2 := by
  -- the current task is the last candidate, and it is ready once it is saved
  have hlast : ((saveCurrent s rsp).get (ahead (s.current + 1) 7)).state = .ready := by
    have hself : ahead (s.current + 1) 7 = s.current := by
      generalize s.current = i
      revert i
      decide
    rw [hself, state_saveCurrent]
    cases hstate : s.state s.current with
    | free => exact absurd hstate hcur
    | ready => simp
    | running => simp
  cases hfound : findReady (saveCurrent s rsp) (s.current + 1) MAX_TASKS with
  | none => exact absurd hfound (findReady_ne_none (by decide) hlast)
  | some next =>
    obtain ⟨k, hk, hnext, hready, hbefore⟩ := findReady_some hfound
    have hresult : schedule s rsp = (((saveCurrent s rsp).get next).rsp,
        ⟨(saveCurrent s rsp).set next { (saveCurrent s rsp).get next with state := .running },
          next⟩) := by
      rw [schedule]
      simp only [hfound]
    have hrsp : ∀ i, (((saveCurrent s rsp).set next
        { (saveCurrent s rsp).get next with state := .running }).get i).rsp =
          ((saveCurrent s rsp).get i).rsp := by
      intro i
      rw [get_set]
      split
      case isTrue hi => rw [hi]
      case isFalse => rfl
    rw [hresult]
    refine ⟨k, hk, hnext, ?_, ?_, ?_, ?_, ?_⟩
    · -- what is ready once the current task is saved was in use before
      rw [state_saveCurrent] at hready
      intro hfree
      simp [hfree] at hready
    · intro k' hk' hstate
      apply hbefore k' hk'
      rw [state_saveCurrent, hstate]
      simp
    · intro i
      simp only [Table.state, get_set]
      split
      · rfl
      · exact state_saveCurrent s rsp i
    · intro i
      rw [hrsp, rsp_saveCurrent]
    · exact (hrsp next).symm

/-! ### The invariant -/

/-- The invariant of a run: the current task is in use, no other one is running, and a task that is
    not current keeps its context in the table. -/
structure History.Inv (stackBottom : Fin MAX_TASKS → UInt64) (t : History) : Prop where
  current : t.table.state t.table.current ≠ .free
  running : ∀ i, t.table.state i = .running → i = t.table.current
  unsaved : ∀ i, t.table.state i = .free → t.saved i = none
  contexts : ∀ i, t.table.state i ≠ .free → i ≠ t.table.current →
    (t.table.tasks.get i).rsp = t.context stackBottom i

theorem start_inv : History.start.Inv stackBottom where
  current := by decide
  running := by decide
  unsaved := fun _ _ => rfl
  contexts := by
    have hfree : ∀ i, i ≠ History.start.table.current → History.start.table.state i = .free := by
      decide
    intro i hstate hi
    exact absurd (hfree i hi) hstate

/-- `spawn` fills a free slot, or changes nothing. -/
private theorem spawn_cases (s : Table) :
    (spawn stackBottom s).2 = s ∨ ∃ i, s.state i = .free ∧ (spawn stackBottom s).2 =
      { s with tasks := s.tasks.set i ⟨initialFrame (stackBottom i), .ready⟩ } := by
  rw [spawn]
  split
  case h_1 => exact .inl rfl
  case h_2 i hfound =>
    right
    have hi := List.find?_some hfound
    simp only [decide_eq_true_eq] at hi
    exact ⟨i, hi.2, rfl⟩

theorem spawn_inv {t : History} (h : t.Inv stackBottom) :
    (t.step stackBottom .spawn).Inv stackBottom := by
  rcases @spawn_cases stackBottom t.table with hsame | ⟨i, hfree, hnew⟩
  · rw [History.step, hsame]
    exact h
  · have hstate : ∀ j, (spawn stackBottom t.table).2.state j =
        if j = i then .ready else t.table.state j := by
      intro j
      rw [hnew, Table.state, get_set]
      split <;> rfl
    have hne : t.table.current ≠ i := by
      intro heq
      exact h.current (heq ▸ hfree)
    have hcurrent : (spawn stackBottom t.table).2.current = t.table.current := by rw [hnew]
    constructor
    · change (spawn stackBottom t.table).2.state (spawn stackBottom t.table).2.current ≠ .free
      rw [hcurrent, hstate, if_neg hne]
      exact h.current
    · intro j hj
      change (spawn stackBottom t.table).2.state j = .running at hj
      change j = (spawn stackBottom t.table).2.current
      rw [hstate] at hj
      rw [hcurrent]
      split at hj
      · cases hj
      · exact h.running j hj
    · intro j hj
      change (spawn stackBottom t.table).2.state j = .free at hj
      rw [hstate] at hj
      split at hj
      · cases hj
      · exact h.unsaved j hj
    · intro j hj hjcur
      change (spawn stackBottom t.table).2.state j ≠ .free at hj
      change j ≠ (spawn stackBottom t.table).2.current at hjcur
      change ((spawn stackBottom t.table).2.tasks.get j).rsp = t.context stackBottom j
      rw [hstate] at hj
      rw [hcurrent] at hjcur
      rw [hnew, get_set]
      split at hj
      case isTrue hji =>
        -- a slot that was free has never been preempted
        subst hji
        rw [if_pos rfl, History.context, h.unsaved j hfree]
        rfl
      case isFalse hji =>
        rw [if_neg hji]
        exact h.contexts j hj hjcur

/-- What a task was preempted with, after a `schedule` call. -/
private theorem context_schedule (t : History) (rsp : UInt64) (i : Fin MAX_TASKS) :
    (t.step stackBottom (.schedule rsp)).context stackBottom i =
      if i = t.table.current then rsp else t.context stackBottom i := by
  simp only [History.context, History.step, Function.update_apply]
  split <;> rfl

private theorem schedule_contexts {t : History} (h : t.Inv stackBottom) (rsp : UInt64)
    (i : Fin MAX_TASKS)
    (hi : t.table.state i ≠ .free) :
    ((schedule t.table rsp).2.tasks.get i).rsp =
      (t.step stackBottom (.schedule rsp)).context stackBottom i := by
  obtain ⟨k, -, hs⟩ := schedule_spec t.table rsp h.current
  rw [hs.contexts, context_schedule]
  split
  case isTrue => rfl
  case isFalse hne => exact h.contexts i hi hne

private theorem schedule_inv {t : History} (h : t.Inv stackBottom) (rsp : UInt64) :
    (t.step stackBottom (.schedule rsp)).Inv stackBottom := by
  obtain ⟨k, -, hs⟩ := schedule_spec t.table rsp h.current
  have hfree : ∀ i, (schedule t.table rsp).2.state i = .free → t.table.state i = .free := by
    intro i hi
    rw [hs.states] at hi
    split at hi
    · cases hi
    · split at hi
      · cases hi
      · exact hi
  constructor
  · change (schedule t.table rsp).2.state (schedule t.table rsp).2.current ≠ .free
    rw [hs.states, if_pos rfl]
    decide
  · intro i hi
    change (schedule t.table rsp).2.state i = .running at hi
    change i = (schedule t.table rsp).2.current
    rw [hs.states] at hi
    split at hi
    case isTrue heq => exact heq
    case isFalse =>
      -- the task that was running has become ready
      split at hi
      case isTrue => cases hi
      case isFalse hnot => exact absurd ⟨h.running i hi, hi⟩ hnot
  · intro i hi
    have hbefore := hfree i hi
    have hne : i ≠ t.table.current := by
      rintro rfl
      exact h.current hbefore
    change Function.update t.saved t.table.current (some rsp) i = none
    rw [Function.update_of_ne hne]
    exact h.unsaved i hbefore
  · intro i hi _
    apply schedule_contexts h
    intro hbefore
    change (schedule t.table rsp).2.state i ≠ .free at hi
    rw [hs.states] at hi
    split at hi
    case isTrue heq =>
      rw [heq] at hbefore
      exact hs.selected hbefore
    case isFalse =>
      rw [hbefore] at hi
      simp at hi

theorem step_inv (t : History) (e : Event) (h : t.Inv stackBottom) :
    (t.step stackBottom e).Inv stackBottom := by
  cases e with
  | spawn => exact spawn_inv h
  | schedule rsp => exact schedule_inv h rsp

/-! ### A ready task is selected -/

private theorem spawn_ready (s : Table) {i : Fin MAX_TASKS} (hi : s.state i = .ready) :
    (spawn stackBottom s).2.state i = .ready ∧ (spawn stackBottom s).2.current = s.current := by
  rcases @spawn_cases stackBottom s with hsame | ⟨j, hfree, hnew⟩
  · rw [hsame]
    exact ⟨hi, rfl⟩
  · rw [hnew]
    refine ⟨?_, rfl⟩
    rw [Table.state, get_set]
    split
    · rfl
    · exact hi

/-- A call selects a ready task, or leaves it ready and closer. -/
private theorem schedule_ready (s : Table) (rsp : UInt64) (hcur : s.state s.current ≠ .free)
    {i : Fin MAX_TASKS} (hi : s.state i = .ready) :
    (schedule s rsp).2.current = i ∨
      (schedule s rsp).2.state i = .ready ∧
        distance (schedule s rsp).2.current i < distance s.current i := by
  obtain ⟨k, -, hs⟩ := schedule_spec s rsp hcur
  by_cases hsel : (schedule s rsp).2.current = i
  · exact .inl hsel
  right
  have hplace := ahead_distance s.current i
  constructor
  · rw [hs.states, if_neg (Ne.symm hsel), hi]
    simp
  · -- the scan stopped before it came to the task
    rw [hs.current]
    apply distance_ahead
    by_contra hge
    rcases Nat.lt_or_eq_of_le (Nat.not_lt.mp hge) with hlt | heq
    · apply hs.passed _ hlt
      rw [hplace]
      exact hi
    · apply hsel
      rw [hs.current, ← heq, hplace]

private theorem selected_of_distance {t : History} (h : t.Inv stackBottom) {i : Fin MAX_TASKS}
    (hi : t.table.state i = .ready) (es : List Event)
    (hes : distance t.table.current i < scheduleCalls es) :
    ∃ es₁ rsp es₂, es = es₁ ++ .schedule rsp :: es₂ ∧
      scheduleCalls es₁ ≤ distance t.table.current i ∧
      (t.after stackBottom (es₁ ++ [.schedule rsp])).table.current = i := by
  induction es generalizing t with
  | nil => exact absurd hes (Nat.not_lt_zero _)
  | cons e es ih =>
    cases e with
    | spawn =>
      obtain ⟨hready, hcur⟩ := @spawn_ready stackBottom t.table _ hi
      rw [scheduleCalls_spawn] at hes
      obtain ⟨es₁, rsp, es₂, rfl, hcalls, hsel⟩ := ih (step_inv t .spawn h) hready (hcur ▸ hes)
      refine ⟨.spawn :: es₁, rsp, es₂, rfl, ?_, hsel⟩
      rw [scheduleCalls_spawn]
      exact hcur ▸ hcalls
    | schedule rsp =>
      -- either this call selects the task, or it gets closer to it
      rcases schedule_ready t.table rsp h.current hi with hsel | ⟨hready, hcloser⟩
      · exact ⟨[], rsp, es, rfl, Nat.zero_le _, hsel⟩
      · rw [scheduleCalls_schedule] at hes
        obtain ⟨es₁, rsp', es₂, rfl, hcalls, hsel⟩ :=
          ih (step_inv t (.schedule rsp) h) hready (lt_of_lt_of_le hcloser (by omega))
        refine ⟨.schedule rsp :: es₁, rsp', es₂, rfl, ?_, hsel⟩
        rw [scheduleCalls_schedule]
        exact lt_of_le_of_lt hcalls hcloser

/-! ### Round robin -/

variable (stackBottom) in
/-- **Round robin**: after every `schedule` call of a run exactly the current task is running, and
    the call returns its context; a ready task is selected within the next `MAX_TASKS` calls. -/
theorem round_robin (es : List Event) :
    (∀ p ∈ steps (History.step stackBottom) .start es, ∀ rsp, p.2 = .schedule rsp →
      (schedule p.1.table rsp).2.OneRunning ∧
        (schedule p.1.table rsp).1 =
          (p.1.step stackBottom p.2).context stackBottom (schedule p.1.table rsp).2.current) ∧
      ∀ i, (History.start.after stackBottom es).table.state i = .ready →
        ∀ es', MAX_TASKS ≤ scheduleCalls es' →
          (History.start.after stackBottom es).SelectsWithin stackBottom i es' := by
  constructor
  · -- one task runs, and the pointer returned is its own
    rintro ⟨t, e⟩ hp rsp he
    have h : t.Inv stackBottom :=
      invariant_steps (History.step stackBottom) (History.Inv stackBottom) (fun _ _ => True)
        (fun t e h _ => step_inv t e h) _ es start_inv (fun _ _ => trivial) _ hp
    change e = .schedule rsp at he
    subst he
    obtain ⟨k, -, hs⟩ := schedule_spec t.table rsp h.current
    constructor
    · intro i
      constructor
      · exact (schedule_inv h rsp).running i
      · rintro rfl
        rw [hs.states, if_pos rfl]
    · rw [hs.returned]
      exact schedule_contexts h rsp _ hs.selected
  · -- a ready task is less than `MAX_TASKS` calls away
    intro i hi es' hes'
    have h : (History.start.after stackBottom es).Inv stackBottom :=
      invariant_after (History.step stackBottom) (History.Inv stackBottom) step_inv _ es start_inv
    have hlt := distance_lt (History.start.after stackBottom es).table.current i
    obtain ⟨es₁, rsp, es₂, hsplit, hcalls, hsel⟩ :=
      selected_of_distance h hi es' (lt_of_lt_of_le hlt hes')
    exact ⟨es₁, rsp, es₂, hsplit, lt_of_le_of_lt hcalls hlt, hsel⟩

end RustKernel.Scheduler
