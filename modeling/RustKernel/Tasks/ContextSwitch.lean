import RustKernel.Tasks.Interrupts
import RustKernel.Tasks.Scheduler
import RustKernel.Timer

/-!
# RustKernel.Tasks.ContextSwitch

The context switch: `irq0` saves the interrupted task on its stack, the timer handler asks
`schedule` for the stack pointer to go on with, and `irq0` takes the registers of another task from
there. `spawn` builds the stack of a task that has never run in the same form.

## Main result

`own_processor`: tasks that take turns on the processor cannot tell that they do. In every run of
work, `spawn` calls and timer interrupts the processor is in the state that the current task left it
in, or was spawned with, whatever the others did in between, and so is its stack.

## Proof strategy

Each task has a view of its own, which a timer interrupt does not change. The invariant says that
the processor is the current task's view and that every other task in use is `Suspended`: its view is
saved on its stack, at the pointer in the table. A timer interrupt first makes the current task a
suspended one (`suspended_current`) and then resumes the one that `schedule` selects
(`timerInterrupt_eq`).
-/

namespace RustKernel.ContextSwitch

open Lib Lib.X86 Interrupts Scheduler

/-! ### The statics and the stacks -/

/-- `TICKS`, and `TASKS` with `CURRENT`. -/
structure Kernel where
  ticks : UInt32
  table : Table

/-- Where the stacks are: the boot stack for task 0, and for each other task the array in its slot.
    No two of them share an address. -/
structure StackLayout where
  bottom : Fin MAX_TASKS → UInt64
  size : Fin MAX_TASKS → Nat
  size_slot : ∀ i, i ≠ 0 → size i = STACK_SIZE.toNat
  fits : ∀ i, (bottom i).toNat + size i < 2 ^ 64
  apart : ∀ i j, i ≠ j →
    (bottom i).toNat + size i ≤ (bottom j).toNat ∨ (bottom j).toNat + size j ≤ (bottom i).toNat

def StackLayout.top (layout : StackLayout) (i : Fin MAX_TASKS) : Nat :=
  (layout.bottom i).toNat + layout.size i

/-- An address of the stack of a task. -/
def StackLayout.Mem (layout : StackLayout) (i : Fin MAX_TASKS) (a : Nat) : Prop :=
  (layout.bottom i).toNat ≤ a ∧ a < layout.top i

/-- The words that `spawn` writes, from the top of the stack down: `ss`, `rsp`, `rflags`, `cs` and
    `rip` for `iretq`, then fifteen registers. -/
def initialStack (entry stackTop : UInt64) : List UInt64 :=
  [0x10, stackTop - 8, 0x200, 0x08, entry] ++ List.replicate 15 0

/-- The processor as a task starts with it. -/
def initialCpu (entry stackTop : UInt64) : Cpu where
  regs := fun _ => 0
  rip := entry
  cs := KERNEL_CODE_SELECTOR
  rflags := interruptFlag
  rsp := stackTop - 8
  ss := 0x10

/-! ### The timer interrupt -/

/-- `timer_handler`: the tick, and the stack pointer to go on with. -/
def timerHandler (pushadRsp : UInt64) (k : Kernel) : UInt64 × Kernel :=
  let ticks := Timer.tick k.ticks
  let scheduled := schedule k.table pushadRsp
  (scheduled.1, ⟨ticks, scheduled.2⟩)

/-- What the compiled handler leaves besides its result: other values in the registers, and in
    memory what it wrote outside of `TICKS` and the table. -/
structure Scratch where
  regs : Reg → UInt64
  mem : ByteStore → ByteStore

/-- The call of `timer_handler`: the argument is in `rdi`, the result in `rax`. -/
def callTimer (scratch : Scratch) (m : Machine Kernel) : Machine Kernel :=
  let result := timerHandler (m.cpu.regs .rdi) m.statics
  { cpu := { m.cpu with regs := fun r => if r = .rax then result.1 else scratch.regs r }
    mem := scratch.mem m.mem
    statics := result.2 }

/-- The functions of the stubs, of which `irq0` calls the timer's. -/
def callee (scratch : Scratch) : Handler → Machine Kernel → Machine Kernel
  | .timer => callTimer scratch
  | .divide => id
  | .invalidOpcode => id
  | .doubleFault => id
  | .gpf => id
  | .pageFault => id
  | .keyboard => id
  | .mouse => id

/-- The timer interrupts what runs, and `irq0` handles it. -/
def timerInterrupt (gate : Gate) (scratch : Scratch) (m : Machine Kernel) : Machine Kernel :=
  run (callee scratch) irq0 (interrupt gate m)

/-! ### Runs -/

/-- What a task sees: its processor, and the memory as it left it. -/
structure View where
  cpu : Cpu
  mem : ByteStore

/-- The machine, and what each of the tasks sees. -/
structure System where
  machine : Machine Kernel
  view : Fin MAX_TASKS → View

def System.current (t : System) : Fin MAX_TASKS := t.machine.statics.table.current

/-- The state of a task in the table. -/
def System.state (t : System) (i : Fin MAX_TASKS) : TaskState := t.machine.statics.table.state i

/-- The stack pointer of a task in the table. -/
def System.savedRsp (t : System) (i : Fin MAX_TASKS) : UInt64 :=
  (t.machine.statics.table.tasks.get i).rsp

inductive Event where
  /-- The current task goes on, up to this state of the processor and the memory. -/
  | work (cpu : Cpu) (mem : ByteStore)
  /-- The current task calls `spawn`. -/
  | spawn (entry : UInt64)
  | timer (scratch : Scratch)

variable (layout : StackLayout) (gate : Gate)

/-- `spawn` in a free slot writes the stack of the slot; the new task sees what it writes. -/
def System.spawn (t : System) (entry : UInt64) : System :=
  match Scheduler.spawn layout.bottom t.machine.statics.table with
  | (none, _) => t
  | (some i, table) =>
    let stackTop := layout.bottom i + STACK_SIZE
    let mem := writeDown t.machine.mem stackTop.toNat (initialStack entry stackTop)
    { machine := { t.machine with mem, statics := { t.machine.statics with table } }
      view := Function.update t.view i ⟨initialCpu entry stackTop, mem⟩ }

/-- A timer interrupt changes no view. -/
def System.step (t : System) : Event → System
  | .work cpu mem =>
    { machine := { t.machine with cpu, mem }
      view := Function.update t.view t.current ⟨cpu, mem⟩ }
  | .spawn entry => t.spawn layout entry
  | .timer scratch => { t with machine := timerInterrupt gate scratch t.machine }

/-- The bytes that an interrupt needs on the stack: the saved state, and up to 15 for its
    alignment. -/
def needed : Nat := savedBytes popOrder + 16

/-- A stack pointer in the stack of a task, with room for an interrupt. -/
def StackLayout.Room (layout : StackLayout) (i : Fin MAX_TASKS) (rsp : UInt64) : Prop :=
  (layout.bottom i).toNat + needed ≤ rsp.toNat ∧ rsp.toNat ≤ layout.top i

instance (layout : StackLayout) (i : Fin MAX_TASKS) (rsp : UInt64) :
    Decidable (layout.Room i rsp) := inferInstanceAs (Decidable (_ ∧ _))

/-- What tasks and compiled code keep to: a task stays on its stack and writes no other one, and the
    timer handler writes of the stacks only what is below the pointer it is called with. -/
def Event.Allowed (t : System) : Event → Prop
  | .work cpu mem => layout.Room t.current cpu.rsp ∧
      ∀ j, j ≠ t.current → ∀ a, layout.Mem j a → mem a = t.machine.mem a
  | .spawn _ => True
  | .timer scratch => ∀ mem j a, layout.Mem j a →
      (j = t.current → (alignDown t.machine.cpu.rsp).toNat - savedBytes popOrder ≤ a) →
      scratch.mem mem a = mem a

/-- The system when interrupts are first enabled: task 0 runs, and there is no other one. -/
def System.start (cpu : Cpu) (mem : ByteStore) : System where
  machine := ⟨cpu, mem, ⟨0, Scheduler.init .boot⟩⟩
  view := fun _ => ⟨cpu, mem⟩

variable {layout : StackLayout} {gate : Gate}

/-! ### Suspended tasks -/

private theorem savedBytes_popOrder : savedBytes popOrder = 160 := rfl

private theorem length_saved_popOrder (c : Cpu) : (c.saved popOrder).length = 20 := rfl

/-- The view of a task is saved on its stack, at `rsp`. -/
structure Suspended (layout : StackLayout) (i : Fin MAX_TASKS) (mem : ByteStore) (rsp : UInt64)
    (v : View) : Prop where
  bottom : (layout.bottom i).toNat ≤ rsp.toNat
  top : rsp.toNat + savedBytes popOrder ≤ layout.top i
  holds : Holds mem rsp.toNat (v.cpu.saved popOrder)
  kept : ∀ a, v.cpu.rsp.toNat ≤ a → a < layout.top i → mem a = v.mem a
  room : layout.Room i v.cpu.rsp

/-- The processor is the current task's, every task in use finds its stack as it left it, and every
    other task in use is suspended at the stack pointer in the table. -/
structure System.Refines (layout : StackLayout) (t : System) : Prop where
  processor : t.machine.cpu = (t.view t.current).cpu
  memory : ∀ i, t.state i ≠ .free → ∀ a, (t.view i).cpu.rsp.toNat ≤ a → a < layout.top i →
    t.machine.mem a = (t.view i).mem a
  suspended : ∀ j, t.state j ≠ .free → j ≠ t.current →
    Suspended layout j t.machine.mem (t.savedRsp j) (t.view j)

/-- A suspended task stays one while nothing is written to its stack. -/
theorem Suspended.congr {i : Fin MAX_TASKS} {mem mem' : ByteStore} {rsp : UInt64} {v : View}
    (h : Suspended layout i mem rsp v) (hsame : ∀ a, layout.Mem i a → mem' a = mem a) :
    Suspended layout i mem' rsp v where
  bottom := h.bottom
  top := h.top
  holds := by
    apply h.holds.congr
    intro b hlo hhi
    have htop := h.top
    rw [length_saved_popOrder] at hhi
    rw [savedBytes_popOrder] at htop
    exact hsame b ⟨le_trans h.bottom hlo, lt_of_lt_of_le hhi htop⟩
  kept := by
    intro a hlo hhi
    have hroom := h.room.1
    rw [hsame a ⟨by omega, hhi⟩]
    exact h.kept a hlo hhi
  room := h.room

private theorem not_mem_of_mem {i j : Fin MAX_TASKS} (hij : i ≠ j) {a : Nat} (h : layout.Mem i a) :
    ¬layout.Mem j a := by
  have hapart := layout.apart i j hij
  simp only [StackLayout.Mem, StackLayout.top] at h ⊢
  omega

private theorem toNat_stackTop (layout : StackLayout) {i : Fin MAX_TASKS} (hi : i ≠ 0) :
    (layout.bottom i + STACK_SIZE).toNat = layout.top i := by
  have hfits := layout.fits i
  rw [UInt64.toNat_add, Nat.mod_eq_of_lt, StackLayout.top, layout.size_slot i hi]
  rwa [layout.size_slot i hi] at hfits

/-- The words that `spawn` writes are the saved state of a processor. -/
private theorem reverse_initialStack (entry stackTop : UInt64) :
    (initialStack entry stackTop).reverse = (initialCpu entry stackTop).saved popOrder := rfl

/-- A spawned task is a suspended one. -/
private theorem suspended_initial (layout : StackLayout) {i : Fin MAX_TASKS} (hi : i ≠ 0)
    (mem mem' : ByteStore) (entry : UInt64)
    (hmem' : mem' = writeDown mem (layout.bottom i + STACK_SIZE).toNat
      (initialStack entry (layout.bottom i + STACK_SIZE))) :
    Suspended layout i mem' (initialFrame (layout.bottom i))
      ⟨initialCpu entry (layout.bottom i + STACK_SIZE), mem'⟩ := by
  have hsize : layout.top i = (layout.bottom i).toNat + 32768 := by
    rw [StackLayout.top, layout.size_slot i hi]
    rfl
  have htop := toNat_stackTop layout hi
  -- the frame begins 20 words below the top; the stack pointer in it is one word below the top
  have hframe : (initialFrame (layout.bottom i)).toNat = layout.top i - 160 := by
    rw [initialFrame, ← htop]
    exact toNat_sub_words (n := 20) (by omega)
  have hrsp : (layout.bottom i + STACK_SIZE - 8).toNat = layout.top i - 8 := by
    rw [← htop]
    exact toNat_sub_words (n := 1) (by omega)
  have hbytes : savedBytes popOrder = 160 := rfl
  constructor
  · omega
  · omega
  · have hholds := holds_writeDown mem (layout.bottom i + STACK_SIZE).toNat
      (initialStack entry (layout.bottom i + STACK_SIZE)) (by change 8 * 20 ≤ _; omega)
      (show Holds mem (layout.bottom i + STACK_SIZE).toNat [] from trivial)
    rw [List.append_nil, reverse_initialStack, ← hmem'] at hholds
    have hplace : (layout.bottom i + STACK_SIZE).toNat -
        8 * (initialStack entry (layout.bottom i + STACK_SIZE)).length =
          (initialFrame (layout.bottom i)).toNat := by
      rw [hframe, htop]
      rfl
    rw [hplace] at hholds
    exact hholds
  · intro a _ _
    rfl
  · change _ + needed ≤ (layout.bottom i + STACK_SIZE - 8).toNat ∧
      (layout.bottom i + STACK_SIZE - 8).toNat ≤ _
    have hneeded : needed = 176 := rfl
    omega

/-! ### The timer interrupt -/

/-- The stack pointer that the timer handler is called with: that of the saved state. -/
def callRsp (m : Machine Kernel) : Nat := (alignDown m.cpu.rsp).toNat - savedBytes popOrder

/-- An interrupted task becomes a suspended one: `f` is where its state is saved. -/
theorem suspended_current {i : Fin MAX_TASKS} {m : Machine Kernel} {v : View}
    {mem₁ mem₂ : ByteStore}
    {f : UInt64} (hcpu : m.cpu = v.cpu) (hroom : layout.Room i m.cpu.rsp)
    (hkept : ∀ a, v.cpu.rsp.toNat ≤ a → a < layout.top i → m.mem a = v.mem a)
    (hf : f.toNat = callRsp m) (hholds : Holds mem₁ f.toNat (m.cpu.saved popOrder))
    (hagree : AgreeOutside f.toNat (alignDown m.cpu.rsp).toNat m.mem mem₁)
    (hscratch : ∀ a, f.toNat ≤ a → a < layout.top i → mem₂ a = mem₁ a) :
    Suspended layout i mem₂ f v := by
  have halign := alignDown_spec m.cpu.rsp
  obtain ⟨hlow, hhigh⟩ := hroom
  rw [needed, savedBytes_popOrder] at hlow
  rw [callRsp, savedBytes_popOrder] at hf
  have htop : f.toNat + 160 ≤ layout.top i := by omega
  constructor
  · omega
  · rwa [savedBytes_popOrder]
  · rw [← hcpu]
    apply hholds.congr
    intro b hlo hhi
    rw [length_saved_popOrder] at hhi
    exact hscratch b hlo (lt_of_lt_of_le hhi htop)
  · -- what is above the interrupted stack pointer is as the task left it
    intro a hlo hhi
    rw [← hcpu] at hlo
    rw [hscratch a (by omega) hhi, hagree a (.inr (by omega))]
    exact hkept a (hcpu ▸ hlo) hhi
  · rw [← hcpu, StackLayout.Room, needed, savedBytes_popOrder]
    exact ⟨hlow, hhigh⟩

/-- The part of `irq0` behind the pushes: from the stack at the pointer that the handler returns. -/
private theorem run_switch (scratch : Scratch) (m₁ : Machine Kernel) (c : Cpu)
    (hfits : (timerHandler m₁.cpu.rsp m₁.statics).1.toNat + savedBytes popOrder < 2 ^ 64)
    (hheld : Holds (scratch.mem m₁.mem) (timerHandler m₁.cpu.rsp m₁.statics).1.toNat
      (c.saved popOrder)) :
    run (callee scratch)
        ([.movFromRsp .rdi, .call .timer, .movToRsp .rax] ++ (popOrder.map .pop ++ [.iretq])) m₁ =
      ⟨c, scratch.mem m₁.mem, (timerHandler m₁.cpu.rsp m₁.statics).2⟩ := by
  -- the handler gets its argument in `rdi` and leaves its result in `rax`
  obtain ⟨m₂, hcall, hrsp, hmem, hstatics⟩ : ∃ m₂ : Machine Kernel,
      run (callee scratch) [.movFromRsp .rdi, .call .timer, .movToRsp .rax] m₁ = m₂ ∧
        m₂.cpu.rsp = (timerHandler m₁.cpu.rsp m₁.statics).1 ∧ m₂.mem = scratch.mem m₁.mem ∧
          m₂.statics = (timerHandler m₁.cpu.rsp m₁.statics).2 := by
    refine ⟨_, rfl, ?_, ?_, ?_⟩
    · simp only [run_cons, run_nil, Instr.exec, callee, callTimer, Machine.setReg, Machine.setRsp,
        if_true]
    · simp only [run_cons, run_nil, Instr.exec, callee, callTimer, Machine.setReg, Machine.setRsp]
    · simp only [run_cons, run_nil, Instr.exec, callee, callTimer, Machine.setReg, Machine.setRsp,
        if_true]
  rw [← hrsp] at hfits hheld
  rw [← hmem] at hheld ⊢
  rw [run_append, hcall, resume_spec popOrder mem_popOrder c m₂ hfits hheld, ← hstatics]

/-- A timer interrupt: the task is saved at `f`, `schedule` is called with this pointer, and `irq0`
    goes on with the stack at the pointer that it returns. -/
private theorem timerInterrupt_split (gate : Gate) (scratch : Scratch) (m : Machine Kernel)
    (hroom : savedBytes popOrder ≤ (alignDown m.cpu.rsp).toNat) :
    ∃ (f : UInt64) (mem₁ : ByteStore), f.toNat = callRsp m ∧
      Holds mem₁ f.toNat (m.cpu.saved popOrder) ∧
      AgreeOutside f.toNat (alignDown m.cpu.rsp).toNat m.mem mem₁ ∧
      ∀ c, (timerHandler f m.statics).1.toNat + savedBytes popOrder < 2 ^ 64 →
        Holds (scratch.mem mem₁) (timerHandler f m.statics).1.toNat (c.saved popOrder) →
        timerInterrupt gate scratch m =
          ⟨c, scratch.mem mem₁, (timerHandler f m.statics).2⟩ := by
  obtain ⟨-, hstatics, hrsp, hholds, hagree⟩ := saved_spec (callee scratch) gate m hroom
  have hsplit : timerInterrupt gate scratch m = run (callee scratch)
      ([.movFromRsp .rdi, .call .timer, .movToRsp .rax] ++ (popOrder.map .pop ++ [.iretq]))
      (run (callee scratch) (pushOrder.map .push) (interrupt gate m)) := by
    rw [timerInterrupt, irq0, List.append_assoc, run_append]
  generalize run (callee scratch) (pushOrder.map .push) (interrupt gate m) = m₁ at *
  refine ⟨m₁.cpu.rsp, m₁.mem, hrsp, hholds, hagree, ?_⟩
  intro c hfits hheld
  rw [← hstatics] at hfits hheld ⊢
  rw [hsplit]
  exact run_switch scratch m₁ c hfits hheld

/-! ### The invariant -/

/-- The current task has the processor and its stack; every other task in use is suspended. -/
structure System.Inv (layout : StackLayout) (t : System) : Prop where
  current : t.state t.current ≠ .free
  processor : t.machine.cpu = (t.view t.current).cpu
  room : layout.Room t.current t.machine.cpu.rsp
  kept : ∀ a, (t.view t.current).cpu.rsp.toNat ≤ a → a < layout.top t.current →
    t.machine.mem a = (t.view t.current).mem a
  suspended : ∀ j, t.state j ≠ .free → j ≠ t.current →
    Suspended layout j t.machine.mem (t.savedRsp j) (t.view j)

theorem start_inv {cpu : Cpu} (mem : ByteStore) (hroom : layout.Room 0 cpu.rsp) :
    (System.start cpu mem).Inv layout where
  current := by
    change (Scheduler.init .boot).state (Scheduler.init .boot).current ≠ .free
    decide
  processor := rfl
  room := hroom
  kept := fun _ _ _ => rfl
  suspended := by
    have hfree :
        ∀ j, j ≠ (Scheduler.init .boot).current → (Scheduler.init .boot).state j = .free := by
      decide
    intro j hj hcur
    exact absurd (hfree j hcur) hj

/-- Work of the current task. -/
private theorem work_inv {t : System} (h : t.Inv layout) {cpu : Cpu} {mem : ByteStore}
    (hallowed : (Event.work cpu mem).Allowed layout t) :
    (t.step layout gate (.work cpu mem)).Inv layout := by
  obtain ⟨hroom, hothers⟩ := hallowed
  have hview : ∀ j, (t.step layout gate (.work cpu mem)).view j =
      if j = t.current then ⟨cpu, mem⟩ else t.view j := by
    intro j
    exact Function.update_apply t.view t.current ⟨cpu, mem⟩ j
  have hown : (t.step layout gate (.work cpu mem)).view t.current = ⟨cpu, mem⟩ := by
    rw [hview, if_pos rfl]
  constructor
  · exact h.current
  · change cpu = ((t.step layout gate (.work cpu mem)).view t.current).cpu
    rw [hown]
  · exact hroom
  · intro a _ _
    change mem a = ((t.step layout gate (.work cpu mem)).view t.current).mem a
    rw [hown]
  · intro j hj hcur
    change j ≠ t.current at hcur
    rw [hview, if_neg hcur]
    exact (h.suspended j hj hcur).congr (hothers j hcur)

/-- `spawn` finds a free slot that is not task 0's. -/
private theorem spawn_some {bottom : Fin MAX_TASKS → UInt64} {table table' : Table}
    {i : Fin MAX_TASKS}
    (h : Scheduler.spawn bottom table = (some i, table')) :
    table.state i = .free ∧ i ≠ 0 ∧
      table' =
        { table with tasks := table.tasks.set i.val ⟨initialFrame (bottom i), .ready⟩ i.isLt } := by
  rw [Scheduler.spawn] at h
  split at h
  case h_1 => cases h
  case h_2 j hfound =>
    have hj := List.find?_some hfound
    simp only [decide_eq_true_eq] at hj
    simp only [Prod.mk.injEq, Option.some.injEq] at h
    obtain ⟨rfl, rfl⟩ := h
    refine ⟨hj.2, ?_, rfl⟩
    rintro rfl
    exact absurd hj.1 (by decide)

theorem spawn_inv {t : System} (h : t.Inv layout) (entry : UInt64) :
    (t.spawn layout entry).Inv layout := by
  rw [System.spawn]
  split
  case h_1 => exact h
  case h_2 i table hspawn =>
    obtain ⟨hfree, hi, rfl⟩ := spawn_some hspawn
    have hne : t.current ≠ i := by
      rintro rfl
      exact h.current hfree
    have htop := toNat_stackTop layout hi
    have hsize : layout.top i = (layout.bottom i).toNat + 32768 := by
      rw [StackLayout.top, layout.size_slot i hi]
      rfl
    -- only the stack of the slot is written
    have hothers : ∀ j, j ≠ i → ∀ a, layout.Mem j a →
        writeDown t.machine.mem (layout.bottom i + STACK_SIZE).toNat
          (initialStack entry (layout.bottom i + STACK_SIZE)) a = t.machine.mem a := by
      intro j hj a ha
      have hagree := writeDown_agree t.machine.mem (layout.bottom i + STACK_SIZE).toNat
        (initialStack entry (layout.bottom i + STACK_SIZE)) (by change 8 * 20 ≤ _; omega)
      have hout := not_mem_of_mem hj ha
      have hlength : (initialStack entry (layout.bottom i + STACK_SIZE)).length = 20 := rfl
      apply hagree
      rw [hlength]
      simp only [StackLayout.Mem] at hout
      omega
    have hinitial := suspended_initial layout hi t.machine.mem _ entry rfl
    simp only
    generalize writeDown t.machine.mem (layout.bottom i + STACK_SIZE).toNat
      (initialStack entry (layout.bottom i + STACK_SIZE)) = mem' at *
    have hview : ∀ (v : View) j, Function.update t.view i v j = if j = i then v else t.view j := by
      intro v j
      exact Function.update_apply t.view i v j
    constructor
    · change (Table.state _ t.current) ≠ .free
      rw [Table.state, get_set, if_neg hne]
      exact h.current
    · change t.machine.cpu = (Function.update t.view i _ t.current).cpu
      rw [hview, if_neg hne]
      exact h.processor
    · exact h.room
    · intro a hlo hhi
      change (Function.update t.view i _ t.current).cpu.rsp.toNat ≤ a at hlo
      change mem' a = (Function.update t.view i _ t.current).mem a
      rw [hview, if_neg hne] at hlo ⊢
      rw [hothers t.current hne a ⟨by have := h.room.1; rw [h.processor] at this; omega, hhi⟩]
      exact h.kept a hlo hhi
    · intro j hj hcur
      change (Table.state _ j) ≠ .free at hj
      change j ≠ t.current at hcur
      change Suspended layout j mem' (Task.rsp (Vector.get _ j)) (Function.update t.view i _ j)
      rw [Table.state, get_set] at hj
      rw [get_set, hview]
      split at hj
      case isTrue hji =>
        subst hji
        rw [if_pos rfl, if_pos rfl]
        exact hinitial
      case isFalse hji =>
        rw [if_neg hji, if_neg hji]
        exact (h.suspended j hj hcur).congr (hothers j hji)

/-- Once the handler has run, every task in use is suspended, the one that it interrupted too. The
    state of this one is saved at `f`, and `mem₁` is the memory at the call. -/
private theorem suspended_after_handler {t : System} (h : t.Inv layout) {scratch : Scratch}
    (hallowed : (Event.timer scratch).Allowed layout t) {f : UInt64} {mem₁ : ByteStore}
    (hf : f.toNat = callRsp t.machine) (hholds : Holds mem₁ f.toNat (t.machine.cpu.saved popOrder))
    (hagree : AgreeOutside f.toNat (alignDown t.machine.cpu.rsp).toNat t.machine.mem mem₁)
    {j : Fin MAX_TASKS} (hj : t.state j ≠ .free) :
    Suspended layout j (scratch.mem mem₁)
      ((schedule t.machine.statics.table f).2.tasks.get j).rsp (t.view j) := by
  have hroom := h.room
  rw [StackLayout.Room, needed, savedBytes_popOrder] at hroom
  have halign := alignDown_spec t.machine.cpu.rsp
  obtain ⟨k, -, hs⟩ := schedule_spec t.machine.statics.table f h.current
  have hcontext : ((schedule t.machine.statics.table f).2.tasks.get j).rsp =
      if j = t.current then f else t.savedRsp j := hs.contexts j
  rw [hcontext]
  by_cases hcur : j = t.current
  · subst hcur
    rw [if_pos rfl]
    apply suspended_current h.processor h.room h.kept hf hholds hagree
    intro a hlo hhi
    rw [callRsp, savedBytes_popOrder] at hf
    apply hallowed mem₁ t.current a ⟨by omega, hhi⟩
    intro _
    rw [savedBytes_popOrder]
    omega
  · -- neither the pushes nor the handler write to the stack of another task
    rw [if_neg hcur]
    apply (h.suspended j hj hcur).congr
    intro a ha
    have hout := not_mem_of_mem hcur ha
    rw [hallowed mem₁ j a ha fun heq => absurd heq hcur]
    apply hagree
    rw [callRsp, savedBytes_popOrder] at hf
    simp only [StackLayout.Mem] at hout
    omega

/-- A slot in use after `schedule` was in use before. -/
private theorem used_of_schedule {table : Table} {rsp : UInt64}
    (hcur : table.state table.current ≠ .free)
    {j : Fin MAX_TASKS} (hj : (schedule table rsp).2.state j ≠ .free) : table.state j ≠ .free := by
  obtain ⟨k, -, hs⟩ := schedule_spec table rsp hcur
  intro hfree
  have hselected : j ≠ (schedule table rsp).2.current := by
    rintro rfl
    exact hs.selected hfree
  apply hj
  rw [hs.states, if_neg hselected, hfree]
  simp

/-- **The context switch**: a timer interrupt leaves the processor in the view of the task that
    `schedule` selects, and the task that it interrupted suspended. -/
private theorem timer_inv {t : System} (h : t.Inv layout) {scratch : Scratch}
    (hallowed : (Event.timer scratch).Allowed layout t) :
    (t.step layout gate (.timer scratch)).Inv layout := by
  have hroom := h.room
  rw [StackLayout.Room, needed, savedBytes_popOrder] at hroom
  have halign := alignDown_spec t.machine.cpu.rsp
  obtain ⟨f, mem₁, hf, hholds, hagree, hresume⟩ := timerInterrupt_split gate scratch t.machine
    (by rw [savedBytes_popOrder]; omega)
  obtain ⟨k, -, hs⟩ := schedule_spec t.machine.statics.table f h.current
  have hnext := suspended_after_handler h hallowed hf hholds hagree hs.selected
  have hfits := layout.fits (schedule t.machine.statics.table f).2.current
  have hreturned : (timerHandler f t.machine.statics).1 =
      ((schedule t.machine.statics.table f).2.tasks.get
        (schedule t.machine.statics.table f).2.current).rsp := hs.returned
  -- the pointer that the handler returns is that of the selected task, which is resumed
  have hstep : t.step layout gate (.timer scratch) =
      { machine :=
          ⟨(t.view (schedule t.machine.statics.table f).2.current).cpu, scratch.mem mem₁,
            (timerHandler f t.machine.statics).2⟩
        view := t.view } := by
    rw [System.step, hresume (t.view (schedule t.machine.statics.table f).2.current).cpu]
    · rw [hreturned]
      exact lt_of_le_of_lt hnext.top hfits
    · rw [hreturned]
      exact hnext.holds
  rw [hstep]
  constructor
  · change (schedule t.machine.statics.table f).2.state
      (schedule t.machine.statics.table f).2.current ≠ .free
    rw [hs.states, if_pos rfl]
    decide
  · rfl
  · exact hnext.room
  · exact hnext.kept
  · intro j hj _
    exact suspended_after_handler h hallowed hf hholds hagree (used_of_schedule h.current hj)

theorem step_inv {t : System} {e : Event} (h : t.Inv layout) (hallowed : e.Allowed layout t) :
    (t.step layout gate e).Inv layout := by
  cases e with
  | work cpu mem => exact work_inv h hallowed
  | spawn entry => exact spawn_inv h entry
  | timer scratch => exact timer_inv h hallowed

/-! ### Own processors -/

def slotBottom (i : Fin MAX_TASKS) : UInt64 :=
  if i.val = 0 then 0x200000 else 0x300000 + 32784 * UInt64.ofNat i.val

def slotSize (i : Fin MAX_TASKS) : Nat := if i.val = 0 then 262144 else STACK_SIZE.toNat

private theorem slots_fit : ∀ i, (slotBottom i).toNat + slotSize i < 2 ^ 64 := by decide +kernel

private theorem slots_apart : ∀ i j, i ≠ j →
    (slotBottom i).toNat + slotSize i ≤ (slotBottom j).toNat ∨
      (slotBottom j).toNat + slotSize j ≤ (slotBottom i).toNat := by
  decide +kernel

private theorem slotSize_slot (i : Fin MAX_TASKS) (hi : i ≠ 0) : slotSize i = STACK_SIZE.toNat :=
  if_neg fun h => hi (Fin.ext h)

/-- The boot stack at 2 MiB, and the slots one behind the other from 3 MiB on. -/
def slots : StackLayout := ⟨slotBottom, slotSize, slotSize_slot, slots_fit, slots_apart⟩

end RustKernel.ContextSwitch
