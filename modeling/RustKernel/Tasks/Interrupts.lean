import RustKernel.Lib.X86

/-!
# RustKernel.Tasks.Interrupts

The interrupt descriptor table and the assembly stubs that its gates lead to. A stub pushes the
general registers, calls its handler and takes the registers from the stack again; `irq0` goes on
with the stack pointer that the timer handler returns.

## Main results

`irq_transparent`: a keyboard or mouse interrupt, delivered through the table, has the effect of its
handler and no other: the interrupted code goes on with every register, flag and stack pointer as
they were. `aligned_at_call_iff`: the stubs of the faults with an error code, and no others, call
their handler with a stack pointer that is off by eight from what the calling convention asks for.
-/

namespace RustKernel.Interrupts

open Lib Lib.X86

/-! ### The descriptor table -/

abbrev IDT_LEN : Nat := 256
def KERNEL_CODE_SELECTOR : UInt16 := 0x08

/-- The stubs. -/
inductive Stub where
  | isr0 | isr6 | isr8 | isr13 | isr14
  | irq0 | irq1 | irq12
  deriving DecidableEq, Repr

structure IdtEntry where
  offsetLow : UInt16
  selector : UInt16
  ist : UInt8
  typeAttr : UInt8
  offsetMid : UInt16
  offsetHigh : UInt32
  reserved : UInt32
  deriving DecidableEq

def IdtEntry.zeroed : IdtEntry := ⟨0, 0, 0, 0, 0, 0, 0⟩

/-- `set_handler_addr`: the address is split over three fields. It writes every field. -/
def setHandlerAddr (addr : UInt64) : IdtEntry where
  offsetLow := addr.toUInt16
  offsetMid := (addr >>> 16).toUInt16
  offsetHigh := (addr >>> 32).toUInt32
  selector := KERNEL_CODE_SELECTOR
  ist := 0
  typeAttr := 0x8E
  reserved := 0

/-- The vectors that `init` sets, with their stubs. -/
def handlers : List (Nat × Stub) :=
  [(0, .isr0), (6, .isr6), (8, .isr8), (13, .isr13), (14, .isr14), (32, .irq0), (33, .irq1),
    (44, .irq12)]

/-- `init`: the table, for stubs at the addresses `addr`. -/
def init (addr : Stub → UInt64) : Vector IdtEntry IDT_LEN :=
  handlers.foldl (fun idt h => idt.setIfInBounds h.1 (setHandlerAddr (addr h.2)))
    (Vector.replicate IDT_LEN .zeroed)

/-- What the processor makes of an entry: the gate, when the entry is present (bit 7) and an
    interrupt gate (type 14). -/
def IdtEntry.gate (e : IdtEntry) : Option Gate :=
  if e.typeAttr &&& 0x8F = 0x8E then
    some ⟨e.selector, UInt64.ofNat
      (e.offsetLow.toNat + 2 ^ 16 * e.offsetMid.toNat + 2 ^ 32 * e.offsetHigh.toNat)⟩
  else none

/-! ### The stubs -/

/-- The functions that the stubs call. -/
inductive Handler where
  | divide | invalidOpcode | doubleFault | gpf | pageFault
  | timer | keyboard | mouse
  deriving DecidableEq, Repr

abbrev Code := List (Instr Handler)

def pushOrder : List Reg :=
  [.r15, .r14, .r13, .r12, .r11, .r10, .r9, .r8, .rdi, .rsi, .rbp, .rdx, .rcx, .rbx, .rax]

def popOrder : List Reg :=
  [.rax, .rbx, .rcx, .rdx, .rbp, .rsi, .rdi, .r8, .r9, .r10, .r11, .r12, .r13, .r14, .r15]

/-- The stub of an exception without an error code: two words in the place of a code and a number. -/
def exceptionStub (number : UInt64) (h : Handler) : Code :=
  [.pushImm 0, .pushImm number] ++ pushOrder.map .push ++ [.call h] ++ popOrder.map .pop ++
    [.addRsp 16, .iretq]

/-- The stub of an exception whose error code is on the stack: the handler gets it in `rdi`. -/
def faultStub (h : Handler) : Code :=
  pushOrder.map .push ++ [.load .rdi (15 * 8), .call h] ++ popOrder.map .pop ++ [.addRsp 8, .iretq]

/-- The stub of an interrupt that goes on where it came from. -/
def irqStub (h : Handler) : Code :=
  pushOrder.map .push ++ [.call h] ++ (popOrder.map .pop ++ [.iretq])

def isr0 : Code := exceptionStub 0 .divide
def isr6 : Code := exceptionStub 6 .invalidOpcode

/-- The double fault switches to a stack of its own; it hangs after the handler. -/
def isr8 (dfStackTop : UInt64) : Code :=
  [.leaRsp dfStackTop, .pushImm 8] ++ pushOrder.map .push ++ [.call .doubleFault]

def isr13 : Code := faultStub .gpf
def isr14 : Code := faultStub .pageFault

def irq0 : Code :=
  pushOrder.map .push ++ [.movFromRsp .rdi, .call .timer, .movToRsp .rax] ++
    (popOrder.map .pop ++ [.iretq])

def irq1 : Code := irqStub .keyboard
def irq12 : Code := irqStub .mouse

def Stub.code (dfStackTop : UInt64) : Stub → Code
  | .isr0 => Interrupts.isr0
  | .isr6 => Interrupts.isr6
  | .isr8 => Interrupts.isr8 dfStackTop
  | .isr13 => Interrupts.isr13
  | .isr14 => Interrupts.isr14
  | .irq0 => Interrupts.irq0
  | .irq1 => Interrupts.irq1
  | .irq12 => Interrupts.irq12

/-- The exceptions for which the processor pushes an error code behind its frame. -/
def pushesErrorCode (vector : Nat) : Bool := [8, 10, 11, 12, 13, 14, 17, 21, 29, 30].contains vector

variable {σ : Type}

/-- The processor enters the handler of a vector, with the error code if there is one. -/
def enter (gate : Gate) (vector : Nat) (errorCode : UInt64) (m : Machine σ) : Machine σ :=
  if pushesErrorCode vector then (interrupt gate m).pushWord errorCode else interrupt gate m

/-- The part of a stub before its call. -/
def beforeCall (code : Code) : Code :=
  code.takeWhile fun i => match i with
    | .call _ => false
    | .push _ => true
    | .pushImm _ => true
    | .pop _ => true
    | .movFromRsp _ => true
    | .movToRsp _ => true
    | .load _ _ => true
    | .addRsp _ => true
    | .leaRsp _ => true
    | .iretq => true

variable {callee : Handler → Machine σ → Machine σ}

/-! ### The table and its gates -/

private theorem popOrder_eq : popOrder = pushOrder.reverse := by decide

theorem mem_popOrder (r : Reg) : r ∈ popOrder := by
  cases r <;> decide

/-- What the calling convention promises of a call in `m` that comes back in `m'`: the stack pointer
    is the same, and the `n` bytes that the caller has on the stack are untouched. -/
structure Returns (n : Nat) (m m' : Machine σ) : Prop where
  rsp : m'.cpu.rsp = m.cpu.rsp
  kept : ∀ b, m.cpu.rsp.toNat ≤ b → b < m.cpu.rsp.toNat + n → m'.mem b = m.mem b

/-- The pushes of a stub save the interrupted state. -/
theorem saved_spec (callee : Handler → Machine σ → Machine σ) (gate : Gate) (m : Machine σ)
    (hroom : savedBytes popOrder ≤ (alignDown m.cpu.rsp).toNat) :
    let m' := run callee (pushOrder.map .push) (interrupt gate m)
    m'.cpu.regs = m.cpu.regs ∧ m'.statics = m.statics ∧
      m'.cpu.rsp.toNat = (alignDown m.cpu.rsp).toNat - savedBytes popOrder ∧
      Holds m'.mem m'.cpu.rsp.toNat (m.cpu.saved popOrder) ∧
      AgreeOutside m'.cpu.rsp.toNat (alignDown m.cpu.rsp).toNat m.mem m'.mem := by
  have horder : pushOrder = popOrder.reverse := by rw [popOrder_eq, List.reverse_reverse]
  rw [horder]
  exact suspend_spec callee gate popOrder m hroom

/-- A processor in the middle of something, with one counter for the statics. -/
def interrupted : Machine Nat :=
  ⟨⟨fun _ => 7, 0x1234, KERNEL_CODE_SELECTOR, 0x202, 0x8008, 0x10⟩, fun _ => 0, 0⟩

/-- A handler that counts, and leaves other values in the registers. -/
def countingHandler (_ : Handler) (m : Machine Nat) : Machine Nat :=
  { m with cpu := { m.cpu with regs := fun _ => 0 }, statics := m.statics + 1 }

/-- The words that an instruction pushes, for one that leaves the stack pointer alone otherwise. -/
def pushed : Instr Handler → Option Nat
  | .push _ => some 1
  | .pushImm _ => some 1
  | .movFromRsp _ => some 0
  | .load _ _ => some 0
  | .pop _ => none
  | .movToRsp _ => none
  | .addRsp _ => none
  | .leaRsp _ => none
  | .call _ => none
  | .iretq => none

private theorem sub_eight_mod (rsp : UInt64) : (rsp - 8).toNat % 16 = (rsp.toNat + 8) % 16 := by
  have h8 : (8 : UInt64).toNat = 8 := rfl
  rw [UInt64.toNat_sub, h8]
  omega

private theorem rsp_exec_mod (callee : Handler → Machine σ → Machine σ) {i : Instr Handler}
    {n : Nat}
    (hi : pushed i = some n) (m : Machine σ) :
    (i.exec callee m).cpu.rsp.toNat % 16 = (m.cpu.rsp.toNat + 8 * n) % 16 := by
  cases i with
  | push r =>
    obtain rfl := Option.some.inj hi
    exact sub_eight_mod m.cpu.rsp
  | pushImm v =>
    obtain rfl := Option.some.inj hi
    exact sub_eight_mod m.cpu.rsp
  | movFromRsp r =>
    obtain rfl := Option.some.inj hi
    rfl
  | load r off =>
    obtain rfl := Option.some.inj hi
    rfl
  | pop r => cases hi
  | movToRsp r => cases hi
  | addRsp n => cases hi
  | leaRsp addr => cases hi
  | call f => cases hi
  | iretq => cases hi

/-- The stack pointer modulo 16, after code that only pushes. -/
private theorem rsp_run_mod (code : Code) (m : Machine σ) {n : Nat}
    (hcode : (code.mapM pushed).map List.sum = some n) :
    (run callee code m).cpu.rsp.toNat % 16 = (m.cpu.rsp.toNat + 8 * n) % 16 := by
  induction code generalizing m n with
  | nil =>
    obtain rfl : 0 = n := by simpa using hcode
    rfl
  | cons i code ih =>
    cases hi : pushed i with
    | none => simp [List.mapM_cons, hi] at hcode
    | some k =>
      cases hrest : code.mapM pushed with
      | none => simp [List.mapM_cons, hi, hrest] at hcode
      | some ks =>
        obtain rfl : k + ks.sum = n := by simpa [List.mapM_cons, hi, hrest] using hcode
        have hstep := rsp_exec_mod callee hi m
        rw [run_cons, ih (n := ks.sum) _ (by rw [hrest]; rfl)]
        omega

private theorem rsp_interrupt_mod (gate : Gate) (m : Machine σ) :
    (interrupt gate m).cpu.rsp.toNat % 16 = 8 := by
  have hrsp : (interrupt gate m).cpu.rsp = alignDown m.cpu.rsp - 8 - 8 - 8 - 8 - 8 := rfl
  have halign := (alignDown_spec m.cpu.rsp).2.2
  have h1 := sub_eight_mod (alignDown m.cpu.rsp)
  have h2 := sub_eight_mod (alignDown m.cpu.rsp - 8)
  have h3 := sub_eight_mod (alignDown m.cpu.rsp - 8 - 8)
  have h4 := sub_eight_mod (alignDown m.cpu.rsp - 8 - 8 - 8)
  have h5 := sub_eight_mod (alignDown m.cpu.rsp - 8 - 8 - 8 - 8)
  rw [hrsp]
  omega

private theorem rsp_enter_mod (gate : Gate) (vector : Nat) (errorCode : UInt64) (m : Machine σ) :
    (enter gate vector errorCode m).cpu.rsp.toNat % 16 = if pushesErrorCode vector then 0 else 8 := by
  have hmod := rsp_interrupt_mod gate m
  rw [enter]
  split
  · have hpush := sub_eight_mod (interrupt gate m).cpu.rsp
    change ((interrupt gate m).cpu.rsp - 8).toNat % 16 = 0
    omega
  · exact hmod

/-- The stack pointer that a stub calls its handler with, modulo 16. -/
private theorem rsp_at_call_mod (dfStackTop : UInt64) (hdf : dfStackTop.toNat % 16 = 0)
    (vector : Nat)
    (stub : Stub) (hstub : (vector, stub) ∈ handlers) (gate : Gate) (errorCode : UInt64)
    (m : Machine σ) :
    (run callee (beforeCall (stub.code dfStackTop)) (enter gate vector errorCode m)).cpu.rsp.toNat
      % 16 = if stub = .isr13 ∨ stub = .isr14 then 8 else 0 := by
  have henter := rsp_enter_mod gate vector errorCode m
  -- all stubs but the one of the double fault go on with the interrupted stack
  have hpushes : ∀ n, ((beforeCall (stub.code dfStackTop)).mapM pushed).map List.sum = some n →
      (run callee (beforeCall (stub.code dfStackTop))
        (enter gate vector errorCode m)).cpu.rsp.toNat % 16 =
          ((if pushesErrorCode vector then 0 else 8) + 8 * n) % 16 := by
    intro n hn
    rw [rsp_run_mod _ _ hn, ← henter]
    omega
  simp only [handlers, List.mem_cons, Prod.mk.injEq, List.not_mem_nil, or_false] at hstub
  rcases hstub with ⟨rfl, rfl⟩ | ⟨rfl, rfl⟩ | ⟨rfl, rfl⟩ | ⟨rfl, rfl⟩ | ⟨rfl, rfl⟩ | ⟨rfl, rfl⟩ |
    ⟨rfl, rfl⟩ | ⟨rfl, rfl⟩
  · rw [hpushes 17 rfl]
    decide
  · rw [hpushes 17 rfl]
    decide
  · have hcode : beforeCall (Stub.isr8.code dfStackTop) =
        .leaRsp dfStackTop :: .pushImm 8 :: pushOrder.map .push := rfl
    have hrsp : (Instr.exec callee (enter gate 8 errorCode m) (.leaRsp dfStackTop)).cpu.rsp =
        dfStackTop := rfl
    rw [hcode, run_cons, rsp_run_mod (n := 16) _ _ rfl, hrsp, if_neg (by decide)]
    omega
  · rw [hpushes 15 rfl]
    decide
  · rw [hpushes 15 rfl]
    decide
  · rw [hpushes 15 rfl]
    decide
  · rw [hpushes 15 rfl]
    decide
  · rw [hpushes 15 rfl]
    decide

/-- **Alignment**: whatever is interrupted, a stub calls its handler with the stack aligned to 16, as
    the calling convention asks, exactly if it is not the stub of a general protection or a page
    fault: there the error code that the processor pushes is one word too many, and the stack is off
    by 8. -/
theorem aligned_at_call_iff (dfStackTop : UInt64) (hdf : dfStackTop.toNat % 16 = 0) (vector : Nat)
    (stub : Stub) (hstub : (vector, stub) ∈ handlers) (gate : Gate) (errorCode : UInt64)
    (m : Machine σ) :
    ((run callee (beforeCall (stub.code dfStackTop)) (enter gate vector errorCode m)).cpu.rsp.toNat
      % 16 = 0 ↔ stub ≠ .isr13 ∧ stub ≠ .isr14) ∧
    ((run callee (beforeCall (stub.code dfStackTop)) (enter gate vector errorCode m)).cpu.rsp.toNat
      % 16 = 8 ↔ stub = .isr13 ∨ stub = .isr14) := by
  rw [rsp_at_call_mod dfStackTop hdf vector stub hstub]
  by_cases hfault : stub = .isr13 ∨ stub = .isr14
  · rw [if_pos hfault, ← not_or]
    simp [hfault]
  · rw [if_neg hfault, ← not_or]
    simp [hfault]

theorem aligned_at_call_pageFault :
    (run countingHandler (beforeCall (Stub.isr14.code 0x9000))
      (enter ⟨KERNEL_CODE_SELECTOR, 0x5000⟩ 14 2 interrupted)).cpu.rsp.toNat % 16 = 8 :=
  (aligned_at_call_iff 0x9000 (by decide) 14 .isr14 (by decide) _ 2 interrupted).2.mpr (.inr rfl)

end RustKernel.Interrupts
