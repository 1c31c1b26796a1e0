import RustKernel.Lib.ByteStore

/-!
# RustKernel.Lib.X86

A fragment of x86-64: the general registers, a stack of 64-bit words in byte-addressed memory, and
the way the processor enters an interrupt handler and leaves it with `iretq`.

`Holds mem a ws` says that the words `ws` are in memory from `a` on. Pushing a list of registers
puts them there (`run_push`) and popping takes them from there (`run_pop`); with the frame that the
processor pushes itself, a handler that saves every register has the whole processor state on its
stack (`suspend_spec`), and restoring from such a stack gives that state back (`resume_spec`),
whichever stack it is.
-/

namespace RustKernel.Lib.X86

/-- The general registers, without the stack pointer. -/
inductive Reg where
  | rax | rbx | rcx | rdx | rbp | rsi | rdi
  | r8 | r9 | r10 | r11 | r12 | r13 | r14 | r15
  deriving DecidableEq, Repr

/-- The state of the processor that an interrupt has to preserve. -/
@[ext] structure Cpu where
  regs : Reg → UInt64
  rip : UInt64
  cs : UInt16
  rflags : UInt64
  rsp : UInt64
  ss : UInt16

/-- A processor with memory, and the statics of the program as a value of their own. -/
@[ext] structure Machine (σ : Type) where
  cpu : Cpu
  mem : ByteStore
  statics : σ

/-- The instructions of an interrupt stub. The functions it may call are named by `φ`. -/
inductive Instr (φ : Type) where
  | push (r : Reg)
  | pushImm (v : UInt64)
  | pop (r : Reg)
  /-- `mov r, rsp` -/
  | movFromRsp (r : Reg)
  /-- `mov rsp, r` -/
  | movToRsp (r : Reg)
  /-- `mov r, [rsp + off]` -/
  | load (r : Reg) (off : UInt64)
  | addRsp (n : UInt64)
  /-- `lea rsp, [addr]` -/
  | leaRsp (addr : UInt64)
  | call (f : φ)
  | iretq

variable {σ φ : Type}

namespace Machine

def setRsp (rsp : UInt64) (m : Machine σ) : Machine σ := { m with cpu := { m.cpu with rsp } }

def setReg (r : Reg) (v : UInt64) (m : Machine σ) : Machine σ :=
  { m with cpu := { m.cpu with regs := fun r' => if r' = r then v else m.cpu.regs r' } }

def pushWord (v : UInt64) (m : Machine σ) : Machine σ :=
  let rsp := m.cpu.rsp - 8
  { m.setRsp rsp with mem := write64 m.mem rsp.toNat v.toNat }

/-- The word at an address. -/
def word (m : Machine σ) (addr : UInt64) : UInt64 := UInt64.ofNat (read64 m.mem addr.toNat)

/-- `iretq` pops `rip`, `cs`, `rflags`, `rsp` and `ss`. -/
def iretq (m : Machine σ) : Machine σ :=
  let rsp := m.cpu.rsp
  { m with cpu :=
      { m.cpu with
        rip := m.word rsp
        cs := (m.word (rsp + 8)).toUInt16
        rflags := m.word (rsp + 16)
        rsp := m.word (rsp + 24)
        ss := (m.word (rsp + 32)).toUInt16 } }

end Machine

/-- What an instruction does. A call is the whole call, from the `call` to the `ret`. -/
def Instr.exec (callee : φ → Machine σ → Machine σ) (m : Machine σ) : Instr φ → Machine σ
  | .push r => m.pushWord (m.cpu.regs r)
  | .pushImm v => m.pushWord v
  | .pop r => (m.setReg r (m.word m.cpu.rsp)).setRsp (m.cpu.rsp + 8)
  | .movFromRsp r => m.setReg r m.cpu.rsp
  | .movToRsp r => m.setRsp (m.cpu.regs r)
  | .load r off => m.setReg r (m.word (m.cpu.rsp + off))
  | .addRsp n => m.setRsp (m.cpu.rsp + n)
  | .leaRsp addr => m.setRsp addr
  | .call f => callee f m
  | .iretq => m.iretq

/-- Straight-line code, one instruction after the other. -/
def run (callee : φ → Machine σ → Machine σ) (code : List (Instr φ)) (m : Machine σ) : Machine σ :=
  code.foldl (Instr.exec callee) m

/-- `RFLAGS.IF`. -/
def interruptFlag : UInt64 := 0x200

/-- The stack pointer, aligned down to 16. -/
def alignDown (rsp : UInt64) : UInt64 := rsp - rsp % 16

/-- An interrupt gate: where the handler is. -/
structure Gate where
  selector : UInt16
  offset : UInt64

/-- The words that the processor pushes, as they stand in memory. -/
def Cpu.frame (c : Cpu) : List UInt64 := [c.rip, c.cs.toUInt64, c.rflags, c.rsp, c.ss.toUInt64]

/-- The processor enters the handler of a gate, on the stack it is on: it aligns the stack pointer,
    pushes its frame and turns interrupts off. -/
def interrupt (gate : Gate) (m : Machine σ) : Machine σ :=
  let m' := m.cpu.frame.reverse.foldl (fun m w => m.pushWord w) (m.setRsp (alignDown m.cpu.rsp))
  { m' with cpu :=
      { m'.cpu with
        rip := gate.offset
        cs := gate.selector
        rflags := m.cpu.rflags &&& ~~~interruptFlag } }

variable {callee : φ → Machine σ → Machine σ}

@[simp] theorem run_nil (m : Machine σ) : run callee [] m = m := rfl

@[simp] theorem run_cons (i : Instr φ) (code : List (Instr φ)) (m : Machine σ) :
    run callee (i :: code) m = run callee code (i.exec callee m) := rfl

theorem run_append (code code' : List (Instr φ)) (m : Machine σ) :
    run callee (code ++ code') m = run callee code' (run callee code m) :=
  List.foldl_append

/-! ### Words in memory -/

/-- The words `ws` are in memory from `a` on. -/
def Holds (mem : ByteStore) (a : Nat) : List UInt64 → Prop
  | [] => True
  | w :: ws => read64 mem a = w.toNat ∧ Holds mem (a + 8) ws

theorem holds_append {mem : ByteStore} {a : Nat} {ws ws' : List UInt64} :
    Holds mem a (ws ++ ws') ↔ Holds mem a ws ∧ Holds mem (a + 8 * ws.length) ws' := by
  induction ws generalizing a with
  | nil => simp [Holds]
  | cons w ws ih =>
    have hplace : a + 8 + 8 * ws.length = a + 8 * (w :: ws).length := by
      rw [List.length_cons]
      omega
    rw [List.cons_append, Holds, Holds, ih, hplace, and_assoc]

/-- Memory that is the same on the words holds them too. -/
theorem Holds.congr {mem mem' : ByteStore} {a : Nat} {ws : List UInt64} (h : Holds mem a ws)
    (hsame : ∀ b, a ≤ b → b < a + 8 * ws.length → mem' b = mem b) : Holds mem' a ws := by
  induction ws generalizing a with
  | nil => trivial
  | cons w ws ih =>
    obtain ⟨hword, hrest⟩ := h
    rw [List.length_cons] at hsame
    constructor
    · rw [← hword, read64, read64]
      congr 1
      apply List.map_congr_left
      intro i hi
      have hlt := List.mem_range.mp hi
      exact hsame _ (by omega) (by omega)
    · apply ih hrest
      intro b hlo hhi
      exact hsame b (by omega) (by omega)

/-- The words written one below the other, from the top address down. -/
def writeDown (mem : ByteStore) (top : Nat) : List UInt64 → ByteStore
  | [] => mem
  | w :: ws => writeDown (write64 mem (top - 8) w.toNat) (top - 8) ws

theorem writeDown_agree (mem : ByteStore) (top : Nat) (ws : List UInt64)
    (hroom : 8 * ws.length ≤ top) :
    AgreeOutside (top - 8 * ws.length) top mem (writeDown mem top ws) := by
  induction ws generalizing mem top with
  | nil => exact AgreeOutside.refl mem
  | cons w ws ih =>
    rw [List.length_cons] at hroom ⊢
    have hhead : AgreeOutside (top - 8 * (ws.length + 1)) top mem (write64 mem (top - 8) w.toNat) :=
      (AgreeOutside.refl mem).write64 _ _ (by omega) (by omega)
    have htail := ih (write64 mem (top - 8) w.toNat) (top - 8) (by omega)
    exact hhead.trans (htail.mono (by omega) (by omega))

/-- What is written down is in memory from the last word on, the last word first. -/
theorem holds_writeDown (mem : ByteStore) (top : Nat) (ws : List UInt64) {below : List UInt64}
    (hroom : 8 * ws.length ≤ top) (h : Holds mem top below) :
    Holds (writeDown mem top ws) (top - 8 * ws.length) (ws.reverse ++ below) := by
  induction ws generalizing mem top below with
  | nil => exact h
  | cons w ws ih =>
    rw [List.length_cons] at hroom ⊢
    have hagree := write64_agree mem (top - 8) w.toNat
    -- the word is read back, and those above it are not touched
    have hword : Holds (write64 mem (top - 8) w.toNat) (top - 8) (w :: below) := by
      constructor
      · exact read64_write64 mem (top - 8) w.toNat w.toNat_lt
      · rw [Nat.sub_add_cancel (by omega)]
        apply h.congr
        intro b hlo _
        exact hagree b (.inr (by omega))
    have hrest := ih (write64 mem (top - 8) w.toNat) (top - 8) (by omega) hword
    rw [List.reverse_cons, List.append_assoc]
    have hplace : top - 8 - 8 * ws.length = top - 8 * (ws.length + 1) := by omega
    rw [← hplace]
    exact hrest

/-! ### Pushing and popping -/

theorem toNat_sub_words {rsp : UInt64} {n : Nat} (h : 8 * n ≤ rsp.toNat) :
    (rsp - UInt64.ofNat (8 * n)).toNat = rsp.toNat - 8 * n := by
  have hlt := rsp.toNat_lt
  have hn : (UInt64.ofNat (8 * n)).toNat = 8 * n := by
    rw [UInt64.toNat_ofNat', Nat.mod_eq_of_lt (by omega)]
  rw [UInt64.toNat_sub_of_le _ _ (by rw [UInt64.le_iff_toNat_le, hn]; exact h), hn]

/-- Words pushed one after the other. -/
theorem foldl_pushWord (ws : List UInt64) (m : Machine σ)
    (hroom : 8 * ws.length ≤ m.cpu.rsp.toNat) :
    ws.foldl (fun m w => m.pushWord w) m =
      { m.setRsp (m.cpu.rsp - UInt64.ofNat (8 * ws.length)) with
        mem := writeDown m.mem m.cpu.rsp.toNat ws } := by
  induction ws generalizing m with
  | nil => simp [writeDown, Machine.setRsp]
  | cons w ws ih =>
    rw [List.length_cons] at hroom
    have hone : (m.cpu.rsp - 8).toNat = m.cpu.rsp.toNat - 8 := toNat_sub_words (n := 1) (by omega)
    have hrsp : m.cpu.rsp - 8 - UInt64.ofNat (8 * ws.length) =
        m.cpu.rsp - UInt64.ofNat (8 * (w :: ws).length) := by
      apply UInt64.toNat_inj.mp
      rw [toNat_sub_words (by rw [hone]; omega), hone, List.length_cons,
        toNat_sub_words (n := ws.length + 1) (by omega)]
      omega
    rw [List.foldl_cons, ih _ (by
      change 8 * ws.length ≤ (m.cpu.rsp - 8).toNat
      rw [hone]
      omega)]
    simp only [Machine.pushWord, Machine.setRsp, hone, hrsp, writeDown]

theorem run_push (rs : List Reg) (m : Machine σ) (hroom : 8 * rs.length ≤ m.cpu.rsp.toNat) :
    run callee (rs.map .push) m =
      { m.setRsp (m.cpu.rsp - UInt64.ofNat (8 * rs.length)) with
        mem := writeDown m.mem m.cpu.rsp.toNat (rs.map m.cpu.regs) } := by
  have hpush : run callee (rs.map .push) m =
      (rs.map m.cpu.regs).foldl (fun m w => m.pushWord w) m := by
    -- a push changes no register
    suffices hsame : ∀ m' : Machine σ, m'.cpu.regs = m.cpu.regs → run callee (rs.map .push) m' =
        (rs.map m.cpu.regs).foldl (fun m w => m.pushWord w) m' from hsame m rfl
    induction rs with
    | nil => simp
    | cons r rs ih =>
      intro m' hregs
      rw [List.map_cons, run_cons, List.map_cons, List.foldl_cons, ← hregs, hregs]
      rw [ih (by rw [List.length_cons] at hroom; omega)]
      · simp only [Instr.exec, hregs]
      · exact hregs
  rw [hpush, foldl_pushWord _ m (by rwa [List.length_map]), List.length_map]

theorem word_of_read64 {m : Machine σ} {addr w : UInt64} (h : read64 m.mem addr.toNat = w.toNat) :
    m.word addr = w := by
  rw [Machine.word, h, UInt64.ofNat_toNat]

theorem toNat_add_words {rsp : UInt64} {n : Nat} (h : rsp.toNat + 8 * n < 2 ^ 64) :
    (rsp + UInt64.ofNat (8 * n)).toNat = rsp.toNat + 8 * n := by
  rw [UInt64.toNat_add, UInt64.toNat_ofNat', Nat.mod_eq_of_lt (a := 8 * n) (by omega),
    Nat.mod_eq_of_lt h]

/-- Registers popped from a stack that holds `f` for each of them. -/
theorem run_pop (rs : List Reg) (f : Reg → UInt64) (m : Machine σ)
    (hfits : m.cpu.rsp.toNat + 8 * rs.length < 2 ^ 64)
    (h : Holds m.mem m.cpu.rsp.toNat (rs.map f)) :
    run callee (rs.map .pop) m =
      { m with cpu :=
          { m.cpu with
            regs := fun r => if r ∈ rs then f r else m.cpu.regs r
            rsp := m.cpu.rsp + UInt64.ofNat (8 * rs.length) } } := by
  induction rs generalizing m with
  | nil => simp
  | cons r rs ih =>
    rw [List.map_cons] at h
    obtain ⟨hword, hrest⟩ := h
    rw [List.length_cons] at hfits
    -- the stack pointer does not wrap, since all words are below `2 ^ 64`
    have hone : (m.cpu.rsp + 8).toNat = m.cpu.rsp.toNat + 8 := toNat_add_words (n := 1) (by omega)
    rw [List.map_cons, run_cons, ih]
    · have hrsp : m.cpu.rsp + 8 + UInt64.ofNat (8 * rs.length) =
          m.cpu.rsp + UInt64.ofNat (8 * (r :: rs).length) := by
        apply UInt64.toNat_inj.mp
        rw [toNat_add_words (by rw [hone]; omega), hone, List.length_cons,
          toNat_add_words (n := rs.length + 1) (by omega)]
        omega
      simp only [Instr.exec, Machine.setReg, Machine.setRsp, word_of_read64 hword, hrsp]
      congr 2
      funext r'
      -- a later pop of the same register gives the same value
      by_cases hr : r' ∈ rs
      · simp [hr]
      · by_cases heq : r' = r
        · subst heq
          simp [hr]
        · simp [hr, heq]
    · change (m.cpu.rsp + 8).toNat + _ < _
      rw [hone]
      omega
    · change Holds m.mem (m.cpu.rsp + 8).toNat (rs.map f)
      rw [hone]
      exact hrest

/-! ### Entering and leaving a handler -/

@[simp] theorem length_frame (c : Cpu) : c.frame.length = 5 := rfl

theorem alignDown_spec (rsp : UInt64) :
    (alignDown rsp).toNat ≤ rsp.toNat ∧ rsp.toNat < (alignDown rsp).toNat + 16 ∧
      (alignDown rsp).toNat % 16 = 0 := by
  have hmod : (rsp % 16).toNat = rsp.toNat % 16 := UInt64.toNat_mod rsp 16
  have hle : rsp.toNat % 16 ≤ rsp.toNat := Nat.mod_le _ _
  rw [alignDown, UInt64.toNat_sub_of_le _ _ (by rw [UInt64.le_iff_toNat_le, hmod]; exact hle), hmod]
  omega

theorem interrupt_eq (gate : Gate) (m : Machine σ) (hroom : 40 ≤ (alignDown m.cpu.rsp).toNat) :
    interrupt gate m =
      { m with
        cpu :=
          { m.cpu with
            rip := gate.offset
            cs := gate.selector
            rflags := m.cpu.rflags &&& ~~~interruptFlag
            rsp := alignDown m.cpu.rsp - 40 }
        mem := writeDown m.mem (alignDown m.cpu.rsp).toNat m.cpu.frame.reverse } := by
  rw [interrupt, foldl_pushWord _ _ (by simpa [Machine.setRsp] using hroom)]
  rfl

/-- `iretq` takes the frame of a processor state from the stack; the registers are as they were. -/
theorem iretq_spec (c : Cpu) (m : Machine σ) (hfits : m.cpu.rsp.toNat + 40 < 2 ^ 64)
    (h : Holds m.mem m.cpu.rsp.toNat c.frame) :
    m.iretq = { m with cpu := { c with regs := m.cpu.regs } } := by
  obtain ⟨hrip, hcs, hflags, hrsp, hss, -⟩ := h
  have hadd : ∀ n : Nat, n < 5 →
      (m.cpu.rsp + UInt64.ofNat (8 * n)).toNat = m.cpu.rsp.toNat + 8 * n := by
    intro n hn
    exact toNat_add_words (by omega)
  have hcs' : m.word (m.cpu.rsp + 8) = c.cs.toUInt64 :=
    word_of_read64 (by rw [← hcs]; exact congrArg _ (hadd 1 (by decide)))
  have hflags' : m.word (m.cpu.rsp + 16) = c.rflags :=
    word_of_read64 (by rw [← hflags]; exact congrArg _ (hadd 2 (by decide)))
  have hrsp' : m.word (m.cpu.rsp + 24) = c.rsp :=
    word_of_read64 (by rw [← hrsp]; exact congrArg _ (hadd 3 (by decide)))
  have hss' : m.word (m.cpu.rsp + 32) = c.ss.toUInt64 :=
    word_of_read64 (by rw [← hss]; exact congrArg _ (hadd 4 (by decide)))
  simp only [Machine.iretq, word_of_read64 hrip, hcs', hflags', hrsp', hss',
    UInt16.toUInt16_toUInt64]

/-- A processor state, saved on a stack: the registers in their order, then the frame. -/
def Cpu.saved (c : Cpu) (order : List Reg) : List UInt64 := order.map c.regs ++ c.frame

/-- The words between an interrupted stack pointer and the pointer of its saved state. -/
def savedBytes (order : List Reg) : Nat := 8 * (order.length + 5)

/-- A handler that pushes the registers, last one first, has the interrupted state on its stack; no
    other memory is touched. -/
theorem suspend_spec (callee : φ → Machine σ → Machine σ) (gate : Gate) (order : List Reg)
    (m : Machine σ)
    (hroom : savedBytes order ≤ (alignDown m.cpu.rsp).toNat) :
    let m' := run callee (order.reverse.map .push) (interrupt gate m)
    m'.cpu.regs = m.cpu.regs ∧ m'.statics = m.statics ∧
      m'.cpu.rsp.toNat = (alignDown m.cpu.rsp).toNat - savedBytes order ∧
      Holds m'.mem m'.cpu.rsp.toNat (m.cpu.saved order) ∧
      AgreeOutside m'.cpu.rsp.toNat (alignDown m.cpu.rsp).toNat m.mem m'.mem := by
  intro m'
  rw [savedBytes] at hroom
  have hforty : (alignDown m.cpu.rsp - 40).toNat = (alignDown m.cpu.rsp).toNat - 40 :=
    toNat_sub_words (n := 5) (by omega)
  have hm' : m' = run callee (order.reverse.map .push) (interrupt gate m) := rfl
  rw [interrupt_eq gate m (by omega), run_push _ _ (by
    rw [List.length_reverse]
    change _ ≤ (alignDown m.cpu.rsp - 40).toNat
    omega)] at hm'
  have hrsp : m'.cpu.rsp.toNat = (alignDown m.cpu.rsp).toNat - savedBytes order := by
    rw [hm']
    change (alignDown m.cpu.rsp - 40 - UInt64.ofNat (8 * order.reverse.length)).toNat = _
    rw [List.length_reverse, toNat_sub_words (by omega), hforty, savedBytes]
    omega
  have hmem : m'.mem = writeDown (writeDown m.mem (alignDown m.cpu.rsp).toNat m.cpu.frame.reverse)
      ((alignDown m.cpu.rsp).toNat - 40) (order.reverse.map m.cpu.regs) := by
    rw [hm', ← hforty]
  refine ⟨by rw [hm']; rfl, by rw [hm']; rfl, hrsp, ?_, ?_⟩
  · -- first the frame, then the registers below it
    have hframe := holds_writeDown m.mem (alignDown m.cpu.rsp).toNat m.cpu.frame.reverse
      (by simpa using by omega) (show Holds m.mem (alignDown m.cpu.rsp).toNat [] from trivial)
    rw [List.length_reverse, length_frame, List.reverse_reverse, List.append_nil] at hframe
    have hregs := holds_writeDown _ _ (order.reverse.map m.cpu.regs) (by simpa using by omega) hframe
    rw [List.length_map, List.length_reverse, ← List.map_reverse, List.reverse_reverse] at hregs
    rw [hmem, hrsp, savedBytes, Cpu.saved]
    have hplace : (alignDown m.cpu.rsp).toNat - 8 * (order.length + 5) =
        (alignDown m.cpu.rsp).toNat - 8 * 5 - 8 * order.length := by omega
    rw [hplace]
    exact hregs
  · rw [hmem, hrsp, savedBytes]
    have hframe := writeDown_agree m.mem (alignDown m.cpu.rsp).toNat m.cpu.frame.reverse
      (by simpa using by omega)
    have hregs := writeDown_agree
      (writeDown m.mem (alignDown m.cpu.rsp).toNat m.cpu.frame.reverse)
      ((alignDown m.cpu.rsp).toNat - 40) (order.reverse.map m.cpu.regs) (by simpa using by omega)
    rw [List.length_reverse, length_frame] at hframe
    rw [List.length_map, List.length_reverse] at hregs
    exact (hframe.mono (by omega) le_rfl).trans (hregs.mono (by omega) (by omega))

/-- Popping every register and returning gives the saved state back. -/
theorem resume_spec (order : List Reg) (hall : ∀ r, r ∈ order) (c : Cpu) (m : Machine σ)
    (hfits : m.cpu.rsp.toNat + savedBytes order < 2 ^ 64)
    (h : Holds m.mem m.cpu.rsp.toNat (c.saved order)) :
    run callee (order.map .pop ++ [.iretq]) m = { m with cpu := c } := by
  rw [savedBytes] at hfits
  obtain ⟨hregs, hframe⟩ := holds_append.mp h
  rw [List.length_map] at hframe
  rw [run_append, run_pop order c.regs m (by omega) hregs, run_cons, run_nil, Instr.exec]
  have hrsp : (m.cpu.rsp + UInt64.ofNat (8 * order.length)).toNat =
      m.cpu.rsp.toNat + 8 * order.length := toNat_add_words (by omega)
  rw [iretq_spec c]
  · have hsame : (fun r => if r ∈ order then c.regs r else m.cpu.regs r) = c.regs := by
      funext r
      rw [if_pos (hall r)]
    simp only [hsame]
  · change (m.cpu.rsp + UInt64.ofNat (8 * order.length)).toNat + 40 < _
    omega
  · change Holds m.mem (m.cpu.rsp + UInt64.ofNat (8 * order.length)).toNat c.frame
    rw [hrsp]
    exact hframe

end RustKernel.Lib.X86
