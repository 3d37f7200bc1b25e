import Mathlib.Data.BitVec
import Mathlib.Logic.Function.Basic
import Mathlib.Tactic.Common
import Mathlib.Tactic.IntervalCases

/-!
# A few instructions of a 32-bit ARM processor

The registers with their banks, the entry into an interrupt, and the
instructions by which a handler saves and restores the registers of the code it
has interrupted.  Memory is a parameter: any type with a word load and a word
store.

* `bankOf` — which stack pointer, link register and saved status belong to a mode;
* `takeIrq` — what the processor does before the first instruction of a handler;
* `exec` / `runCode` — one instruction, and a sequence without branches.

The forms with a caret of `stm` and `ldm` reach the registers of user mode from
any other mode, and `ldm` with a caret and the program counter also restores
the status register.
-/

namespace Ninjastorms
namespace Lib
namespace Arm

/-- The banks of the registers that are not the same in all modes. -/
inductive Bank where
  | usr
  | irq
  | svc
  deriving DecidableEq

/-- The mode bits of a status register. -/
def modeBits (psr : BitVec 32) : BitVec 32 :=
  psr &&& 0x1f

/-- The bank that a status register selects. -/
def bankOf (psr : BitVec 32) : Bank :=
  if modeBits psr = 0x12 then .irq
  else if modeBits psr = 0x13 then .svc
  else .usr

structure Cpu where
  r : Fin 13 → BitVec 32
  sp : Bank → BitVec 32
  lr : Bank → BitVec 32
  spsr : Bank → BitVec 32
  pc : BitVec 32
  cpsr : BitVec 32
  deriving Inhabited

/-- The bank of the present mode. -/
def Cpu.bank (cpu : Cpu) : Bank :=
  bankOf cpu.cpsr

/-- Word accesses to memory. -/
structure Memory (M : Type*) where
  load : M → BitVec 32 → BitVec 32
  store : M → BitVec 32 → BitVec 32 → M

variable {M : Type*} (mem : Memory M)

/-- Store words at ascending addresses. -/
def storeWords (m : M) : BitVec 32 → List (BitVec 32) → M
  | _, [] => m
  | a, w :: ws => storeWords (mem.store m a w) (a + 4) ws

/-- Load registers from ascending addresses. -/
def loadRegs (m : M) : BitVec 32 → List (Fin 13) → (Fin 13 → BitVec 32) → Fin 13 → BitVec 32
  | _, [], r => r
  | a, i :: regs, r => loadRegs m (a + 4) regs (Function.update r i (mem.load m a))

/-- What the processor does when it takes an interrupt: the return address and
the status go into the bank of the interrupt mode, and interrupts are masked. -/
def takeIrq (vector : BitVec 32) (cpu : Cpu) : Cpu :=
  { cpu with
    lr := Function.update cpu.lr .irq (cpu.pc + 4)
    spsr := Function.update cpu.spsr .irq cpu.cpsr
    cpsr := (cpu.cpsr &&& ~~~0x3f) ||| 0x92
    pc := vector }

/-- A status register after code that cannot write its control bits: the mode
and the interrupt masks stay, the flags may be any. -/
def withFlags (psr flags : BitVec 32) : BitVec 32 :=
  (psr &&& 0xdf) ||| (flags &&& ~~~0xdf)

/-- The instructions, in the order of their appearance: `push {regs, lr}`,
`pop {regs, lr}`, `mov rd, sp`, `bl` (the register it sets), `ldr rd, =address`,
`ldr rd, [rn, #imm]`, `ldr rd, [rn], #imm`, `str rd, [rn], #imm`, `ldr rd, [rn]`
is `ldr` with 0, `stm rn!, {regs, sp, lr}^`, `sub rd, #imm`, `mrs rd, spsr`,
`msr spsr, rd`, `add lr, rn, #imm`, `ldm rn, {r0-r14}^` and `ldm lr, {pc}^`. -/
inductive Instr where
  | push (regs : List (Fin 13))
  | pop (regs : List (Fin 13))
  | movSp (rd : Fin 13)
  | bl (next : BitVec 32)
  | ldrAddress (rd : Fin 13) (address : BitVec 32)
  | ldr (rd rn : Fin 13) (imm : BitVec 32)
  | ldrPost (rd rn : Fin 13) (imm : BitVec 32)
  | strPost (rd rn : Fin 13) (imm : BitVec 32)
  | stmUser (rn : Fin 13) (regs : List (Fin 13))
  | sub (rd : Fin 13) (imm : BitVec 32)
  | mrsSpsr (rd : Fin 13)
  | msrSpsr (rd : Fin 13)
  | addLr (rn : Fin 13) (imm : BitVec 32)
  | ldmUser (rn : Fin 13)
  | ldmReturn

/-- One instruction, apart from the program counter, which only `ldmReturn` sets. -/
def exec : Instr → Cpu × M → Cpu × M
  | .push regs, (cpu, m) =>
      let words := regs.map cpu.r ++ [cpu.lr cpu.bank]
      let sp := cpu.sp cpu.bank - BitVec.ofNat 32 (4 * words.length)
      ({ cpu with sp := Function.update cpu.sp cpu.bank sp }, storeWords mem m sp words)
  | .pop regs, (cpu, m) =>
      let sp := cpu.sp cpu.bank
      let top := sp + BitVec.ofNat 32 (4 * regs.length)
      ({ cpu with
          r := loadRegs mem m sp regs cpu.r
          lr := Function.update cpu.lr cpu.bank (mem.load m top)
          sp := Function.update cpu.sp cpu.bank (top + 4) }, m)
  | .movSp rd, (cpu, m) => ({ cpu with r := Function.update cpu.r rd (cpu.sp cpu.bank) }, m)
  | .bl next, (cpu, m) => ({ cpu with lr := Function.update cpu.lr cpu.bank next }, m)
  | .ldrAddress rd address, (cpu, m) => ({ cpu with r := Function.update cpu.r rd address }, m)
  | .ldr rd rn imm, (cpu, m) =>
      ({ cpu with r := Function.update cpu.r rd (mem.load m (cpu.r rn + imm)) }, m)
  | .ldrPost rd rn imm, (cpu, m) =>
      let base := cpu.r rn
      ({ cpu with
          r := Function.update (Function.update cpu.r rn (base + imm)) rd (mem.load m base) }, m)
  | .strPost rd rn imm, (cpu, m) =>
      let base := cpu.r rn
      ({ cpu with r := Function.update cpu.r rn (base + imm) }, mem.store m base (cpu.r rd))
  | .stmUser rn regs, (cpu, m) =>
      let words := regs.map cpu.r ++ [cpu.sp .usr, cpu.lr .usr]
      let base := cpu.r rn
      ({ cpu with r := Function.update cpu.r rn (base + BitVec.ofNat 32 (4 * words.length)) },
        storeWords mem m base words)
  | .sub rd imm, (cpu, m) => ({ cpu with r := Function.update cpu.r rd (cpu.r rd - imm) }, m)
  | .mrsSpsr rd, (cpu, m) => ({ cpu with r := Function.update cpu.r rd (cpu.spsr cpu.bank) }, m)
  | .msrSpsr rd, (cpu, m) =>
      ({ cpu with spsr := Function.update cpu.spsr cpu.bank (cpu.r rd) }, m)
  | .addLr rn imm, (cpu, m) =>
      ({ cpu with lr := Function.update cpu.lr cpu.bank (cpu.r rn + imm) }, m)
  | .ldmUser rn, (cpu, m) =>
      let base := cpu.r rn
      ({ cpu with
          r := fun k => mem.load m (base + BitVec.ofNat 32 (4 * k.val))
          sp := Function.update cpu.sp .usr (mem.load m (base + BitVec.ofNat 32 (4 * 13)))
          lr := Function.update cpu.lr .usr (mem.load m (base + BitVec.ofNat 32 (4 * 14))) }, m)
  | .ldmReturn, (cpu, m) =>
      ({ cpu with pc := mem.load m (cpu.lr cpu.bank), cpsr := cpu.spsr cpu.bank }, m)

/-- A sequence of instructions without branches. -/
def runCode (code : List Instr) (s : Cpu × M) : Cpu × M :=
  code.foldl (fun s i => exec mem i s) s

variable {mem}

@[simp] theorem runCode_nil (s : Cpu × M) : runCode mem [] s = s := rfl

@[simp] theorem runCode_cons (i : Instr) (code : List Instr) (s : Cpu × M) :
    runCode mem (i :: code) s = runCode mem code (exec mem i s) := rfl

theorem runCode_append (code code' : List Instr) (s : Cpu × M) :
    runCode mem (code ++ code') s = runCode mem code' (runCode mem code s) := by
  simp [runCode]

@[simp] theorem modeBits_withFlags (psr flags : BitVec 32) :
    modeBits (withFlags psr flags) = modeBits psr := by
  apply BitVec.eq_of_getLsbD_eq
  intro i hi
  interval_cases i <;> simp [modeBits, withFlags]

@[simp] theorem bankOf_withFlags (psr flags : BitVec 32) :
    bankOf (withFlags psr flags) = bankOf psr := by
  simp [bankOf]

/-- An interrupt is handled in the interrupt mode. -/
@[simp] theorem bank_takeIrq (vector : BitVec 32) (cpu : Cpu) :
    (takeIrq vector cpu).bank = .irq := by
  have hmode : modeBits ((cpu.cpsr &&& ~~~0x3f) ||| 0x92) = 0x12 := by
    apply BitVec.eq_of_getLsbD_eq
    intro i hi
    interval_cases i <;> simp [modeBits]
  rw [Cpu.bank, bankOf, takeIrq, if_pos hmode]

@[simp] theorem takeIrq_r (vector : BitVec 32) (cpu : Cpu) :
    (takeIrq vector cpu).r = cpu.r := rfl

@[simp] theorem takeIrq_sp (vector : BitVec 32) (cpu : Cpu) :
    (takeIrq vector cpu).sp = cpu.sp := rfl

@[simp] theorem takeIrq_lr_irq (vector : BitVec 32) (cpu : Cpu) :
    (takeIrq vector cpu).lr .irq = cpu.pc + 4 := by
  simp [takeIrq]

@[simp] theorem takeIrq_lr_usr (vector : BitVec 32) (cpu : Cpu) :
    (takeIrq vector cpu).lr .usr = cpu.lr .usr := by
  simp [takeIrq]

@[simp] theorem takeIrq_spsr_irq (vector : BitVec 32) (cpu : Cpu) :
    (takeIrq vector cpu).spsr .irq = cpu.cpsr := by
  simp [takeIrq]

end Arm
end Lib
end Ninjastorms
