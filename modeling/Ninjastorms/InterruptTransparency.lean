import Ninjastorms.InterruptRuns

/-!
# Interrupts are transparent to the tasks

While interrupts arrive in user mode only, whatever a task has in its registers
when it is interrupted is what it finds in them when it is resumed, no matter
how many interrupts and other tasks came in between.
-/

namespace Ninjastorms
namespace InterruptRuns

open Scheduler ContextSwitch Lib.Arm Lib.Runs

variable {board : Board}

/-- One event, as the tasks see it.  An interrupt resumes a task with the
context of its last interruption, this one included; it changes the saved
context of the interrupted task only, and its stack is as before.  The first
task is started with the context that `add_task` gave it. -/
def Transparent (L : Layout board) (sys : System) : Event → Prop
  | .interrupt status clobber =>
      ∃ t t', sys.ram.sched.currentTask = some t ∧
        (step L sys (.interrupt status clobber)).ram.sched.currentTask = some t' ∧
        context (step L sys (.interrupt status clobber)).cpu =
          Function.update sys.last t (context sys.cpu) t' ∧
        (∀ k, k ≠ t → (step L sys (.interrupt status clobber)).ram.sched.tasks k =
          sys.ram.sched.tasks k) ∧
        (step L sys (.interrupt status clobber)).cpu.sp .irq = sys.cpu.sp .irq
  | .instruction effect =>
      modeBits sys.cpu.cpsr ≠ CPSR_MODE_USER →
      modeBits (step L sys (.instruction effect)).cpu.cpsr = CPSR_MODE_USER →
      ∃ t, (step L sys (.instruction effect)).ram.sched.currentTask = some t ∧
        context (step L sys (.instruction effect)).cpu = sys.last t
  | .createProcess _ => True

theorem transparent_interrupt {L : Layout board} {sys : System} (h : Inv L sys) (status : Word)
    (clobber : Clobber) : Transparent L sys (.interrupt status clobber) := by
  obtain ⟨t, t', ht, -, -, hcurrent, -, -, htasks, -, -, hcontext, hsp⟩ :=
    step_interrupt h status clobber
  refine ⟨t, t', ht, hcurrent, hcontext, ?_, ?_⟩
  · intro k hk
    rw [htasks, Function.update_of_ne hk]
  · rw [hsp, h.irqStack]

/-- The kernel leaves supervisor mode only at the end of `load_current_task_state`. -/
theorem transparent_instruction {L : Layout board} {sys : System} (h : Inv L sys)
    (effect : Effect) : Transparent L sys (.instruction effect) := by
  intro hbefore hafter
  rcases instruction_cases L sys with hfree | ⟨k, i, hload, hk⟩ | ⟨i, hreturn⟩
  · have hmode : modeBits (step L sys (.instruction effect)).cpu.cpsr =
        modeBits sys.cpu.cpsr := by
      simp only [step, hfree, instruction, modeBits_withFlags]
    exact absurd (hmode.symm.trans hafter) hbefore
  · obtain ⟨-, hi, -, -⟩ := fetch_eq_some hload
    obtain ⟨-, -, hkeep⟩ := loadCurrentTaskState_frame sys.cpu sys.ram hi
    have hmode : modeBits (step L sys (.instruction effect)).cpu.cpsr =
        modeBits sys.cpu.cpsr := by
      simp only [step, hload, if_neg (Nat.ne_of_lt hk), (hkeep hk).1]
    exact absurd (hmode.symm.trans hafter) hbefore
  · obtain ⟨t, ht, -, hram, -, -, -, hcontext, -⟩ := step_return h effect hreturn
    exact ⟨t, by rw [hram, ht], hcontext⟩

/-- **Interrupts are transparent.**  In every run of the kernel in which
interrupts arrive only while a task runs in user mode, every event is
transparent to the tasks. -/
theorem interrupts_transparent (L : Layout board) (entrypoint : Word) (entrypoints : List Word)
    (cpu : Cpu) (other : Word → Word) (events : List Event)
    (huser : EveryStep (step L) UserInterrupt
      (start L (entrypoint :: entrypoints) cpu other) events) :
    EveryStep (step L) (Transparent L)
      (start L (entrypoint :: entrypoints) cpu other) events := by
  refine everyStep_of_invariant inv_step ?_ (inv_start L entrypoint entrypoints cpu other) huser
  intro sys e h _
  cases e with
  | instruction effect => exact transparent_instruction h effect
  | createProcess entrypoint => exact trivial
  | interrupt status clobber => exact transparent_interrupt h status clobber

/-- The boot of two tasks, a few instructions of the first one, its switch to
the second one and back. -/
def twoTaskEvents : List Event :=
  List.replicate 9 (.instruction default) ++
    [.interrupt TIMER1_INTBIT default, .instruction default, .createProcess 0x9000,
      .interrupt TIMER3_INTBIT default, .interrupt TIMER1_INTBIT default]

theorem twoTasks_transparent :
    EveryStep (step kernelImage) (Transparent kernelImage)
      (start kernelImage [0x8000, 0x8800] { (default : Cpu) with pc := 0x10100 } (fun _ => 0))
      twoTaskEvents :=
  interrupts_transparent kernelImage 0x8000 [0x8800] _ _ twoTaskEvents (by decide +kernel)

end InterruptRuns
end Ninjastorms
