import Ninjastorms.InterruptRuns

/-!
# The first run of each task

`start_scheduler` sets `current_task` and lets `init_interrupt_handling` enable
interrupts before it jumps into `load_current_task_state`.  An interrupt in
between finds the processor in supervisor mode with `current_task` already set,
and `irq_handler` saves the context of the kernel over the one that `init_task`
has stored for the first task.

`firstRuns_iff` says that this window is all there is: every task starts as
`add_task` has set it up if and only if no interrupt arrives in supervisor mode.
-/

namespace Ninjastorms
namespace InterruptRuns

open Scheduler ContextSwitch Lib.Arm Lib.Runs

variable {board : Board}

/-! ### What `add_task` has set up -/

theorem foldl_first (board : Board) (sys : System) (entrypoints : List Word) (k : Fin MAX_TASK_NUMBER) :
    (entrypoints.foldl (System.addTask board) sys).first k =
      if sys.ram.sched.taskCount ≤ k.val then
        (entrypoints[k.val - sys.ram.sched.taskCount]?).elim (sys.first k)
          (initContext board · k.val)
      else sys.first k := by
  induction entrypoints generalizing sys with
  | nil => simp
  | cons entrypoint entrypoints ih =>
      rw [List.foldl_cons, ih]
      rcases sys.addTask_cases board entrypoint with
        ⟨hfull, heq⟩ | ⟨slot, hslot, hcount, -, -, -, -, -, hfirst⟩
      · have hk : k.val < 16 := k.isLt
        have hout : ¬ sys.ram.sched.taskCount ≤ k.val := by omega
        simp only [heq, if_neg hout]
      · rw [hcount, hfirst, ← hslot]
        by_cases heq : k = slot
        · subst heq
          simp
        · have hne : k.val ≠ slot.val := fun hval => heq (Fin.ext hval)
          rw [Function.update_of_ne heq]
          by_cases hle : slot.val ≤ k.val
          · have hlt : slot.val + 1 ≤ k.val := by omega
            have hsub : k.val - slot.val = k.val - (slot.val + 1) + 1 := by omega
            rw [if_pos hlt, if_pos hle, hsub, List.getElem?_cons_succ]
          · rw [if_neg hle, if_neg (by omega)]

/-- The `k`-th entry point of `kernel_main` gives the `k`-th task its first context. -/
theorem start_first (L : Layout board) {entrypoints : List Word} (cpu : Cpu)
    (other : Word → Word) {k : Fin MAX_TASK_NUMBER} {entrypoint : Word}
    (hk : entrypoints[k.val]? = some entrypoint) :
    (start L entrypoints cpu other).first k = initContext board entrypoint k.val := by
  have hfold := foldl_first board ⟨cpu, ⟨Scheduler.initial, other⟩, fun _ => zeroTask,
    fun _ => zeroTask, fun _ => false⟩ entrypoints k
  have hzero : Scheduler.initial.taskCount = 0 := rfl
  simp only [hzero, Nat.zero_le, if_true, Nat.sub_zero, hk, Option.elim_some] at hfold
  exact hfold

/-! ### The exact condition -/

/-- Every added task that has not run yet is untouched by the event, or it is
made to run with the context that `add_task` gave it. -/
def FirstRunOk (L : Layout board) (sys : System) (e : Event) : Prop :=
  ∀ k : Fin MAX_TASK_NUMBER, k.val < sys.ram.sched.taskCount → sys.activated k = false →
    if (step L sys e).activated k then context (step L sys e).cpu = sys.first k
    else (step L sys e).ram.sched.tasks k = sys.first k

/-- An event that makes no task run and writes no saved context. -/
theorem firstRunOk_of_unchanged {L : Layout board} {sys : System} {e : Event} (h : Inv L sys)
    (hactivated : (step L sys e).activated = sys.activated)
    (htasks : ∀ k, k.val < sys.ram.sched.taskCount →
      (step L sys e).ram.sched.tasks k = sys.ram.sched.tasks k) : FirstRunOk L sys e := by
  intro k hk hidle
  rw [hactivated, hidle, htasks k hk, h.saved k hk]
  exact h.fresh k hk hidle

theorem firstRunOk_instruction {L : Layout board} {sys : System} (h : Inv L sys)
    (effect : Effect) : FirstRunOk L sys (.instruction effect) := by
  rcases instruction_cases L sys with hfree | ⟨k, i, hload, hk⟩ | ⟨i, hreturn⟩
  · apply firstRunOk_of_unchanged h
    · simp only [step, hfree]
    · simp only [step, hfree, instruction, implies_true]
  · obtain ⟨-, hi, -, -⟩ := fetch_eq_some hload
    obtain ⟨hram, -, -⟩ := loadCurrentTaskState_frame sys.cpu sys.ram hi
    apply firstRunOk_of_unchanged h
    · simp only [step, hload, if_neg (Nat.ne_of_lt hk)]
    · simp only [step, hload, if_neg (Nat.ne_of_lt hk), hram, implies_true]
  · obtain ⟨t, ht, hlt, hram, -, -, hactivated, hcontext, -⟩ := step_return h effect hreturn
    intro k hk hidle
    rw [hactivated, hram]
    by_cases heq : k = t
    · subst heq
      rw [Function.update_self, if_pos rfl, hcontext]
      exact h.fresh k hk hidle
    · rw [Function.update_of_ne heq, hidle, h.saved k hk]
      exact h.fresh k hk hidle

theorem firstRunOk_createProcess {L : Layout board} {sys : System} (h : Inv L sys)
    (entrypoint : Word) : FirstRunOk L sys (.createProcess entrypoint) := by
  apply firstRunOk_of_unchanged h
  · simp only [step]
    split <;> rfl
  · intro k hk
    simp only [step]
    split
    · rcases sys.addTask_cases board entrypoint with
        ⟨-, heq⟩ | ⟨slot, hslot, -, -, -, htasks, -, -, -⟩
      · rw [heq]
      · have hne : k ≠ slot := by
          rintro rfl
          omega
        rw [htasks, Function.update_of_ne hne]
    · rfl

/-- An interrupt keeps to the contexts of the tasks that have not run yet
exactly when it finds a task running. -/
theorem firstRunOk_interrupt_iff {L : Layout board} {sys : System} (h : Inv L sys)
    (status : Word) (clobber : Clobber) :
    FirstRunOk L sys (.interrupt status clobber) ↔ modeBits sys.cpu.cpsr = CPSR_MODE_USER := by
  obtain ⟨t, t', ht, hlt, hlt', -, -, -, htasks, -, hactivated, hcontext, -⟩ :=
    step_interrupt h status clobber
  constructor
  · intro hok
    rcases h.place with hkernel | htask
    · -- the context of the kernel went over the one of the first task
      exfalso
      have hfirst := hok t hlt (hkernel.idle t)
      have hsaved : context sys.cpu = sys.first t := by
        rw [hactivated, htasks, hcontext] at hfirst
        by_cases heq : t = t'
        · subst heq
          simpa using hfirst
        · simpa [heq, hkernel.idle t] using hfirst
      have huser := h.user t hlt
      rw [h.fresh t hlt (hkernel.idle t), ← hsaved] at huser
      exact absurd (hkernel.mode.symm.trans huser) (by decide)
    · exact htask.mode
  · intro huser k hk hidle
    have hne : k ≠ t := by
      rintro rfl
      have hrunning := (h.inTask huser).activated k ht
      rw [hidle] at hrunning
      cases hrunning
    rw [hactivated, hcontext, htasks, Function.update_of_ne hne]
    by_cases heq : k = t'
    · subst heq
      rw [Function.update_self, if_pos rfl, Function.update_of_ne hne]
      exact h.fresh k hk hidle
    · rw [Function.update_of_ne heq, hidle, h.saved k hk]
      exact h.fresh k hk hidle

/-- **First runs.**  In every run of `kernel_main`, every task first runs as
`add_task` has set it up, and is left alone until then, if and only if every
interrupt of the run finds the processor in user mode: none arrives between
`enable_irq` and the end of `load_current_task_state`. -/
theorem firstRuns_iff (L : Layout board) (entrypoint : Word) (entrypoints : List Word)
    (cpu : Cpu) (other : Word → Word) (events : List Event) :
    EveryStep (step L) (FirstRunOk L)
      (start L (entrypoint :: entrypoints) cpu other) events ↔
    EveryStep (step L) UserInterrupt
      (start L (entrypoint :: entrypoints) cpu other) events := by
  refine everyStep_iff_everyStep inv_step ?_ (inv_start L entrypoint entrypoints cpu other)
  intro sys e h
  cases e with
  | instruction effect => exact iff_of_true (firstRunOk_instruction h effect) trivial
  | createProcess entrypoint => exact iff_of_true (firstRunOk_createProcess h entrypoint) trivial
  | interrupt status clobber => exact firstRunOk_interrupt_iff h status clobber

/-- A clock interrupt right after `enable_irq` starts the only task in the
middle of the kernel, in supervisor mode. -/
theorem clockInterrupt_not_firstRunOk :
    ¬ EveryStep (step kernelImage) (FirstRunOk kernelImage)
      (start kernelImage [0x8000] { (default : Cpu) with pc := 0x12000 } (fun _ => 0))
      [.interrupt TIMER3_INTBIT default] := by
  rintro ⟨hfirst, -⟩
  have hrun := hfirst 0 (by decide) (by decide)
  rw [if_pos (by decide +kernel)] at hrun
  have hcpsr := congrArg Task.cpsr hrun
  exact absurd hcpsr (by decide +kernel)

end InterruptRuns
end Ninjastorms
