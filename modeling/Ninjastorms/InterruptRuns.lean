import Ninjastorms.ContextSwitch
import Ninjastorms.Lib.Runs

/-!
# Runs of the kernel with interrupts

From the instant at which `enable_irq` clears the I bit, the machine takes one
event after the other: an instruction, a system call `create_process`, or an
interrupt with any status.

* In user mode an instruction of the running task may do anything to its own
  registers and to memory that is not the scheduler's.
* In supervisor mode the kernel is on its way through `start_scheduler`: any
  code up to `load_current_task_state`, then the seven instructions of that
  routine, one event for each of them.
* `System` also records, for each task, the context `add_task` gave it, the one
  it had when it was last interrupted, and whether it has been made to run.

`Inv` is what every run keeps in which interrupts arrive in user mode only.
-/

namespace Ninjastorms
namespace InterruptRuns

open Scheduler ContextSwitch Lib.Arm

variable {board : Board}

/-! ### The system and its events -/

structure System where
  cpu : Cpu
  ram : Ram
  /-- The context each task had when it was last interrupted, and before that
  the one `add_task` gave it. -/
  last : Fin MAX_TASK_NUMBER → Task
  /-- The context `add_task` gave each task. -/
  first : Fin MAX_TASK_NUMBER → Task
  /-- The tasks that have been made to run. -/
  activated : Fin MAX_TASK_NUMBER → Bool

/-- What one instruction, or any stretch of code, leaves in the registers of
its mode and in the memory that is not the scheduler's. -/
structure Effect where
  r : Fin 13 → Word
  sp : Word
  lr : Word
  pc : Word
  flags : Word
  other : Word → Word
  deriving Inhabited

inductive Event where
  | instruction (effect : Effect)
  | createProcess (entrypoint : Word)
  | interrupt (status : Word) (clobber : Clobber)

/-- The instruction of `load_current_task_state` that the kernel is about to
execute, with its position. -/
def fetch (L : Layout board) (cpu : Cpu) : Option (Nat × Instr) :=
  let offset := (cpu.pc - L.loadCurrentTaskState).toNat
  if modeBits cpu.cpsr = CPSR_MODE_SVC ∧ offset % 4 = 0 then
    ((loadCurrentTaskState L)[offset / 4]?).map fun i => (offset / 4, i)
  else
    none

/-- The kernel enters `load_current_task_state` at its first instruction. -/
def branchTarget (L : Layout board) (cpu : Cpu) (pc : Word) : Word :=
  if modeBits cpu.cpsr = CPSR_MODE_SVC ∧ (pc - L.loadCurrentTaskState).toNat < 28 then
    L.loadCurrentTaskState
  else
    pc

/-- An instruction outside `load_current_task_state`, or any stretch of code. -/
def instruction (L : Layout board) (effect : Effect) (s : Cpu × Ram) : Cpu × Ram :=
  ({ s.1 with
      r := effect.r
      sp := Function.update s.1.sp s.1.bank effect.sp
      lr := Function.update s.1.lr s.1.bank effect.lr
      pc := branchTarget L s.1 effect.pc
      cpsr := withFlags s.1.cpsr effect.flags },
    { s.2 with other := effect.other })

/-- The current task is made to run. -/
def activate (sched : State) (activated : Fin MAX_TASK_NUMBER → Bool) :
    Fin MAX_TASK_NUMBER → Bool :=
  match sched.currentTask with
  | some t => Function.update activated t true
  | none => activated

/-- The context that `add_task` gives to the task with number `count`. -/
def initContext (board : Board) (entrypoint : Word) (count : Nat) : Task :=
  initTask zeroTask entrypoint (stackBase board count)

/-- The contexts of the tasks after an accepted `add_task`. -/
def recordTask (board : Board) (sched : State) (entrypoint : Word)
    (contexts : Fin MAX_TASK_NUMBER → Task) : Fin MAX_TASK_NUMBER → Task :=
  if h : sched.taskCount < MAX_TASK_NUMBER then
    Function.update contexts ⟨sched.taskCount, h⟩
      (initContext board entrypoint sched.taskCount)
  else
    contexts

/-- `add_task`, called in supervisor mode. -/
def System.addTask (board : Board) (sys : System) (entrypoint : Word) : System :=
  { sys with
    ram := { sys.ram with
      sched := (Scheduler.addTask board CPSR_MODE_SVC entrypoint sys.ram.sched).2 }
    last := recordTask board sys.ram.sched entrypoint sys.last
    first := recordTask board sys.ram.sched entrypoint sys.first }

/-- The contexts of the tasks when the present one is interrupted. -/
def System.interrupted (sys : System) : Fin MAX_TASK_NUMBER → Task :=
  match sys.ram.sched.currentTask with
  | some t => Function.update sys.last t (context sys.cpu)
  | none => sys.last

def step (L : Layout board) (sys : System) : Event → System
  | .instruction effect =>
      match fetch L sys.cpu with
      | some (k, i) =>
          let s := exec (memory L) i (sys.cpu, sys.ram)
          if k = 6 then
            { sys with
              cpu := s.1
              ram := s.2
              activated := activate s.2.sched sys.activated }
          else
            { sys with cpu := { s.1 with pc := s.1.pc + 4 }, ram := s.2 }
      | none =>
          let s := instruction L effect (sys.cpu, sys.ram)
          { sys with cpu := s.1, ram := s.2 }
  | .createProcess entrypoint =>
      if modeBits sys.cpu.cpsr = CPSR_MODE_USER then sys.addTask board entrypoint else sys
  | .interrupt status clobber =>
      let s := interrupt L status clobber (sys.cpu, sys.ram)
      { sys with
        cpu := s.1
        ram := s.2
        last := sys.interrupted
        activated := activate s.2.sched sys.activated }

/-! ### The start of the kernel -/

/-- `kernel_main` up to the end of `enable_irq`: an `add_task` for each entry
point, then `start_scheduler` with its `init_interrupt_handling`.  The registers
and all other memory are any. -/
def start (L : Layout board) (entrypoints : List Word) (cpu : Cpu) (other : Word → Word) :
    System :=
  let image : System :=
    { cpu := cpu
      ram := ⟨Scheduler.initial, other⟩
      last := fun _ => zeroTask
      first := fun _ => zeroTask
      activated := fun _ => false }
  let added := entrypoints.foldl (System.addTask board) image
  let enabled := enableIrq (setupIrqStack board cpu)
  { added with
    cpu := { enabled with pc := branchTarget L enabled cpu.pc }
    ram := { added.ram with sched := startScheduler added.ram.sched } }

/-! ### Pointers of the scheduler -/

/-- The pointer of an added task. -/
def Added (s : State) (p : TaskPtr) : Prop :=
  ∃ t, p = some t ∧ t.val < s.taskCount

/-- The ring holds pointers of added tasks only. -/
def QueueAdded (s : State) : Prop :=
  ∀ p ∈ queue s, Added s p

theorem schedule_added {s : State} (hqueue : QueueAdded s) (hcurrent : Added s s.currentTask) :
    QueueAdded (schedule s) ∧ Added (schedule s) (schedule s).currentTask := by
  obtain ⟨hcount, -, -, hring⟩ := schedule_spec s
  have hall : ∀ p ∈ (schedule s).currentTask :: queue (schedule s), Added (schedule s) p := by
    intro p hp
    rw [hring] at hp
    have hadded : Added s p := by
      split at hp
      · exact hqueue p hp
      · rcases List.mem_append.mp hp with hmem | hmem
        · exact hqueue p hmem
        · rw [List.mem_singleton.mp hmem]
          exact hcurrent
    obtain ⟨t, rfl, ht⟩ := hadded
    exact ⟨t, rfl, by rwa [hcount]⟩
  exact ⟨fun p hp => hall p (List.mem_cons_of_mem _ hp), hall _ List.mem_cons_self⟩

theorem startScheduler_added {s : State} (hrun : s.isRunning = false) (hqueue : QueueAdded s)
    (hne : queue s ≠ []) :
    QueueAdded (startScheduler s) ∧ Added (startScheduler s) (startScheduler s).currentTask := by
  obtain ⟨hcount, -, -, hcurrent, hring⟩ := startScheduler_spec hrun
  have hkeep : ∀ p, Added s p → Added (startScheduler s) p := by
    rintro p ⟨t, rfl, ht⟩
    exact ⟨t, rfl, by rwa [hcount]⟩
  constructor
  · intro p hp
    rw [hring] at hp
    exact hkeep p (hqueue p (List.mem_of_mem_tail hp))
  · rw [hcurrent]
    obtain ⟨p, ps, hps⟩ := List.exists_cons_of_ne_nil hne
    have hp : p ∈ queue s := by
      rw [hps]
      exact List.mem_cons_self
    have hadded := hkeep p (hqueue p hp)
    rw [hps]
    exact hadded

/-- The scheduler after an interrupt still points to added tasks only. -/
theorem afterInterrupt_spec {s : State} {t : Fin MAX_TASK_NUMBER} (hqueue : QueueAdded s)
    (hcurrent : Added s s.currentTask) (saved : Task) (status : Word) :
    QueueAdded (afterInterrupt s t saved status) ∧
    Added s (afterInterrupt s t saved status).currentTask ∧
    (afterInterrupt s t saved status).taskCount = s.taskCount ∧
    (afterInterrupt s t saved status).tasks = Function.update s.tasks t saved := by
  by_cases htick : status &&& TIMER1_INTBIT ≠ 0
  · obtain ⟨hqueue', hcurrent'⟩ := schedule_added
      (s := { s with tasks := Function.update s.tasks t saved }) hqueue hcurrent
    obtain ⟨hcount, -, htasks, -⟩ :=
      schedule_spec { s with tasks := Function.update s.tasks t saved }
    obtain ⟨t', ht', hlt⟩ := hcurrent'
    have hafter : afterInterrupt s t saved status =
        schedule { s with tasks := Function.update s.tasks t saved } := if_pos htick
    rw [hafter]
    exact ⟨hqueue', ⟨t', ht', by rwa [hcount] at hlt⟩, hcount, htasks⟩
  · have hafter : afterInterrupt s t saved status =
        { s with tasks := Function.update s.tasks t saved } := if_neg htick
    rw [hafter]
    exact ⟨hqueue, hcurrent, rfl, rfl⟩

/-! ### The load path in single steps -/

theorem fetch_eq_some {L : Layout board} {cpu : Cpu} {k : Nat} {i : Instr}
    (h : fetch L cpu = some (k, i)) :
    modeBits cpu.cpsr = CPSR_MODE_SVC ∧ (loadCurrentTaskState L)[k]? = some i ∧ k < 7 ∧
    (cpu.pc - L.loadCurrentTaskState).toNat = 4 * k := by
  simp only [fetch] at h
  split at h
  · rename_i hat
    obtain ⟨j, hj, heq⟩ := Option.map_eq_some_iff.mp h
    obtain ⟨rfl, rfl⟩ := Prod.mk.inj heq
    exact ⟨hat.1, hj, (List.getElem?_eq_some_iff.mp hj).1, by omega⟩
  · cases h

/-- Code outside of `load_current_task_state` leads to its start, if into it at all. -/
theorem fetch_branchTarget {L : Layout board} {cpu cpu' : Cpu} {pc : Word} {k : Nat} {i : Instr}
    (hmode : modeBits cpu.cpsr = CPSR_MODE_SVC) (hpc : cpu'.pc = branchTarget L cpu pc)
    (h : fetch L cpu' = some (k, i)) : k = 0 := by
  obtain ⟨-, -, hk, hoffset⟩ := fetch_eq_some h
  rw [hpc, branchTarget] at hoffset
  by_cases hinside : (pc - L.loadCurrentTaskState).toNat < 28
  · rw [if_pos ⟨hmode, hinside⟩, BitVec.sub_self] at hoffset
    have hzero : (0#32).toNat = 0 := rfl
    omega
  · rw [if_neg (fun hboth => hinside hboth.2)] at hoffset
    omega

/-- The instruction after the one at position `k` is the one at position `k + 1`. -/
theorem fetch_next {L : Layout board} {cpu cpu' : Cpu} {k k' : Nat} {i i' : Instr}
    (h : fetch L cpu = some (k, i)) (hpc : cpu'.pc = cpu.pc + 4)
    (h' : fetch L cpu' = some (k', i')) : k' = k + 1 := by
  obtain ⟨-, -, hk, hoffset⟩ := fetch_eq_some h
  obtain ⟨-, -, hk', hoffset'⟩ := fetch_eq_some h'
  have hadd : cpu'.pc - L.loadCurrentTaskState = cpu.pc - L.loadCurrentTaskState + 4 := by
    rw [hpc]
    bv_omega
  rw [hadd, BitVec.toNat_add, hoffset] at hoffset'
  have hfour : (4 : Word).toNat = 4 := rfl
  omega

theorem loadProgress_pc {L : Layout board} {s : State} {t : Fin MAX_TASK_NUMBER} {b : Bank}
    {k : Nat} {cpu : Cpu} (pc : Word) (h : LoadProgress L s t b k cpu) :
    LoadProgress L s t b k { cpu with pc := pc } := by
  unfold LoadProgress at *
  split at h <;> exact h

/-! ### The invariant -/

/-- What is recorded about the tasks agrees with `tasks`, whose entries are
contexts of user mode. -/
structure Recorded (sys : System) : Prop where
  queued : QueueAdded sys.ram.sched
  saved : ∀ k, k.val < sys.ram.sched.taskCount → sys.ram.sched.tasks k = sys.last k
  user : ∀ k, k.val < sys.ram.sched.taskCount → modeBits (sys.last k).cpsr = CPSR_MODE_USER
  fresh : ∀ k, k.val < sys.ram.sched.taskCount → sys.activated k = false →
    sys.last k = sys.first k

/-- The kernel is on its way through `start_scheduler`. -/
structure InKernel (L : Layout board) (sys : System) : Prop where
  mode : modeBits sys.cpu.cpsr = CPSR_MODE_SVC
  idle : ∀ k, sys.activated k = false
  progress : ∀ k i t, fetch L sys.cpu = some (k, i) → sys.ram.sched.currentTask = some t →
    LoadProgress L sys.ram.sched t .svc k sys.cpu

/-- The current task is running. -/
structure InTask (sys : System) : Prop where
  mode : modeBits sys.cpu.cpsr = CPSR_MODE_USER
  activated : ∀ t, sys.ram.sched.currentTask = some t → sys.activated t = true

structure Inv (L : Layout board) (sys : System) : Prop extends Recorded sys where
  current : Added sys.ram.sched sys.ram.sched.currentTask
  irqStack : sys.cpu.sp .irq = irqStackAddress board
  place : InKernel L sys ∨ InTask sys

/-- Interrupts arrive only while a task runs in user mode. -/
def UserInterrupt (sys : System) : Event → Prop
  | .interrupt _ _ => modeBits sys.cpu.cpsr = CPSR_MODE_USER
  | _ => True

instance (sys : System) (e : Event) : Decidable (UserInterrupt sys e) :=
  match e with
  | .interrupt _ _ => inferInstanceAs (Decidable (_ = _))
  | .instruction _ => inferInstanceAs (Decidable True)
  | .createProcess _ => inferInstanceAs (Decidable True)

theorem bank_of_user {cpu : Cpu} (h : modeBits cpu.cpsr = CPSR_MODE_USER) : cpu.bank = .usr := by
  rw [Cpu.bank, bankOf, h]
  rfl

theorem bank_of_svc {cpu : Cpu} (h : modeBits cpu.cpsr = CPSR_MODE_SVC) : cpu.bank = .svc := by
  rw [Cpu.bank, bankOf, h]
  rfl

/-! ### What each event does -/

/-- `add_task` in supervisor mode: there is no free entry of `tasks`, or the
next one gets its first context and no other is touched. -/
theorem System.addTask_cases (board : Board) (sys : System) (entrypoint : Word) :
    (16 ≤ sys.ram.sched.taskCount ∧ sys.addTask board entrypoint = { sys with
      ram := { sys.ram with
        sched := { sys.ram.sched with errno := SymbolicErrno.ETOOMANYTASKS.val } } }) ∨
    ∃ slot : Fin MAX_TASK_NUMBER, slot.val = sys.ram.sched.taskCount ∧
      (sys.addTask board entrypoint).ram.sched.taskCount = slot.val + 1 ∧
      (sys.addTask board entrypoint).ram.sched.isRunning = sys.ram.sched.isRunning ∧
      (sys.addTask board entrypoint).ram.sched.currentTask = sys.ram.sched.currentTask ∧
      (sys.addTask board entrypoint).ram.sched.tasks =
        Function.update sys.ram.sched.tasks slot (initContext board entrypoint slot.val) ∧
      queue (sys.addTask board entrypoint).ram.sched =
        (if RingFull sys.ram.sched then queue sys.ram.sched
          else queue sys.ram.sched ++ [some slot]) ∧
      (sys.addTask board entrypoint).last =
        Function.update sys.last slot (initContext board entrypoint slot.val) ∧
      (sys.addTask board entrypoint).first =
        Function.update sys.first slot (initContext board entrypoint slot.val) := by
  rcases Scheduler.addTask_cases board CPSR_MODE_SVC entrypoint sys.ram.sched with
    ⟨hpriv, -⟩ | ⟨-, hfull, heq⟩ | ⟨-, hcount, -, hcount', hrun, hcurrent, htasks, hqueue⟩
  · exact absurd hpriv (by decide)
  · left
    have hnot : ¬ sys.ram.sched.taskCount < MAX_TASK_NUMBER := Nat.not_lt.mpr hfull
    exact ⟨hfull, by simp only [System.addTask, heq, recordTask, dif_neg hnot]⟩
  · right
    refine ⟨⟨sys.ram.sched.taskCount, hcount⟩, rfl, hcount', hrun, hcurrent, htasks, hqueue,
      ?_, ?_⟩
    · simp only [System.addTask, recordTask, dif_pos hcount]
    · simp only [System.addTask, recordTask, dif_pos hcount]

theorem modeBits_user : modeBits CPSR_MODE_USER = CPSR_MODE_USER := by decide

theorem recorded_addTask (board : Board) {sys : System} (h : Recorded sys) (entrypoint : Word) :
    Recorded (sys.addTask board entrypoint) := by
  rcases sys.addTask_cases board entrypoint with
    ⟨-, heq⟩ | ⟨slot, hslot, hcount, -, -, htasks, hqueue, hlast, hfirst⟩
  · rw [heq]
    exact ⟨h.queued, h.saved, h.user, h.fresh⟩
  · -- a task other than the new one is an old one, with its old contexts
    have hold : ∀ k : Fin MAX_TASK_NUMBER,
        k.val < (sys.addTask board entrypoint).ram.sched.taskCount → k ≠ slot →
        k.val < sys.ram.sched.taskCount := by
      intro k hk hne
      have hval : k.val ≠ slot.val := fun heq => hne (Fin.ext heq)
      omega
    constructor
    · intro p hp
      rw [hqueue] at hp
      have hp' : p ∈ queue sys.ram.sched ∨ p = some slot := by
        split at hp
        · exact Or.inl hp
        · simpa using hp
      rcases hp' with hmem | rfl
      · obtain ⟨t, rfl, ht⟩ := h.queued p hmem
        exact ⟨t, rfl, by omega⟩
      · exact ⟨slot, rfl, by omega⟩
    · intro k hk
      rw [htasks, hlast]
      by_cases hks : k = slot
      · simp [hks]
      · simpa [hks] using h.saved k (hold k hk hks)
    · intro k hk
      rw [hlast]
      by_cases hks : k = slot
      · rw [hks, Function.update_self]
        exact modeBits_user
      · simpa [hks] using h.user k (hold k hk hks)
    · intro k hk hactivated
      rw [hlast, hfirst]
      by_cases hks : k = slot
      · simp [hks]
      · simpa [hks] using h.fresh k (hold k hk hks) hactivated

theorem Inv.inTask {L : Layout board} {sys : System} (h : Inv L sys)
    (huser : modeBits sys.cpu.cpsr = CPSR_MODE_USER) : InTask sys := by
  rcases h.place with hkernel | htask
  · have hmode := hkernel.mode
    rw [huser] at hmode
    exact absurd hmode (by decide)
  · exact htask

theorem inv_createProcess {L : Layout board} {sys : System} (h : Inv L sys) (entrypoint : Word) :
    Inv L (step L sys (.createProcess entrypoint)) := by
  by_cases huser : modeBits sys.cpu.cpsr = CPSR_MODE_USER
  · simp only [step, if_pos huser]
    have hrecorded := recorded_addTask board h.toRecorded entrypoint
    have htask := h.inTask huser
    -- whether the new task is accepted or not, the calling one stays current
    have hkeep : (sys.addTask board entrypoint).ram.sched.currentTask =
        sys.ram.sched.currentTask ∧
        sys.ram.sched.taskCount ≤ (sys.addTask board entrypoint).ram.sched.taskCount := by
      rcases sys.addTask_cases board entrypoint with
        ⟨-, heq⟩ | ⟨slot, hslot, hcount, -, hcurrent, -, -, -, -⟩
      · rw [heq]
        exact ⟨rfl, le_rfl⟩
      · exact ⟨hcurrent, by omega⟩
    obtain ⟨hcurrent, hcount⟩ := hkeep
    refine ⟨hrecorded, ?_, h.irqStack, Or.inr ⟨huser, ?_⟩⟩
    · obtain ⟨t, ht, hlt⟩ := h.current
      rw [hcurrent]
      exact ⟨t, ht, by omega⟩
    · intro t ht
      rw [hcurrent] at ht
      exact htask.activated t ht
  · simp only [step, if_neg huser]
    exact h

/-- Every interrupt saves the context of the current task and of no other, and
resumes the task that is current afterwards. -/
theorem step_interrupt {L : Layout board} {sys : System} (h : Inv L sys) (status : Word)
    (clobber : Clobber) :
    ∃ t t', sys.ram.sched.currentTask = some t ∧
      t.val < sys.ram.sched.taskCount ∧ t'.val < sys.ram.sched.taskCount ∧
      (step L sys (.interrupt status clobber)).ram.sched.currentTask = some t' ∧
      (step L sys (.interrupt status clobber)).ram.sched.taskCount = sys.ram.sched.taskCount ∧
      QueueAdded (step L sys (.interrupt status clobber)).ram.sched ∧
      (step L sys (.interrupt status clobber)).ram.sched.tasks =
        Function.update sys.ram.sched.tasks t (context sys.cpu) ∧
      (step L sys (.interrupt status clobber)).last =
        Function.update sys.last t (context sys.cpu) ∧
      (step L sys (.interrupt status clobber)).activated =
        Function.update sys.activated t' true ∧
      context (step L sys (.interrupt status clobber)).cpu =
        Function.update sys.last t (context sys.cpu) t' ∧
      (step L sys (.interrupt status clobber)).cpu.sp .irq = irqStackAddress board := by
  obtain ⟨t, ht, hlt⟩ := h.current
  obtain ⟨hqueue, ⟨t', ht', hlt'⟩, hcount, htasks⟩ :=
    afterInterrupt_spec (t := t) h.queued h.current (context sys.cpu) status
  obtain ⟨hsched, hcontext, hsp⟩ := interrupt_spec (L := L) status clobber h.irqStack
    ht ht'
  -- a tick may resume the interrupted task itself, whose context has just been saved
  have hresumed : Function.update sys.ram.sched.tasks t (context sys.cpu) t' =
      Function.update sys.last t (context sys.cpu) t' := by
    by_cases heq : t' = t
    · simp [heq]
    · simpa [heq] using h.saved t' hlt'
  simp only [step, System.interrupted, activate, ht, hsched, ht']
  refine ⟨t, t', rfl, hlt, hlt', rfl, hcount, hqueue, htasks, rfl, rfl, ?_, hsp⟩
  rw [hcontext, htasks, hresumed]

theorem inv_interrupt {L : Layout board} {sys : System} (h : Inv L sys) (status : Word)
    (clobber : Clobber) (huser : modeBits sys.cpu.cpsr = CPSR_MODE_USER) :
    Inv L (step L sys (.interrupt status clobber)) := by
  obtain ⟨t, t', ht, hlt, hlt', hcurrent, hcount, hqueue, htasks, hlast, hactivated, hcontext,
    hsp⟩ := step_interrupt h status clobber
  have htask := h.inTask huser
  have husers : ∀ k, k.val < sys.ram.sched.taskCount →
      modeBits (Function.update sys.last t (context sys.cpu) k).cpsr = CPSR_MODE_USER := by
    intro k hk
    by_cases heq : k = t
    · simpa [heq, context] using huser
    · simpa [heq] using h.user k hk
  refine ⟨⟨hqueue, ?_, ?_, ?_⟩, ⟨t', hcurrent, by rwa [hcount]⟩, hsp, Or.inr ⟨?_, ?_⟩⟩
  · intro k hk
    rw [hcount] at hk
    rw [htasks, hlast]
    by_cases heq : k = t
    · simp [heq]
    · simpa [heq] using h.saved k hk
  · intro k hk
    rw [hcount] at hk
    rw [hlast]
    exact husers k hk
  · intro k hk hidle
    rw [hcount] at hk
    rw [hactivated] at hidle
    have hne' : k ≠ t' := by
      rintro rfl
      simp at hidle
    rw [Function.update_of_ne hne'] at hidle
    -- the interrupted task has been running, so it is not the fresh one
    have hne : k ≠ t := by
      rintro rfl
      have hrunning := htask.activated k ht
      rw [hidle] at hrunning
      cases hrunning
    rw [hlast, Function.update_of_ne hne]
    exact h.fresh k hk hidle
  · have hcpsr := congrArg Task.cpsr hcontext
    have hmode := husers t' hlt'
    rw [← hcpsr] at hmode
    exact hmode
  · intro k hk
    rw [hcurrent] at hk
    obtain rfl := Option.some.inj hk
    rw [hactivated, Function.update_self]

/-- An instruction outside `load_current_task_state` leaves the scheduler alone. -/
theorem inv_free {L : Layout board} {sys : System} (h : Inv L sys) (effect : Effect)
    (hfetch : fetch L sys.cpu = none) :
    Inv L (step L sys (.instruction effect)) := by
  have hbank : sys.cpu.bank ≠ .irq := by
    rcases h.place with hkernel | htask
    · rw [bank_of_svc hkernel.mode]
      decide
    · rw [bank_of_user htask.mode]
      decide
  simp only [step, hfetch, instruction]
  refine ⟨⟨h.queued, h.saved, h.user, h.fresh⟩, h.current, ?_, ?_⟩
  · rw [← h.irqStack]
    exact Function.update_of_ne hbank.symm _ _
  · rcases h.place with hkernel | htask
    · refine Or.inl ⟨(modeBits_withFlags _ _).trans hkernel.mode, hkernel.idle, ?_⟩
      -- nothing is required of the registers where the load path is entered
      intro k i t hnext ht
      obtain rfl := fetch_branchTarget hkernel.mode rfl hnext
      exact trivial
    · exact Or.inr ⟨(modeBits_withFlags _ _).trans htask.mode, htask.activated⟩

theorem Inv.inKernel {L : Layout board} {sys : System} (h : Inv L sys)
    (hsvc : modeBits sys.cpu.cpsr = CPSR_MODE_SVC) : InKernel L sys := by
  rcases h.place with hkernel | htask
  · exact hkernel
  · have hmode := htask.mode
    rw [hsvc] at hmode
    exact absurd hmode (by decide)

/-- One of the first six instructions of `load_current_task_state`. -/
theorem inv_load {L : Layout board} {sys : System} (h : Inv L sys) (effect : Effect) {k : Nat}
    {i : Instr} (hfetch : fetch L sys.cpu = some (k, i)) (hk : k < 6) :
    Inv L (step L sys (.instruction effect)) := by
  obtain ⟨hmode, hi, -, -⟩ := fetch_eq_some hfetch
  obtain ⟨hram, hsp, hkeep⟩ := loadCurrentTaskState_frame sys.cpu sys.ram hi
  obtain ⟨hcpsr, hpc⟩ := hkeep hk
  have hkernel := h.inKernel hmode
  simp only [step, hfetch, if_neg (Nat.ne_of_lt hk), hram]
  refine ⟨⟨h.queued, h.saved, h.user, h.fresh⟩, h.current, hsp.trans h.irqStack,
    Or.inl ⟨?_, hkernel.idle, ?_⟩⟩
  · rw [hcpsr]
    exact hmode
  · intro k' i' t hnext ht
    obtain rfl := fetch_next hfetch (by simp only [hpc]) hnext
    have hprogress := hkernel.progress k i t hfetch ht
    exact loadProgress_pc _
      (loadProgress_step hi hk ht (bank_of_svc hmode) (by decide) hprogress)

/-- The last instruction of `load_current_task_state` makes the current task run. -/
theorem step_return {L : Layout board} {sys : System} (h : Inv L sys) (effect : Effect)
    {i : Instr} (hfetch : fetch L sys.cpu = some (6, i)) :
    ∃ t, sys.ram.sched.currentTask = some t ∧ t.val < sys.ram.sched.taskCount ∧
      (step L sys (.instruction effect)).ram = sys.ram ∧
      (step L sys (.instruction effect)).last = sys.last ∧
      (step L sys (.instruction effect)).first = sys.first ∧
      (step L sys (.instruction effect)).activated = Function.update sys.activated t true ∧
      context (step L sys (.instruction effect)).cpu = sys.last t ∧
      (step L sys (.instruction effect)).cpu.sp .irq = irqStackAddress board := by
  obtain ⟨hmode, hi, -, -⟩ := fetch_eq_some hfetch
  obtain rfl : Instr.ldmReturn = i := Option.some.inj hi
  obtain ⟨hram, hsp, -⟩ := loadCurrentTaskState_frame sys.cpu sys.ram hi
  obtain ⟨t, ht, hlt⟩ := h.current
  have hprogress := (h.inKernel hmode).progress 6 _ t hfetch ht
  have hcontext := loadProgress_return (bank_of_svc hmode) hprogress
  rw [h.saved t hlt] at hcontext
  have hstep : step L sys (.instruction effect) =
      { sys with
        cpu := (exec (memory L) .ldmReturn (sys.cpu, sys.ram)).1
        ram := sys.ram
        activated := Function.update sys.activated t true } := by
    simp only [step, hfetch, if_true, hram, activate, ht]
  rw [hstep]
  exact ⟨t, ht, hlt, rfl, rfl, rfl, rfl, hcontext, hsp.trans h.irqStack⟩

theorem inv_return {L : Layout board} {sys : System} (h : Inv L sys) (effect : Effect)
    {i : Instr} (hfetch : fetch L sys.cpu = some (6, i)) :
    Inv L (step L sys (.instruction effect)) := by
  obtain ⟨t, ht, hlt, hram, hlast, hfirst, hactivated, hcontext, hsp⟩ :=
    step_return h effect hfetch
  refine ⟨⟨?_, ?_, ?_, ?_⟩, ?_, hsp, Or.inr ⟨?_, ?_⟩⟩
  · rw [hram]
    exact h.queued
  · rw [hram, hlast]
    exact h.saved
  · rw [hram, hlast]
    exact h.user
  · intro k hk hidle
    rw [hram] at hk
    rw [hactivated] at hidle
    have hne : k ≠ t := by
      rintro rfl
      simp at hidle
    rw [Function.update_of_ne hne] at hidle
    rw [hlast, hfirst]
    exact h.fresh k hk hidle
  · rw [hram]
    exact h.current
  · have hcpsr : (step L sys (.instruction effect)).cpu.cpsr = (sys.last t).cpsr :=
      congrArg Task.cpsr hcontext
    rw [hcpsr]
    exact h.user t hlt
  · intro k hk
    rw [hram, ht] at hk
    obtain rfl := Option.some.inj hk
    rw [hactivated, Function.update_self]

/-! ### Runs -/

/-- An instruction is one outside `load_current_task_state` or one of its seven. -/
theorem instruction_cases (L : Layout board) (sys : System) :
    fetch L sys.cpu = none ∨ (∃ k i, fetch L sys.cpu = some (k, i) ∧ k < 6) ∨
    ∃ i, fetch L sys.cpu = some (6, i) := by
  rcases hfetch : fetch L sys.cpu with _ | ⟨k, i⟩
  · exact Or.inl rfl
  · obtain ⟨-, -, hk, -⟩ := fetch_eq_some hfetch
    by_cases hlast : k = 6
    · exact Or.inr (Or.inr ⟨i, by rw [hlast]⟩)
    · exact Or.inr (Or.inl ⟨k, i, rfl, by omega⟩)

/-- **The invariant** is kept by every event but an interrupt in supervisor mode. -/
theorem inv_step {L : Layout board} (sys : System) (e : Event) (h : Inv L sys)
    (huser : UserInterrupt sys e) : Inv L (step L sys e) := by
  cases e with
  | instruction effect =>
      rcases instruction_cases L sys with hfree | ⟨k, i, hload, hk⟩ | ⟨i, hreturn⟩
      · exact inv_free h effect hfree
      · exact inv_load h effect hload hk
      · exact inv_return h effect hreturn
  | createProcess entrypoint => exact inv_createProcess h entrypoint
  | interrupt status clobber => exact inv_interrupt h status clobber huser

/-- What the `add_task` calls of `kernel_main` keep. -/
structure Prepared (sys : System) : Prop extends Recorded sys where
  stopped : sys.ram.sched.isRunning = false
  idle : ∀ k, sys.activated k = false
  waiting : 0 < sys.ram.sched.taskCount → queue sys.ram.sched ≠ []

theorem prepared_addTask (board : Board) {sys : System} (h : Prepared sys) (entrypoint : Word) :
    Prepared (sys.addTask board entrypoint) ∧
    0 < (sys.addTask board entrypoint).ram.sched.taskCount := by
  have hrecorded := recorded_addTask board h.toRecorded entrypoint
  rcases sys.addTask_cases board entrypoint with
    ⟨hfull, heq⟩ | ⟨slot, hslot, hcount, hrun, -, -, hqueue, -, -⟩
  · rw [heq] at hrecorded ⊢
    exact ⟨⟨hrecorded, h.stopped, h.idle, h.waiting⟩, Nat.lt_of_lt_of_le (by decide) hfull⟩
  · refine ⟨⟨hrecorded, by rw [hrun, h.stopped], h.idle, fun _ => ?_⟩, by omega⟩
    rw [hqueue]
    split
    · rename_i hring
      have hlength := (ringFull_iff _).mp hring
      exact List.ne_nil_of_length_pos (by omega)
    · simp

theorem prepared_foldl (board : Board) {sys : System} (h : Prepared sys) (entrypoints : List Word) :
    Prepared (entrypoints.foldl (System.addTask board) sys) ∧
    (0 < sys.ram.sched.taskCount →
      0 < (entrypoints.foldl (System.addTask board) sys).ram.sched.taskCount) := by
  induction entrypoints generalizing sys with
  | nil => exact ⟨h, id⟩
  | cons entrypoint entrypoints ih =>
      obtain ⟨hprepared, hpos⟩ := prepared_addTask board h entrypoint
      obtain ⟨hrest, hcount⟩ := ih hprepared
      exact ⟨hrest, fun _ => hcount hpos⟩

theorem prepared_image (cpu : Cpu) (other : Word → Word) :
    Prepared ⟨cpu, ⟨Scheduler.initial, other⟩, fun _ => zeroTask, fun _ => zeroTask,
      fun _ => false⟩ where
  queued := by
    intro p hp
    simp at hp
  saved := fun _ _ => rfl
  user := fun _ hk => absurd hk (Nat.not_lt_zero _)
  fresh := fun _ _ _ => rfl
  stopped := rfl
  idle := fun _ => rfl
  waiting := fun hcount => absurd hcount (Nat.lt_irrefl 0)

/-- The kernel starts with the invariant as soon as it has one task. -/
theorem inv_start (L : Layout board) (entrypoint : Word) (entrypoints : List Word) (cpu : Cpu)
    (other : Word → Word) : Inv L (start L (entrypoint :: entrypoints) cpu other) := by
  obtain ⟨hfirst, hpos⟩ :=
    prepared_addTask board (prepared_image cpu other) entrypoint
  obtain ⟨hprepared, hcount⟩ := prepared_foldl board hfirst entrypoints
  obtain ⟨hqueued, hcurrent⟩ := startScheduler_added hprepared.stopped hprepared.queued
    (hprepared.waiting (hcount hpos))
  obtain ⟨hcount', -, htasks', -, -⟩ := startScheduler_spec hprepared.stopped
  have hmode := modeBits_enableIrq board cpu
  refine ⟨⟨hqueued, ?_, ?_, ?_⟩, hcurrent, ?_, Or.inl ⟨hmode, hprepared.idle, ?_⟩⟩
  · intro k hk
    refine (congrFun htasks' k).trans (hprepared.saved k ?_)
    rwa [← hcount']
  · intro k hk
    refine hprepared.user k ?_
    rwa [← hcount']
  · intro k hk hidle
    refine hprepared.fresh k ?_ hidle
    rwa [← hcount']
  · simp [start, enableIrq, setupIrqStack]
  · intro k i t hfetch ht
    obtain rfl := fetch_branchTarget hmode rfl hfetch
    exact trivial

end InterruptRuns
end Ninjastorms
