import Ninjastorms.Lib.ByteMemory
import Ninjastorms.Lib.Runs
import Ninjastorms.Scheduler

/-!
# System calls

`kernel/syscall_handler.c` and the request of `kernel/syscall.c`.  A handler is
given the memory of the machine, from which it reads the request that `data`
points to, and the `cpsr` that `is_privileged` will see.

`create_process_dispatch` returns 0 whatever `add_task` has returned.
`createProcess_reports_iff` says when this report is right nevertheless.
-/

namespace Ninjastorms
namespace Syscall

open Scheduler Lib.ByteMemory Lib.Runs

/-! ### The handlers -/

/-- `ZERO_SYSCALL`. -/
def ZERO_SYSCALL : Word := 0

/-- `CREATE_PROCESS`. -/
def CREATE_PROCESS : Word := 1

/-- `SHUTDOWN`. -/
def SHUTDOWN : Word := 99

/-- `create_process_spec`. -/
structure CreateProcessSpec where
  function : Word

/-- The request that `data` points to. -/
def createProcessSpecAt (mem : Mem) (data : Word) : CreateProcessSpec where
  function := load32 mem data

/-- `syscall_zero_dispatch`. -/
def syscallZeroDispatch (s : State) : Word × State :=
  (0, s)

/-- `create_process_dispatch`. -/
def createProcessDispatch (board : Board) (cpsr : Word) (mem : Mem) (data : Word) (s : State) :
    Word × State :=
  let spec := createProcessSpecAt mem data
  let (_, s) := addTask board cpsr spec.function s
  (0, s)

/-- `syscall_dispatcher`.  `shutdown_dispatch` calls `halt_execution`, which does
nothing, and has no `return`. -/
def syscallDispatcher (board : Board) (cpsr : Word) (mem : Mem) (syscallno data : Word)
    (s : State) : Option Word × State :=
  if syscallno = ZERO_SYSCALL then
    let (ret, s) := syscallZeroDispatch s
    (some ret, s)
  else if syscallno = CREATE_PROCESS then
    let (ret, s) := createProcessDispatch board cpsr mem data s
    (some ret, s)
  else if syscallno = SHUTDOWN then
    (none, s)
  else
    (some (-1), { s with errno := SymbolicErrno.EINVALIDSYSCALLNO.val })

/-- What acts on the scheduler: a call inside the kernel, or a system call. -/
inductive Event where
  | addTask (entrypoint cpsr : Word)
  | schedule
  | startScheduler
  | syscall (cpsr : Word) (mem : Mem) (syscallno data : Word)

def step (board : Board) (s : State) : Event → State
  | .addTask entrypoint cpsr => (addTask board cpsr entrypoint s).2
  | .schedule => schedule s
  | .startScheduler => startScheduler s
  | .syscall cpsr mem syscallno data => (syscallDispatcher board cpsr mem syscallno data s).2

/-! ### What is promised -/

/-- A task with this entrypoint has been initialised and put into the run queue. -/
def Created (entrypoint : Word) (s s' : State) : Prop :=
  ∃ slot stackbase, queue s' = queue s ++ [some slot] ∧
    s'.tasks slot = initTask (s.tasks slot) entrypoint stackbase

/-- Nothing of the scheduler has changed, apart from `errno`. -/
def Untouched (s s' : State) : Prop :=
  s'.tasks = s.tasks ∧ s'.taskCount = s.taskCount ∧ s'.ringBuffer = s.ringBuffer ∧
    s'.bufferStart = s.bufferStart ∧ s'.bufferEnd = s.bufferEnd ∧ s'.currentTask = s.currentTask

/-- The system call `CREATE_PROCESS` returns 0 exactly if it has created a
process, and otherwise leaves the scheduler untouched. -/
def ReportsFailure (board : Board) (s : State) (e : Event) : Prop :=
  ∀ cpsr mem data, e = .syscall cpsr mem CREATE_PROCESS data →
    ((syscallDispatcher board cpsr mem CREATE_PROCESS data s).1 = some 0 ↔
      Created (createProcessSpecAt mem data).function s (step board s e)) ∧
    ((syscallDispatcher board cpsr mem CREATE_PROCESS data s).1 ≠ some 0 →
      Untouched s (step board s e))

/-- The call is privileged, and there is room in the table and in the ring. -/
def CanCreate (cpsr : Word) (s : State) : Prop :=
  isPrivileged cpsr = true ∧ s.taskCount < MAX_TASK_NUMBER ∧ ¬ RingFull s

instance (cpsr : Word) (s : State) : Decidable (CanCreate cpsr s) :=
  inferInstanceAs (Decidable (_ ∧ _ ∧ _))

/-- Every request for a process meets a scheduler that has room for it. -/
def MeetsRoom (s : State) (e : Event) : Prop :=
  ∀ cpsr mem data, e = .syscall cpsr mem CREATE_PROCESS data → CanCreate cpsr s

/-! ### One system call -/

section Create

variable {board : Board} {cpsr : Word} {mem : Mem} {data : Word} {s : State}

theorem syscallDispatcher_createProcess (board : Board) (cpsr : Word) (mem : Mem) (data : Word)
    (s : State) :
    syscallDispatcher board cpsr mem CREATE_PROCESS data s =
      (some 0, (addTask board cpsr (createProcessSpecAt mem data).function s).2) := by
  have hne : CREATE_PROCESS ≠ ZERO_SYSCALL := by decide
  simp only [syscallDispatcher, if_neg hne, if_true, createProcessDispatch]

/-- A queue that has not become longer has no new task in it. -/
theorem not_created {entrypoint : Word} {s' : State} (h : queue s' = queue s) :
    ¬ Created entrypoint s s' := by
  rintro ⟨slot, -, hqueue, -⟩
  rw [h] at hqueue
  have hlen := congrArg List.length hqueue
  rw [List.length_append, List.length_singleton] at hlen
  omega

/-- `add_task` creates a task exactly if there is room for it. -/
theorem created_addTask_iff (entrypoint : Word) :
    Created entrypoint s (addTask board cpsr entrypoint s).2 ↔ CanCreate cpsr s := by
  rcases addTask_cases board cpsr entrypoint s with
    ⟨hunpriv, hcall⟩ | ⟨-, hfull, hcall⟩ | ⟨hpriv, hcount, -, -, -, -, htasks, hqueue⟩
  · rw [hcall]
    constructor
    · exact fun hcreated => absurd hcreated (not_created rfl)
    · rintro ⟨hpriv, -⟩
      exact absurd (hpriv.symm.trans hunpriv) (by simp)
  · rw [hcall]
    constructor
    · exact fun hcreated => absurd hcreated (not_created rfl)
    · rintro ⟨-, hcount, -⟩
      exact absurd hcount (Nat.not_lt.mpr hfull)
  · by_cases hring : RingFull s
    · -- the table has room, and the ring drops the pointer
      rw [if_pos hring] at hqueue
      constructor
      · exact fun hcreated => absurd hcreated (not_created hqueue)
      · rintro ⟨-, -, hroom⟩
        exact absurd hring hroom
    · rw [if_neg hring] at hqueue
      refine ⟨fun _ => ⟨hpriv, hcount, hring⟩, fun _ => ?_⟩
      refine ⟨⟨s.taskCount, hcount⟩, stackBase board s.taskCount, hqueue, ?_⟩
      rw [htasks, Function.update_self]

/-- **One request.**  The report 0 is right exactly if there is room. -/
theorem reportsFailure_iff (board : Board) (s : State) (e : Event) :
    ReportsFailure board s e ↔ MeetsRoom s e := by
  unfold ReportsFailure MeetsRoom
  refine forall_congr' fun cpsr => forall_congr' fun mem => forall_congr' fun data =>
    forall_congr' fun he => ?_
  subst he
  simp only [step, syscallDispatcher_createProcess, created_addTask_iff, true_iff, ne_eq,
    not_true_eq_false, false_implies, and_true]

end Create

/-! ### Runs -/

/-- **The report of `create_process`.**  Along a run of calls and system calls,
the result 0 tells the truth exactly as long as every request finds a privileged
mode, room in the table and room in the ring. -/
theorem createProcess_reports_iff (board : Board) (events : List Event) :
    EveryStep (step board) (ReportsFailure board) initial events ↔
      EveryStep (step board) MeetsRoom initial events :=
  everyStep_iff_everyStep (fun _ _ (_ : True) _ => trivial)
    (fun s e _ => reportsFailure_iff board s e) trivial

/-- A request in supervisor mode, as `create_process` puts it on the stack. -/
def request : Event :=
  .syscall CPSR_MODE_SVC (store32 (fun _ => 0) 0x3FE0000 0x8000) CREATE_PROCESS 0x3FE0000

/-- One task is running, and sixteen more are asked for.  The last request is
refused by `add_task`, and 0 is returned. -/
theorem refused_request_not_reported :
    ¬ EveryStep (step .versatilepb) (ReportsFailure .versatilepb) initial
      (.addTask 0x8000 CPSR_MODE_SVC :: .startScheduler :: List.replicate 16 request) := by
  intro h
  have hlast := everyStep_iff_split.mp h
    (.addTask 0x8000 CPSR_MODE_SVC :: .startScheduler :: List.replicate 15 request) request [] rfl
  have hroom := (reportsFailure_iff _ _ _).mp hlast _ _ _ rfl
  exact absurd hroom.2.1 (by decide +kernel)

end Syscall
end Ninjastorms
