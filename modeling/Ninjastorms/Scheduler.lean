import Ninjastorms.Lib.CircularBuffer
import Ninjastorms.Types
import Mathlib.Logic.Function.Basic

/-!
# The scheduler

`kernel/scheduler.c`: the task array, the ring of task pointers and the three
operations `add_task`, `schedule` and `start_scheduler`.

* A `task_t *` is `none` for the null pointer and `some i` for `&tasks[i]`.
* `ring_buffer_insert` drops its argument without a report when the ring is
  full; the ring has `MAX_TASK_NUMBER` slots and keeps one of them empty.
* `queue` — the pointers waiting in the ring, next one first — is what every
  later statement about the ring speaks of, and `queue_ringBufferInsert` and
  `ringBufferRemove_eq` are the only places where the indices are looked at.
-/

namespace Ninjastorms
namespace Scheduler

open Lib.CircularBuffer

/-- `MAX_TASK_NUMBER`. -/
abbrev MAX_TASK_NUMBER : Nat := 16

/-- `task_t`: the saved context of a task. -/
structure Task where
  reg : Fin 13 → Word
  sp : Word
  lr : Word
  pc : Word
  cpsr : Word

/-- A `task_t *` that is either null or points into `tasks`. -/
abbrev TaskPtr := Option (Fin MAX_TASK_NUMBER)

/-- The variables of `scheduler.c`, and `errno`. -/
structure State where
  taskCount : Nat
  bufferStart : Fin MAX_TASK_NUMBER
  bufferEnd : Fin MAX_TASK_NUMBER
  isRunning : Bool
  tasks : Fin MAX_TASK_NUMBER → Task
  ringBuffer : Fin MAX_TASK_NUMBER → TaskPtr
  currentTask : TaskPtr
  errno : Int

/-- The zero-initialised `task_t`. -/
def zeroTask : Task := ⟨fun _ => 0, 0, 0, 0, 0⟩

/-- The values the variables have in the kernel image. -/
def initial : State where
  taskCount := 0
  bufferStart := 0
  bufferEnd := 0
  isRunning := false
  tasks := fun _ => zeroTask
  ringBuffer := fun _ => none
  currentTask := none
  errno := 0

/-- `ring_buffer_insert`.  `next i` is `(i + 1) % MAX_TASK_NUMBER`. -/
def ringBufferInsert (s : State) (task : TaskPtr) : State :=
  let newEnd := next s.bufferEnd
  if newEnd ≠ s.bufferStart then
    { s with ringBuffer := Function.update s.ringBuffer s.bufferEnd task, bufferEnd := newEnd }
  else
    s

/-- `ring_buffer_remove`: the pointer it returns and the state it leaves. -/
def ringBufferRemove (s : State) : TaskPtr × State :=
  if s.bufferStart = s.bufferEnd then
    (none, s)
  else
    (s.ringBuffer s.bufferStart, { s with bufferStart := next s.bufferStart })

/-- `init_task`. -/
def initTask (task : Task) (entrypoint stackbase : Word) : Task :=
  { task with
    reg := fun i => BitVec.ofNat 32 i.val
    sp := stackbase
    lr := 0
    pc := entrypoint
    cpsr := CPSR_MODE_USER }

/-- The stack base that `add_task` computes for the task with number `count`. -/
def stackBase (board : Board) (count : Nat) : Word :=
  taskStackBaseAddress board - STACK_SIZE * BitVec.ofNat 32 count

/-- `add_task`, called with the given `cpsr`: its result and the state it leaves. -/
def addTask (board : Board) (cpsr entrypoint : Word) (s : State) : Int × State :=
  if !isPrivileged cpsr then
    (-1, { s with errno := SymbolicErrno.EPERMISSION.val })
  else if h : s.taskCount ≥ MAX_TASK_NUMBER then
    (-1, { s with errno := SymbolicErrno.ETOOMANYTASKS.val })
  else
    let slot : Fin MAX_TASK_NUMBER := ⟨s.taskCount, Nat.lt_of_not_le h⟩
    let task := initTask (s.tasks slot) entrypoint (stackBase board s.taskCount)
    let s := { s with tasks := Function.update s.tasks slot task }
    let s := ringBufferInsert s (some slot)
    (0, { s with taskCount := s.taskCount + 1 })

/-- `schedule`. -/
def schedule (s : State) : State :=
  let s := ringBufferInsert s s.currentTask
  let (task, s) := ringBufferRemove s
  { s with currentTask := task }

/-- `start_scheduler`, as far as it acts on the variables of the scheduler.
The timers, the interrupt controller and the jump into the first task follow it. -/
def startScheduler (s : State) : State :=
  if !s.isRunning then
    let (task, s) := ringBufferRemove s
    { s with currentTask := task, isRunning := true }
  else
    s

/-! ### The ring as a queue -/

/-- The entries of `ring_buffer` from `buffer_start` up to `buffer_end`. -/
def queue (s : State) : List TaskPtr :=
  contents s.ringBuffer s.bufferStart s.bufferEnd

/-- No slot is left: the next insertion drops its argument. -/
def RingFull (s : State) : Prop :=
  next s.bufferEnd = s.bufferStart

instance (s : State) : Decidable (RingFull s) :=
  inferInstanceAs (Decidable (next s.bufferEnd = s.bufferStart))

@[simp] theorem queue_initial : queue initial = [] := rfl

theorem queue_length_lt (s : State) : (queue s).length < MAX_TASK_NUMBER := by
  rw [queue, length_contents]
  exact ahead_lt _ _

/-- The ring is full when it holds one pointer less than it has slots. -/
theorem ringFull_iff (s : State) : RingFull s ↔ (queue s).length = 15 := by
  rw [RingFull, next_eq_iff_full, queue, length_contents]
  exact Iff.rfl

theorem queue_ringBufferInsert (s : State) (task : TaskPtr) :
    queue (ringBufferInsert s task) =
      if RingFull s then queue s else queue s ++ [task] := by
  by_cases hfull : RingFull s
  · have hnext : next s.bufferEnd = s.bufferStart := hfull
    simp [ringBufferInsert, hnext, hfull]
  · have hnext : next s.bufferEnd ≠ s.bufferStart := hfull
    simp only [ringBufferInsert, ne_eq, hnext, not_false_eq_true, if_true, if_neg hfull]
    have hwrite := contents_write s.ringBuffer hnext fun i hi =>
      Function.update_of_ne (ne_of_mem_of_not_mem hi (stop_notMem_interval _ _)) task s.ringBuffer
    simpa [queue] using hwrite

/-- An insertion touches nothing but the ring. -/
theorem ringBufferInsert_frame (s : State) (task : TaskPtr) :
    (ringBufferInsert s task).taskCount = s.taskCount ∧
    (ringBufferInsert s task).isRunning = s.isRunning ∧
    (ringBufferInsert s task).tasks = s.tasks ∧
    (ringBufferInsert s task).currentTask = s.currentTask ∧
    (ringBufferInsert s task).errno = s.errno := by
  by_cases hroom : next s.bufferEnd ≠ s.bufferStart
  · simp [ringBufferInsert, hroom]
  · simp [ringBufferInsert, hroom]

@[simp] theorem ringBufferInsert_taskCount (s : State) (task : TaskPtr) :
    (ringBufferInsert s task).taskCount = s.taskCount := (ringBufferInsert_frame s task).1

@[simp] theorem ringBufferInsert_isRunning (s : State) (task : TaskPtr) :
    (ringBufferInsert s task).isRunning = s.isRunning := (ringBufferInsert_frame s task).2.1

@[simp] theorem ringBufferInsert_tasks (s : State) (task : TaskPtr) :
    (ringBufferInsert s task).tasks = s.tasks := (ringBufferInsert_frame s task).2.2.1

@[simp] theorem ringBufferInsert_currentTask (s : State) (task : TaskPtr) :
    (ringBufferInsert s task).currentTask = s.currentTask :=
  (ringBufferInsert_frame s task).2.2.2.1

/-- `ring_buffer_remove` takes the head of the queue, if there is one. -/
theorem ringBufferRemove_cases (s : State) :
    (queue s = [] ∧ ringBufferRemove s = (none, s)) ∨
    ∃ task, queue s = task :: queue (ringBufferRemove s).2 ∧
      ringBufferRemove s = (task, { s with bufferStart := next s.bufferStart }) := by
  by_cases hempty : s.bufferStart = s.bufferEnd
  · left
    refine ⟨?_, by simp [ringBufferRemove, hempty]⟩
    rw [queue, hempty, contents_self]
  · right
    refine ⟨s.ringBuffer s.bufferStart, ?_, by simp [ringBufferRemove, hempty]⟩
    simp only [ringBufferRemove, hempty, if_false]
    exact contents_take hempty

/-! ### What each operation does to the queue -/

/-- What one call of `add_task` can do: refuse and set `errno`, or initialise
the next task and hand it to the ring. -/
theorem addTask_cases (board : Board) (cpsr entrypoint : Word) (s : State) :
    (isPrivileged cpsr = false ∧ addTask board cpsr entrypoint s =
      (-1, { s with errno := SymbolicErrno.EPERMISSION.val })) ∨
    (isPrivileged cpsr = true ∧ 16 ≤ s.taskCount ∧ addTask board cpsr entrypoint s =
      (-1, { s with errno := SymbolicErrno.ETOOMANYTASKS.val })) ∨
    (isPrivileged cpsr = true ∧ ∃ hcount : s.taskCount < 16,
      (addTask board cpsr entrypoint s).1 = 0 ∧
      (addTask board cpsr entrypoint s).2.taskCount = s.taskCount + 1 ∧
      (addTask board cpsr entrypoint s).2.isRunning = s.isRunning ∧
      (addTask board cpsr entrypoint s).2.currentTask = s.currentTask ∧
      (addTask board cpsr entrypoint s).2.tasks =
        Function.update s.tasks ⟨s.taskCount, hcount⟩
          (initTask (s.tasks ⟨s.taskCount, hcount⟩) entrypoint (stackBase board s.taskCount)) ∧
      queue (addTask board cpsr entrypoint s).2 =
        if RingFull s then queue s else queue s ++ [some ⟨s.taskCount, hcount⟩]) := by
  by_cases hpriv : isPrivileged cpsr = true
  · right
    by_cases hfull : 16 ≤ s.taskCount
    · left
      exact ⟨hpriv, hfull, by simp [addTask, hpriv, hfull]⟩
    · right
      have hcount : s.taskCount < 16 := by omega
      refine ⟨hpriv, hcount, ?_⟩
      have hlen : ¬ s.taskCount ≥ MAX_TASK_NUMBER := hfull
      simp only [addTask, hpriv, Bool.not_true, Bool.false_eq_true, if_false, hlen, dite_false,
        ringBufferInsert_taskCount, ringBufferInsert_isRunning, ringBufferInsert_tasks,
        ringBufferInsert_currentTask, true_and]
      exact queue_ringBufferInsert { s with tasks := _ } (some ⟨s.taskCount, hcount⟩)
  · left
    have hfalse : isPrivileged cpsr = false := Bool.eq_false_of_not_eq_true hpriv
    exact ⟨hfalse, by simp [addTask, hfalse]⟩

/-- `schedule` puts the current task behind the queue, unless the ring is full,
and makes the head of the result current. -/
theorem schedule_spec (s : State) :
    (schedule s).taskCount = s.taskCount ∧ (schedule s).isRunning = s.isRunning ∧
    (schedule s).tasks = s.tasks ∧
    (schedule s).currentTask :: queue (schedule s) =
      if RingFull s then queue s else queue s ++ [s.currentTask] := by
  have hinsert := queue_ringBufferInsert s s.currentTask
  have hne : queue (ringBufferInsert s s.currentTask) ≠ [] := by
    rw [hinsert]
    split
    · rename_i hfull
      intro hnil
      have hlen := (ringFull_iff s).mp hfull
      simp [hnil] at hlen
    · simp
  rcases ringBufferRemove_cases (ringBufferInsert s s.currentTask) with
    ⟨hnil, -⟩ | ⟨task, hqueue, hremove⟩
  · exact absurd hnil hne
  · rw [← hinsert, hqueue]
    simp only [schedule, hremove, ringBufferInsert_taskCount, ringBufferInsert_isRunning,
      ringBufferInsert_tasks, true_and]
    rfl

/-- The first `start_scheduler` makes the head of the queue current. -/
theorem startScheduler_spec {s : State} (hrun : s.isRunning = false) :
    (startScheduler s).taskCount = s.taskCount ∧ (startScheduler s).isRunning = true ∧
    (startScheduler s).tasks = s.tasks ∧
    (startScheduler s).currentTask = (queue s).head?.join ∧
    queue (startScheduler s) = (queue s).tail := by
  rcases ringBufferRemove_cases s with ⟨hnil, hremove⟩ | ⟨task, hqueue, hremove⟩
  · simp only [startScheduler, hrun, hremove, Bool.not_false, if_true, hnil, true_and]
    exact ⟨rfl, hnil⟩
  · rw [hremove] at hqueue
    simp only [startScheduler, hrun, hremove, Bool.not_false, if_true, hqueue, true_and]
    exact ⟨rfl, rfl⟩

/-- Any further `start_scheduler` does nothing. -/
theorem startScheduler_of_running {s : State} (hrun : s.isRunning = true) :
    startScheduler s = s := by
  simp [startScheduler, hrun]

end Scheduler
end Ninjastorms
