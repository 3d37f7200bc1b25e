import Ninjastorms.Lib.Runs
import Ninjastorms.Scheduler
import Mathlib.Data.List.Nodup
import Mathlib.Data.List.Perm.Subperm

/-!
# Where the accepted tasks are

A run of the scheduler is any list of `add_task`, `schedule` and
`start_scheduler` calls, in any order.  `System` records beside the variables
of `scheduler.c` which tasks `add_task` has accepted (returned 0 for), and
`Accounted` says that these are exactly the tasks that the scheduler still
knows: the running one and those in the ring.

`add_task` counts to 16 while the ring holds at most 15 pointers and drops the
sixteenth silently, so `Accounted` is not an invariant.  `HasRoom` is the
condition on a call, and on the state before it, under which nothing is lost;
`everyState_accounted_iff` says that it is the exact one.
-/

namespace Ninjastorms
namespace SchedulerRuns

open Scheduler Lib.Runs

/-- The scheduler together with the tasks for which `add_task` returned 0. -/
structure System where
  sched : State
  accepted : List (Fin MAX_TASK_NUMBER)

/-- A call into the scheduler.  `add_task` runs with some `cpsr`. -/
inductive Call where
  | addTask (entrypoint cpsr : Word)
  | schedule
  | startScheduler

/-- The kernel image: no task, nothing running. -/
def initial : System where
  sched := Scheduler.initial
  accepted := []

/-- The task that an accepting `add_task` initialises. -/
def freshSlot (s : State) : List (Fin MAX_TASK_NUMBER) :=
  if h : s.taskCount < MAX_TASK_NUMBER then [⟨s.taskCount, h⟩] else []

def step (board : Board) (sys : System) : Call → System
  | .addTask entrypoint cpsr =>
      let (result, sched) := addTask board cpsr entrypoint sys.sched
      { sched := sched
        accepted := if result = 0 then sys.accepted ++ freshSlot sys.sched else sys.accepted }
  | .schedule => { sys with sched := schedule sys.sched }
  | .startScheduler => { sys with sched := startScheduler sys.sched }

/-- The pointers the scheduler knows: `current_task`, which stands for a task
from `start_scheduler` on, and the entries of the ring. -/
def pointers (s : State) : List TaskPtr :=
  (if s.isRunning then [s.currentTask] else []) ++ queue s

/-- Every accepted task occurs exactly once, and no other pointer occurs. -/
def Accounted (sys : System) : Prop :=
  (∀ t ∈ sys.accepted, (pointers sys.sched).count (some t) = 1) ∧
  ∀ p ∈ pointers sys.sched, ∃ t ∈ sys.accepted, p = some t

/-- The calls that find room in the ring: an `add_task` before the start while
fewer than 15 tasks are accepted, a `schedule` while at most 15 are, and no
`schedule` on tasks that were never started. -/
def HasRoom (sys : System) : Call → Prop
  | .addTask _ cpsr =>
      isPrivileged cpsr = true → sys.sched.isRunning = true ∨ sys.sched.taskCount ≠ 15
  | .schedule =>
      if sys.sched.isRunning then sys.sched.taskCount ≤ 15 else sys.sched.taskCount = 0
  | .startScheduler => sys.sched.isRunning = true ∨ 0 < sys.sched.taskCount

/-! ### The invariant -/

/-- The accepted tasks are the first `task_count` ones, and the known pointers
are a rearrangement of them. -/
structure Inv (sys : System) : Prop where
  length : sys.accepted.length = sys.sched.taskCount
  mem : ∀ t, t ∈ sys.accepted ↔ t.val < sys.sched.taskCount
  nodup : sys.accepted.Nodup
  perm : (pointers sys.sched).Perm (sys.accepted.map some)
  idle : sys.sched.isRunning = false → sys.sched.currentTask = none

theorem inv_initial : Inv initial where
  length := rfl
  mem := by intro t; simp [initial, Scheduler.initial]
  nodup := List.nodup_nil
  perm := by simp [pointers, initial, Scheduler.initial, queue]
  idle := fun _ => rfl

theorem Inv.length_pointers {sys : System} (h : Inv sys) :
    (pointers sys.sched).length = sys.sched.taskCount := by
  rw [h.perm.length_eq, List.length_map, h.length]

theorem Inv.length_queue_of_running {sys : System} (h : Inv sys)
    (hrun : sys.sched.isRunning = true) :
    (queue sys.sched).length + 1 = sys.sched.taskCount := by
  have hlen := h.length_pointers
  simpa [pointers, hrun, Nat.add_comm] using hlen

theorem Inv.length_queue_of_idle {sys : System} (h : Inv sys)
    (hrun : sys.sched.isRunning = false) :
    (queue sys.sched).length = sys.sched.taskCount := by
  have hlen := h.length_pointers
  simpa [pointers, hrun] using hlen

theorem Inv.accounted {sys : System} (h : Inv sys) : Accounted sys := by
  have hnodup : (sys.accepted.map some).Nodup :=
    h.nodup.map (Option.some_injective _)
  constructor
  · intro t ht
    rw [h.perm.count_eq]
    exact List.count_eq_one_of_mem hnodup (List.mem_map_of_mem ht)
  · intro p hp
    obtain ⟨t, ht, rfl⟩ := List.mem_map.mp (h.perm.mem_iff.mp hp)
    exact ⟨t, ht, rfl⟩

/-- Accepted tasks are all accounted for only if there are enough pointers. -/
theorem Accounted.length_le {sys : System} (h : Accounted sys) (hnodup : sys.accepted.Nodup) :
    sys.accepted.length ≤ (pointers sys.sched).length := by
  have hsub : sys.accepted.map some ⊆ pointers sys.sched := by
    intro p hp
    obtain ⟨t, ht, rfl⟩ := List.mem_map.mp hp
    exact List.count_pos_iff.mp (by rw [h.1 t ht]; exact Nat.one_pos)
  have hle := (List.subperm_of_subset (hnodup.map (Option.some_injective _)) hsub).length_le
  simpa using hle

/-- Accounted tasks leave no null pointer. -/
theorem Accounted.none_notMem {sys : System} (h : Accounted sys) :
    none ∉ pointers sys.sched := by
  intro hnone
  obtain ⟨t, -, ht⟩ := h.2 none hnone
  exact absurd ht (by simp)

/-! ### One accepting `add_task` -/

/-- The bookkeeping of an accepting `add_task`, whatever becomes of the pointer. -/
theorem accepted_addTask {sys : System} (h : Inv sys) (hcount : sys.sched.taskCount < 16) :
    let slot : Fin MAX_TASK_NUMBER := ⟨sys.sched.taskCount, hcount⟩
    freshSlot sys.sched = [slot] ∧ (sys.accepted ++ [slot]).Nodup ∧
    (∀ t, t ∈ sys.accepted ++ [slot] ↔ t.val < sys.sched.taskCount + 1) := by
  refine ⟨by simp [freshSlot, hcount], ?_, ?_⟩
  · refine List.Nodup.append h.nodup (List.nodup_singleton _) ?_
    intro t ht hslot
    rw [List.mem_singleton] at hslot
    have hlt := (h.mem t).mp ht
    simp [hslot] at hlt
  · intro t
    rw [List.mem_append, h.mem, List.mem_singleton, Fin.ext_iff]
    show t.val < sys.sched.taskCount ∨ t.val = sys.sched.taskCount ↔ _
    omega

theorem step_addTask_keeps {board : Board} {sys : System} {entrypoint cpsr : Word} (h : Inv sys)
    (hroom : HasRoom sys (.addTask entrypoint cpsr)) :
    Inv (step board sys (.addTask entrypoint cpsr)) := by
  rcases addTask_cases board cpsr entrypoint sys.sched with
    ⟨-, hcall⟩ | ⟨-, -, hcall⟩ | ⟨hpriv, hcount, hzero, htc, hrun, hcur, -, hqueue⟩
  · simp only [step, hcall]
    exact ⟨h.length, h.mem, h.nodup, h.perm, h.idle⟩
  · simp only [step, hcall]
    exact ⟨h.length, h.mem, h.nodup, h.perm, h.idle⟩
  · obtain ⟨hfresh, hnodup, hmem⟩ := accepted_addTask h hcount
    have hfull : ¬ RingFull sys.sched := by
      rw [ringFull_iff]
      cases hr : sys.sched.isRunning with
      | true =>
          have hlen := h.length_queue_of_running hr
          omega
      | false =>
          have hlen := h.length_queue_of_idle hr
          rcases hroom hpriv with hrun' | hne
          · simp [hr] at hrun'
          · omega
    rw [if_neg hfull] at hqueue
    simp only [step, hzero, if_true, hfresh]
    constructor
    · simp [h.length, htc]
    · intro t
      rw [hmem, htc]
    · exact hnodup
    · rw [pointers, hrun, hcur, hqueue, ← List.append_assoc, List.map_append]
      exact h.perm.append_right _
    · intro hidle
      rw [hcur]
      exact h.idle (by rw [← hrun]; exact hidle)

theorem step_addTask_breaks {board : Board} {sys : System} {entrypoint cpsr : Word} (h : Inv sys)
    (hroom : ¬ HasRoom sys (.addTask entrypoint cpsr)) :
    ¬ Accounted (step board sys (.addTask entrypoint cpsr)) := by
  simp only [HasRoom, Classical.not_imp, not_or, ne_eq, not_not, Bool.not_eq_true] at hroom
  obtain ⟨hpriv, hidle, hfifteen⟩ := hroom
  rcases addTask_cases board cpsr entrypoint sys.sched with
    ⟨hunpriv, -⟩ | ⟨-, hmax, -⟩ | ⟨-, hcount, hzero, -, hrun, -, -, hqueue⟩
  · simp [hpriv] at hunpriv
  · omega
  · obtain ⟨hfresh, hnodup, -⟩ := accepted_addTask h hcount
    have hlen := h.length_queue_of_idle hidle
    have hfull : RingFull sys.sched := (ringFull_iff _).mpr (by omega)
    rw [if_pos hfull] at hqueue
    intro hacc
    simp only [step, hzero, if_true, hfresh] at hacc
    have hle := hacc.length_le hnodup
    simp [pointers, hrun, hidle, hqueue, h.length] at hle
    omega

/-! ### One `schedule` -/

theorem step_schedule_keeps {board : Board} {sys : System} (h : Inv sys)
    (hroom : HasRoom sys .schedule) : Inv (step board sys .schedule) := by
  obtain ⟨htc, hrun, -, hqueue⟩ := schedule_spec sys.sched
  cases hr : sys.sched.isRunning with
  | true =>
      -- the running task goes to the end of the ring and its head becomes current
      have hlen := h.length_queue_of_running hr
      simp only [HasRoom, hr, if_true] at hroom
      have hfull : ¬ RingFull sys.sched := by rw [ringFull_iff]; omega
      rw [if_neg hfull] at hqueue
      have hperm := h.perm
      refine ⟨by simpa [step, htc] using h.length, by simpa [step, htc] using h.mem, h.nodup, ?_,
        fun hidle => absurd hidle (by simp [step, hrun, hr])⟩
      simp only [pointers, hr, if_true, List.singleton_append] at hperm
      simp only [step, pointers, hrun, hr, if_true, List.singleton_append, hqueue]
      exact (List.perm_append_singleton _ _).trans hperm
  | false =>
      -- no task yet: the null pointer goes through the empty ring and back
      have hlen := h.length_queue_of_idle hr
      simp only [HasRoom, hr, Bool.false_eq_true, if_false] at hroom
      have hnil : queue sys.sched = [] := List.eq_nil_of_length_eq_zero (by omega)
      have hfull : ¬ RingFull sys.sched := by rw [ringFull_iff, hnil]; simp
      rw [if_neg hfull, hnil, List.nil_append, h.idle hr] at hqueue
      obtain ⟨hcur, hqueue'⟩ := List.cons.inj hqueue
      have hperm := h.perm
      simp only [pointers, hr, Bool.false_eq_true, if_false, hnil] at hperm
      refine ⟨by simpa [step, htc] using h.length, by simpa [step, htc] using h.mem, h.nodup, ?_,
        fun _ => hcur⟩
      simpa [step, pointers, hrun, hr, hqueue'] using hperm

theorem step_schedule_breaks {board : Board} {sys : System} (h : Inv sys)
    (hroom : ¬ HasRoom sys .schedule) : ¬ Accounted (step board sys .schedule) := by
  obtain ⟨-, hrun, -, hqueue⟩ := schedule_spec sys.sched
  intro hacc
  have hle := hacc.length_le h.nodup
  cases hr : sys.sched.isRunning with
  | true =>
      -- the ring is full, so the running task is dropped
      have hlen := h.length_queue_of_running hr
      have hmax : (queue sys.sched).length < 16 := queue_length_lt sys.sched
      simp only [HasRoom, hr, if_true] at hroom
      have hfull : RingFull sys.sched := (ringFull_iff _).mpr (by omega)
      rw [if_pos hfull] at hqueue
      have hlen' := congrArg List.length hqueue
      simp [step, pointers, hrun, hr, h.length] at hle hlen'
      omega
  | false =>
      have hlen := h.length_queue_of_idle hr
      simp only [HasRoom, hr, Bool.false_eq_true, if_false] at hroom
      by_cases hfull : RingFull sys.sched
      · -- the null pointer is dropped and the head of the queue is taken out of the ring
        rw [if_pos hfull] at hqueue
        have hlen' := congrArg List.length hqueue
        simp [step, pointers, hrun, hr, h.length] at hle hlen'
        omega
      · -- the null pointer enters the ring behind the waiting tasks
        rw [if_neg hfull, h.idle hr] at hqueue
        have hnone := hacc.none_notMem
        simp only [step, pointers, hrun, hr, Bool.false_eq_true, if_false, List.nil_append] at hnone
        cases hq : queue sys.sched with
        | nil => simp [hq] at hlen; omega
        | cons task rest =>
            rw [hq, List.cons_append] at hqueue
            rw [(List.cons.inj hqueue).2] at hnone
            simp at hnone

/-! ### One `start_scheduler` -/

theorem step_startScheduler_keeps {board : Board} {sys : System} (h : Inv sys)
    (hroom : HasRoom sys .startScheduler) : Inv (step board sys .startScheduler) := by
  cases hr : sys.sched.isRunning with
  | true =>
      simp only [step, startScheduler_of_running hr]
      exact h
  | false =>
      obtain ⟨htc, hrun, -, hcur, hqueue⟩ := startScheduler_spec hr
      have hlen := h.length_queue_of_idle hr
      cases hq : queue sys.sched with
      | nil =>
          simp only [HasRoom, hr, Bool.false_eq_true, false_or] at hroom
          simp [hq] at hlen
          omega
      | cons task rest =>
          rw [hq] at hcur hqueue
          have hperm := h.perm
          simp only [pointers, hr, Bool.false_eq_true, if_false, List.nil_append, hq] at hperm
          refine ⟨by simpa [step, htc] using h.length, by simpa [step, htc] using h.mem, h.nodup,
            ?_, fun hidle => absurd hidle (by simp [step, hrun])⟩
          simpa [step, pointers, hrun, hcur, hqueue] using hperm

theorem step_startScheduler_breaks {board : Board} {sys : System} (h : Inv sys)
    (hroom : ¬ HasRoom sys .startScheduler) : ¬ Accounted (step board sys .startScheduler) := by
  simp only [HasRoom, not_or, Bool.not_eq_true, Nat.not_lt, Nat.le_zero_eq] at hroom
  obtain ⟨hidle, hzero⟩ := hroom
  obtain ⟨-, hrun, -, hcur, -⟩ := startScheduler_spec hidle
  have hnil : queue sys.sched = [] :=
    List.eq_nil_of_length_eq_zero ((h.length_queue_of_idle hidle).trans hzero)
  intro hacc
  apply hacc.none_notMem
  simp [step, pointers, hrun, hcur, hnil]

/-! ### Runs -/

theorem step_keeps {board : Board} (sys : System) (call : Call) (h : Inv sys)
    (hroom : HasRoom sys call) : Inv (step board sys call) := by
  cases call with
  | addTask entrypoint cpsr => exact step_addTask_keeps h hroom
  | schedule => exact step_schedule_keeps h hroom
  | startScheduler => exact step_startScheduler_keeps h hroom

theorem step_breaks {board : Board} (sys : System) (call : Call) (h : Inv sys)
    (hroom : ¬ HasRoom sys call) : ¬ Accounted (step board sys call) := by
  cases call with
  | addTask entrypoint cpsr => exact step_addTask_breaks h hroom
  | schedule => exact step_schedule_breaks h hroom
  | startScheduler => exact step_startScheduler_breaks h hroom

/-- **No accepted task is lost or duplicated exactly as long as every call
finds room in the ring.**  The calls may come in any order and number. -/
theorem everyState_accounted_iff (board : Board) (calls : List Call) :
    EveryState (step board) Accounted initial calls ↔
      EveryStep (step board) HasRoom initial calls :=
  everyState_iff_everyStep (fun _ => Inv.accounted) step_keeps step_breaks inv_initial

/-- The boot of a kernel with sixteen tasks, one more than the ring can hold. -/
def sixteenTasks : List Call :=
  List.replicate 16 (.addTask 0x8000 CPSR_MODE_SVC) ++ [.startScheduler]

/-- `add_task` returns 0 for the sixteenth task, and the task is nowhere. -/
theorem sixteenTasks_not_accounted :
    ¬ EveryState (step .versatilepb) Accounted initial sixteenTasks := by
  intro h
  have hlast := (everyState_iff_reached.mp h sixteenTasks List.prefix_rfl).1 15 (by decide)
  exact absurd hlast (by decide)

end SchedulerRuns
end Ninjastorms
