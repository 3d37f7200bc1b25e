import Ninjastorms.Lib.RoundRobin
import Ninjastorms.SchedulerRuns

/-!
# The order in which tasks run

While the scheduler is running, `ready` is the running task and behind it those
in the ring.  As long as there are at most 15 of them, `schedule` turns this
list by one place and an accepting `add_task` appends to it
(`ready_schedule`, `ready_addTask`): it is a round in the sense of
`Lib.RoundRobin`, whatever the indices of the ring are.
-/

namespace Ninjastorms
namespace SchedulerRuns

open Scheduler Lib.Runs Lib.RoundRobin

/-- The running task, and those that wait, next one first. -/
def ready (s : State) : List TaskPtr :=
  s.currentTask :: queue s

/-- The number of ticks of the timer in a run. -/
def ticks (calls : List Call) : Nat :=
  calls.countP fun call => match call with
    | .schedule => true
    | _ => false

/-- One slot of the ring is left when the running task is put into it. -/
def FitsRing (sys : System) : Prop :=
  (ready sys.sched).length ≤ 15

instance : DecidablePred FitsRing := fun _ => inferInstanceAs (Decidable (_ ≤ _))

/-! ### What is promised -/

/-- The tasks take turns.  A tick makes the head of the queue current; a task
becomes current after as many ticks as its place in the queue says, whoever is
added meanwhile; and a full round of ticks runs every task once and ends where
it began. -/
structure TakesTurns (board : Board) (sys : System) : Prop where
  alone : queue sys.sched = [] →
    (schedule sys.sched).currentTask = sys.sched.currentTask ∧ queue (schedule sys.sched) = []
  head : ∀ task rest, queue sys.sched = task :: rest →
    (schedule sys.sched).currentTask = task ∧
    queue (schedule sys.sched) = rest ++ [sys.sched.currentTask]
  place : ∀ calls, EveryState (step board) FitsRing sys calls →
    ∀ k task, (queue sys.sched)[k]? = some task → ticks calls ≤ k + 1 →
      ((run (step board) sys calls).sched.currentTask = task ↔ ticks calls = k + 1)
  round : ((List.range (ready sys.sched).length).map fun k =>
      (run (step board) sys (List.replicate (k + 1) .schedule)).sched.currentTask).Perm
    (ready sys.sched)
  back : ready (run (step board) sys (List.replicate (ready sys.sched).length .schedule)).sched =
    ready sys.sched

/-! ### One call -/

section Step

variable {s : State} {sys : System} {board : Board}

theorem not_ringFull (h : (ready s).length ≤ 15) : ¬ RingFull s := by
  rw [ringFull_iff]
  rw [ready, List.length_cons] at h
  omega

/-- A tick turns the list by one place. -/
theorem ready_schedule (h : (ready s).length ≤ 15) : ready (schedule s) = (ready s).rotate 1 := by
  have hqueue := (schedule_spec s).2.2.2
  rw [if_neg (not_ringFull h)] at hqueue
  rw [ready, hqueue, ready, List.rotate_cons_succ, List.rotate_zero]

/-- `add_task` appends the new task, or leaves the list as it is. -/
theorem ready_addTask (board : Board) (h : (ready s).length ≤ 15) (cpsr entrypoint : Word) :
    ready (addTask board cpsr entrypoint s).2 = ready s ∨
    ∃ task, ready (addTask board cpsr entrypoint s).2 = ready s ++ [task] := by
  rcases addTask_cases board cpsr entrypoint s with
    ⟨-, hcall⟩ | ⟨-, -, hcall⟩ | ⟨-, hcount, -, -, -, hcurrent, -, hqueue⟩
  · left
    rw [hcall]
    rfl
  · left
    rw [hcall]
    rfl
  · right
    rw [if_neg (not_ringFull h)] at hqueue
    refine ⟨some ⟨s.taskCount, hcount⟩, ?_⟩
    rw [ready, hcurrent, hqueue, ready, List.cons_append]

theorem isRunning_step (call : Call) (hrun : sys.sched.isRunning = true) :
    (step board sys call).sched.isRunning = true := by
  cases call with
  | addTask entrypoint cpsr =>
      rcases addTask_cases board cpsr entrypoint sys.sched with
        ⟨-, hcall⟩ | ⟨-, -, hcall⟩ | ⟨-, -, -, -, hkept, -, -, -⟩
      · simp only [step, hcall]
        exact hrun
      · simp only [step, hcall]
        exact hrun
      · exact hkept.trans hrun
  | schedule => exact (schedule_spec sys.sched).2.1.trans hrun
  | startScheduler => simp only [step, startScheduler_of_running hrun, hrun]

end Step

/-! ### Runs -/

section Runs

variable {sys : System} {board : Board}

/-- Along a run of any calls the list turns as often as the timer ticks. -/
theorem turned_run {calls : List Call} (hrun : sys.sched.isRunning = true)
    (hfits : EveryState (step board) FitsRing sys calls) :
    Turned (ticks calls) (ready sys.sched) (ready (run (step board) sys calls).sched) := by
  induction calls generalizing sys with
  | nil => exact Turned.stop _
  | cons call calls ih =>
      have hrest := ih (isRunning_step call hrun) hfits.2
      have hnow : (ready sys.sched).length ≤ 15 := hfits.1
      cases call with
      | addTask entrypoint cpsr =>
          have hticks : ticks (.addTask entrypoint cpsr :: calls) = ticks calls :=
            List.countP_cons_of_neg Bool.false_ne_true
          rw [hticks, run_cons]
          rcases ready_addTask board hnow cpsr entrypoint with hsame | ⟨task, hjoin⟩
          · rw [← hsame]
            exact hrest
          · refine Turned.join task ?_
            rw [← hjoin]
            exact hrest
      | schedule =>
          have hticks : ticks (.schedule :: calls) = ticks calls + 1 := List.countP_cons_of_pos rfl
          rw [hticks, run_cons]
          refine Turned.tick ?_
          rw [← ready_schedule hnow]
          exact hrest
      | startScheduler =>
          have hticks : ticks (.startScheduler :: calls) = ticks calls :=
            List.countP_cons_of_neg Bool.false_ne_true
          have hsame : step board sys .startScheduler = sys := by
            rw [step, startScheduler_of_running hrun]
          rw [hsame] at hrest
          rw [hticks, run_cons, hsame]
          exact hrest

/-- Ticks alone turn the list and change nothing else about it. -/
theorem ready_ticks (board : Board) (h : FitsRing sys) (n : Nat) :
    ready (run (step board) sys (List.replicate n .schedule)).sched = (ready sys.sched).rotate n := by
  induction n generalizing sys with
  | zero => rw [List.rotate_zero, List.replicate_zero, run_nil]
  | succ n ih =>
      have hturn : ready (step board sys .schedule).sched = (ready sys.sched).rotate 1 :=
        ready_schedule h
      have hnext : FitsRing (step board sys .schedule) := by
        rw [FitsRing, hturn, List.length_rotate]
        exact h
      rw [List.replicate_succ, run_cons, ih hnext, hturn, List.rotate_rotate, Nat.add_comm]

theorem head?_ready (s : State) : (ready s).head? = some s.currentTask := rfl

/-- **Round robin.**  From any state of the running scheduler in which at most
15 different tasks run and wait, they take turns. -/
theorem round_robin (board : Board) (sys : System) (hrun : sys.sched.isRunning = true)
    (hfits : (ready sys.sched).length ≤ 15) (hdistinct : (ready sys.sched).Nodup) :
    TakesTurns board sys where
  alone := by
    intro hnil
    have hturn := ready_schedule hfits
    rw [ready, ready, hnil, List.rotate_singleton] at hturn
    exact List.cons.inj hturn
  head := by
    intro task rest hqueue
    have hturn := ready_schedule hfits
    rw [ready, ready, hqueue, List.rotate_cons_succ, List.rotate_zero, List.cons_append] at hturn
    exact List.cons.inj hturn
  place := by
    intro calls hall k task hplace hticks
    obtain ⟨hk, htask⟩ := List.getElem?_eq_some_iff.mp hplace
    have hlast : k + 1 < (ready sys.sched).length := Nat.succ_lt_succ hk
    have hnow : ticks calls < (ready sys.sched).length := Nat.lt_of_le_of_lt hticks hlast
    have hturned := (turned_run hrun hall).head?_eq hnow
    rw [head?_ready] at hturned
    have hget : (ready sys.sched)[k + 1] = task := htask
    rw [Option.some.inj hturned, ← hget]
    -- the tasks in front of it are other ones
    exact hdistinct.getElem_inj_iff
  round := by
    have hheads : ((List.range (ready sys.sched).length).map fun k =>
        (run (step board) sys (List.replicate (k + 1) .schedule)).sched.currentTask) =
          (ready sys.sched).rotate 1 := by
      apply List.map_injective_iff.mpr (Option.some_injective TaskPtr)
      rw [← heads_of_round, List.map_map]
      refine List.map_congr_left fun k _ => ?_
      rw [← ready_ticks board hfits, head?_ready]
      rfl
    rw [hheads]
    exact List.rotate_perm _ _
  back := by
    rw [ready_ticks board hfits, List.rotate_length]

/-- The boot with three tasks. -/
def threeTasks : List Call :=
  List.replicate 3 (.addTask 0x8000 CPSR_MODE_SVC) ++ [.startScheduler]

theorem threeTasks_take_turns :
    TakesTurns .versatilepb (run (step .versatilepb) initial threeTasks) :=
  round_robin .versatilepb (run (step .versatilepb) initial threeTasks) (by decide) (by decide)
    (by decide)

end Runs

end SchedulerRuns
end Ninjastorms
