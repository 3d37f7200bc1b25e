import Ninjastorms.Lib.Runs

/-!
# Refinement between two levels of a design

Two step functions: one of the code, and one of a machine that says what the
code is for.  A `Refinement` maps each state of the code to a state of the
machine, and each step of the code to the steps of the machine that it stands
for; there may be none (the step is internal) or several.

* `trace` — the run of the machine that a run of the code stands for;
* `Refinement.run_abs` / `Refinement.permitted_trace` — it ends in the state
  that the code's state stands for, and every step of it is permitted;
* `Refinement.everyState_trace` — what holds of all states of the code's run, and
  speaks of the machine's state only, holds of all states of the machine's run;
* `Refinement.comp` — refinements compose;
* `log_run` — a log that the code keeps lists what is seen of the machine's run.
-/

namespace Ninjastorms
namespace Lib
namespace Simulation

open Lib.Runs

variable {S A T B : Type*}

section Append

variable {step : S → A → S}

theorem run_append (s : S) (acts acts' : List A) :
    run step s (acts ++ acts') = run step (run step s acts) acts' :=
  List.foldl_append

/-- A run in which each item of a list stands for several actions. -/
theorem run_flatMap {I : Type*} (actions : I → List A) (s : S) (items : List I) :
    run step s (items.flatMap actions) = items.foldl (fun s i => run step s (actions i)) s :=
  List.foldl_flatMap

theorem everyStep_append {Q : S → A → Prop} {s : S} {acts acts' : List A} :
    EveryStep step Q s (acts ++ acts') ↔
      EveryStep step Q s acts ∧ EveryStep step Q (run step s acts) acts' := by
  induction acts generalizing s with
  | nil => simp
  | cons a acts ih => rw [List.cons_append, everyStep_cons, everyStep_cons, ih, run_cons, and_assoc]

end Append

/-- The steps of the machine that the steps of a run stand for, in their order. -/
def trace (step : S → A → S) (shows : S → A → List B) : S → List A → List B
  | _, [] => []
  | s, a :: acts => shows s a ++ trace step shows (step s a) acts

@[simp] theorem trace_nil (step : S → A → S) (shows : S → A → List B) (s : S) :
    trace step shows s [] = [] := rfl

@[simp] theorem trace_cons (step : S → A → S) (shows : S → A → List B) (s : S) (a : A)
    (acts : List A) :
    trace step shows s (a :: acts) = shows s a ++ trace step shows (step s a) acts := rfl

/-- What is seen of the steps of the machine, where the steps of the code tell it. -/
theorem filterMap_trace {O : Type*} {step : S → A → S} {shows : S → A → List B}
    {seen : B → Option O} {told : A → Option O}
    (h : ∀ s a, (shows s a).filterMap seen = (told a).toList) (s : S) (acts : List A) :
    (trace step shows s acts).filterMap seen = acts.filterMap told := by
  induction acts generalizing s with
  | nil => rfl
  | cons a acts ih =>
      rw [trace_cons, List.filterMap_append, h, ih, List.filterMap_cons]
      cases told a <;> rfl

theorem length_trace_le {step : S → A → S} {shows : S → A → List B}
    (h : ∀ s a, (shows s a).length ≤ 1) (s : S) (acts : List A) :
    (trace step shows s acts).length ≤ acts.length := by
  induction acts generalizing s with
  | nil => exact Nat.le_refl _
  | cons a acts ih =>
      have hhead := h s a
      have htail := ih (step s a)
      rw [trace_cons, List.length_append, List.length_cons]
      omega

/-- Under the invariant, a step of the code that is `Ok` stands for steps of the
machine, all of them permitted. -/
structure Refinement (step : S → A → S) (Ok : S → A → Prop) (spec : T → B → T)
    (Permitted : T → B → Prop) where
  Inv : S → Prop
  abs : S → T
  shows : S → A → List B
  keeps : ∀ s a, Inv s → Ok s a → Inv (step s a)
  refines : ∀ s a, Inv s → Ok s a → abs (step s a) = run spec (abs s) (shows s a)
  permitted : ∀ s a, Inv s → Ok s a → EveryStep spec Permitted (abs s) (shows s a)

namespace Refinement

variable {step : S → A → S} {Ok : S → A → Prop} {spec : T → B → T} {Permitted : T → B → Prop}
variable (R : Refinement step Ok spec Permitted) {s : S} {acts : List A}

theorem inv_run (hs : R.Inv s) (hok : EveryStep step Ok s acts) : R.Inv (run step s acts) := by
  induction acts generalizing s with
  | nil => exact hs
  | cons a acts ih => exact ih (R.keeps s a hs hok.1) hok.2

/-- **Runs refine runs.** -/
theorem run_abs (hs : R.Inv s) (hok : EveryStep step Ok s acts) :
    R.abs (run step s acts) = run spec (R.abs s) (trace step R.shows s acts) := by
  induction acts generalizing s with
  | nil => rfl
  | cons a acts ih =>
      rw [run_cons, ih (R.keeps s a hs hok.1) hok.2, R.refines s a hs hok.1, trace_cons,
        run_append]

theorem permitted_trace (hs : R.Inv s) (hok : EveryStep step Ok s acts) :
    EveryStep spec Permitted (R.abs s) (trace step R.shows s acts) := by
  induction acts generalizing s with
  | nil => trivial
  | cons a acts ih =>
      rw [trace_cons, everyStep_append, ← R.refines s a hs hok.1]
      exact ⟨R.permitted s a hs hok.1, ih (R.keeps s a hs hok.1) hok.2⟩

/-- Where no step stands for more than one, the machine has no states of its own. -/
theorem everyState_trace (hone : ∀ s a, (R.shows s a).length ≤ 1) {P : T → Prop} (hs : R.Inv s)
    (hok : EveryStep step Ok s acts) (h : EveryState step (fun s => P (R.abs s)) s acts) :
    EveryState spec P (R.abs s) (trace step R.shows s acts) := by
  induction acts generalizing s with
  | nil => exact h
  | cons a acts ih =>
      have hrest := ih (R.keeps s a hs hok.1) hok.2 h.2
      rw [R.refines s a hs hok.1] at hrest
      have hlen := hone s a
      rw [trace_cons]
      cases hshows : R.shows s a with
      | nil =>
          rw [hshows] at hrest
          exact hrest
      | cons b rest =>
          rw [hshows, List.length_cons] at hlen
          obtain rfl : rest = [] := List.eq_nil_of_length_eq_zero (by omega)
          rw [hshows] at hrest
          exact ⟨h.1, hrest⟩

variable {U C : Type*} {spec' : U → C → U} {Permitted' : U → C → Prop}

/-- **Refinements compose.** -/
def comp (R' : Refinement spec Permitted spec' Permitted') :
    Refinement step Ok spec' Permitted' where
  Inv s := R.Inv s ∧ R'.Inv (R.abs s)
  abs s := R'.abs (R.abs s)
  shows s a := trace spec R'.shows (R.abs s) (R.shows s a)
  keeps s a hs hok := by
    refine ⟨R.keeps s a hs.1 hok, ?_⟩
    rw [R.refines s a hs.1 hok]
    exact R'.inv_run hs.2 (R.permitted s a hs.1 hok)
  refines s a hs hok := by
    rw [R.refines s a hs.1 hok]
    exact R'.run_abs hs.2 (R.permitted s a hs.1 hok)
  permitted s a hs hok := R'.permitted_trace hs.2 (R.permitted s a hs.1 hok)

end Refinement

/-- **The log rule.**  Where each step adds to a log what is seen of the steps it
stands for, a run adds what is seen of its trace. -/
theorem log_run {O : Type*} {step : S → A → S} {Ok : S → A → Prop}
    (Inv : S → Prop) {shows : S → A → List B} (seen : B → Option O) (log : S → List O)
    (hkeep : ∀ s a, Inv s → Ok s a → Inv (step s a))
    (hlog : ∀ s a, Inv s → Ok s a → log (step s a) = log s ++ (shows s a).filterMap seen)
    {s : S} {acts : List A} (hs : Inv s) (hok : EveryStep step Ok s acts) :
    log (run step s acts) = log s ++ (trace step shows s acts).filterMap seen := by
  induction acts generalizing s with
  | nil => simp
  | cons a acts ih =>
      rw [run_cons, ih (hkeep s a hs hok.1) hok.2, hlog s a hs hok.1, trace_cons,
        List.filterMap_append, List.append_assoc]

end Simulation
end Lib
end Ninjastorms
