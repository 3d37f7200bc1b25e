import Mathlib.Data.List.Infix
import Mathlib.Tactic.Common

/-!
# Runs of a step function over a list of actions

A component is a state, a set of actions and a total step function.  This
module says once how a property is carried along a run:

* `everyState_of_invariant` / `everyStep_of_invariant` — an invariant which
  every permitted step keeps holds in every state, and its consequences hold
  at every step;
* `everyState_iff_everyStep` / `everyStep_iff_everyStep` — the exact forms: if
  moreover the first step which is not permitted breaks the property, then the
  property holds along the run if and only if every step of it is permitted
  (`everyStep_iff_of_legal` for runs that keep to the rules of their own);
* `run_of_invariant` — the same for the state in which a run ends, and `run_hom`
  for what is seen of it;
* `run_history` — the invariant rule for a property of the state and of the
  actions that have led to it;
* `run_lastFixed` / `run_lastFixed_of_invariant` — the rules for a part of the
  state that is only ever overwritten;
* `run_measure` — the progress rule: how far the steps of one party bring it, and
  `run_worksOff` — how many of them let out of a queue what has come in;
* `length_le_of_decreasing` — the termination rule;
* `exists_foldlM` — the rule of a loop over a list in which a turn can fail.

`EveryState` and `EveryStep` are recursive along the run; the lemmas with
`reached` and `split` in their names read them at one position of it.
-/

namespace Ninjastorms
namespace Lib
namespace Runs

variable {S A : Type*} {step : S → A → S}

/-- The state in which a run of actions ends. -/
def run (step : S → A → S) (s : S) (acts : List A) : S :=
  acts.foldl step s

/-- `P` holds in every state of the run, the first and the last included. -/
def EveryState (step : S → A → S) (P : S → Prop) : S → List A → Prop
  | s, [] => P s
  | s, a :: acts => P s ∧ EveryState step P (step s a) acts

/-- `Q` holds of every step of the run: the state before it and its action. -/
def EveryStep (step : S → A → S) (Q : S → A → Prop) : S → List A → Prop
  | _, [] => True
  | s, a :: acts => Q s a ∧ EveryStep step Q (step s a) acts

instance decidableEveryState {P : S → Prop} [DecidablePred P] :
    (s : S) → (acts : List A) → Decidable (EveryState step P s acts)
  | s, [] => inferInstanceAs (Decidable (P s))
  | s, a :: acts =>
      have : Decidable (EveryState step P (step s a) acts) := decidableEveryState _ acts
      inferInstanceAs (Decidable (P s ∧ EveryState step P (step s a) acts))

instance decidableEveryStep {Q : S → A → Prop} [∀ s a, Decidable (Q s a)] :
    (s : S) → (acts : List A) → Decidable (EveryStep step Q s acts)
  | _, [] => inferInstanceAs (Decidable True)
  | s, a :: acts =>
      have : Decidable (EveryStep step Q (step s a) acts) := decidableEveryStep _ acts
      inferInstanceAs (Decidable (Q s a ∧ EveryStep step Q (step s a) acts))

@[simp] theorem run_nil (s : S) : run step s [] = s := rfl

@[simp] theorem run_cons (s : S) (a : A) (acts : List A) :
    run step s (a :: acts) = run step (step s a) acts := rfl

@[simp] theorem everyState_nil {P : S → Prop} (s : S) :
    EveryState step P s [] ↔ P s := Iff.rfl

@[simp] theorem everyState_cons {P : S → Prop} (s : S) (a : A) (acts : List A) :
    EveryState step P s (a :: acts) ↔ P s ∧ EveryState step P (step s a) acts := Iff.rfl

@[simp] theorem everyStep_nil {Q : S → A → Prop} (s : S) :
    EveryStep step Q s [] := trivial

@[simp] theorem everyStep_cons {Q : S → A → Prop} (s : S) (a : A) (acts : List A) :
    EveryStep step Q s (a :: acts) ↔ Q s a ∧ EveryStep step Q (step s a) acts := Iff.rfl

/-- The first state of a run is one of its states. -/
theorem EveryState.head {P : S → Prop} {s : S} {acts : List A}
    (h : EveryState step P s acts) : P s := by
  cases acts with
  | nil => exact h
  | cons a acts => exact h.1

/-- `EveryState` speaks of exactly the states reached by the prefixes of the run. -/
theorem everyState_iff_reached {P : S → Prop} {s : S} {acts : List A} :
    EveryState step P s acts ↔ ∀ pre, pre <+: acts → P (run step s pre) := by
  induction acts generalizing s with
  | nil => simp
  | cons a acts ih =>
      rw [everyState_cons, ih]
      constructor
      · rintro ⟨hs, hrest⟩ pre hpre
        cases pre with
        | nil => exact hs
        | cons b pre =>
            obtain ⟨rfl, htail⟩ := List.cons_prefix_cons.mp hpre
            exact hrest pre htail
      · intro h
        exact ⟨h [] List.nil_prefix, fun pre hpre =>
          h (a :: pre) (List.cons_prefix_cons.mpr ⟨rfl, hpre⟩)⟩

/-- `EveryStep` speaks of exactly the positions at which the run can be split. -/
theorem everyStep_iff_split {Q : S → A → Prop} {s : S} {acts : List A} :
    EveryStep step Q s acts ↔
      ∀ pre a post, acts = pre ++ a :: post → Q (run step s pre) a := by
  induction acts generalizing s with
  | nil => simp
  | cons b acts ih =>
      rw [everyStep_cons, ih]
      constructor
      · rintro ⟨hb, hrest⟩ pre a post hsplit
        cases pre with
        | nil =>
            obtain ⟨rfl, -⟩ := List.cons.inj hsplit
            exact hb
        | cons c pre =>
            obtain ⟨rfl, htail⟩ := List.cons.inj hsplit
            exact hrest pre a post htail
      · intro h
        refine ⟨h [] b acts rfl, fun pre a post hsplit => ?_⟩
        exact h (b :: pre) a post (by rw [hsplit]; rfl)

theorem EveryStep.and {Q Q' : S → A → Prop} {s : S} {acts : List A}
    (h : EveryStep step Q s acts) (h' : EveryStep step Q' s acts) :
    EveryStep step (fun s a => Q s a ∧ Q' s a) s acts := by
  induction acts generalizing s with
  | nil => trivial
  | cons a acts ih => exact ⟨⟨h.1, h'.1⟩, ih h.2 h'.2⟩

theorem EveryState.imp {P P' : S → Prop} (himp : ∀ s, P s → P' s) {s : S} {acts : List A}
    (h : EveryState step P s acts) : EveryState step P' s acts := by
  induction acts generalizing s with
  | nil => exact himp s h
  | cons a acts ih => exact ⟨himp s h.1, ih h.2⟩

/-- A property of the actions alone holds at every step as soon as it holds of
every action of the list. -/
theorem everyStep_of_forall_mem {Q : A → Prop} {s : S} {acts : List A}
    (h : ∀ a ∈ acts, Q a) : EveryStep step (fun _ a => Q a) s acts := by
  rw [everyStep_iff_split]
  rintro pre a post rfl
  exact h a (by simp)

/-- Where everything is permitted. -/
theorem everyStep_true (s : S) (acts : List A) : EveryStep step (fun _ _ => True) s acts :=
  everyStep_of_forall_mem fun _ _ => trivial

section Invariant

variable {Inv P : S → Prop} {Ok Q : S → A → Prop}

/-- **The invariant rule.**  What every permitted step keeps holds in every
state of a run of permitted steps. -/
theorem everyState_of_invariant (hkeep : ∀ s a, Inv s → Ok s a → Inv (step s a))
    {s : S} {acts : List A} (hs : Inv s) (hok : EveryStep step Ok s acts) :
    EveryState step Inv s acts := by
  induction acts generalizing s with
  | nil => exact hs
  | cons a acts ih => exact ⟨hs, ih (hkeep s a hs hok.1) hok.2⟩

/-- The invariant rule for the state in which a run ends, where it is the actions
alone that are permitted. -/
theorem run_of_invariant (Inv : S → Prop) (Ok : A → Prop)
    (hkeep : ∀ s a, Inv s → Ok a → Inv (step s a)) {s : S} {acts : List A} (hs : Inv s)
    (hok : ∀ a ∈ acts, Ok a) : Inv (run step s acts) := by
  induction acts generalizing s with
  | nil => exact hs
  | cons a acts ih =>
      have hfirst : Ok a := hok a List.mem_cons_self
      exact ih (hkeep s a hs hfirst) fun b hb => hok b (List.mem_cons_of_mem a hb)

/-- A run seen through a map that carries each step to a step. -/
theorem run_hom {T : Type*} {step' : T → A → T} (view : S → T)
    (hstep : ∀ s a, view (step s a) = step' (view s) a) (s : S) (acts : List A) :
    view (run step s acts) = run step' (view s) acts :=
  (List.foldl_hom view fun s a => (hstep s a).symm).symm

/-- **The step rule.**  Along a run of permitted steps, what the invariant
gives at one permitted step holds at every step. -/
theorem everyStep_of_invariant (hkeep : ∀ s a, Inv s → Ok s a → Inv (step s a))
    (hgives : ∀ s a, Inv s → Ok s a → Q s a)
    {s : S} {acts : List A} (hs : Inv s) (hok : EveryStep step Ok s acts) :
    EveryStep step Q s acts := by
  induction acts generalizing s with
  | nil => trivial
  | cons a acts ih => exact ⟨hgives s a hs hok.1, ih (hkeep s a hs hok.1) hok.2⟩

/-- **The exact state rule.**  If the invariant gives `P`, every permitted step
keeps the invariant and every other step leaves a state without `P`, then `P`
holds in every state of the run if and only if every step of it is permitted. -/
theorem everyState_iff_everyStep (hP : ∀ s, Inv s → P s)
    (hkeep : ∀ s a, Inv s → Ok s a → Inv (step s a))
    (hbreak : ∀ s a, Inv s → ¬ Ok s a → ¬ P (step s a))
    {s : S} {acts : List A} (hs : Inv s) :
    EveryState step P s acts ↔ EveryStep step Ok s acts := by
  induction acts generalizing s with
  | nil => simp [hP s hs]
  | cons a acts ih =>
      rw [everyState_cons, everyStep_cons]
      by_cases hok : Ok s a
      · simp only [hP s hs, hok, true_and]
        exact ih (hkeep s a hs hok)
      · constructor
        · rintro ⟨-, hrest⟩
          exact absurd hrest.head (hbreak s a hs hok)
        · rintro ⟨h, -⟩
          exact absurd h hok

/-- **The exact step rule.**  As `everyState_iff_everyStep`, for a property of
the steps, and among the runs whose steps are legal. -/
theorem everyStep_iff_of_legal {Legal : S → A → Prop}
    (hkeep : ∀ s a, Inv s → Legal s a → Ok s a → Inv (step s a))
    (hiff : ∀ s a, Inv s → Legal s a → (Q s a ↔ Ok s a))
    {s : S} {acts : List A} (hs : Inv s) (hlegal : EveryStep step Legal s acts) :
    EveryStep step Q s acts ↔ EveryStep step Ok s acts := by
  induction acts generalizing s with
  | nil => simp
  | cons a acts ih =>
      rw [everyStep_cons, everyStep_cons]
      obtain ⟨ha, hrest⟩ := hlegal
      constructor
      · rintro ⟨hq, hqs⟩
        have hok := (hiff s a hs ha).mp hq
        exact ⟨hok, (ih (hkeep s a hs ha hok) hrest).mp hqs⟩
      · rintro ⟨hok, hoks⟩
        exact ⟨(hiff s a hs ha).mpr hok, (ih (hkeep s a hs ha hok) hrest).mpr hoks⟩

/-- The exact step rule where every step is legal. -/
theorem everyStep_iff_everyStep
    (hkeep : ∀ s a, Inv s → Ok s a → Inv (step s a))
    (hiff : ∀ s a, Inv s → (Q s a ↔ Ok s a))
    {s : S} {acts : List A} (hs : Inv s) :
    EveryStep step Q s acts ↔ EveryStep step Ok s acts :=
  everyStep_iff_of_legal (fun s a h _ => hkeep s a h) (fun s a h _ => hiff s a h) hs
    (everyStep_true s acts)

end Invariant

/-- **The history rule.**  If every step keeps a relation between the state and
what has been learnt from the actions so far, the relation holds at the end of
every run. -/
theorem run_history {H : Type*} {learn : H → A → H} {R : H → S → Prop}
    (hkeep : ∀ hist s a, R hist s → R (learn hist a) (step s a))
    {hist : H} {s : S} (acts : List A) (hs : R hist s) :
    R (acts.foldl learn hist) (run step s acts) := by
  induction acts generalizing s hist with
  | nil => exact hs
  | cons a acts ih => exact ih (hkeep hist s a hs)

/-! ### Progress -/

/-- The number of steps of the run that are of the kind `own`. -/
def countSteps (step : S → A → S) (own : S → A → Prop) [∀ s a, Decidable (own s a)] :
    S → List A → Nat
  | _, [] => 0
  | s, a :: acts => (if own s a then 1 else 0) + countSteps step own (step s a) acts

/-- Where the kind is a matter of the actions alone, the actions are counted. -/
theorem countSteps_eq_countP (own : A → Bool) (s : S) (acts : List A) :
    countSteps step (fun _ a => own a = true) s acts = acts.countP own := by
  induction acts generalizing s with
  | nil => rfl
  | cons a acts ih => rw [countSteps, ih, List.countP_cons, Nat.add_comm]

section Progress

variable {Ok : S → A → Prop} (Inv : S → Prop) (own : S → A → Prop) [∀ s a, Decidable (own s a)]

/-- **The progress rule.**  If a step of one party brings a measure down by one,
as far as it goes, and no other step brings it up, then the measure says how
many steps of that party are still needed. -/
theorem run_measure (left : S → Nat) (hkeep : ∀ s a, Inv s → Ok s a → Inv (step s a))
    (hown : ∀ s a, Inv s → Ok s a → own s a → left (step s a) ≤ left s - 1)
    (hother : ∀ s a, Inv s → Ok s a → ¬ own s a → left (step s a) ≤ left s)
    {s : S} {acts : List A} (hs : Inv s) (hok : EveryStep step Ok s acts) :
    Inv (run step s acts) ∧ left (run step s acts) ≤ left s - countSteps step own s acts := by
  induction acts generalizing s with
  | nil => exact ⟨hs, Nat.le_refl _⟩
  | cons a acts ih =>
      obtain ⟨hinv, hleft⟩ := ih (hkeep s a hs hok.1) hok.2
      refine ⟨hinv, hleft.trans ?_⟩
      rw [countSteps]
      by_cases ha : own s a
      · have hstep := hown s a hs hok.1 ha
        rw [if_pos ha]
        omega
      · have hstep := hother s a hs hok.1 ha
        rw [if_neg ha]
        omega

/-- **The rule of a queue that is worked off.**  What goes out is a beginning of what
has come in.  If a measure goes down with every step of one party, and up with no step,
as long as fewer than `n` elements have gone out, then more steps of that party than
the measure says let all those out that have come in so far, whatever comes in meanwhile. -/
theorem run_worksOff {B : Type*} (came gone : S → List B) (left : Nat → S → Nat)
    (hkeep : ∀ s a, Inv s → Ok s a → Inv (step s a))
    (hbegins : ∀ s, Inv s → gone s <+: came s)
    (hcame : ∀ s a, Inv s → Ok s a → came s <+: came (step s a))
    (hgone : ∀ s a, Inv s → Ok s a → (gone s).length ≤ (gone (step s a)).length)
    (hown : ∀ n s a, Inv s → Ok s a → own s a → (gone s).length < n → n ≤ (came s).length →
      left n (step s a) < left n s)
    (hother : ∀ n s a, Inv s → Ok s a → ¬ own s a → (gone s).length < n → n ≤ (came s).length →
      left n (step s a) ≤ left n s)
    {s : S} {acts : List A} (hs : Inv s) (hok : EveryStep step Ok s acts)
    (henough : left (came s).length s < countSteps step own s acts) :
    came s <+: gone (run step s acts) := by
  let n := (came s).length
  let togo : S → Nat := fun s' => if n ≤ (gone s').length then 0 else left n s' + 1
  have hstep : ∀ s' a, Inv s' ∧ came s <+: came s' → Ok s' a →
      togo (step s' a) ≤ if own s' a then togo s' - 1 else togo s' := by
    rintro s' a ⟨h, hlater⟩ hok
    have hmore := hgone s' a h hok
    by_cases hdone : n ≤ (gone (step s' a)).length
    · simp only [togo, if_pos hdone]
      exact Nat.zero_le _
    · have hyet : (gone s').length < n := by omega
      simp only [togo, if_neg hdone, if_neg (Nat.not_le_of_lt hyet)]
      split
      · rename_i hmine
        have hless := hown n s' a h hok hmine hyet hlater.length_le
        omega
      · rename_i hnot
        have hle := hother n s' a h hok hnot hyet hlater.length_le
        omega
  obtain ⟨⟨hinv, hlater⟩, hleft⟩ := run_measure (fun s' => Inv s' ∧ came s <+: came s') own togo
    (fun s' a h hok => ⟨hkeep s' a h.1 hok, h.2.trans (hcame s' a h.1 hok)⟩)
    (fun s' a h hok hmine => by simpa only [if_pos hmine] using hstep s' a h hok)
    (fun s' a h hok hnot => by simpa only [if_neg hnot] using hstep s' a h hok)
    ⟨hs, List.prefix_refl _⟩ hok
  have hall : n ≤ (gone (run step s acts)).length := by
    by_contra hnot
    have hfirst : togo s ≤ left n s + 1 := by
      simp only [togo]
      split <;> omega
    have hend : togo (run step s acts) = left n (run step s acts) + 1 := if_neg hnot
    have hbound : left n s < countSteps step own s acts := henough
    omega
  exact List.prefix_of_prefix_length_le hlater (hbegins _ hinv) hall

end Progress

/-- **The termination rule.**  Where every step brings a measure down, it bounds
the length of every run. -/
theorem length_le_of_decreasing {Inv : S → Prop} {Ok : S → A → Prop} (left : S → Nat)
    (hkeep : ∀ s a, Inv s → Ok s a → Inv (step s a))
    (hless : ∀ s a, Inv s → Ok s a → left (step s a) < left s)
    {s : S} {acts : List A} (hs : Inv s) (hok : EveryStep step Ok s acts) :
    left (run step s acts) + acts.length ≤ left s := by
  induction acts generalizing s with
  | nil => exact Nat.le_refl _
  | cons a acts ih =>
      have hrest := ih (hkeep s a hs hok.1) hok.2
      have hstep := hless s a hs hok.1
      rw [run_cons, List.length_cons]
      omega

/-- Then there is a run that cannot go on. -/
theorem exists_maximal_run {Inv : S → Prop} {Ok : S → A → Prop} (left : S → Nat)
    (hkeep : ∀ s a, Inv s → Ok s a → Inv (step s a))
    (hless : ∀ s a, Inv s → Ok s a → left (step s a) < left s) {s : S} (hs : Inv s) :
    ∃ acts, EveryStep step Ok s acts ∧ ∀ a, ¬ Ok (run step s acts) a := by
  induction hleft : left s using Nat.strongRecOn generalizing s with
  | ind n ih =>
      by_cases hstuck : ∀ a, ¬ Ok s a
      · exact ⟨[], trivial, hstuck⟩
      · push Not at hstuck
        obtain ⟨a, ha⟩ := hstuck
        obtain ⟨acts, hok, hend⟩ := ih _ (hleft ▸ hless s a hs ha) (hkeep s a hs ha) rfl
        exact ⟨a :: acts, ⟨ha, hok⟩, hend⟩

/-! ### Last writes -/

/-- What the last action that fixes a value has fixed it to. -/
def lastFixed {V : Type*} (fixes : A → Option V) (acts : List A) : Option V :=
  acts.reverse.findSome? fixes

theorem lastFixed_cons {V : Type*} (fixes : A → Option V) (a : A) (acts : List A) :
    lastFixed fixes (a :: acts) = (lastFixed fixes acts).or (fixes a) := by
  simp only [lastFixed, List.reverse_cons, List.findSome?_append, List.findSome?_singleton]

/-- **The last-write rule.**  A part of the state that only the actions of one
owner touch, and that each of them fixes or leaves as it is, holds after a run
what the last one that fixes it has fixed it to. -/
theorem run_lastFixed {V K : Type*} [DecidableEq K] (part : S → V) (fixes : A → Option V)
    {owner : A → K} {k : K}
    (hstep : ∀ s a, part (step s a) = if k = owner a then (fixes a).getD (part s) else part s)
    (s : S) (acts : List A) :
    part (run step s acts) =
      (lastFixed fixes (acts.filter fun a => k = owner a)).getD (part s) := by
  induction acts generalizing s with
  | nil => rfl
  | cons a acts ih =>
      rw [run_cons, ih, hstep]
      by_cases hk : k = owner a
      · rw [if_pos hk, List.filter_cons_of_pos (by simpa using hk), lastFixed_cons]
        cases lastFixed fixes (acts.filter fun a => k = owner a) <;> rfl
      · rw [if_neg hk, List.filter_cons_of_neg (by simpa using hk)]

/-- The last-write rule for one owner, in runs of permitted steps. -/
theorem run_lastFixed_of_invariant {V : Type*} {Inv : S → Prop} {Ok : S → A → Prop}
    (part : S → V) (fixes : A → Option V)
    (hkeep : ∀ s a, Inv s → Ok s a → Inv (step s a))
    (hstep : ∀ s a, Inv s → Ok s a → part (step s a) = (fixes a).getD (part s))
    {s : S} {acts : List A} (hs : Inv s) (hok : EveryStep step Ok s acts) :
    part (run step s acts) = (lastFixed fixes acts).getD (part s) := by
  induction acts generalizing s with
  | nil => rfl
  | cons a acts ih =>
      rw [run_cons, ih (hkeep s a hs hok.1) hok.2, hstep s a hs hok.1, lastFixed_cons]
      cases lastFixed fixes acts <;> rfl

/-! ### Loops that can fail -/

/-- **The rule of a loop over a list.**  The invariant speaks of the elements that
are done; if every turn succeeds from it, the loop does. -/
theorem exists_foldlM (Inv : List A → S → Prop) {turn : S → A → Option S} {all : List A}
    (hturn : ∀ done a rest, all = done ++ a :: rest → ∀ s, Inv done s →
      ∃ s', turn s a = some s' ∧ Inv (done ++ [a]) s')
    {s : S} (hs : Inv [] s) : ∃ s', all.foldlM turn s = some s' ∧ Inv all s' := by
  suffices hrest : ∀ rest done : List A, all = done ++ rest → ∀ s, Inv done s →
      ∃ s', rest.foldlM turn s = some s' ∧ Inv all s' from hrest all [] rfl s hs
  intro rest
  induction rest with
  | nil =>
      intro done hall s hdone
      rw [List.append_nil] at hall
      subst hall
      exact ⟨s, rfl, hdone⟩
  | cons a rest ih =>
      intro done hall s hdone
      obtain ⟨s', hs', hinv⟩ := hturn done a rest hall s hdone
      obtain ⟨last, hlast, hall'⟩ := ih (done ++ [a]) (by simp [hall]) s' hinv
      refine ⟨last, ?_, hall'⟩
      rw [List.foldlM_cons, hs']
      exact hlast

end Runs
end Lib
end Ninjastorms
