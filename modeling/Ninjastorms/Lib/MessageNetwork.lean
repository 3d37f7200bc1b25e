import Ninjastorms.Lib.Runs
import Mathlib.Logic.Function.Basic

/-!
# Parties that exchange messages

Each party has a state of its own; it acts by itself or receives a message, and
sends any number of messages.  A message that has been sent is never forgotten:
the network may deliver it to anyone, late, out of order, more than once or not at
all.

* `everyState_of_parties` — the invariant rule: what each party keeps by itself,
  given that the messages it receives are good, and sends only good messages, holds
  of all parties and all messages in every state;
* `party_run` — so for a property of one party, behind any state;
* `sent_run` — a message stays where it is.
-/

namespace Ninjastorms
namespace Lib
namespace MessageNetwork

open Lib.Runs

variable {ι S A D M : Type*}

/-- What a party does by itself, and with a message that arrives; `D` is what
else there is to say about the arrival. -/
structure Party (S A D M : Type*) where
  act : S → A → S × List M
  receive : S → D → M → S × List M

/-- The states of the parties, and the messages that have been sent. -/
structure World (ι S M : Type*) where
  states : ι → S
  sent : List M

inductive Event (ι A D : Type*)
  | act (i : ι) (a : A)
  | deliver (i : ι) (k : Nat) (d : D)

variable [DecidableEq ι]

/-- The party `i` has gone to another state and sent messages. -/
def World.put (w : World ι S M) (i : ι) (done : S × List M) : World ι S M where
  states := Function.update w.states i done.1
  sent := w.sent ++ done.2

/-- One event; `deliver` takes the message with the number `k`. -/
def step (parties : ι → Party S A D M) (w : World ι S M) : Event ι A D → World ι S M
  | .act i a => w.put i ((parties i).act (w.states i) a)
  | .deliver i k d =>
      match w.sent[k]? with
      | some m => w.put i ((parties i).receive (w.states i) d m)
      | none => w

@[simp] theorem put_states_self (w : World ι S M) (i : ι) (done : S × List M) :
    (w.put i done).states i = done.1 :=
  Function.update_self _ _ _

theorem put_states_other {i j : ι} (h : j ≠ i) (w : World ι S M) (done : S × List M) :
    (w.put i done).states j = w.states j :=
  Function.update_of_ne h _ _

@[simp] theorem put_sent (w : World ι S M) (i : ι) (done : S × List M) :
    (w.put i done).sent = w.sent ++ done.2 := rfl

variable {parties : ι → Party S A D M}

theorem step_deliver {w : World ι S M} {k : Nat} {m : M} (h : w.sent[k]? = some m) (i : ι) (d : D) :
    step parties w (.deliver i k d) = w.put i ((parties i).receive (w.states i) d m) := by
  simp only [step, h]

theorem step_undelivered {w : World ι S M} {k : Nat} (h : w.sent[k]? = none) (i : ι) (d : D) :
    step parties w (.deliver i k d) = w := by
  simp only [step, h]

/-! ### Messages -/

/-- Messages are only added. -/
theorem sent_step (w : World ι S M) (e : Event ι A D) : w.sent <+: (step parties w e).sent := by
  cases e with
  | act i a => exact List.prefix_append _ _
  | deliver i k d =>
      cases hfound : w.sent[k]? with
      | none => rw [step_undelivered hfound]
      | some m =>
          rw [step_deliver hfound]
          exact List.prefix_append _ _

theorem sent_run (w : World ι S M) (events : List (Event ι A D)) :
    w.sent <+: (run (step parties) w events).sent := by
  induction events generalizing w with
  | nil => exact List.prefix_refl _
  | cons e events ih => exact (sent_step w e).trans (ih _)

/-- The message with the number `k` stays the same. -/
theorem getElem?_sent_run {w : World ι S M} {k : Nat} {m : M} (h : w.sent[k]? = some m)
    (events : List (Event ι A D)) : (run (step parties) w events).sent[k]? = some m := by
  have hprefix : w.sent <+: (run (step parties) w events).sent := sent_run w events
  obtain ⟨later, hlater⟩ := hprefix
  rw [← hlater, List.getElem?_append_left (List.getElem?_eq_some_iff.mp h).1, h]

/-- A message that is sent by itself takes the next number. -/
theorem sent_of_act {w : World ι S M} {i : ι} {a : A} {m : M}
    (h : ((parties i).act (w.states i) a).2 = [m]) :
    (step parties w (.act i a)).sent[w.sent.length]? = some m := by
  rw [step, put_sent, h, List.getElem?_concat_length]

/-- So does the answer to a message. -/
theorem sent_of_receive {w : World ι S M} {i : ι} {k : Nat} {d : D} {m answer : M}
    (hfound : w.sent[k]? = some m) (h : ((parties i).receive (w.states i) d m).2 = [answer]) :
    (step parties w (.deliver i k d)).sent[w.sent.length]? = some answer := by
  rw [step_deliver hfound, put_sent, h, List.getElem?_concat_length]

/-! ### Invariants -/

/-- What every party does is good as long as what it receives is. -/
structure Keeps (parties : ι → Party S A D M) (Ok : ι → A → Prop) (Inv : ι → S → Prop)
    (Good : M → Prop) : Prop where
  act : ∀ i s a, Inv i s → Ok i a →
    Inv i ((parties i).act s a).1 ∧ ∀ m ∈ ((parties i).act s a).2, Good m
  receive : ∀ i s d m, Inv i s → Good m →
    Inv i ((parties i).receive s d m).1 ∧ ∀ m' ∈ ((parties i).receive s d m).2, Good m'

/-- All parties keep the invariant, and all messages are good. -/
def Sound (Inv : ι → S → Prop) (Good : M → Prop) (w : World ι S M) : Prop :=
  (∀ i, Inv i (w.states i)) ∧ ∀ m ∈ w.sent, Good m

/-- What the parties do by themselves is permitted. -/
def EventOk (Ok : ι → A → Prop) : Event ι A D → Prop
  | .act i a => Ok i a
  | .deliver _ _ _ => True

instance {Ok : ι → A → Prop} [∀ i a, Decidable (Ok i a)] :
    DecidablePred (EventOk Ok : Event ι A D → Prop)
  | .act i a => inferInstanceAs (Decidable (Ok i a))
  | .deliver _ _ _ => isTrue trivial

variable {Ok : ι → A → Prop} {Inv : ι → S → Prop} {Good : M → Prop}

/-- A party has done something good. -/
theorem Sound.put {w : World ι S M} (h : Sound Inv Good w) {i : ι} {done : S × List M}
    (hdone : Inv i done.1 ∧ ∀ m ∈ done.2, Good m) : Sound Inv Good (w.put i done) := by
  obtain ⟨hs, hout⟩ := hdone
  refine ⟨fun j => ?_, fun m hm => ?_⟩
  · by_cases hj : j = i
    · subst hj
      rw [put_states_self]
      exact hs
    · rw [put_states_other hj]
      exact h.1 j
  · rcases List.mem_append.mp hm with hold | hnew
    · exact h.2 m hold
    · exact hout m hnew

theorem Keeps.step (hkeeps : Keeps parties Ok Inv Good) {w : World ι S M} (h : Sound Inv Good w)
    {e : Event ι A D} (he : EventOk Ok e) : Sound Inv Good (step parties w e) := by
  cases e with
  | act i a => exact h.put (hkeeps.act i _ a (h.1 i) he)
  | deliver i k d =>
      cases hfound : w.sent[k]? with
      | none =>
          rw [step_undelivered hfound]
          exact h
      | some m =>
          rw [step_deliver hfound]
          exact h.put (hkeeps.receive i _ d m (h.1 i) (h.2 m (List.mem_of_getElem? hfound)))

/-- **The invariant rule for parties.** -/
theorem everyState_of_parties (hkeeps : Keeps parties Ok Inv Good) {w : World ι S M}
    (h : Sound Inv Good w) {events : List (Event ι A D)} (hok : ∀ e ∈ events, EventOk Ok e) :
    EveryState (step parties) (Sound Inv Good) w events :=
  have hpermitted : EveryStep (step parties) (fun _ e => EventOk Ok e) w events :=
    everyStep_of_forall_mem hok
  everyState_of_invariant (fun _ _ hw he => hkeeps.step hw he) h hpermitted

/-- So in the state in which a run ends. -/
theorem sound_run (hkeeps : Keeps parties Ok Inv Good) {w : World ι S M} (h : Sound Inv Good w)
    {events : List (Event ι A D)} (hok : ∀ e ∈ events, EventOk Ok e) :
    Sound Inv Good (run (step parties) w events) :=
  run_of_invariant (Sound Inv Good) (EventOk Ok) (fun _ _ hw he => hkeeps.step hw he) h hok

/-- **One party alone.**  What the party `i` keeps, given the invariant and good
messages, it has behind any run. -/
theorem party_run (hkeeps : Keeps parties Ok Inv Good) {i : ι} {P : S → Prop}
    (hact : ∀ s a, Inv i s → Ok i a → P s → P ((parties i).act s a).1)
    (hreceive : ∀ s d m, Inv i s → Good m → P s → P ((parties i).receive s d m).1)
    {w : World ι S M} (h : Sound Inv Good w) (hP : P (w.states i)) {events : List (Event ι A D)}
    (hok : ∀ e ∈ events, EventOk Ok e) : P ((run (step parties) w events).states i) := by
  -- the property of the one party becomes a part of the invariant
  have hboth : Keeps parties Ok (fun j s => Inv j s ∧ (j = i → P s)) Good := by
    refine ⟨fun j s a hs ha => ?_, fun j s d m hs hm => ?_⟩
    · obtain ⟨hkept, hout⟩ := hkeeps.act j s a hs.1 ha
      refine ⟨⟨hkept, ?_⟩, hout⟩
      rintro rfl
      exact hact s a hs.1 ha (hs.2 rfl)
    · obtain ⟨hkept, hout⟩ := hkeeps.receive j s d m hs.1 hm
      refine ⟨⟨hkept, ?_⟩, hout⟩
      rintro rfl
      exact hreceive s d m hs.1 hm (hs.2 rfl)
  have hstart : Sound (fun j s => Inv j s ∧ (j = i → P s)) Good w :=
    ⟨fun j => ⟨h.1 j, fun hj => hj ▸ hP⟩, h.2⟩
  exact ((sound_run hboth hstart hok).1 i).2 rfl

end MessageNetwork
end Lib
end Ninjastorms
