import Ninjastorms.Lib.Simulation
import Ninjastorms.Network.ArpRuns
import Ninjastorms.Network.PacketQueue

/-!
# What the receive path is for

Two machines that know nothing of descriptors, slots, indices and registers.

* An `Inbox` is one list of packets.  They arrive at its end and are worked on
  from its front; one may be lost, but only from behind the first 127.
* `Stages` has the list in three parts: on the card, in the queue of the network
  task, and in work.  It says how long each of them can get.

Every run of `Stages` is a run of an `Inbox` (`stagesRefinement`), and
`processed_sublist`, `length_arrived`, `processed_eq` and `sent_eq` say what all
runs of an `Inbox` have in common.
-/

namespace Ninjastorms
namespace Network

open Lib.Runs Lib.Simulation

/-- The packets that wait, oldest first; the cache; the frames that were sent. -/
structure Inbox where
  pending : List Packet
  cache : Cache
  sent : List Frame

/-- A packet arrives; the one at some place is lost; the network task works on
the first one, which lies in the slot `raw`; the clock moves on. -/
inductive InboxAction where
  | arrive (p : Packet)
  | lose (place : Nat)
  | work (raw : RawPacket) (left : Leftover)
  | tick (clock : DoubleWord)

/-- The cache and the frames after `start_pdu_encapsulation`. -/
def workOn (host : Host) (raw : RawPacket) (left : Leftover) (cache : Cache) :
    Cache × List Frame :=
  let result := startPduEncapsulation host cache.clock left raw cache.arpTable
  ({ cache with arpTable := result.1 }, result.2)

def inboxStep (host : Host) (t : Inbox) : InboxAction → Inbox
  | .arrive p => { t with pending := t.pending ++ [p] }
  | .lose place => { t with pending := t.pending.eraseIdx place }
  | .work raw left =>
      { pending := t.pending.tail
        cache := (workOn host raw left t.cache).1
        sent := t.sent ++ (workOn host raw left t.cache).2 }
  | .tick clock => { t with cache := cacheStep host t.cache (.tick clock) }

/-- What is lost lies behind 127 others; what is worked on is the first packet. -/
def InboxPermitted (t : Inbox) : InboxAction → Prop
  | .arrive _ => True
  | .lose place => 127 ≤ place ∧ place < t.pending.length
  | .work raw _ => t.pending.head? = some raw.packet
  | .tick _ => True

def InboxAction.arrived : InboxAction → Option Packet
  | .arrive p => some p
  | _ => none

def InboxAction.worked : InboxAction → Option Packet
  | .work raw _ => some raw.packet
  | _ => none

/-- The place from which a packet is lost. -/
def InboxAction.lost : InboxAction → Option Nat
  | .lose place => some place
  | _ => none

/-! ### What all runs have in common -/

section Runs

variable {host : Host} {t : Inbox} {acts : List InboxAction}

/-- What is worked on is the front of what waits. -/
theorem pending_of_head {raw : RawPacket} (h : t.pending.head? = some raw.packet) :
    t.pending = raw.packet :: t.pending.tail := by
  cases hpending : t.pending with
  | nil => simp [hpending] at h
  | cons p rest =>
      rw [hpending, List.head?_cons] at h
      rw [Option.some.inj h, List.tail_cons]

/-- **Each packet is worked on at most once, in the order of arrival.** -/
theorem processed_sublist (h : EveryStep (inboxStep host) InboxPermitted t acts) :
    (acts.filterMap InboxAction.worked ++ (run (inboxStep host) t acts).pending).Sublist
      (t.pending ++ acts.filterMap InboxAction.arrived) := by
  induction acts generalizing t with
  | nil => simp
  | cons a acts ih =>
      have hrest := ih h.2
      cases a with
      | arrive p =>
          show List.Sublist _ (t.pending ++ p :: acts.filterMap InboxAction.arrived)
          rw [List.append_cons]
          exact hrest
      | lose place =>
          exact hrest.trans ((List.eraseIdx_sublist t.pending place).append_right _)
      | work raw left =>
          rw [pending_of_head h.1]
          exact hrest.cons_cons raw.packet
      | tick clock => exact hrest

/-- **Only the packets that are lost are not worked on.** -/
theorem length_arrived (h : EveryStep (inboxStep host) InboxPermitted t acts) :
    t.pending.length + (acts.filterMap InboxAction.arrived).length =
      (acts.filterMap InboxAction.worked).length + (acts.filterMap InboxAction.lost).length +
        (run (inboxStep host) t acts).pending.length := by
  induction acts generalizing t with
  | nil => simp
  | cons a acts ih =>
      have hrest := ih h.2
      cases a with
      | arrive p =>
          simp only [inboxStep, List.length_append, List.length_singleton] at hrest
          simp only [List.filterMap_cons, InboxAction.arrived, InboxAction.worked,
            InboxAction.lost, List.length_cons, run_cons, inboxStep]
          omega
      | lose place =>
          have hlost : (t.pending.eraseIdx place).length = t.pending.length - 1 :=
            List.length_eraseIdx_of_lt h.1.2
          have hpos : place < t.pending.length := h.1.2
          simp only [inboxStep, hlost] at hrest
          simp only [List.filterMap_cons, InboxAction.arrived, InboxAction.worked,
            InboxAction.lost, List.length_cons, run_cons, inboxStep]
          omega
      | work raw left =>
          have hpending := congrArg List.length (pending_of_head h.1)
          rw [List.length_cons] at hpending
          simp only [inboxStep] at hrest
          simp only [List.filterMap_cons, InboxAction.arrived, InboxAction.worked,
            InboxAction.lost, List.length_cons, run_cons, inboxStep]
          omega
      | tick clock => exact hrest

/-- **Nothing is lost** of a list that never gets longer than 127. -/
theorem processed_eq (h : EveryStep (inboxStep host) InboxPermitted t acts)
    (hshort : EveryState (inboxStep host) (fun t => t.pending.length ≤ 127) t acts) :
    acts.filterMap InboxAction.worked ++ (run (inboxStep host) t acts).pending =
      t.pending ++ acts.filterMap InboxAction.arrived := by
  have hlost : acts.filterMap InboxAction.lost = [] := by
    induction acts generalizing t with
    | nil => rfl
    | cons a acts ih =>
        have hrest := ih h.2 hshort.2
        cases a with
        | lose place =>
            have hplace : 127 ≤ place ∧ place < t.pending.length := h.1
            have hle : t.pending.length ≤ 127 := hshort.1
            omega
        | arrive p => exact hrest
        | work raw left => exact hrest
        | tick clock => exact hrest
  have hlength := length_arrived h
  rw [hlost, List.length_nil] at hlength
  refine (processed_sublist h).eq_of_length ?_
  rw [List.length_append, List.length_append]
  omega

/-- **Nothing is sent but answers.**  Where what is sent on a packet depends on
nothing but the packet, the frames sent are the answers, in order. -/
theorem sent_eq {answer : Packet → List Frame} {Good : Packet → Prop}
    (hanswer : ∀ raw left cache, Good raw.packet → (workOn host raw left cache).2 =
      answer raw.packet)
    (hgood : ∀ p ∈ acts.filterMap InboxAction.worked, Good p) :
    (run (inboxStep host) t acts).sent =
      t.sent ++ (acts.filterMap InboxAction.worked).flatMap answer := by
  induction acts generalizing t with
  | nil => simp
  | cons a acts ih =>
      cases a with
      | work raw left =>
          simp only [List.filterMap_cons, InboxAction.worked] at hgood ⊢
          rw [run_cons, ih fun p hp => hgood p (List.mem_cons_of_mem _ hp), List.flatMap_cons,
            ← List.append_assoc, ← hanswer raw left t.cache (hgood _ List.mem_cons_self)]
          rfl
      | arrive p => exact ih hgood
      | lose place => exact ih hgood
      | tick clock => exact ih hgood

end Runs

/-! ### The three stages -/

/-- The packets on the card, in the queue, and the one that is worked on. -/
structure Stages where
  onCard : List Packet
  queued : List Packet
  inWork : Option Packet
  cache : Cache
  sent : List Frame

/-- A packet arrives on the card; the first one there is handed over to the
queue; the network task takes the first one of the queue, or works on it. -/
inductive StagesAction where
  | arrive (p : Packet)
  | handOver
  | take
  | work (raw : RawPacket) (left : Leftover)
  | tick (clock : DoubleWord)

def stagesStep (host : Host) (t : Stages) : StagesAction → Stages
  | .arrive p => { t with onCard := t.onCard ++ [p] }
  | .handOver =>
      if t.queued.length < 127 then
        { t with onCard := t.onCard.tail, queued := t.queued ++ t.onCard.head?.toList }
      else
        { t with onCard := t.onCard.tail }
  | .take => { t with queued := t.queued.tail, inWork := t.queued.head? }
  | .work raw left =>
      { t with
        inWork := none
        cache := (workOn host raw left t.cache).1
        sent := t.sent ++ (workOn host raw left t.cache).2 }
  | .tick clock => { t with cache := cacheStep host t.cache (.tick clock) }

def StagesPermitted (t : Stages) : StagesAction → Prop
  | .arrive _ => t.onCard.length < 31
  | .handOver => t.onCard ≠ []
  | .take => t.queued ≠ [] ∧ t.inWork = none
  | .work raw _ => t.inWork = some raw.packet
  | .tick _ => True

/-- All packets that wait somewhere, oldest first. -/
def Stages.inbox (t : Stages) : Inbox where
  pending := t.inWork.toList ++ t.queued ++ t.onCard
  cache := t.cache
  sent := t.sent

/-- The step of the inbox that a step of the stages is: handing over and taking
move packets within it, but a full queue loses the one that is handed over. -/
def Stages.shows (t : Stages) : StagesAction → List InboxAction
  | .arrive p => [.arrive p]
  | .handOver =>
      if t.queued.length < 127 then []
      else [.lose (t.inWork.toList ++ t.queued).length]
  | .take => []
  | .work raw left => [.work raw left]
  | .tick clock => [.tick clock]

def StagesAction.arrived : StagesAction → Option Packet
  | .arrive p => some p
  | _ => none

def StagesAction.worked : StagesAction → Option Packet
  | .work raw _ => some raw.packet
  | _ => none

theorem arrived_shows (t : Stages) (a : StagesAction) :
    (t.shows a).filterMap InboxAction.arrived = a.arrived.toList := by
  cases a with
  | handOver =>
      simp only [Stages.shows]
      split <;> rfl
  | _ => rfl

theorem worked_shows (t : Stages) (a : StagesAction) :
    (t.shows a).filterMap InboxAction.worked = a.worked.toList := by
  cases a with
  | handOver =>
      simp only [Stages.shows]
      split <;> rfl
  | _ => rfl

theorem length_shows_le (t : Stages) (a : StagesAction) : (t.shows a).length ≤ 1 := by
  cases a with
  | handOver =>
      simp only [Stages.shows]
      split <;> simp
  | _ => simp [Stages.shows]

theorem inbox_stagesStep {host : Host} {t : Stages} {a : StagesAction}
    (h : StagesPermitted t a) :
    (stagesStep host t a).inbox = run (inboxStep host) t.inbox (t.shows a) := by
  cases a with
  | arrive p => simp [stagesStep, Stages.inbox, Stages.shows, inboxStep]
  | handOver =>
      obtain ⟨p, rest, hcard⟩ := List.exists_cons_of_ne_nil h
      unfold stagesStep Stages.shows
      by_cases hroom : t.queued.length < 127
      · simp [if_pos hroom, Stages.inbox, hcard]
      · simp only [if_neg hroom, Stages.inbox, hcard, run_cons, run_nil, inboxStep]
        rw [List.eraseIdx_append_of_length_le (Nat.le_refl _), Nat.sub_self]
        rfl
  | take =>
      obtain ⟨hsome, hfree⟩ := h
      obtain ⟨p, rest, hqueued⟩ := List.exists_cons_of_ne_nil hsome
      simp [stagesStep, Stages.inbox, Stages.shows, hqueued, hfree]
  | work raw left =>
      have hwork : t.inWork = some raw.packet := h
      simp [stagesStep, Stages.inbox, Stages.shows, inboxStep, hwork]
  | tick clock => rfl

theorem permitted_shows {host : Host} {t : Stages} {a : StagesAction}
    (h : StagesPermitted t a) :
    EveryStep (inboxStep host) InboxPermitted t.inbox (t.shows a) := by
  cases a with
  | handOver =>
      obtain ⟨p, rest, hcard⟩ := List.exists_cons_of_ne_nil h
      unfold Stages.shows
      by_cases hroom : t.queued.length < 127
      · rw [if_pos hroom]
        trivial
      · -- the queue is full, so there are 127 packets in front
        rw [if_neg hroom]
        refine ⟨⟨?_, ?_⟩, trivial⟩
        · rw [List.length_append]
          omega
        · rw [Stages.inbox, hcard]
          simp
  | work raw left =>
      have hwork : t.inWork = some raw.packet := h
      refine ⟨?_, trivial⟩
      show (t.inWork.toList ++ t.queued ++ t.onCard).head? = some raw.packet
      rw [hwork]
      rfl
  | arrive p => exact ⟨trivial, trivial⟩
  | take => trivial
  | tick clock => exact ⟨trivial, trivial⟩

/-- **The three stages are one list.** -/
def stagesRefinement (host : Host) :
    Refinement (stagesStep host) StagesPermitted (inboxStep host) InboxPermitted where
  Inv _ := True
  abs := Stages.inbox
  shows := Stages.shows
  keeps _ _ _ _ := trivial
  refines _ _ _ h := inbox_stagesStep h
  permitted _ _ _ h := permitted_shows h

end Network
end Ninjastorms
