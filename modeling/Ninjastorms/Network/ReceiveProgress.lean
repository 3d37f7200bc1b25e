import Ninjastorms.Network.ReceiveAnswers

/-!
# The receive path comes to rest

As soon as the card is silent, the processor has work for a bounded number of
steps only, in whatever order it takes them, and when it has none left, every
stored frame has been passed on and every accepted packet processed.

`workLeft` prices what is still to be done: a frame on the card costs the steps
of the loop and of the network task, a cause that is raised costs one more run of
the handler.  Every step of the processor pays for itself (`workLeft_step`).
-/

namespace Ninjastorms
namespace Network

open Lib.ByteMemory Lib.CircularBuffer Lib.Runs

/-- The processor has something to do: a step of the handler, an interrupt that
the card asks for, a step of the network task other than looking in vain. -/
def Enabled (s : NetworkStack) : StackAction → Prop
  | .card .interrupt => s.card.irq = .idle ∧ s.card.intCause &&& s.card.intMask ≠ 0
  | .card .handler => s.card.irq ≠ .idle
  | .task _ => s.card.irq = .idle ∧
      (s.receiver.pc = .test → newPacketAvailable s.receiver.queue = true)
  | _ => False

/-- Outside of the handler, with nothing left on the card and in the queue. -/
structure AtRest (s : NetworkStack) : Prop where
  idle : s.card.irq = .idle
  passed : s.card.ring.passed = s.card.ring.stored
  processed : s.receiver.processed = s.receiver.accepted

instance (s : NetworkStack) : Decidable (AtRest s) :=
  decidable_of_iff (s.card.irq = .idle ∧ s.card.ring.passed = s.card.ring.stored ∧
      s.receiver.processed = s.receiver.accepted)
    ⟨fun h => ⟨h.1, h.2.1, h.2.2⟩, fun h => ⟨h.idle, h.passed, h.processed⟩⟩

/-! ### What is still to be done -/

/-- The steps of the network task: five for each packet. -/
def taskWork (host : Host) (s : Receiver) : Nat :=
  match s.pc with
  | .test | .processNull => 5 * (waiting host s.queue).length
  | .removeCheck => 5 * (waiting host s.queue).length - 1
  | .removeTake => 5 * (waiting host s.queue).length - 2
  | .removeAdvance _ => 5 * (waiting host s.queue).length - 3
  | .process _ => 5 * (waiting host s.queue).length + 1

def workLeft (host : Host) (s : NetworkStack) : Nat :=
  handlerWork s.card + taskWork host s.receiver

/-! ### The network task -/

section Task

variable {host : Host} {s : Receiver}

/-- Another packet makes five steps of work at most. -/
theorem taskWork_insert (h : ReceiverInv host s) {p : Packet}
    (hp : p.bytes.length = p.length.toNat ∧ p.length.toNat ≤ MAX_PACKET_SIZE) :
    taskWork host (receiverStep host s (insertEvent p)) ≤ taskWork host s + 5 := by
  have hlen : (waiting host (receiverStep host s (insertEvent p)).queue).length ≤
      (waiting host s.queue).length + 1 := by
    rw [waiting_insert h hp]
    split
    · rw [List.length_append, List.length_singleton]
    · exact Nat.le_succ _
  have hpc : (receiverStep host s (insertEvent p)).pc = s.pc := rfl
  unfold taskWork
  rw [hpc]
  cases s.pc <;> simp only <;> omega

/-- While the task takes a packet out, there is one. -/
theorem waiting_pos (host : Host) (hsome : s.queue.recvQueueStart ≠ s.queue.recvQueueEnd) :
    0 < (waiting host s.queue).length := by
  rw [waiting, contents_take hsome]
  exact Nat.succ_pos _

/-- These are the steps until all the packets have been processed. -/
theorem taskWork_eq (h : ReceiverInv host s) : taskWork host s = taskUntil s.accepted.length s := by
  have hlength := h.length_accepted
  unfold taskWork taskUntil
  cases hpc : s.pc <;>
    simp only [inWork, hpc, List.length_nil, List.length_singleton] at hlength ⊢ <;> omega

/-- A step of the task is paid for. -/
theorem taskWork_taskStep (h : ReceiverInv host s)
    (hnew : s.pc = .test → newPacketAvailable s.queue = true) :
    taskWork host (taskStep host s) < taskWork host s := by
  have hmore : s.processed.length < s.accepted.length := by
    rw [h.length_accepted]
    by_cases hwork : ∃ i, s.pc = .process i
    · obtain ⟨i, hpc⟩ := hwork
      simp only [inWork, hpc, List.length_singleton]
      omega
    · have hsome : s.queue.recvQueueStart ≠ s.queue.recvQueueEnd := by
        by_cases htest : s.pc = .test
        · simpa [newPacketAvailable] using hnew htest
        · exact h.available htest (not_exists.mp hwork)
      have hpos := waiting_pos host hsome
      omega
  have hnext : ReceiverInv host (taskStep host s) := receiverInv_task h
  rw [taskWork_eq hnext, taskWork_eq h, accepted_taskStep]
  exact taskUntil_less h (Nat.le_refl _) hmore

end Task

/-! ### The system -/

section Stack

variable {buffers : RxBuffers} {host : Host} {s : NetworkStack}

/-- **Every step is paid for.** -/
theorem workLeft_step {a : StackAction} (h : StackInv buffers host s) (ha : Enabled s a) :
    workLeft host (stackStep host s a) < workLeft host s := by
  cases a with
  | card a =>
      cases a with
      | interrupt =>
          have hwork := handlerWork_serves (a := .interrupt) h.card ha
          simp only [workLeft, stackStep, handedOver]
          exact Nat.add_lt_add_right hwork _
      | handler =>
          have hwork := handlerWork_handlerStep h.card ha
          simp only [workLeft, stackStep, e1000Step]
          cases hp : handedOver s.card .handler with
          | none =>
              rw [hp] at hwork
              simp only [Option.toList_none, List.length_nil] at hwork ⊢
              omega
          | some p =>
              have htask := taskWork_insert h.receiver (handedOver_fits h.card hp)
              rw [hp] at hwork
              simp only [Option.toList_some, List.length_singleton] at hwork ⊢
              omega
      | store bytes status => exact ha.elim
      | raise causes => exact ha.elim
  | task left =>
      obtain ⟨hirq, hnew⟩ := ha
      have hwork := taskWork_taskStep h.receiver hnew
      obtain ⟨hreceiver, hcard⟩ := receiver_stackTask host left s
      simp only [workLeft, stackStep, hirq, hreceiver, hcard]
      omega
  | tick clock => exact ha.elim

/-- **Nothing to do means nothing left.** -/
theorem atRest_of_stuck (h : StackInv buffers host s) (hstuck : ∀ a, ¬ Enabled s a) :
    AtRest s := by
  have hirq : s.card.irq = .idle := by
    by_contra hbusy
    exact hstuck (.card .handler) hbusy
  have hcause : s.card.intCause &&& s.card.intMask = 0 := by
    by_contra hraised
    exact hstuck (.card .interrupt) ⟨hirq, hraised⟩
  have htask : s.receiver.pc = .test ∧ newPacketAvailable s.receiver.queue = false := by
    by_contra hwork
    refine hstuck (.task ⟨fun _ => 0, fun _ => 0⟩) ⟨hirq, fun htest => ?_⟩
    cases hnew : newPacketAvailable s.receiver.queue with
    | true => rfl
    | false => exact absurd ⟨htest, hnew⟩ hwork
  refine ⟨hirq, ?_, ?_⟩
  · by_contra hwaits
    exact h.card.asks hirq hwaits hcause
  · have hempty : s.receiver.queue.recvQueueStart = s.receiver.queue.recvQueueEnd := by
      simpa [newPacketAvailable] using htask.2
    have horder := h.receiver.order
    simp only [inWork, htask.1, waiting, hempty, contents_self, List.append_nil] at horder
    exact horder.symm

/-- At rest nothing is left in the inbox. -/
theorem AtRest.pending (hrest : AtRest s) (h : StackInv buffers host s) :
    (s.stages host).inbox.pending = [] := by
  have hcard := h.card.ring.order
  rw [hrest.passed] at hcard
  have hqueue := h.receiver.order
  rw [hrest.processed, List.append_assoc] at hqueue
  have hleft : inWork host s.receiver ++ waiting host s.receiver.queue = [] :=
    List.self_eq_append_right.mp hqueue
  obtain ⟨hwork, hwaiting⟩ := List.append_eq_nil_iff.mp hleft
  have hworking : working host s.receiver = none := by rw [← head?_inWork, hwork, List.head?_nil]
  have hpending : s.card.ring.pending = [] := List.self_eq_append_right.mp hcard
  simp only [Stages.inbox, NetworkStack.stages, hworking, hwaiting, hpending, Option.toList_none,
    List.append_nil]

end Stack

/-! ### Runs -/

/-- **The processor catches up.**  Once the card is silent, whatever has happened
before, the processor can take `workLeft` steps at most, in any order; when none
is left to take, all frames have been passed on and all packets processed; and it
does get there. -/
theorem processor_catches_up (buffers : RxBuffers) (host : Host) (lengths : RxIndex → HalfWord)
    (mem : Mem) (intCause intMask ctrl : Word) (cache : Cache) (actions : List StackAction) :
    let s := run (stackStep host)
      (startStack buffers lengths mem intCause intMask ctrl cache) actions
    (∀ work, EveryStep (stackStep host) Enabled s work →
      work.length ≤ workLeft host s ∧
      ((∀ a, ¬ Enabled (run (stackStep host) s work) a) →
        AtRest (run (stackStep host) s work))) ∧
    ∃ work, EveryStep (stackStep host) Enabled s work ∧ AtRest (run (stackStep host) s work) := by
  intro s
  have hs : StackInv buffers host s :=
    stackInv_run (stackInv_initial buffers host lengths mem intCause intMask ctrl cache) actions
  have hkeep : ∀ s a, StackInv buffers host s → Enabled s a →
      StackInv buffers host (stackStep host s a) := fun s a h _ => stackInv_step a h
  have hless : ∀ s a, StackInv buffers host s → Enabled s a →
      workLeft host (stackStep host s a) < workLeft host s := fun s a h ha => workLeft_step h ha
  constructor
  · intro work hwork
    have hlength := length_le_of_decreasing (workLeft host) hkeep hless hs hwork
    exact ⟨by omega, fun hstuck => atRest_of_stuck (stackInv_run hs work) hstuck⟩
  · obtain ⟨work, hwork, hstuck⟩ := exists_maximal_run (workLeft host) hkeep hless hs
    exact ⟨work, hwork, atRest_of_stuck (stackInv_run hs work) hstuck⟩

/-- **Every request is answered.**  If no more than 127 frames have been on their
way at any time, all of them long enough for an ARP frame, then at rest the
frames sent are the answers to all the frames that have arrived, in order. -/
theorem every_request_answered (buffers : RxBuffers) (host : Host) (hknows : KnowsByteOrder host)
    (havail : host.available = true) (lengths : RxIndex → HalfWord) (mem : Mem)
    (intCause intMask ctrl : Word) (cache : Cache) (actions : List StackAction)
    (hfew : EveryState (stackStep host) FewOutstanding
      (startStack buffers lengths mem intCause intMask ctrl cache) actions)
    (hlong : ∀ p ∈ (run (stackStep host)
      (startStack buffers lengths mem intCause intMask ctrl cache) actions).card.ring.stored,
        HoldsArpFrame p)
    (hrest : AtRest (run (stackStep host)
      (startStack buffers lengths mem intCause intMask ctrl cache) actions)) :
    let final := run (stackStep host)
      (startStack buffers lengths mem intCause intMask ctrl cache) actions
    final.receiver.processed = final.card.ring.stored ∧
    final.sent = final.card.ring.stored.flatMap (answer host) := by
  intro final
  have hinv : StackInv buffers host final :=
    stackInv_run (stackInv_initial buffers host lengths mem intCause intMask ctrl cache) actions
  have hall : final.receiver.processed ++ (final.stages host).inbox.pending =
      final.card.ring.stored := nothing_lost actions hfew
  rw [AtRest.pending hrest hinv, List.append_nil] at hall
  refine ⟨hall, ?_⟩
  rw [← hall]
  exact sent_processed hknows havail actions hlong

/-- After that run the request has been answered. -/
theorem oneRequest_answered :
    let final := run (stackStep versatileHost)
      (startStack freshHeapBuffers (fun _ => 0) (fun _ => 0) 0 0 0 (initialCache 0)) oneRequest
    final.receiver.processed = final.card.ring.stored ∧
    final.sent = final.card.ring.stored.flatMap (answer versatileHost) :=
  every_request_answered freshHeapBuffers versatileHost rfl rfl (fun _ => 0) (fun _ => 0) 0 0 0
    (initialCache 0) oneRequest (by decide +kernel) (by decide +kernel) (by decide +kernel)

end Network
end Ninjastorms
