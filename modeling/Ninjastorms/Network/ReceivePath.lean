import Ninjastorms.Network.ArpWire
import Ninjastorms.Network.Inbox
import Ninjastorms.Network.PacketBytes
import Ninjastorms.Network.RxInterrupt

/-!
# The receive path

The card with its ring and its interrupt, the queue, and the network task with
the ARP table, as one system.  When the handler has copied a whole frame, the
packet goes into the queue (`handedOver`); `network_task_recv` takes its steps
only outside of the handler, and `start_pdu_encapsulation` works on the slot that
`remove_packet` has returned.

`insert_packet` reads the frame byte by byte while the card goes on, and what it
has read is stored in one step.  The task cannot see the difference, since it does
not run meanwhile.

`stackRefinement` says that the whole is an `Inbox`: by way of the three `Stages`
that the invariants of the card and of the queue describe.
-/

namespace Ninjastorms
namespace Network

open Lib.ByteMemory Lib.CircularBuffer Lib.Runs Lib.Simulation

/-- The variables of `e1000.c`, `network_task.c`, `routing.c` and `time.c`, and
the frames that were sent. -/
structure NetworkStack where
  card : E1000
  receiver : Receiver
  cache : Cache
  sent : List Frame

/-- A step of the card or of its handler; a step of the network task, which finds
`left` in memory when it sends; a clock interrupt. -/
inductive StackAction where
  | card (a : E1000Action)
  | task (left : Leftover)
  | tick (clock : DoubleWord)

/-- The state in which the card has been started and `network_task_recv` is
about to enter its loop. -/
def startStack (buffers : RxBuffers) (lengths : RxIndex → HalfWord) (mem : Mem)
    (intCause intMask ctrl : Word) (cache : Cache) : NetworkStack where
  card := startE1000 buffers lengths mem intCause intMask ctrl
  receiver := initialReceiver
  cache := cache
  sent := []

/-- The call of `insert_packet` for a packet. -/
def insertEvent (p : Packet) : Event :=
  .interrupt (fun k => p.bytes.getD k 0) (p.length.setWidth 32)

/-- A step of `network_task_recv`; the call of `start_pdu_encapsulation` is one. -/
def stackTask (host : Host) (left : Leftover) (s : NetworkStack) : NetworkStack :=
  match s.receiver.pc with
  | .process packet =>
      let result := workOn host (s.receiver.queue.slot host packet) left s.cache
      { s with
        receiver := taskStep host s.receiver
        cache := result.1
        sent := s.sent ++ result.2 }
  | _ => { s with receiver := taskStep host s.receiver }

/-- Neither the task nor the clock gets the processor while the handler has it. -/
def stackStep (host : Host) (s : NetworkStack) : StackAction → NetworkStack
  | .card a =>
      { s with
        card := e1000Step s.card a
        receiver :=
          match handedOver s.card a with
          | some p => receiverStep host s.receiver (insertEvent p)
          | none => s.receiver }
  | .task left =>
      match s.card.irq with
      | .idle => stackTask host left s
      | _ => s
  | .tick clock =>
      match s.card.irq with
      | .idle => { s with cache := cacheStep host s.cache (.tick clock) }
      | _ => s

/-! ### The card: what is stored and what is passed on -/

section Card

variable {buffers : RxBuffers} {s : E1000}

/-- **What waits on the card** grows at its end and shrinks at its front. -/
theorem pending_e1000Step (h : E1000Inv buffers s) (a : E1000Action) :
    s.ring.pending ++ (storedBy s a).toList =
      (handedOver s a).toList ++ (e1000Step s a).ring.pending := by
  obtain ⟨hpassed, hstored⟩ := logs_e1000Step s a
  have hafter := (e1000Inv_step a h).ring.order
  rw [hstored, hpassed, h.ring.order, List.append_assoc, List.append_assoc] at hafter
  exact List.append_cancel_left hafter

/-- What is handed over is a whole packet, which fits into a slot. -/
theorem handedOver_fits (h : E1000Inv buffers s) {a : E1000Action} {p : Packet}
    (hp : handedOver s a = some p) :
    p.bytes.length = p.length.toNat ∧ p.length.toNat ≤ MAX_PACKET_SIZE := by
  have hpending := pending_e1000Step h a
  have hlogged := (e1000Inv_step a h).ring.fits p
  rw [(logs_e1000Step s a).2, h.ring.order, List.append_assoc, ← RxRing.pending, hpending, hp]
    at hlogged
  refine ⟨?_, hlogged (by simp)⟩
  have hlocals := h.ring.locals
  unfold handedOver RxRing.passesOn at hp
  split at hp
  · split at hp
    · rename_i buf len copied hpc
      rw [hpc] at hlocals
      obtain ⟨-, -, hle, -⟩ := hlocals
      split at hp
      · exact absurd hp (by simp)
      · rw [← Option.some.inj hp]
        show copied.length = len.toNat
        omega
    · exact absurd hp (by simp)
  · exact absurd hp (by simp)

/-- The ring is never more than full. -/
theorem length_pending_of_room (h : E1000Inv buffers s) (hroom : s.ring.head ≠ s.ring.tail) :
    s.ring.pending.length < 31 := by
  rw [RxRing.pending, length_contents]
  have hlt := ahead_lt (firstPending s.ring) s.ring.head
  have hne : ahead (firstPending s.ring) s.ring.head ≠ E1000_NUM_RX_DESC - 1 := fun hfull =>
    (h.ring.next_head_ne hroom).2 (next_eq_iff_full.mpr hfull)
  have hnum : E1000_NUM_RX_DESC = 32 := rfl
  omega

end Card

/-! ### The queue: what an insertion and a step of the task do to it -/

section Queue

variable {host : Host} {s : Receiver}

theorem packetOf_insertEvent {p : Packet} (hp : p.bytes.length = p.length.toNat) :
    packetOf (fun k => p.bytes.getD k 0) (p.length.setWidth 32) = p := by
  have hlen : (p.length.setWidth 32 : Word).toNat = p.length.toNat := by
    rw [BitVec.toNat_setWidth]
    exact Nat.mod_eq_of_lt (lt_trans p.length.isLt (by decide))
  have hback : ((p.length.setWidth 32).setWidth 16 : HalfWord) = p.length := by
    rw [BitVec.setWidth_setWidth_of_le _ (by omega), BitVec.setWidth_eq]
  have hbytes : (List.range p.bytes.length).map (fun k => p.bytes.getD k 0) = p.bytes := by
    refine List.ext_getElem (by simp) fun k _ hk => ?_
    rw [List.getElem_map, List.getElem_range, List.getD_eq_getElem?_getD,
      List.getElem?_eq_getElem hk, Option.getD_some]
  rw [packetOf, hlen, hback, ← hp, hbytes]

/-- The queue has a slot to spare while fewer than 127 packets wait. -/
theorem room_iff (host : Host) (q : PacketQueue) :
    next q.recvQueueEnd ≠ q.recvQueueStart ↔ (waiting host q).length < 127 := by
  have hlt : ahead q.recvQueueStart q.recvQueueEnd < MAX_PACKET_COUNT := ahead_lt _ _
  have hnum : MAX_PACKET_COUNT = 128 := rfl
  rw [waiting, length_contents, ne_eq, next_eq_iff_full]
  omega

/-- An insertion leaves the packet alone that the task works on. -/
theorem inWork_insert (h : ReceiverInv host s) {p : Packet}
    (hp : p.length.toNat ≤ MAX_PACKET_SIZE) :
    inWork host (receiverStep host s (insertEvent p)) = inWork host s := by
  have hlen : (p.length.setWidth 32 : Word).toNat ≤ MAX_PACKET_SIZE := by
    rw [BitVec.toNat_setWidth]
    exact (Nat.mod_le _ _).trans hp
  simp only [inWork, receiverStep, insertEvent]
  cases hpc : s.pc with
  | process i =>
      by_cases hroom : next s.queue.recvQueueEnd = s.queue.recvQueueStart
      · simp [insertPacket, hroom]
      · simp only
        rw [packet_insertPacket_other hlen (h.held_ne_end (h.working i hpc) hroom)
          (h.fits_slot (Or.inl hpc))]
  | _ => rfl

/-- **An insertion appends, or is turned away by a full queue.** -/
theorem waiting_insert (h : ReceiverInv host s) {p : Packet}
    (hp : p.bytes.length = p.length.toNat ∧ p.length.toNat ≤ MAX_PACKET_SIZE) :
    waiting host (receiverStep host s (insertEvent p)).queue =
      if (waiting host s.queue).length < 127 then waiting host s.queue ++ [p]
      else waiting host s.queue := by
  have hlen : (p.length.setWidth 32 : Word).toNat ≤ MAX_PACKET_SIZE := by
    rw [BitVec.toNat_setWidth]
    exact (Nat.mod_le _ _).trans hp.2
  have hnext : ReceiverInv host (receiverStep host s (insertEvent p)) :=
    receiverInv_interrupt h hlen
  have hafter := hnext.order
  rw [inWork_insert h hp.2] at hafter
  rcases insertPacket_cases host (fun k => p.bytes.getD k 0) (p.length.setWidth 32) s.queue with
    ⟨hfull, heq⟩ | ⟨hroom, heq⟩
  · rw [if_neg fun hlt => (room_iff host s.queue).mpr hlt hfull]
    simp only [receiverStep, insertEvent, heq]
  · rw [if_pos ((room_iff host s.queue).mp hroom)]
    have hmoved : (insertPacket host (fun k => p.bytes.getD k 0) (p.length.setWidth 32)
        s.queue).recvQueueEnd ≠ s.queue.recvQueueEnd := by
      rw [heq]
      exact next_ne_self (by decide) _
    have hlogged : (receiverStep host s (insertEvent p)).accepted = s.accepted ++ [p] := by
      simp only [receiverStep, insertEvent, if_pos hmoved, packetOf_insertEvent hp.1]
    have hprocessed : (receiverStep host s (insertEvent p)).processed = s.processed := rfl
    rw [hlogged, hprocessed, h.order, List.append_assoc] at hafter
    exact (List.append_cancel_left hafter).symm

/-- The packet in work. -/
def working (host : Host) (s : Receiver) : Option Packet :=
  match s.pc with
  | .process packet => some (s.queue.slot host packet).packet
  | _ => none

theorem head?_inWork (host : Host) (s : Receiver) :
    (inWork host s).head? = working host s := by
  unfold working inWork
  cases s.pc <;> rfl

theorem working_insert (h : ReceiverInv host s) {p : Packet}
    (hp : p.length.toNat ≤ MAX_PACKET_SIZE) :
    working host (receiverStep host s (insertEvent p)) = working host s := by
  rw [← head?_inWork, inWork_insert h hp, head?_inWork]

/-- The step of the task that takes a packet out of the queue. -/
theorem taskStep_removeAdvance (h : ReceiverInv host s) {packet : Fin MAX_PACKET_COUNT}
    (hpc : s.pc = .removeAdvance packet) :
    waiting host s.queue ≠ [] ∧
    waiting host (taskStep host s).queue = (waiting host s.queue).tail ∧
    working host (taskStep host s) = (waiting host s.queue).head? := by
  have hsome : s.queue.recvQueueStart ≠ s.queue.recvQueueEnd :=
    h.available (by simp [hpc]) (by simp [hpc])
  obtain rfl : packet = s.queue.recvQueueStart := h.taking packet hpc
  rw [waiting, contents_take hsome]
  simp only [taskStep, hpc]
  exact ⟨List.cons_ne_nil _ _, rfl, rfl⟩

end Queue

/-! ### The refinement -/

/-- The three stages that the system stands for. -/
def NetworkStack.stages (host : Host) (s : NetworkStack) : Stages where
  onCard := s.card.ring.pending
  queued := waiting host s.receiver.queue
  inWork := working host s.receiver
  cache := s.cache
  sent := s.sent

/-- The step of the three stages that a step of the network task is. -/
def taskShows (host : Host) (left : Leftover) (s : Receiver) : List StagesAction :=
  match s.pc with
  | .removeAdvance _ => [.take]
  | .process packet => [.work (s.queue.slot host packet) left]
  | _ => []

def stackShows (host : Host) (s : NetworkStack) : StackAction → List StagesAction
  | .card a =>
      (storedBy s.card a).toList.map .arrive ++
        (handedOver s.card a).toList.map fun _ => .handOver
  | .task left =>
      match s.card.irq with
      | .idle => taskShows host left s.receiver
      | _ => []
  | .tick clock =>
      match s.card.irq with
      | .idle => [.tick clock]
      | _ => []

/-- The invariants of the card and of the queue. -/
structure StackInv (buffers : RxBuffers) (host : Host) (s : NetworkStack) : Prop where
  card : E1000Inv buffers s.card
  receiver : ReceiverInv host s.receiver

section Refinement

variable {buffers : RxBuffers} {host : Host} {s : NetworkStack}

theorem stackInv_initial (buffers : RxBuffers) (host : Host) (lengths : RxIndex → HalfWord)
    (mem : Mem) (intCause intMask ctrl : Word) (cache : Cache) :
    StackInv buffers host (startStack buffers lengths mem intCause intMask ctrl cache) :=
  ⟨e1000Inv_initial buffers lengths mem intCause intMask ctrl, receiverInv_initial host⟩

theorem receiver_stackTask (host : Host) (left : Leftover) (s : NetworkStack) :
    (stackTask host left s).receiver = taskStep host s.receiver ∧
    (stackTask host left s).card = s.card := by
  unfold stackTask
  cases s.receiver.pc <;> exact ⟨rfl, rfl⟩

theorem stackInv_step (a : StackAction) (h : StackInv buffers host s) :
    StackInv buffers host (stackStep host s a) := by
  cases a with
  | card a =>
      refine ⟨e1000Inv_step a h.card, ?_⟩
      simp only [stackStep]
      cases hp : handedOver s.card a with
      | none => exact h.receiver
      | some p =>
          refine receiverInv_interrupt h.receiver ?_
          rw [BitVec.toNat_setWidth]
          exact (Nat.mod_le _ _).trans (handedOver_fits h.card hp).2
  | task left =>
      simp only [stackStep]
      split
      · obtain ⟨hreceiver, hcard⟩ := receiver_stackTask host left s
        refine ⟨?_, ?_⟩
        · rw [hcard]
          exact h.card
        · rw [hreceiver]
          exact receiverInv_task h.receiver
      · exact h
  | tick clock =>
      simp only [stackStep]
      split
      · exact ⟨h.card, h.receiver⟩
      · exact h

/-- A step of the card moves at most one packet. -/
theorem stored_or_handedOver (s : E1000) (a : E1000Action) :
    storedBy s a = none ∨ handedOver s a = none := by
  cases a with
  | store bytes status => exact Or.inr rfl
  | raise causes => exact Or.inl rfl
  | interrupt => exact Or.inl rfl
  | handler => exact Or.inl rfl

theorem stages_card (h : StackInv buffers host s) (a : E1000Action) :
    (stackStep host s (.card a)).stages host =
        run (stagesStep host) (s.stages host) (stackShows host s (.card a)) ∧
    EveryStep (stagesStep host) StagesPermitted (s.stages host) (stackShows host s (.card a)) := by
  have hpending := pending_e1000Step h.card a
  rcases stored_or_handedOver s.card a with hstored | hhanded
  · cases hhanded : handedOver s.card a with
    | none =>
        simp only [hstored, hhanded, Option.toList_none, List.append_nil, List.nil_append]
          at hpending
        simp [stackShows, stackStep, hstored, hhanded, NetworkStack.stages, hpending]
    | some p =>
        have hp := handedOver_fits h.card hhanded
        simp only [hstored, hhanded, Option.toList_none, Option.toList_some, List.append_nil,
          List.singleton_append] at hpending
        simp only [stackShows, stackStep, hstored, hhanded, NetworkStack.stages,
          Option.toList_none, Option.toList_some, List.map_nil, List.map_cons, List.nil_append,
          waiting_insert h.receiver hp, working_insert h.receiver hp.2, run_cons, run_nil,
          everyStep_cons, everyStep_nil, and_true, hpending, stagesStep]
        constructor
        · split <;> rfl
        · exact List.cons_ne_nil _ _
  · cases hstored : storedBy s.card a with
    | none =>
        simp only [hstored, hhanded, Option.toList_none, List.append_nil, List.nil_append]
          at hpending
        simp [stackShows, stackStep, hstored, hhanded, NetworkStack.stages, hpending]
    | some p =>
        simp only [hstored, hhanded, Option.toList_none, Option.toList_some, List.nil_append]
          at hpending
        have hroom : s.card.ring.head ≠ s.card.ring.tail := by
          unfold storedBy at hstored
          split at hstored
          · split at hstored
            · rename_i hroom
              exact hroom.1
            · exact absurd hstored (by simp)
          · exact absurd hstored (by simp)
        simp only [stackShows, stackStep, hstored, hhanded, NetworkStack.stages,
          Option.toList_none, Option.toList_some, List.map_nil, List.map_cons, List.append_nil,
          run_cons, run_nil, everyStep_cons, everyStep_nil, and_true, stagesStep, ← hpending]
        exact ⟨trivial, length_pending_of_room h.card hroom⟩

theorem stages_task (h : StackInv buffers host s) (left : Leftover) :
    (stackTask host left s).stages host =
        run (stagesStep host) (s.stages host) (taskShows host left s.receiver) ∧
    EveryStep (stagesStep host) StagesPermitted (s.stages host)
      (taskShows host left s.receiver) := by
  unfold stackTask taskShows
  cases hpc : s.receiver.pc with
  | test =>
      refine ⟨?_, trivial⟩
      simp only [NetworkStack.stages, taskStep, hpc]
      split
      · simp [working, hpc]
      · rfl
  | removeCheck =>
      refine ⟨?_, trivial⟩
      simp only [NetworkStack.stages, taskStep, hpc]
      split
      · simp [working, hpc]
      · simp [working, hpc]
  | removeTake => exact ⟨by simp [NetworkStack.stages, taskStep, working, hpc], trivial⟩
  | removeAdvance packet =>
      obtain ⟨hsome, hqueued, hworking⟩ := taskStep_removeAdvance h.receiver hpc
      have hfree : working host s.receiver = none := by simp [working, hpc]
      refine ⟨?_, ⟨hsome, hfree⟩, trivial⟩
      simp only [NetworkStack.stages, hqueued, hworking, run_cons, run_nil, stagesStep]
  | process packet =>
      have hinWork : working host s.receiver =
          some (s.receiver.queue.slot host packet).packet := by simp [working, hpc]
      refine ⟨?_, hinWork, trivial⟩
      simp [NetworkStack.stages, taskStep, hpc, working, stagesStep]
  | processNull => exact absurd hpc h.receiver.notNull

/-- A step of the code is the step of the stages that it stands for. -/
theorem stages_stackStep (h : StackInv buffers host s) (a : StackAction) :
    (stackStep host s a).stages host =
        run (stagesStep host) (s.stages host) (stackShows host s a) ∧
    EveryStep (stagesStep host) StagesPermitted (s.stages host) (stackShows host s a) := by
  cases a with
  | card a => exact stages_card h a
  | task left =>
      simp only [stackStep, stackShows]
      cases s.card.irq with
      | idle => exact stages_task h left
      | _ => exact ⟨rfl, trivial⟩
  | tick clock =>
      simp only [stackStep, stackShows]
      cases s.card.irq with
      | idle => exact ⟨rfl, trivial, trivial⟩
      | _ => exact ⟨rfl, trivial⟩

end Refinement

/-- The system refines the three stages. -/
def stagesOfStack (buffers : RxBuffers) (host : Host) :
    Refinement (stackStep host) (fun _ _ => True) (stagesStep host) StagesPermitted where
  Inv := StackInv buffers host
  abs := NetworkStack.stages host
  shows := stackShows host
  keeps _ a h _ := stackInv_step a h
  refines _ a h _ := (stages_stackStep h a).1
  permitted _ a h _ := (stages_stackStep h a).2

/-- **The system refines the inbox.** -/
def stackRefinement (buffers : RxBuffers) (host : Host) :
    Refinement (stackStep host) (fun _ _ => True) (inboxStep host) InboxPermitted :=
  (stagesOfStack buffers host).comp (stagesRefinement host)

/-! ### Runs -/

section Runs

variable {buffers : RxBuffers} {host : Host} {s : NetworkStack}

theorem length_stackShows_le (s : NetworkStack) (a : StackAction) :
    (stackShows host s a).length ≤ 1 := by
  cases a with
  | card a =>
      simp only [stackShows]
      rcases stored_or_handedOver s.card a with hnone | hnone
      · rw [hnone]
        cases handedOver s.card a <;> simp
      · rw [hnone]
        cases storedBy s.card a <;> simp
  | task left =>
      simp only [stackShows, taskShows]
      cases s.card.irq with
      | idle => cases s.receiver.pc <;> simp
      | _ => simp
  | tick clock =>
      simp only [stackShows]
      cases s.card.irq <;> simp

theorem arrived_stackShows (s : NetworkStack) (a : StackAction) :
    (stackStep host s a).card.ring.stored =
      s.card.ring.stored ++ (stackShows host s a).filterMap StagesAction.arrived := by
  cases a with
  | card a =>
      simp only [stackStep, stackShows, (logs_e1000Step s.card a).2]
      cases storedBy s.card a <;> cases handedOver s.card a <;> rfl
  | task left =>
      simp only [stackStep, stackShows, taskShows]
      cases s.card.irq with
      | idle =>
          simp only [(receiver_stackTask host left s).2]
          cases s.receiver.pc <;> exact (List.append_nil _).symm
      | _ => exact (List.append_nil _).symm
  | tick clock =>
      simp only [stackStep, stackShows]
      cases s.card.irq <;> exact (List.append_nil _).symm

theorem worked_stackShows (s : NetworkStack) (a : StackAction) :
    (stackStep host s a).receiver.processed =
      s.receiver.processed ++ (stackShows host s a).filterMap StagesAction.worked := by
  cases a with
  | card a =>
      simp only [stackStep, stackShows]
      cases storedBy s.card a <;> cases handedOver s.card a <;> exact (List.append_nil _).symm
  | task left =>
      simp only [stackStep, stackShows, taskShows]
      cases s.card.irq with
      | idle =>
          simp only [(receiver_stackTask host left s).1, taskStep]
          cases s.receiver.pc with
          | process packet => rfl
          | test =>
              simp only
              split <;> exact (List.append_nil _).symm
          | removeCheck =>
              simp only
              split <;> exact (List.append_nil _).symm
          | _ => exact (List.append_nil _).symm
      | _ => exact (List.append_nil _).symm
  | tick clock =>
      simp only [stackStep, stackShows]
      cases s.card.irq <;> exact (List.append_nil _).symm

/-- The steps of the inbox that a run of the system stands for. -/
def inboxSteps (buffers : RxBuffers) (host : Host) (s : NetworkStack)
    (actions : List StackAction) : List InboxAction :=
  trace (stackStep host) (stackRefinement buffers host).shows s actions

theorem stackInv_ok (h : StackInv buffers host s) :
    (stackRefinement buffers host).Inv s :=
  ⟨h, trivial⟩

theorem stackInv_run (h : StackInv buffers host s) (actions : List StackAction) :
    StackInv buffers host (run (stackStep host) s actions) :=
  ((stackRefinement buffers host).inv_run (stackInv_ok h) (everyStep_true s actions)).1

/-- The run that `inboxSteps` lists. -/
theorem inbox_run (h : StackInv buffers host s) (actions : List StackAction) :
    EveryStep (inboxStep host) InboxPermitted (s.stages host).inbox
        (inboxSteps buffers host s actions) ∧
    ((run (stackStep host) s actions).stages host).inbox =
      run (inboxStep host) (s.stages host).inbox (inboxSteps buffers host s actions) :=
  ⟨(stackRefinement buffers host).permitted_trace (stackInv_ok h) (everyStep_true s actions),
    (stackRefinement buffers host).run_abs (stackInv_ok h) (everyStep_true s actions)⟩

/-- What the card has stored has arrived in the inbox. -/
theorem stored_run (h : StackInv buffers host s) (actions : List StackAction) :
    (run (stackStep host) s actions).card.ring.stored = s.card.ring.stored ++
      (inboxSteps buffers host s actions).filterMap InboxAction.arrived := by
  refine log_run (StackInv buffers host) InboxAction.arrived
    (fun s => s.card.ring.stored) (fun s a h _ => stackInv_step a h) (fun s a _ _ => ?_) h
    (everyStep_true s actions)
  rw [arrived_stackShows]
  exact congrArg _ (filterMap_trace arrived_shows _ _).symm

/-- What the network task has processed is what was worked on. -/
theorem processed_run (h : StackInv buffers host s) (actions : List StackAction) :
    (run (stackStep host) s actions).receiver.processed = s.receiver.processed ++
      (inboxSteps buffers host s actions).filterMap InboxAction.worked := by
  refine log_run (StackInv buffers host) InboxAction.worked
    (fun s => s.receiver.processed) (fun s a h _ => stackInv_step a h) (fun s a _ _ => ?_) h
    (everyStep_true s actions)
  rw [worked_stackShows]
  exact congrArg _ (filterMap_trace worked_shows _ _).symm

end Runs

/-- Nothing waits at the start. -/
theorem inbox_startStack (buffers : RxBuffers) (host : Host) (lengths : RxIndex → HalfWord)
    (mem : Mem) (intCause intMask ctrl : Word) (cache : Cache) :
    ((startStack buffers lengths mem intCause intMask ctrl cache).stages host).inbox =
      ⟨[], cache, []⟩ := by
  simp [Stages.inbox, NetworkStack.stages, RxRing.pending, startStack, startE1000,
    initReceiveDescriptors, firstPending, PassedOn, initialReceiver, working, waiting, next]

/-- **The receive path is one queue.**  In whatever order the card, its handler,
the network task and the clock take their steps, the system does what an inbox
does in which the frames that the card stores arrive, and of which the network
task works on what it processes. -/
theorem stack_refines_inbox (buffers : RxBuffers) (host : Host) (lengths : RxIndex → HalfWord)
    (mem : Mem) (intCause intMask ctrl : Word) (cache : Cache) (actions : List StackAction) :
    let final := run (stackStep host)
      (startStack buffers lengths mem intCause intMask ctrl cache) actions
    ∃ steps : List InboxAction,
      EveryStep (inboxStep host) InboxPermitted ⟨[], cache, []⟩ steps ∧
      (final.stages host).inbox = run (inboxStep host) ⟨[], cache, []⟩ steps ∧
      steps.filterMap InboxAction.arrived = final.card.ring.stored ∧
      steps.filterMap InboxAction.worked = final.receiver.processed := by
  intro final
  have hinit := stackInv_initial buffers host lengths mem intCause intMask ctrl cache
  obtain ⟨hpermitted, hrun⟩ := inbox_run hinit actions
  rw [inbox_startStack] at hpermitted hrun
  exact ⟨_, hpermitted, hrun, (stored_run hinit actions).symm, (processed_run hinit actions).symm⟩

end Network
end Ninjastorms
