import Ninjastorms.Lib.CircularBuffer
import Ninjastorms.Lib.Runs
import Ninjastorms.Network.Arp

/-!
# The queue of received packets

`kernel/network/network_task.c`.  The interrupt handler calls `insert_packet`,
the network task takes packets out and works on them in place.

The array `recv_packet_queue` is its bytes, so that `memcpy` may run over the
end of a slot.  The network task makes small steps (`Pc`), and an interrupt may
come between any two of them; it then runs to completion.

`remove_packet` gives the slot back before the task has worked on the packet.
What protects the packet is the slot that the ring keeps empty: the slot that
was returned last is the one before `recv_queue_start` (`ReceiverInv.held`), and
`insert_packet` never writes there.

A packet costs the task five steps, so that it catches up with all that has been
accepted, however many interrupts come meanwhile (`taskUntil`).
-/

namespace Ninjastorms
namespace Network

open Libc Lib.CircularBuffer Lib.Runs

/-- `MAX_PACKET_COUNT`. -/
abbrev MAX_PACKET_COUNT : Nat := 128

/-- `sizeof(raw_packet_t)`. -/
def sizeofRawPacket : Nat := 2 + MAX_PACKET_SIZE

/-- The variables of `network_task.c`. -/
structure PacketQueue where
  recvQueueStart : Fin MAX_PACKET_COUNT
  recvQueueEnd : Fin MAX_PACKET_COUNT
  recvPacketQueue : Bytes

/-- The offset of `recv_packet_queue[i]`. -/
def slotOffset (i : Fin MAX_PACKET_COUNT) : Nat :=
  sizeofRawPacket * i.val

/-- `recv_packet_queue[i]`. -/
def PacketQueue.slot (host : Host) (q : PacketQueue) (i : Fin MAX_PACKET_COUNT) : RawPacket where
  length := loadHalf host q.recvPacketQueue (slotOffset i)
  data := fun k => q.recvPacketQueue (slotOffset i + 2 + k)

/-- `new_packet_available`. -/
def newPacketAvailable (q : PacketQueue) : Bool :=
  q.recvQueueStart != q.recvQueueEnd

/-- `insert_packet`.  `next i` is `(i + 1) % MAX_PACKET_COUNT`. -/
def insertPacket (host : Host) (data : Bytes) (len : Word) (q : PacketQueue) : PacketQueue :=
  let newEnd := next q.recvQueueEnd
  if newEnd ≠ q.recvQueueStart then
    let memory := storeHalf host q.recvPacketQueue (slotOffset q.recvQueueEnd) (len.setWidth 16)
    let memory := memcpy memory (slotOffset q.recvQueueEnd + 2) data len.toNat
    { q with recvPacketQueue := memory, recvQueueEnd := newEnd }
  else
    q

/-- Where the network task is.  `remove_packet` is its check, the step that
computes the pointer and the step that advances `recv_queue_start`. -/
inductive Pc where
  | test
  | removeCheck
  | removeTake
  | removeAdvance (packet : Fin MAX_PACKET_COUNT)
  | process (packet : Fin MAX_PACKET_COUNT)
  | processNull
  deriving DecidableEq

/-- What is handed over or worked on: a length and that many bytes. -/
structure Packet where
  length : HalfWord
  bytes : List Byte
  deriving DecidableEq

/-- The packet in a slot. -/
def RawPacket.packet (p : RawPacket) : Packet where
  length := p.length
  bytes := (List.range p.length.toNat).map p.data

/-- The packet that a call of `insert_packet` hands over. -/
def packetOf (data : Bytes) (len : Word) : Packet where
  length := len.setWidth 16
  bytes := (List.range len.toNat).map data

/-- The queue and the network task.  `held` is the slot that `remove_packet` has
returned last, `accepted` lists the packets that `insert_packet` has taken in,
and `processed` those that `start_pdu_encapsulation` has worked on. -/
structure Receiver where
  queue : PacketQueue
  pc : Pc
  held : Option (Fin MAX_PACKET_COUNT)
  accepted : List Packet
  processed : List Packet

/-- An interrupt with a received packet, or a step of the network task. -/
inductive Event where
  | interrupt (data : Bytes) (len : Word)
  | task

/-- The zero-initialised variables; `routing_init` has been called. -/
def initialReceiver : Receiver where
  queue := ⟨0, 0, fun _ => 0⟩
  pc := .test
  held := none
  accepted := []
  processed := []

/-- One step of `network_task_recv`. -/
def taskStep (host : Host) (s : Receiver) : Receiver :=
  match s.pc with
  | .test => if newPacketAvailable s.queue then { s with pc := .removeCheck } else s
  | .removeCheck =>
      if s.queue.recvQueueStart = s.queue.recvQueueEnd then { s with pc := .processNull }
      else { s with pc := .removeTake }
  | .removeTake => { s with pc := .removeAdvance s.queue.recvQueueStart }
  | .removeAdvance packet =>
      { s with
        queue := { s.queue with recvQueueStart := next s.queue.recvQueueStart }
        pc := .process packet
        held := some packet }
  | .process packet =>
      { s with pc := .test, processed := s.processed ++ [(s.queue.slot host packet).packet] }
  | .processNull => s

def receiverStep (host : Host) (s : Receiver) : Event → Receiver
  | .interrupt data len =>
      let queue := insertPacket host data len s.queue
      { s with
        queue := queue
        accepted :=
          if queue.recvQueueEnd ≠ s.queue.recvQueueEnd then s.accepted ++ [packetOf data len]
          else s.accepted }
  | .task => taskStep host s

/-! ### What is promised -/

/-- The device is configured for buffers of this size. -/
def LengthFits : Event → Prop
  | .interrupt _ len => len.toNat ≤ MAX_PACKET_SIZE
  | .task => True

instance : DecidablePred LengthFits
  | .interrupt _ len => inferInstanceAs (Decidable (len.toNat ≤ MAX_PACKET_SIZE))
  | .task => inferInstanceAs (Decidable True)

/-- The packets waiting in the queue, oldest first. -/
def waiting (host : Host) (q : PacketQueue) : List Packet :=
  contents (fun i => (q.slot host i).packet) q.recvQueueStart q.recvQueueEnd

/-- The packet that `start_pdu_encapsulation` is working on. -/
def inWork (host : Host) (s : Receiver) : List Packet :=
  match s.pc with
  | .process packet => [(s.queue.slot host packet).packet]
  | _ => []

/-- What has been processed, what is in work and what is waiting are the
accepted packets in their order; the task never works on a null pointer. -/
def InOrder (host : Host) (s : Receiver) : Prop :=
  s.accepted = s.processed ++ inWork host s ++ waiting host s.queue ∧ s.pc ≠ .processNull

/-- An interrupt is turned away only while 127 packets are waiting, and leaves
every byte of the slot alone that `remove_packet` has returned last. -/
def KeepsHeldSlot (host : Host) (s : Receiver) (e : Event) : Prop :=
  ∀ data len, e = .interrupt data len →
    ((receiverStep host s e).accepted = s.accepted → (waiting host s.queue).length = 127) ∧
    ∀ i, s.held = some i → ∀ k < sizeofRawPacket,
      (receiverStep host s e).queue.recvPacketQueue (slotOffset i + k) =
        s.queue.recvPacketQueue (slotOffset i + k)

def Event.isTask : Event → Bool
  | .task => true
  | _ => false

/-- The number of steps of the task among the events. -/
def taskSteps (events : List Event) : Nat :=
  events.countP Event.isTask

/-- Within 640 steps the task has processed all that has been accepted by now,
whatever interrupts come between them. -/
def CatchesUp (host : Host) (s : Receiver) : Prop :=
  ∀ events, (∀ e ∈ events, LengthFits e) → 640 ≤ taskSteps events →
    s.accepted <+: (run (receiverStep host) s events).processed

/-! ### Inserting a packet -/

section Insert

variable {host : Host} {data : Bytes} {len : Word} {q : PacketQueue}

/-- What `insert_packet` can do. -/
theorem insertPacket_cases (host : Host) (data : Bytes) (len : Word) (q : PacketQueue) :
    (next q.recvQueueEnd = q.recvQueueStart ∧ insertPacket host data len q = q) ∨
    (next q.recvQueueEnd ≠ q.recvQueueStart ∧ insertPacket host data len q =
      { q with
        recvPacketQueue := memcpy
          (storeHalf host q.recvPacketQueue (slotOffset q.recvQueueEnd) (len.setWidth 16))
          (slotOffset q.recvQueueEnd + 2) data len.toNat
        recvQueueEnd := next q.recvQueueEnd }) := by
  by_cases hfull : next q.recvQueueEnd = q.recvQueueStart
  · exact Or.inl ⟨hfull, by simp [insertPacket, hfull]⟩
  · exact Or.inr ⟨hfull, by simp [insertPacket, hfull]⟩

/-- What is written is the length field, and as many bytes behind it as are received. -/
theorem insertPacket_outside {k : Nat}
    (hk : k < slotOffset q.recvQueueEnd ∨ slotOffset q.recvQueueEnd + 2 + len.toNat ≤ k) :
    (insertPacket host data len q).recvPacketQueue k = q.recvPacketQueue k := by
  rcases insertPacket_cases host data len q with ⟨-, heq⟩ | ⟨-, heq⟩
  · rw [heq]
  · rw [heq]
    simp only [storeHalf]
    rw [memcpy_outside (by omega), memcpy_outside (by omega)]

/-- What is received lies behind the length field, also where the slot is over. -/
theorem insertPacket_inside (hroom : next q.recvQueueEnd ≠ q.recvQueueStart) {k : Nat}
    (hk : k < len.toNat) :
    (insertPacket host data len q).recvPacketQueue (slotOffset q.recvQueueEnd + 2 + k) = data k := by
  rcases insertPacket_cases host data len q with ⟨hfull, -⟩ | ⟨-, heq⟩
  · exact absurd hfull hroom
  · rw [heq]
    refine (memcpy_inside (by omega) (by omega)).trans ?_
    rw [Nat.add_sub_cancel_left]

/-- The length field holds what has been handed over. -/
theorem length_insertPacket (hroom : next q.recvQueueEnd ≠ q.recvQueueStart) :
    ((insertPacket host data len q).slot host q.recvQueueEnd).length = len.setWidth 16 := by
  rcases insertPacket_cases host data len q with ⟨hfull, -⟩ | ⟨-, heq⟩
  · exact absurd hfull hroom
  · rw [heq]
    refine (loadHalf_congr ?_ ?_).trans (loadHalf_storeHalf host q.recvPacketQueue
      (slotOffset q.recvQueueEnd) (len.setWidth 16))
    · exact memcpy_outside (Or.inl (by omega))
    · exact memcpy_outside (Or.inl (by omega))

/-- Slot `i` ends before another slot begins, or begins behind it. -/
theorem slot_apart {i j : Fin MAX_PACKET_COUNT} (hne : i ≠ j) {k : Nat} (hk : k < sizeofRawPacket) :
    slotOffset i + k < slotOffset j ∨ slotOffset j + sizeofRawPacket ≤ slotOffset i + k := by
  have hval : i.val ≠ j.val := fun hval => hne (Fin.ext hval)
  have hsize : sizeofRawPacket = 8194 := rfl
  simp only [slotOffset, hsize] at hk ⊢
  omega

/-- A packet that fits changes no byte of another slot. -/
theorem insertPacket_other (hlen : len.toNat ≤ MAX_PACKET_SIZE) {i : Fin MAX_PACKET_COUNT}
    (hi : i ≠ q.recvQueueEnd) {k : Nat} (hk : k < sizeofRawPacket) :
    (insertPacket host data len q).recvPacketQueue (slotOffset i + k) =
      q.recvPacketQueue (slotOffset i + k) := by
  have hsize : sizeofRawPacket = 2 + MAX_PACKET_SIZE := rfl
  have hapart := slot_apart hi hk
  exact insertPacket_outside (by omega)

/-- The slot that is written holds the packet that was handed over. -/
theorem packet_insertPacket (hlen : len.toNat ≤ MAX_PACKET_SIZE)
    (hroom : next q.recvQueueEnd ≠ q.recvQueueStart) :
    ((insertPacket host data len q).slot host q.recvQueueEnd).packet = packetOf data len := by
  have hfit : (len.setWidth 16).toNat = len.toNat := by
    have hmax : MAX_PACKET_SIZE = 8192 := rfl
    rw [BitVec.toNat_setWidth]
    exact Nat.mod_eq_of_lt (by omega)
  rw [RawPacket.packet, packetOf, length_insertPacket hroom, hfit]
  refine congrArg (Packet.mk _) (List.map_congr_left fun k hk => ?_)
  exact insertPacket_inside hroom (List.mem_range.mp hk)

end Insert

/-! ### The invariant -/

/-- Where the task stands, and which slot it has been given last. -/
structure ReceiverInv (host : Host) (s : Receiver) : Prop where
  order : s.accepted = s.processed ++ inWork host s ++ waiting host s.queue
  fits : ∀ p ∈ s.accepted, p.length.toNat ≤ MAX_PACKET_SIZE
  held : ∀ i, s.held = some i → next i = s.queue.recvQueueStart
  working : ∀ i, s.pc = .process i → s.held = some i
  taking : ∀ i, s.pc = .removeAdvance i → i = s.queue.recvQueueStart
  available : s.pc ≠ .test → (∀ i, s.pc ≠ .process i) →
    s.queue.recvQueueStart ≠ s.queue.recvQueueEnd
  notNull : s.pc ≠ .processNull

section Step

variable {host : Host} {s : Receiver} {data : Bytes} {len : Word}

/-- The slot that is held is not the one that is written next. -/
theorem ReceiverInv.held_ne_end (h : ReceiverInv host s) {i : Fin MAX_PACKET_COUNT}
    (hi : s.held = some i) (hroom : next s.queue.recvQueueEnd ≠ s.queue.recvQueueStart) :
    i ≠ s.queue.recvQueueEnd := by
  rintro rfl
  exact hroom (h.held _ hi)

/-- A packet that fits, in a slot that is not written, stays what it is. -/
theorem packet_insertPacket_other (hlen : len.toNat ≤ MAX_PACKET_SIZE) {q : PacketQueue}
    {i : Fin MAX_PACKET_COUNT} (hi : i ≠ q.recvQueueEnd)
    (hfits : (q.slot host i).packet.length.toNat ≤ MAX_PACKET_SIZE) :
    ((insertPacket host data len q).slot host i).packet = (q.slot host i).packet := by
  have hsize : sizeofRawPacket = 2 + MAX_PACKET_SIZE := rfl
  have hlength : ((insertPacket host data len q).slot host i).length = (q.slot host i).length :=
    loadHalf_congr (insertPacket_other hlen hi (k := 0) (by omega))
      (insertPacket_other hlen hi (k := 1) (by omega))
  rw [RawPacket.packet, RawPacket.packet, hlength]
  refine congrArg (Packet.mk _) (List.map_congr_left fun k hk => ?_)
  have hk' : k < (q.slot host i).length.toNat := List.mem_range.mp hk
  have hinside : 2 + k < sizeofRawPacket := by
    have hle : (q.slot host i).length.toNat ≤ MAX_PACKET_SIZE := hfits
    omega
  have hbyte : (insertPacket host data len q).recvPacketQueue (slotOffset i + (2 + k)) =
      q.recvPacketQueue (slotOffset i + (2 + k)) := insertPacket_other hlen hi hinside
  simpa only [PacketQueue.slot, Nat.add_assoc] using hbyte

/-- Every packet that the receiver knows has a length that fits. -/
theorem ReceiverInv.fits_slot (h : ReceiverInv host s) {i : Fin MAX_PACKET_COUNT}
    (hi : s.pc = .process i ∨ i ∈ interval s.queue.recvQueueStart s.queue.recvQueueEnd) :
    (s.queue.slot host i).packet.length.toNat ≤ MAX_PACKET_SIZE := by
  apply h.fits
  rw [h.order]
  rcases hi with hpc | hmem
  · simp [inWork, hpc]
  · exact List.mem_append_right _ (List.mem_map_of_mem hmem)

/-- An interrupt appends its packet to those waiting, or is turned away. -/
theorem receiverInv_interrupt (h : ReceiverInv host s) (hlen : len.toNat ≤ MAX_PACKET_SIZE) :
    ReceiverInv host (receiverStep host s (.interrupt data len)) := by
  rcases insertPacket_cases host data len s.queue with ⟨-, heq⟩ | ⟨hroom, heq⟩
  · have hsame : receiverStep host s (.interrupt data len) = s := by
      simp [receiverStep, heq]
    rw [hsame]
    exact h
  · have hstart : (insertPacket host data len s.queue).recvQueueStart =
        s.queue.recvQueueStart := by rw [heq]
    have hend : (insertPacket host data len s.queue).recvQueueEnd =
        next s.queue.recvQueueEnd := by rw [heq]
    have hmoved : (insertPacket host data len s.queue).recvQueueEnd ≠ s.queue.recvQueueEnd := by
      rw [hend]
      exact next_ne_self (by decide) _
    have hwaiting : waiting host (insertPacket host data len s.queue) =
        waiting host s.queue ++ [packetOf data len] := by
      rw [waiting, hstart, hend, contents_write (fun i => (s.queue.slot host i).packet)
        hroom, packet_insertPacket hlen hroom]
      · rfl
      · intro i hi
        exact packet_insertPacket_other hlen
          (ne_of_mem_of_not_mem hi (stop_notMem_interval _ _)) (h.fits_slot (Or.inr hi))
    -- the slot in work has been given back, but it is not the one that is written
    have hwork : inWork host (receiverStep host s (.interrupt data len)) = inWork host s := by
      simp only [inWork, receiverStep]
      cases hpc : s.pc with
      | process i =>
          simp only
          rw [packet_insertPacket_other hlen (h.held_ne_end (h.working i hpc) hroom)
            (h.fits_slot (Or.inl hpc))]
      | _ => rfl
    constructor
    · rw [hwork]
      simp only [receiverStep, if_pos hmoved, hwaiting, h.order, List.append_assoc]
    · simp only [receiverStep, if_pos hmoved]
      intro p hp
      rcases List.mem_append.mp hp with hold | hnew
      · exact h.fits p hold
      · rw [List.mem_singleton.mp hnew]
        exact (Nat.mod_le _ _).trans hlen
    · simpa only [receiverStep, hstart] using h.held
    · exact h.working
    · simpa only [receiverStep, hstart] using h.taking
    · intro _ _
      simp only [receiverStep, hstart, hend]
      exact hroom.symm
    · exact h.notNull

/-- A step of the task moves the first waiting packet into work, or the packet
in work to those processed, or nothing. -/
theorem receiverInv_task (h : ReceiverInv host s) :
    ReceiverInv host (receiverStep host s .task) := by
  have horder := h.order
  simp only [receiverStep, taskStep]
  cases hpc : s.pc with
  | test =>
      simp only [inWork, hpc] at horder
      by_cases hnew : newPacketAvailable s.queue
      · simp only [if_pos hnew]
        refine ⟨horder, h.fits, h.held, by simp, by simp, fun _ _ => ?_, by simp⟩
        simpa [newPacketAvailable] using hnew
      · simp only [if_neg hnew]
        exact h
  | removeCheck =>
      simp only [inWork, hpc] at horder
      have hsome : s.queue.recvQueueStart ≠ s.queue.recvQueueEnd :=
        h.available (by simp [hpc]) (by simp [hpc])
      simp only [if_neg hsome]
      exact ⟨horder, h.fits, h.held, by simp, by simp, fun _ _ => hsome, by simp⟩
  | removeTake =>
      simp only [inWork, hpc] at horder
      refine ⟨horder, h.fits, h.held, by simp, ?_, fun _ _ => ?_, by simp⟩
      · intro i hi
        exact (Pc.removeAdvance.inj hi).symm
      · exact h.available (by simp [hpc]) (by simp [hpc])
  | removeAdvance packet =>
      simp only [inWork, hpc] at horder
      have hsome : s.queue.recvQueueStart ≠ s.queue.recvQueueEnd :=
        h.available (by simp [hpc]) (by simp [hpc])
      obtain rfl : packet = s.queue.recvQueueStart := h.taking packet hpc
      refine ⟨?_, h.fits, ?_, ?_, by simp, ?_, by simp⟩
      · rw [horder, waiting, contents_take hsome]
        simp [inWork, waiting, PacketQueue.slot]
      · intro i hi
        rw [← Option.some.inj hi]
      · intro i hi
        rw [Pc.process.inj hi]
      · -- the queue may be empty now
        intro _ hprocess
        exact absurd rfl (hprocess s.queue.recvQueueStart)
  | process packet =>
      simp only [inWork, hpc] at horder
      refine ⟨?_, h.fits, h.held, by simp, by simp, by simp, by simp⟩
      simpa [inWork] using horder
  | processNull => exact absurd hpc h.notNull

/-- What the invariant says about one event. -/
theorem keepsHeldSlot_step (h : ReceiverInv host s) {e : Event} (hfits : LengthFits e) :
    KeepsHeldSlot host s e := by
  rintro data len rfl
  rcases insertPacket_cases host data len s.queue with ⟨hfull, heq⟩ | ⟨hroom, heq⟩
  · refine ⟨fun _ => ?_, fun i _ k _ => by simp only [receiverStep, heq]⟩
    rw [waiting, length_contents]
    exact next_eq_iff_full.mp hfull
  · constructor
    · -- an accepted packet is recorded, so this one has not been turned away
      intro hrejected
      have hmoved : (insertPacket host data len s.queue).recvQueueEnd ≠ s.queue.recvQueueEnd := by
        rw [heq]
        exact next_ne_self (by decide) _
      simp only [receiverStep, if_pos hmoved] at hrejected
      simp at hrejected
    · intro i hi k hk
      exact insertPacket_other hfits (h.held_ne_end hi hroom) hk

end Step

/-! ### How long the task takes -/

/-- The steps of the task until it has processed the first `n` packets: five for
each of them. -/
def taskUntil (n : Nat) (s : Receiver) : Nat :=
  match s.pc with
  | .test | .processNull => 5 * (n - s.processed.length)
  | .removeCheck => 5 * (n - s.processed.length) - 1
  | .removeTake => 5 * (n - s.processed.length) - 2
  | .removeAdvance _ => 5 * (n - s.processed.length) - 3
  | .process _ => 5 * (n - s.processed.length) - 4

section Progress

variable {host : Host} {s : Receiver}

/-- The packets that have been accepted and not processed yet. -/
theorem ReceiverInv.length_accepted (h : ReceiverInv host s) :
    s.accepted.length =
      s.processed.length + ((inWork host s).length + (waiting host s.queue).length) := by
  rw [h.order, List.length_append, List.length_append, Nat.add_assoc]

/-- One packet is in work at most, and the queue is never more than full. -/
theorem taskUntil_lt (h : ReceiverInv host s) : taskUntil s.accepted.length s < 640 := by
  have hlength := h.length_accepted
  have hwaiting : (waiting host s.queue).length < MAX_PACKET_COUNT := by
    rw [waiting, length_contents]
    exact ahead_lt _ _
  have hcount : MAX_PACKET_COUNT = 128 := rfl
  unfold taskUntil
  cases hpc : s.pc <;>
    simp only [inWork, hpc, List.length_nil, List.length_singleton] at hlength ⊢ <;> omega

/-- **Every step of the task counts**, as long as one of the packets is left. -/
theorem taskUntil_less (h : ReceiverInv host s) {n : Nat} (hn : n ≤ s.accepted.length)
    (hmore : s.processed.length < n) : taskUntil n (taskStep host s) < taskUntil n s := by
  cases hpc : s.pc with
  | test =>
      have hnew : newPacketAvailable s.queue = true := by
        -- no packet is in work, so that one is waiting
        have hlength := h.length_accepted
        by_contra hempty
        have hsame : s.queue.recvQueueStart = s.queue.recvQueueEnd := by
          simpa [newPacketAvailable] using hempty
        simp only [inWork, hpc, waiting, hsame, contents_self, List.length_nil] at hlength
        omega
      simp only [taskUntil, taskStep, hpc, if_pos hnew]
      omega
  | removeCheck =>
      have hsome := h.available (by simp [hpc]) (by simp [hpc])
      simp only [taskUntil, taskStep, hpc, if_neg hsome]
      omega
  | removeTake =>
      simp only [taskUntil, taskStep, hpc]
      omega
  | removeAdvance packet =>
      simp only [taskUntil, taskStep, hpc]
      omega
  | process packet =>
      simp only [taskUntil, taskStep, hpc, List.length_append, List.length_singleton]
      omega
  | processNull => exact absurd hpc h.notNull

/-- Nothing that has been processed is taken back. -/
theorem processed_receiverStep (host : Host) (s : Receiver) (e : Event) :
    s.processed.length ≤ (receiverStep host s e).processed.length := by
  cases e with
  | interrupt data len => exact Nat.le_refl _
  | task =>
      simp only [receiverStep, taskStep]
      cases s.pc with
      | process packet => simp
      | test =>
          simp only
          split <;> exact Nat.le_refl _
      | removeCheck =>
          simp only
          split <;> exact Nat.le_refl _
      | _ => exact Nat.le_refl _

/-- What has been processed had been accepted, and in this order. -/
theorem ReceiverInv.processed_prefix (h : ReceiverInv host s) : s.processed <+: s.accepted := by
  rw [h.order, List.append_assoc]
  exact List.prefix_append _ _

@[simp] theorem accepted_taskStep (host : Host) (s : Receiver) :
    (taskStep host s).accepted = s.accepted := by
  unfold taskStep
  split <;> (try split) <;> rfl

/-- What has been accepted stays accepted. -/
theorem accepted_receiverStep (host : Host) (s : Receiver) (e : Event) :
    s.accepted <+: (receiverStep host s e).accepted := by
  cases e with
  | interrupt data len =>
      simp only [receiverStep]
      split
      · exact List.prefix_append _ _
      · exact List.prefix_refl _
  | task => rw [receiverStep, accepted_taskStep]

end Progress

/-! ### Runs -/

theorem receiverInv_initial (host : Host) : ReceiverInv host initialReceiver where
  order := by simp [initialReceiver, inWork, waiting]
  fits := by simp [initialReceiver]
  held := by simp [initialReceiver]
  working := by simp [initialReceiver]
  taking := by simp [initialReceiver]
  available := by simp [initialReceiver]
  notNull := by simp [initialReceiver]

theorem receiverInv_step {host : Host} (s : Receiver) (e : Event) (h : ReceiverInv host s)
    (hfits : LengthFits e) : ReceiverInv host (receiverStep host s e) := by
  cases e with
  | interrupt data len => exact receiverInv_interrupt h hfits
  | task => exact receiverInv_task h

/-- The task gets through the packets that have been accepted. -/
theorem ReceiverInv.catchesUp {host : Host} {s : Receiver} (h : ReceiverInv host s) :
    CatchesUp host s := by
  intro events hfits henough
  have hok : EveryStep (receiverStep host) (fun _ e => LengthFits e) s events :=
    everyStep_of_forall_mem hfits
  refine run_worksOff (ReceiverInv host) (fun _ e => e.isTask = true) Receiver.accepted
    Receiver.processed taskUntil receiverInv_step (fun _ h => h.processed_prefix)
    (fun s e _ _ => accepted_receiverStep host s e)
    (fun s e _ _ => processed_receiverStep host s e) ?_ ?_ h hok ?_
  · intro n s e h _ hown hyet hn
    cases e with
    | interrupt data len => exact absurd hown Bool.false_ne_true
    | task => exact taskUntil_less h hn hyet
  · intro n s e _ _ hother _ _
    cases e with
    | interrupt data len => exact Nat.le_refl _
    | task => exact absurd rfl hother
  · rw [countSteps_eq_countP]
    exact (taskUntil_lt h).trans_le henough

/-- **Every accepted packet is processed once, in order, and unaltered**, at
whatever moments the interrupts come; and the task does get through all of them. -/
theorem packets_in_order (host : Host) (events : List Event)
    (hfits : ∀ e ∈ events, LengthFits e) :
    EveryState (receiverStep host) (InOrder host) initialReceiver events ∧
    EveryStep (receiverStep host) (KeepsHeldSlot host) initialReceiver events ∧
    EveryState (receiverStep host) (CatchesUp host) initialReceiver events := by
  have hok : EveryStep (receiverStep host) (fun _ e => LengthFits e) initialReceiver events :=
    everyStep_of_forall_mem hfits
  have hinit := receiverInv_initial host
  have hinv := everyState_of_invariant receiverInv_step hinit hok
  refine ⟨hinv.imp fun s h => ⟨h.order, h.notNull⟩, ?_, hinv.imp fun s h => h.catchesUp⟩
  exact everyStep_of_invariant receiverInv_step (fun _ _ h => keepsHeldSlot_step h) hinit hok

/-- Two packets arrive, the second one while the first is taken out. -/
def twoPackets : List Event :=
  [.interrupt (fun k => BitVec.ofNat 8 k) 60, .task, .task, .task,
    .interrupt (fun _ => 0xff) 3, .task, .interrupt (fun _ => 0) 8192, .task, .task]

theorem twoPackets_in_order :
    EveryState (receiverStep versatileHost) (InOrder versatileHost) initialReceiver twoPackets ∧
    EveryStep (receiverStep versatileHost) (KeepsHeldSlot versatileHost) initialReceiver
      twoPackets ∧
    EveryState (receiverStep versatileHost) (CatchesUp versatileHost) initialReceiver twoPackets :=
  packets_in_order versatileHost twoPackets (by decide)

end Network
end Ninjastorms
