import Ninjastorms.Libc.TransientAllocations
import Ninjastorms.Network.EthernetSend

/-!
# `ethernet_send` without memory

A machine on which a program uses the allocator and sends frames.  A send that
finds room is a `malloc`, writes into the new block, and a `free`
(`inv_send`), so that it keeps the invariant of the allocator.

`ethernet_send` does not test the pointer.  When `malloc` returns null, the frame
is built at the address 0 and sent from there, and `free` puts a block 16 bytes
below the end of the address space on the free list (`send_without_room`).
`exhaustion_harmless_iff` says that a send without room is never harmless.
-/

namespace Ninjastorms
namespace Network

open Libc Lib.ByteMemory Lib.LinkedList Lib.Runs

/-- The allocator with its client, and the card. -/
structure System where
  client : Client
  nic : Transmitter

/-- The program uses the allocator, or sends a frame. -/
inductive SystemEvent where
  | call (call : Call)
  | send (call : EthernetCall)

def initialSystem (head : ListHead) (mem : Mem) (nic : Transmitter) : System where
  client := initialClient head mem
  nic := nic

def systemStep (head : ListHead) (host : Host) (s : System) : SystemEvent → System
  | .call call => { s with client := step head s.client call }
  | .send call =>
      match ethernetSendAt head host call ⟨s.client.heap, s.nic⟩ with
      | none => { s with client := { s.client with hung := true } }
      | some m => { client := { s.client with heap := m.heap }, nic := m.nic }

/-- `malloc` can serve the request: a free block is large enough, or the break can
be moved far enough, as `sbrk` computes it. -/
def HasRoom (head : ListHead) (c : Client) (size : Word) : Prop :=
  ∃ free, Chain c.heap.mem (load32 c.heap.mem head.address) free ∧
    ((∃ a ∈ free, align16 (size + overhead) ≤ blockSize c.heap.mem a) ∨
      c.heap.currentHeapAddress + align16 (size + overhead) ≤ HEAP_START + HEAP_SIZE)

/-- The length of the frame, and the sums that `malloc` and `sbrk` form for it, are
the mathematical ones. -/
def FrameFits (c : Client) (call : EthernetCall) : Prop :=
  14 + max call.lenPayload.toNat 46 < 2 ^ 32 ∧ Fits c (requestedSize call.lenPayload)

/-- The events of a run in which the heap has never been exhausted by a send: the
program keeps to the rules of the allocator, and every frame finds room. -/
def Permitted (head : ListHead) (s : System) : SystemEvent → Prop
  | .call call => Legal s.client call ∧ RequestOk head s.client call
  | .send call => FrameFits s.client call ∧ HasRoom head s.client (requestedSize call.lenPayload)

/-- If `malloc` returns null inside `ethernet_send`, nothing is transmitted, no
memory is written (the free list is part of it), the break stays where it is,
and what a later `malloc` returns is inside the heap. -/
def Harmless (head : ListHead) (host : Host) (s : System) (call : EthernetCall) : Prop :=
  ∀ heap, malloc head (requestedSize call.lenPayload) s.client.heap = some (0, heap) →
    let s' := systemStep head host s (.send call)
    s'.nic.transmitted = s.nic.transmitted ∧ s'.client.heap.mem = s.client.heap.mem ∧
    s'.client.heap.currentHeapAddress = s.client.heap.currentHeapAddress ∧
    ∀ size ptr heap', Fits s'.client size → malloc head size s'.client.heap = some (ptr, heap') →
      ptr ≠ 0 → HEAP_START.toNat ≤ ptr.toNat ∧ ptr.toNat + size.toNat ≤ heapEnd

section Room

variable {head : ListHead} {c : Client} {free : List Word} {blocks : List (Nat × Nat)} {size : Word}

/-- With room, `malloc` returns a block. -/
theorem malloc_of_room (h : Shape head c free blocks) (hroom : HasRoom head c size) :
    ∃ ptr heap, malloc head size c.heap = some (ptr, heap) ∧ ptr ≠ 0 := by
  obtain ⟨free', hchain, hfits⟩ := hroom
  obtain rfl := hchain.unique h.chain
  refine malloc_returns_block h fun hsmall => ?_
  rcases hfits with ⟨a, ha, hlarge⟩ | hmoves
  · exact absurd (hsmall a ha) (BitVec.not_lt.mpr hlarge)
  · exact BitVec.not_lt.mpr hmoves

/-- Without room, it returns null and sets `errno`. -/
theorem malloc_without_room (h : Shape head c free blocks) (hroom : ¬ HasRoom head c size) :
    malloc head size c.heap = some (0, { c.heap with errno := SymbolicErrno.ENOMEM.val }) := by
  rcases search_spec (align16 (size + overhead)) head.address h.chain h.length_free_lt with
    ⟨hsearch, -⟩ | ⟨pre, block, post, rfl, hlarge, -, -⟩
  · have hfull : c.heap.currentHeapAddress + align16 (size + overhead) > HEAP_START + HEAP_SIZE :=
      BitVec.not_le.mp fun hmoves => hroom ⟨free, h.chain, Or.inr hmoves⟩
    simp only [malloc, hsearch, sbrk, if_pos hfull, if_true]
  · exact absurd ⟨_, h.chain, Or.inl ⟨block, by simp, hlarge⟩⟩ hroom

end Room

/-! ### One send -/

section Send

variable {head : ListHead} {host : Host} {s : System} {call : EthernetCall}

theorem toNat_requestedSize (h : 14 + max call.lenPayload.toNat 46 < 2 ^ 32) :
    (requestedSize call.lenPayload).toNat = 14 + max call.lenPayload.toNat 46 := by
  rw [requestedSize, BitVec.toNat_add, toNat_paddedLen]
  exact Nat.mod_eq_of_lt h

theorem systemStep_send {ptr : Word} {heap : Heap}
    (hmalloc : malloc head (requestedSize call.lenPayload) s.client.heap = some (ptr, heap)) :
    (systemStep head host s (.send call)).client =
      { s.client with
        heap := Libc.free head ptr { heap with mem := fillFrameAt host call ptr heap.mem } } ∧
    (systemStep head host s (.send call)).nic =
      (e1000SendPacketAt host (fillFrameAt host call ptr heap.mem) ptr
        ((requestedSize call.lenPayload).setWidth 16) s.nic).2 := by
  have hsend : ethernetSendAt head host call ⟨s.client.heap, s.nic⟩ = some _ :=
    ethernetSendAt_of_malloc hmalloc
  rw [systemStep, hsend]
  exact ⟨rfl, rfl⟩

/-- **A send with room** is a `malloc`, writes into the new block, and a `free`. -/
theorem inv_send (h : Inv head s.client) (hfits : FrameFits s.client call)
    (hroom : HasRoom head s.client (requestedSize call.lenPayload)) :
    Inv head (systemStep head host s (.send call)).client := by
  obtain ⟨free, blocks, hshape⟩ := h
  obtain ⟨hlen, hsums⟩ := hfits
  obtain ⟨ptr, heap, hmalloc, hptr⟩ := malloc_of_room hshape hroom
  let block : Block := ⟨ptr, requestedSize call.lenPayload⟩
  let taken : Client := { s.client with heap := heap, live := block :: s.client.live }
  have htaken : step head s.client (.malloc (requestedSize call.lenPayload)) = taken := by
    simp only [step, hmalloc, if_neg hptr, taken, block]
  obtain ⟨free₁, blocks₁, hshape₁⟩ : Inv head taken := htaken ▸ inv_malloc hshape hsums
  -- the frame is as long as the block
  have hwrites : WritesInto taken block (fillFrameAt host call ptr heap.mem) := by
    intro x hx
    refine fillFrameAt_outside (by omega) ?_
    rw [← toNat_requestedSize hlen]
    exact hx
  obtain ⟨free₂, blocks₂, hshape₂⟩ := inv_write hshape₁ (List.mem_cons_self) hwrites
  have hblock : ∃ b ∈ block :: s.client.live, b.ptr = ptr := ⟨block, List.mem_cons_self, rfl⟩
  have hfreed := inv_free hshape₂ hblock
  rw [(systemStep_send hmalloc).1]
  have hlive : (block :: s.client.live).eraseP (fun b => b.ptr == ptr) = s.client.live := by
    simp [block]
  simp only [step, taken, hlive] at hfreed
  exact hfreed

/-- **A send without room** leaves a block at the end of the address space on the
free list. -/
theorem send_without_room (h : Inv head s.client)
    (hroom : ¬ HasRoom head s.client (requestedSize call.lenPayload)) :
    load32 (systemStep head host s (.send call)).client.heap.mem head.address = nullBlock := by
  obtain ⟨free, blocks, hshape⟩ := h
  rw [(systemStep_send (malloc_without_room hshape hroom)).1]
  exact load32_store32_self _ _ _

/-- The list head of a heap in order is not at the end of the address space. -/
theorem head_ne_nullBlock (h : Inv head s.client) :
    load32 s.client.heap.mem head.address ≠ nullBlock := by
  obtain ⟨free, blocks, hshape⟩ := h
  intro hnull
  have hend : HEAP_START.toNat + HEAP_SIZE.toNat < nullBlock.toNat := by decide
  have hbreak := hshape.bounded
  cases free with
  | nil => exact absurd (hshape.chain.symm.trans hnull) (by decide)
  | cons a rest =>
      have ha : a = nullBlock := hshape.chain.1.symm.trans hnull
      obtain ⟨-, -, hhigh⟩ := hshape.bounds (a := a) (by simp [headers])
      rw [ha] at hhigh
      omega

/-- A send is harmless exactly if the heap has room for the frame. -/
theorem harmless_iff (h : Inv head s.client) :
    Harmless head host s call ↔ HasRoom head s.client (requestedSize call.lenPayload) := by
  obtain ⟨free, blocks, hshape⟩ := h
  constructor
  · intro hharmless
    by_contra hroom
    obtain ⟨-, hmem, -, -⟩ := hharmless _ (malloc_without_room hshape hroom)
    have hhead : load32 (systemStep head host s (.send call)).client.heap.mem head.address =
        nullBlock := send_without_room ⟨free, blocks, hshape⟩ hroom
    rw [hmem] at hhead
    exact head_ne_nullBlock ⟨free, blocks, hshape⟩ hhead
  · intro hroom heap hnull
    obtain ⟨ptr, heap', hmalloc, hptr⟩ := malloc_of_room hshape hroom
    rw [hmalloc] at hnull
    exact absurd (Prod.mk.inj (Option.some.inj hnull)).1 hptr

end Send

/-! ### Runs -/

theorem inv_systemStep {head : ListHead} {host : Host} (s : System) (event : SystemEvent)
    (h : Inv head s.client) (hpermitted : Permitted head s event) :
    Inv head (systemStep head host s event).client := by
  cases event with
  | call call => exact inv_step_of_requestOk h hpermitted.1 hpermitted.2
  | send call => exact inv_send h hpermitted.1 hpermitted.2

/-- **Running out of heap.**  Whatever has happened before, as long as every frame so
far has found room, the next send is harmless exactly if its frame finds room
too. -/
theorem exhaustion_harmless_iff (head : ListHead) (host : Host) (mem : Mem) (nic : Transmitter)
    (events : List SystemEvent)
    (hpermitted : EveryStep (systemStep head host) (Permitted head)
      (initialSystem head mem nic) events) (call : EthernetCall) :
    let s := run (systemStep head host) (initialSystem head mem nic) events
    Harmless head host s call ↔ HasRoom head s.client (requestedSize call.lenPayload) := by
  intro s
  have hinv : EveryState (systemStep head host) (fun s => Inv head s.client)
      (initialSystem head mem nic) events :=
    everyState_of_invariant inv_systemStep (inv_initial head mem) hpermitted
  exact harmless_iff (everyState_iff_reached.mp hinv events List.prefix_rfl)

/-- A frame of the least length. -/
def shortFrame : EthernetCall where
  destMac := BROADCAST_MAC
  ethType := TYPE_IPv4
  payload := 0x3FE0000
  lenPayload := 46

/-- One frame has been sent, and most of the heap is in use. -/
theorem shortFrame_harmless_iff :
    let head : ListHead := ⟨0x8000, by decide⟩
    let s := run (systemStep head versatileHost)
      (initialSystem head (fun _ => 0) idleTransmitter)
      [.send shortFrame, .call (.malloc 0xFFF000)]
    Harmless head versatileHost s shortFrame ↔
      HasRoom head s.client (requestedSize shortFrame.lenPayload) := by
  refine exhaustion_harmless_iff ⟨0x8000, by decide⟩ versatileHost (fun _ => 0) _ _ ?_ shortFrame
  refine ⟨⟨⟨by decide, by decide⟩, [], rfl, Or.inr (by decide)⟩, ⟨trivial, Or.inl ?_⟩, trivial⟩
  decide +kernel

/-- The whole heap is in use. -/
def fullSystem : System :=
  run (systemStep ⟨0x8000, by decide⟩ versatileHost)
    (initialSystem ⟨0x8000, by decide⟩ (fun _ => 0) idleTransmitter)
    [.call (.malloc 0xFFFFF0)]

/-- The frame is sent from the address 0. -/
theorem fullSystem_not_harmless :
    ¬ Harmless ⟨0x8000, by decide⟩ versatileHost fullSystem shortFrame := by
  intro hharmless
  have hnull : (malloc ⟨0x8000, by decide⟩ (requestedSize shortFrame.lenPayload)
      fullSystem.client.heap).map Prod.fst = some 0 := by decide +kernel
  obtain ⟨⟨ptr, heap⟩, hmalloc, rfl⟩ := Option.map_eq_some_iff.mp hnull
  have hsent := (hharmless heap hmalloc).1
  exact absurd (congrArg List.length hsent) (by decide +kernel)

end Network
end Ninjastorms
