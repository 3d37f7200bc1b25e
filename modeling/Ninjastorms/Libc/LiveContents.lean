import Ninjastorms.Libc.AllocatorSafety

/-!
# What a live block holds

`malloc` and `free` write into memory: links, and the size field of a new block.
`Shape` says where these lie, and so that none of them is in the area of a live
block (`malloc_keeps_area`, `free_keeps_area`).  A program therefore reads from a
live block what it has stored there last, whatever else it does with the
allocator in between (`live_block_holds`).
-/

namespace Ninjastorms
namespace Libc

open Lib.ByteMemory Lib.LinkedList Lib.Runs

/-- The byte of the area of a live block at an address. -/
def InArea (b : Block) (x : Word) : Prop :=
  offset b.ptr x < b.size.toNat

instance (b : Block) (x : Word) : Decidable (InArea b x) :=
  inferInstanceAs (Decidable (_ < _))

/-- The call does not release the block. -/
def KeepsBlock (b : Block) : Call → Prop
  | .free ptr => ptr ≠ b.ptr
  | _ => True

instance (b : Block) : (call : Call) → Decidable (KeepsBlock b call)
  | .free ptr => inferInstanceAs (Decidable (ptr ≠ b.ptr))
  | .malloc _ | .store _ _ => inferInstanceAs (Decidable True)

/-- The value that a call stores at an address. -/
def storedAt (x : Word) : Call → Option Byte
  | .store address value => if address = x then some value else none
  | _ => none

section Shape

variable {head : ListHead} {c : Client} {free : List Word} {blocks : List (Nat × Nat)} {b : Block}
  {x : Word}

/-- No link lies in the area of a live block. -/
theorem Shape.area_link (h : Shape head c free blocks) (hb : b ∈ c.live) (hx : InArea b x)
    {link : Word} (hlink : IsLink head c free link) : ¬ offset link x < 4 := by
  intro hin
  obtain ⟨hge, hlt⟩ := h.offset_store hb hx
  rcases hlink with rfl | hmem
  · exact h.separate_head (header_mem_headers hb) x ⟨hlt, by omega⟩
  · by_cases heq : link = b.header
    · rw [heq] at hin
      omega
    · have hsize := (h.bounds hmem).2.1
      exact h.separate (header_mem_headers hb) hmem (Ne.symm heq) x ⟨hlt, by omega⟩

/-- Live blocks with different headers have no byte in common. -/
theorem Shape.separate_areas (h : Shape head c free blocks) {b b' : Block} (hb : b ∈ c.live)
    (hb' : b' ∈ c.live) (hne : b.header ≠ b'.header) :
    Separate b.ptr b.size.toNat b'.ptr b'.size.toNat := by
  rintro x ⟨hx, hx'⟩
  have hin := (h.offset_store hb hx).2
  have hin' := (h.offset_store hb' hx').2
  exact h.separate (header_mem_headers hb) (header_mem_headers hb') hne x ⟨hin, hin'⟩

/-- Nor have different live blocks. -/
theorem Shape.separate_live (h : Shape head c free blocks) {b b' : Block} (hb : b ∈ c.live)
    (hb' : b' ∈ c.live) (hne : b ≠ b') : Separate b.ptr b.size.toNat b'.ptr b'.size.toNat := by
  have hnodup : (c.live.map Block.header).Nodup := (List.nodup_append.mp h.nodup).2.1
  exact h.separate_areas hb hb' fun heq => hne (List.inj_on_of_nodup_map hnodup hb hb' heq)

theorem step_malloc {size ptr : Word} {heap : Heap}
    (hcall : malloc head size c.heap = some (ptr, heap)) (hptr : ptr ≠ 0) :
    step head c (.malloc size) = { c with heap := heap, live := ⟨ptr, size⟩ :: c.live } := by
  simp only [step, hcall, if_neg hptr]

/-- `malloc` succeeds if there is room at the break, and then the break has moved
by the size of the new block at most. -/
theorem Shape.malloc_succeeds {size : Word} (h : Shape head c free blocks)
    (hrequest : size.toNat + 31 < 2 ^ 32)
    (hroom : c.heap.currentHeapAddress.toNat + (align16 (size + overhead)).toNat ≤
      HEAP_START.toNat + HEAP_SIZE.toNat) :
    ∃ ptr heap, malloc head size c.heap = some (ptr, heap) ∧ ptr ≠ 0 ∧
      step head c (.malloc size) = { c with heap := heap, live := ⟨ptr, size⟩ :: c.live } ∧
      heap.currentHeapAddress.toNat ≤
        c.heap.currentHeapAddress.toNat + (align16 (size + overhead)).toNat := by
  have hHeap : HEAP_START.toNat + HEAP_SIZE.toNat + 16 < 2 ^ 32 := by decide
  have hbreak := h.bounded
  have hsum : c.heap.currentHeapAddress.toNat + (align16 (size + overhead)).toNat < 2 ^ 32 := by
    omega
  rcases malloc_of_chain h.chain h.length_free_lt hsum h.break_ne_zero with
    ⟨hfull, -, -⟩ | ⟨pre, block, post, rfl, -, hcall⟩ | ⟨-, -, hcall⟩
  · exact absurd hroom (Nat.not_le.mpr hfull)
  · obtain ⟨-, hlarge, hhigh⟩ := h.bounds (a := block) (by simp [headers])
    have hne : block + overhead ≠ 0 := add_overhead_ne_zero (by omega)
    exact ⟨_, _, hcall, hne, step_malloc hcall hne, Nat.le_add_right _ _⟩
  · obtain ⟨hfit, -, -⟩ := toNat_blockSize_request hrequest
    have hne : c.heap.currentHeapAddress + overhead ≠ 0 := add_overhead_ne_zero (by omega)
    exact ⟨_, _, hcall, hne, step_malloc hcall hne, Nat.le_of_eq (BitVec.toNat_add_of_lt hsum)⟩

/-- `malloc` changes no byte of a live block. -/
theorem malloc_keeps_area {size : Word} (h : Shape head c free blocks) (hfits : Fits c size)
    (hb : b ∈ c.live) (hx : InArea b x) :
    (step head c (.malloc size)).heap.mem x = c.heap.mem x := by
  rcases malloc_cases h hfits with hstep | ⟨pre, block, post, rfl, -, hstep⟩ |
    ⟨total, hfit, -, hroom, hstep⟩
  · rw [hstep]
  · rw [hstep]
    exact store32_outside (h.area_link hb hx isLink_lastLink)
  · rw [hstep]
    refine store32_outside fun hin => ?_
    -- the new header lies behind the break
    obtain ⟨-, hlt⟩ := h.offset_store hb hx
    exact (h.separate_break (by omega)).2 _ (header_mem_headers hb) x ⟨hlt, hin⟩

/-- `free` changes no byte of a block that stays live. -/
theorem free_keeps_area {ptr : Word} (h : Shape head c free blocks)
    (hlive : ∃ d ∈ c.live, d.ptr = ptr) (hb : b ∈ c.live) (hx : InArea b x) :
    (Libc.free head ptr c.heap).mem x = c.heap.mem x := by
  obtain ⟨d, hd, rfl⟩ := hlive
  have hlink : IsLink head c free d.header := Or.inr (header_mem_headers hd)
  exact (store32_outside (h.area_link hb hx (Or.inl rfl))).trans
    (store32_outside (h.area_link hb hx hlink))

/-- One call changes a byte of a live block only by storing to it. -/
theorem area_step (h : Inv head c) {call : Call} (hallowed : Allowed c call) (hb : b ∈ c.live)
    (hx : InArea b x) :
    (step head c call).heap.mem x = (storedAt x call).getD (c.heap.mem x) := by
  obtain ⟨free, blocks, hshape⟩ := h
  cases call with
  | malloc size => exact malloc_keeps_area hshape (hshape.fits hallowed) hb hx
  | free ptr => exact free_keeps_area hshape hallowed hb hx
  | store address value =>
      simp only [step, storedAt]
      by_cases heq : address = x
      · rw [if_pos heq, if_pos heq.symm]
        rfl
      · rw [if_neg heq, if_neg (Ne.symm heq)]
        rfl

/-- A block stays live until it is released. -/
theorem live_step (call : Call) (hb : b ∈ c.live) (hkeeps : KeepsBlock b call) :
    b ∈ (step head c call).live := by
  cases call with
  | malloc size =>
      simp only [step]
      split
      · exact hb
      · split
        · exact hb
        · exact List.mem_cons_of_mem _ hb
  | free ptr =>
      have hother : ¬ (b.ptr == ptr) = true := fun heq => hkeeps (beq_iff_eq.mp heq).symm
      exact (List.mem_eraseP_of_neg (p := fun b => b.ptr == ptr) hother).mpr hb
  | store address value => exact hb

/-- What a program that keeps to the rules has made of the heap. -/
theorem inv_run {mem : Mem} {calls : List Call}
    (hcalls : EveryStep (step head) Allowed (initialClient head mem) calls) :
    Inv head (run (step head) (initialClient head mem) calls) := by
  have hstates := everyState_of_invariant inv_step (inv_initial head mem) hcalls
  exact everyState_iff_reached.mp hstates calls (List.prefix_refl _)

end Shape

/-- **A live block holds what was stored in it.**  In every run of allowed calls,
from any state that such a run can reach, each byte of a block that is not
released is the one that was stored last, or the one that was there. -/
theorem live_block_holds (head : ListHead) (mem : Mem) (earlier calls : List Call)
    (hearlier : EveryStep (step head) Allowed (initialClient head mem) earlier)
    (b : Block) (hb : b ∈ (run (step head) (initialClient head mem) earlier).live)
    (hcalls : EveryStep (step head) (fun c call => Allowed c call ∧ KeepsBlock b call)
      (run (step head) (initialClient head mem) earlier) calls) :
    let c := run (step head) (initialClient head mem) earlier
    b ∈ (run (step head) c calls).live ∧
    ∀ x, InArea b x → (run (step head) c calls).heap.mem x =
      (lastFixed (storedAt x) calls).getD (c.heap.mem x) := by
  intro c
  have hinv : Inv head c := inv_run hearlier
  have hkeep : ∀ c call, (Inv head c ∧ b ∈ c.live) → (Allowed c call ∧ KeepsBlock b call) →
      Inv head (step head c call) ∧ b ∈ (step head c call).live := fun c call h hok =>
    ⟨inv_step c call h.1 hok.1, live_step call h.2 hok.2⟩
  constructor
  · have hstates := everyState_of_invariant hkeep ⟨hinv, hb⟩ hcalls
    exact (everyState_iff_reached.mp hstates calls (List.prefix_refl _)).2
  · intro x hx
    exact run_lastFixed_of_invariant (fun c => c.heap.mem x) (storedAt x) hkeep
      (fun c call h hok => area_step h.1 hok.1 h.2 hx) ⟨hinv, hb⟩ hcalls

/-- A block of four bytes, next to others that come and go. -/
theorem reused_neighbours_keep_block :
    let head : ListHead := ⟨0x8000, by decide⟩
    let c := run (step head) (initialClient head fun _ => 0) [.malloc 4, .malloc 40]
    let calls : List Call :=
      [.store 0x5000011 7, .free 0x5000030, .malloc 20, .store 0x5000030 9, .malloc 100]
    (⟨0x5000010, 4⟩ : Block) ∈ (run (step head) c calls).live ∧
    ∀ x, InArea ⟨0x5000010, 4⟩ x → (run (step head) c calls).heap.mem x =
      (lastFixed (storedAt x) calls).getD (c.heap.mem x) :=
  live_block_holds ⟨0x8000, by decide⟩ (fun _ => 0) [.malloc 4, .malloc 40]
    [.store 0x5000011 7, .free 0x5000030, .malloc 20, .store 0x5000030 9, .malloc 100]
    (by decide +kernel) ⟨0x5000010, 4⟩ (by decide +kernel) (by decide +kernel)

end Libc
end Ninjastorms
