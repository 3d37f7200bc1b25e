import Ninjastorms.Libc.AllocatorSafety
import Ninjastorms.Libc.SbrkRuns

/-!
# Requests of any size

`AllocatorSafety` asks the program for requests of at most the heap size.  Here
a request may be any `size_t`; the program still frees live blocks only, and
writes into live areas only.

`malloc` adds the header and rounds up to 16, and `sbrk` adds the result to the
break, all modulo 2^32.  `malloc_handsOutEnough_iff` says that the area behind a
returned pointer is as large as the request, and inside the heap, exactly as
long as these sums are not reduced.  A reduced request is harmless only if it
finds no free block and no room for a block of 16 bytes.
-/

namespace Ninjastorms
namespace Libc

open Lib.ByteMemory Lib.LinkedList Lib.Tiling Lib.Runs

/-- The rules for a program that may ask for any size. -/
def Legal (c : Client) : Call → Prop
  | .malloc _ => True
  | .free ptr => ∃ b ∈ c.live, b.ptr = ptr
  | .store address _ => ∃ b ∈ c.live, offset b.ptr address < b.size.toNat

instance (c : Client) : (call : Call) → Decidable (Legal c call)
  | .malloc _ => inferInstanceAs (Decidable True)
  | .free ptr => inferInstanceAs (Decidable (∃ b ∈ c.live, b.ptr = ptr))
  | .store address _ =>
      inferInstanceAs (Decidable (∃ b ∈ c.live, offset b.ptr address < b.size.toNat))

/-- A non-null pointer points to an area inside the heap that is at least as
large as the request, and the size field of its block says so. -/
def HandsOutEnough (head : ListHead) (c : Client) (call : Call) : Prop :=
  ∀ size ptr heap, call = .malloc size → malloc head size c.heap = some (ptr, heap) → ptr ≠ 0 →
    size.toNat + 16 ≤ (blockSize heap.mem (ptr - overhead)).toNat ∧
    HEAP_START.toNat ≤ ptr.toNat ∧ ptr.toNat + size.toNat ≤ heapEnd

/-- The heap has no free block, and no room for another one. -/
def Exhausted (head : ListHead) (c : Client) : Prop :=
  load32 c.heap.mem head.address = 0 ∧ c.heap.currentHeapAddress.toNat = heapEnd

instance (head : ListHead) (c : Client) : Decidable (Exhausted head c) :=
  inferInstanceAs (Decidable (_ ∧ _))

/-- The request fits, or it is one of the 15 largest ones and the heap is exhausted. -/
def RequestOk (head : ListHead) (c : Client) : Call → Prop
  | .malloc size => Fits c size ∨ 2 ^ 32 - 16 < size.toNat ∧ Exhausted head c
  | _ => True

instance (head : ListHead) (c : Client) : (call : Call) → Decidable (RequestOk head c call)
  | .malloc size => inferInstanceAs (Decidable (Fits c size ∨ _ ∧ _))
  | .free _ => inferInstanceAs (Decidable True)
  | .store _ _ => inferInstanceAs (Decidable True)

variable {head : ListHead} {c : Client} {free : List Word} {blocks : List (Nat × Nat)} {size : Word}

/-! ### Requests that fit -/

theorem handsOutEnough_of_fits (h : Shape head c free blocks) (hfits : Fits c size) :
    HandsOutEnough head c (.malloc size) := by
  rintro _ ptr heap ⟨⟩ hcall hptr
  have hHeap : HEAP_START.toNat + HEAP_SIZE.toNat < 2 ^ 32 := by decide
  have hend : heapEnd = HEAP_START.toNat + HEAP_SIZE.toNat := rfl
  have hbreak := h.bounded
  obtain ⟨hfit, -, -⟩ := toNat_blockSize_request hfits.1
  rcases malloc_of_chain h.chain h.length_free_lt hfits.2 h.break_ne_zero with
    ⟨-, -, hnull⟩ | ⟨pre, block, post, rfl, hge, hfound⟩ | ⟨hroom, -, hgrow⟩
  · rw [hnull] at hcall
    obtain ⟨rfl, -⟩ := Prod.mk.inj (Option.some.inj hcall)
    exact absurd rfl hptr
  · rw [hfound] at hcall
    obtain ⟨rfl, rfl⟩ := Prod.mk.inj (Option.some.inj hcall)
    have hblock : block ∈ headers c (pre ++ block :: post) := by simp [headers]
    obtain ⟨hlow, hsize, hhigh⟩ := h.bounds hblock
    have hge' := BitVec.le_def.mp hge
    have hval : (block + overhead).toNat = block.toNat + 16 :=
      BitVec.toNat_add_of_lt (show block.toNat + 16 < 2 ^ 32 by omega)
    rw [show block + overhead - overhead = block from BitVec.add_sub_cancel _ _, hval]
    simp only [h.blockSize_store_link isLink_lastLink hblock]
    omega
  · rw [hgrow] at hcall
    obtain ⟨rfl, rfl⟩ := Prod.mk.inj (Option.some.inj hcall)
    have hlow := h.tiles.le
    have hval : (c.heap.currentHeapAddress + overhead).toNat =
        c.heap.currentHeapAddress.toNat + 16 :=
      BitVec.toNat_add_of_lt (show c.heap.currentHeapAddress.toNat + 16 < 2 ^ 32 by omega)
    rw [show c.heap.currentHeapAddress + overhead - overhead = c.heap.currentHeapAddress from
      BitVec.add_sub_cancel _ _, hval]
    simp only [blockSize, load32_store32_self]
    omega

/-! ### Requests that do not fit -/

/-- In an exhausted heap, a request for a block of 16 bytes is refused. -/
theorem malloc_of_exhausted (hexhausted : Exhausted head c) (hsize : 2 ^ 32 - 16 < size.toNat) :
    malloc head size c.heap = some (0, { c.heap with errno := SymbolicErrno.ENOMEM.val }) := by
  -- the header and the rounding carry the sum past 2^32: 16 bytes are left
  obtain ⟨hempty, hbreak⟩ := hexhausted
  have hlt := size.isLt
  have hend : heapEnd + 16 < 2 ^ 32 := by decide
  have htotal : (align16 (size + overhead)).toNat = 16 := by
    rw [toNat_total]
    omega
  have hfull : c.heap.currentHeapAddress + align16 (size + overhead) > HEAP_START + HEAP_SIZE := by
    have htop : (HEAP_START + HEAP_SIZE).toNat = heapEnd := rfl
    have hsum : (c.heap.currentHeapAddress + align16 (size + overhead)).toNat =
        c.heap.currentHeapAddress.toNat + (align16 (size + overhead)).toNat :=
      BitVec.toNat_add_of_lt (by omega)
    rw [gt_iff_lt, BitVec.lt_def, hsum, htop]
    omega
  have hsearch : search c.heap.mem (align16 (size + overhead)) searchFuel head.address
      (load32 c.heap.mem head.address) = .notFound := by
    rw [hempty]
    rfl
  simp only [malloc, hsearch, sbrk, if_pos hfull, if_true]

/-- A request that does not fit is larger than the heap. -/
theorem Shape.lt_of_not_fits (h : Shape head c free blocks) (hbad : ¬ Fits c size) :
    HEAP_SIZE.toNat < size.toNat :=
  Nat.lt_of_not_le fun hle => hbad (h.fits hle)

/-- No area inside the heap is as large as a request that does not fit. -/
theorem not_handsOutEnough (h : Shape head c free blocks) (hbad : ¬ Fits c size) {ptr : Word}
    {heap : Heap} (hcall : malloc head size c.heap = some (ptr, heap)) (hptr : ptr ≠ 0) :
    ¬ HandsOutEnough head c (.malloc size) := by
  intro henough
  obtain ⟨-, hlow, hhigh⟩ := henough size ptr heap rfl hcall hptr
  have hlarge := h.lt_of_not_fits hbad
  unfold heapEnd at hhigh
  omega

/-- If no free block is large enough for what is left of the request, `sbrk`
finds room for it. -/
theorem Shape.sum_le (h : Shape head c free blocks) (hbad : ¬ RequestOk head c (.malloc size))
    (hsmall : ∀ a ∈ free, blockSize c.heap.mem a < align16 (size + overhead)) :
    ¬ c.heap.currentHeapAddress + align16 (size + overhead) > HEAP_START + HEAP_SIZE := by
  have htop : (HEAP_START + HEAP_SIZE).toNat = heapEnd := rfl
  have hend : heapEnd + 16 < 2 ^ 32 := by decide
  have hdvdEnd : 16 ∣ heapEnd := by decide
  have hbreak : c.heap.currentHeapAddress.toNat ≤ heapEnd := h.bounded
  have hdvd : 16 ∣ c.heap.currentHeapAddress.toNat := h.tiles.dvd_stop (by decide) h.dvd
  have hlt := size.isLt
  have htotal := toNat_total size
  have hfits : ¬ Fits c size := fun hfits => hbad (Or.inl hfits)
  have hlarge := h.lt_of_not_fits hfits
  rw [gt_iff_lt, BitVec.lt_def, htop, BitVec.toNat_add, Nat.not_lt]
  by_cases hsum : size.toNat + 31 < 2 ^ 32
  · -- the sum with the break is reduced
    obtain ⟨-, -, hle⟩ := toNat_blockSize_request hsum
    have hwrap : ¬ c.heap.currentHeapAddress.toNat + (align16 (size + overhead)).toNat < 2 ^ 32 :=
      fun hno => hfits ⟨hsum, hno⟩
    omega
  · -- the sum with the header is reduced, and 0 or 16 bytes are left
    by_cases hfull : c.heap.currentHeapAddress.toNat = heapEnd ∧ 2 ^ 32 - 16 < size.toNat
    · exfalso
      refine hbad (Or.inr ⟨hfull.2, ?_, hfull.1⟩)
      cases free with
      | nil => exact h.chain
      | cons a rest =>
          -- the first free block would have been large enough
          have hblock := (h.bounds (a := a) (by simp [headers])).2.1
          have hless := BitVec.lt_def.mp (hsmall a (by simp))
          omega
    · omega

/-- `malloc` only fails if no free block is large enough and `sbrk` refuses. -/
theorem malloc_returns_block (h : Shape head c free blocks)
    (hmoves : (∀ a ∈ free, blockSize c.heap.mem a < align16 (size + overhead)) →
      ¬ c.heap.currentHeapAddress + align16 (size + overhead) > HEAP_START + HEAP_SIZE) :
    ∃ ptr heap, malloc head size c.heap = some (ptr, heap) ∧ ptr ≠ 0 := by
  have hend : heapEnd + 16 < 2 ^ 32 := by decide
  have hbreak : c.heap.currentHeapAddress.toNat ≤ heapEnd := h.bounded
  rcases search_spec (align16 (size + overhead)) head.address h.chain h.length_free_lt with
    ⟨hsearch, hsmall⟩ | ⟨pre, block, post, rfl, -, -, hsearch⟩
  · have hroom := hmoves hsmall
    have hcall : malloc head size c.heap = some (c.heap.currentHeapAddress + overhead, { c.heap with
        mem := store32 c.heap.mem (c.heap.currentHeapAddress + 4) (align16 (size + overhead))
        currentHeapAddress := c.heap.currentHeapAddress + align16 (size + overhead) }) := by
      simp only [malloc, hsearch, sbrk, if_neg hroom, if_neg h.break_ne_zero]
    exact ⟨_, _, hcall, add_overhead_ne_zero (by omega)⟩
  · obtain ⟨-, hsize, hhigh⟩ := h.bounds (a := block) (by simp [headers])
    have hcall : malloc head size c.heap = some (block + overhead, { c.heap with
        mem := store32 c.heap.mem (lastLink head.address pre) (blockNext c.heap.mem block) }) := by
      simp only [malloc, hsearch]
    exact ⟨_, _, hcall, add_overhead_ne_zero (by omega)⟩

/-- A request that does not fit is granted, unless the heap is exhausted. -/
theorem malloc_ne_null (h : Shape head c free blocks) (hbad : ¬ RequestOk head c (.malloc size)) :
    ∃ ptr heap, malloc head size c.heap = some (ptr, heap) ∧ ptr ≠ 0 :=
  malloc_returns_block h (h.sum_le hbad)

/-! ### Runs -/

theorem handsOutEnough_iff {call : Call} (h : Inv head c) :
    HandsOutEnough head c call ↔ RequestOk head c call := by
  obtain ⟨free, blocks, hshape⟩ := h
  cases call with
  | malloc size =>
      constructor
      · intro henough
        by_contra hbad
        obtain ⟨ptr, heap, hcall, hptr⟩ := malloc_ne_null hshape hbad
        exact not_handsOutEnough hshape (fun hfits => hbad (Or.inl hfits)) hcall hptr henough
      · rintro (hfits | ⟨hsize, hexhausted⟩)
        · exact handsOutEnough_of_fits hshape hfits
        · rintro _ ptr heap ⟨⟩ hcall hptr
          rw [malloc_of_exhausted hexhausted hsize] at hcall
          obtain ⟨rfl, -⟩ := Prod.mk.inj (Option.some.inj hcall)
          exact absurd rfl hptr
  | free ptr => exact ⟨fun _ => trivial, fun _ => by rintro _ _ _ ⟨⟩⟩
  | store address value => exact ⟨fun _ => trivial, fun _ => by rintro _ _ _ ⟨⟩⟩

theorem inv_step_of_requestOk {call : Call} (h : Inv head c) (hlegal : Legal c call)
    (hok : RequestOk head c call) : Inv head (step head c call) := by
  obtain ⟨free, blocks, hshape⟩ := h
  cases call with
  | malloc size =>
      rcases hok with hfits | ⟨hsize, hexhausted⟩
      · exact inv_malloc hshape hfits
      · have hstep : step head c (.malloc size) =
            { c with heap := { c.heap with errno := SymbolicErrno.ENOMEM.val } } := by
          simp only [step, malloc_of_exhausted hexhausted hsize, if_true]
        rw [hstep]
        exact ⟨free, blocks, hshape.chain, hshape.perm, hshape.tiles, hshape.bounded, hshape.dvd,
          hshape.large, hshape.returned⟩
  | free ptr => exact inv_free hshape hlegal
  | store address value => exact inv_store hshape hlegal

/-- The invariant holds at the end of a run of requests that can be served. -/
theorem inv_reached (head : ListHead) (mem : Mem) (calls : List Call)
    (hlegal : EveryStep (step head) Legal (initialClient head mem) calls)
    (hok : EveryStep (step head) (RequestOk head) (initialClient head mem) calls) :
    Inv head (run (step head) (initialClient head mem) calls) :=
  everyState_iff_reached.mp (everyState_of_invariant
    (fun _ _ h hstep => inv_step_of_requestOk h hstep.1 hstep.2) (inv_initial head mem)
    (hlegal.and hok)) calls List.prefix_rfl

/-- **Requests of any size.**  Along a run, `malloc` hands out at least what was
asked for exactly as long as every request is one for which the sums are not
reduced, or is refused because the heap is exhausted. -/
theorem malloc_handsOutEnough_iff (head : ListHead) (mem : Mem) (calls : List Call)
    (hlegal : EveryStep (step head) Legal (initialClient head mem) calls) :
    EveryStep (step head) (HandsOutEnough head) (initialClient head mem) calls ↔
      EveryStep (step head) (RequestOk head) (initialClient head mem) calls :=
  everyStep_iff_of_legal (fun _ _ h hlegal hok => inv_step_of_requestOk h hlegal hok)
    (fun _ _ h _ => handsOutEnough_iff h) (inv_initial head mem) hlegal

/-- Two requests, a release, and a request that the whole address space could not serve. -/
def hugeCalls : List Call :=
  [.malloc 40, .malloc 4, .free 0x5000010, .malloc 0xFFFFFFF0]

theorem hugeCalls_handsOutEnough_iff :
    let head : ListHead := ⟨0x8000, by decide⟩
    EveryStep (step head) (HandsOutEnough head) (initialClient head fun _ => 0) hugeCalls ↔
      EveryStep (step head) (RequestOk head) (initialClient head fun _ => 0) hugeCalls :=
  malloc_handsOutEnough_iff ⟨0x8000, by decide⟩ (fun _ => 0) hugeCalls (by decide +kernel)

/-- In a fresh heap, a request for nearly the whole address space gets a block
of size 0. -/
theorem malloc_hugeRequest :
    let head : ListHead := ⟨0x8000, by decide⟩
    EveryStep (step head) Legal (initialClient head fun _ => 0) [.malloc 0xFFFFFFE1] ∧
    ¬ EveryStep (step head) (HandsOutEnough head) (initialClient head fun _ => 0)
      [.malloc 0xFFFFFFE1] := by
  refine ⟨⟨trivial, trivial⟩, ?_⟩
  rintro ⟨henough, -⟩
  obtain ⟨-, -, hhigh⟩ := henough 0xFFFFFFE1 0x5000010 _ rfl rfl (by decide)
  exact absurd hhigh (by decide)

end Libc
end Ninjastorms
