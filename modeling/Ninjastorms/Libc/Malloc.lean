import Ninjastorms.Lib.LinkedList
import Ninjastorms.Types

/-!
# The allocator

`libc/unistd/sbrk.c` and `libc/stdlib/malloc.c` over byte memory.  A block is a
16-byte header followed by the user area; the header holds the link of the
free list (offset 0) and the size of the whole block (offset 4).  `malloc`
takes the first free block that is large enough, whole, or asks `sbrk` for a
new one; `free` pushes the block to the front of the list.

The `while` loop of `malloc` is `search`, with a bound on the number of turns;
`malloc` is `none` when the bound is reached, which stands for a call that does
not return.  `AllocatorSafety` shows that this never happens.
-/

namespace Ninjastorms
namespace Libc

open Lib.ByteMemory Lib.LinkedList

/-- Memory and the variables of `sbrk.c` and of `errno.c`. -/
structure Heap where
  mem : Mem
  currentHeapAddress : Word
  errno : Int

/-- Where the linker has put the static variable `free_block_list_head`: eight
bytes outside the heap. -/
structure ListHead where
  address : Word
  outside : address.toNat + 8 ≤ HEAP_START.toNat ∨
    HEAP_START.toNat + HEAP_SIZE.toNat ≤ address.toNat ∧ address.toNat + 8 ≤ 2 ^ 32

/-- `ALIGN_16`. -/
def align16 (val : Word) : Word :=
  (val + 15) &&& (-16 : Word)

/-- `sizeof(block_t)`. -/
def sizeofBlock : Word := 8

/-- `overhead`. -/
def overhead : Word :=
  align16 sizeofBlock

/-- `block->next`. -/
def blockNext (mem : Mem) (block : Word) : Word :=
  load32 mem block

/-- `block->size`. -/
def blockSize (mem : Mem) (block : Word) : Word :=
  load32 mem (block + 4)

/-- `sbrk`: the address it returns and the state it leaves. -/
def sbrk (increment : Word) (h : Heap) : Word × Heap :=
  if h.currentHeapAddress + increment > HEAP_START + HEAP_SIZE then
    (0, { h with errno := SymbolicErrno.ENOMEM.val })
  else
    (h.currentHeapAddress, { h with currentHeapAddress := h.currentHeapAddress + increment })

/-- How the `while` loop of `malloc` ends: at a block that is large enough, with
the address of the link that points to it, or at the end of the list. -/
inductive Search where
  | found (head block : Word)
  | notFound
  | outOfFuel
  deriving DecidableEq

/-- The `while` loop of `malloc`. -/
def search (mem : Mem) (size : Word) : Nat → (head block : Word) → Search
  | 0, _, _ => .outOfFuel
  | fuel + 1, head, block =>
      if block = 0 then .notFound
      else if blockSize mem block ≥ size then .found head block
      else search mem size fuel block (blockNext mem block)

/-- More turns than there can be blocks in the heap, and one in front of it:
`free` of the null pointer puts such a block on the list. -/
def searchFuel : Nat := 2 ^ 20 + 2

/-- `malloc`: the pointer it returns and the state it leaves. -/
def malloc (head : ListHead) (size : Word) (h : Heap) : Option (Word × Heap) :=
  let size := align16 (size + overhead)
  match search h.mem size searchFuel head.address (load32 h.mem head.address) with
  | .found link block =>
      some (block + overhead, { h with mem := store32 h.mem link (blockNext h.mem block) })
  | .notFound =>
      let (block, h) := sbrk size h
      -- also when the break was at the address 0
      if block = 0 then
        some (0, { h with errno := SymbolicErrno.ENOMEM.val })
      else
        some (block + overhead, { h with mem := store32 h.mem (block + 4) size })
  | .outOfFuel => none

/-- `free`. -/
def free (head : ListHead) (ptr : Word) (h : Heap) : Heap :=
  let block := ptr - overhead
  let mem := store32 h.mem block (load32 h.mem head.address)
  { h with mem := store32 mem head.address block }

/-- The heap at power-on: the break at the start, the list head `{ NULL, 0 }`. -/
def initialHeap (head : ListHead) (mem : Mem) : Heap where
  mem := store32 (store32 mem head.address 0) (head.address + 4) 0
  currentHeapAddress := HEAP_START
  errno := 0

/-! ### Arithmetic -/

@[simp] theorem overhead_eq : overhead = 16 := rfl

theorem and_neg16 (v : Word) : v &&& (-16 : Word) = (v >>> 4) <<< 4 := by
  have hmask : ∀ i < 32, (-16 : Word).getLsbD i = decide (4 ≤ i) := by decide
  apply BitVec.eq_of_getLsbD_eq
  intro i hi
  rw [BitVec.getLsbD_and, hmask i hi, BitVec.getLsbD_shiftLeft, BitVec.getLsbD_ushiftRight]
  by_cases h : 4 ≤ i
  · have hsum : 4 + (i - 4) = i := by omega
    have hge : ¬ i < 4 := by omega
    simp [h, hge, hi, hsum]
  · have hlt : i < 4 := by omega
    simp [h, hlt]

theorem toNat_align16 (val : Word) :
    (align16 val).toNat = (val.toNat + 15) % 2 ^ 32 / 16 * 16 := by
  have hadd : (val + 15).toNat = (val.toNat + 15) % 2 ^ 32 := BitVec.toNat_add val 15
  rw [align16, and_neg16, BitVec.toNat_shiftLeft, BitVec.toNat_ushiftRight, hadd,
    Nat.shiftRight_eq_div_pow, Nat.shiftLeft_eq]
  omega

/-- The size of the block that a request asks for, where the sums may be reduced. -/
theorem toNat_total (size : Word) :
    (align16 (size + overhead)).toNat = (size.toNat + 31) % 2 ^ 32 / 16 * 16 := by
  have hadd : (size + overhead).toNat = (size.toNat + 16) % 2 ^ 32 := BitVec.toNat_add size 16
  rw [toNat_align16, hadd, Nat.mod_add_mod]

/-- The block that a request asks for: at least the header and the request, and a
multiple of 16. -/
theorem toNat_blockSize_request {size : Word} (h : size.toNat + 31 < 2 ^ 32) :
    size.toNat + 16 ≤ (align16 (size + overhead)).toNat ∧
    16 ∣ (align16 (size + overhead)).toNat ∧
    (align16 (size + overhead)).toNat ≤ size.toNat + 31 := by
  rw [toNat_total, Nat.mod_eq_of_lt h]
  exact ⟨by omega, Nat.dvd_mul_left _ _, by omega⟩

/-! ### What the loop finds -/

/-- The link that points to the node behind `pre`, if the list begins at the
link `head`. -/
def lastLink (head : Word) (pre : List Word) : Word :=
  pre.getLastD head

/-- The loop walks the free list: it ends at the first block that is large
enough, or finds that there is none. -/
theorem search_spec {mem : Mem} (size head : Word) {p : Word} {nodes : List Word}
    (h : Chain mem p nodes) {fuel : Nat} (hfuel : nodes.length < fuel) :
    (search mem size fuel head p = .notFound ∧ ∀ a ∈ nodes, blockSize mem a < size) ∨
    ∃ pre block post, nodes = pre ++ block :: post ∧ blockSize mem block ≥ size ∧
      (∀ a ∈ pre, blockSize mem a < size) ∧
      search mem size fuel head p = .found (lastLink head pre) block := by
  induction nodes generalizing p head fuel with
  | nil =>
      left
      obtain ⟨fuel, rfl⟩ : ∃ k, fuel = k + 1 := ⟨fuel - 1, by simp at hfuel; omega⟩
      have hp : p = 0 := h
      simp [search, hp]
  | cons a rest ih =>
      obtain ⟨rfl, ha, hrest⟩ := h
      obtain ⟨fuel, rfl⟩ : ∃ k, fuel = k + 1 := ⟨fuel - 1, by simp at hfuel; omega⟩
      by_cases hfit : blockSize mem p ≥ size
      · -- the first block is large enough: `head` is still the link to it
        right
        refine ⟨[], p, rest, rfl, hfit, by simp, ?_⟩
        rw [search, if_neg ha, if_pos hfit]
        rfl
      · have hlt : blockSize mem p < size := BitVec.not_le.mp hfit
        have hstep : search mem size (fuel + 1) head p =
            search mem size fuel p (blockNext mem p) := by
          rw [search, if_neg ha, if_neg hfit]
        rcases ih p hrest (Nat.lt_of_succ_lt_succ hfuel) with
          ⟨hnone, hall⟩ | ⟨pre, block, post, rfl, hge, hpre, hfound⟩
        · left
          refine ⟨hstep.trans hnone, fun b hb => ?_⟩
          rcases List.mem_cons.mp hb with rfl | hb'
          · exact hlt
          · exact hall b hb'
        · right
          refine ⟨p :: pre, block, post, rfl, hge, fun b hb => ?_, ?_⟩
          · rcases List.mem_cons.mp hb with rfl | hb'
            · exact hlt
            · exact hpre b hb'
          · rw [hstep]
            refine hfound.trans ?_
            cases pre <;> rfl

/-- **One call of `malloc`.**  It fails and sets `errno`, takes a block out of the
free list, or makes a new block at the break.  The break only moves if no free
block is large enough. -/
theorem malloc_of_chain {head : ListHead} {size : Word} {h : Heap} {free : List Word}
    (hchain : Chain h.mem (load32 h.mem head.address) free) (hlength : free.length < searchFuel)
    (hsum : h.currentHeapAddress.toNat + (align16 (size + overhead)).toNat < 2 ^ 32)
    (hbreak : h.currentHeapAddress ≠ 0) :
    let total := align16 (size + overhead)
    (HEAP_START.toNat + HEAP_SIZE.toNat < h.currentHeapAddress.toNat + total.toNat ∧
      (∀ a ∈ free, blockSize h.mem a < total) ∧
      malloc head size h = some (0, { h with errno := SymbolicErrno.ENOMEM.val })) ∨
    (∃ pre block post, free = pre ++ block :: post ∧ total ≤ blockSize h.mem block ∧
      malloc head size h = some (block + overhead, { h with
        mem := store32 h.mem (lastLink head.address pre) (blockNext h.mem block) })) ∨
    (h.currentHeapAddress.toNat + total.toNat ≤ HEAP_START.toNat + HEAP_SIZE.toNat ∧
      (∀ a ∈ free, blockSize h.mem a < total) ∧
      malloc head size h = some (h.currentHeapAddress + overhead, { h with
        mem := store32 h.mem (h.currentHeapAddress + 4) total
        currentHeapAddress := h.currentHeapAddress + total })) := by
  intro total
  rcases search_spec total head.address hchain hlength with
    ⟨hsearch, hsmall⟩ | ⟨pre, block, post, rfl, hge, -, hsearch⟩
  · -- no block fits: `sbrk` moves the break, or refuses
    have hadd : (h.currentHeapAddress + total).toNat =
        h.currentHeapAddress.toNat + total.toNat := BitVec.toNat_add_of_lt hsum
    have htop : (HEAP_START + HEAP_SIZE).toNat = HEAP_START.toNat + HEAP_SIZE.toNat := rfl
    by_cases hfull : h.currentHeapAddress + total > HEAP_START + HEAP_SIZE
    · left
      refine ⟨?_, hsmall, ?_⟩
      · rw [← hadd, ← htop]
        exact BitVec.lt_def.mp hfull
      · simp only [malloc, total, hsearch, sbrk, if_pos hfull, if_true]
    · right; right
      refine ⟨?_, hsmall, ?_⟩
      · rw [← hadd, ← htop]
        exact BitVec.le_def.mp (BitVec.not_lt.mp hfull)
      · simp only [malloc, total, hsearch, sbrk, if_neg hfull, if_neg hbreak]
  · right; left
    refine ⟨pre, block, post, rfl, hge, ?_⟩
    simp only [malloc, total, hsearch]

end Libc
end Ninjastorms
