import Mathlib.Algebra.Order.BigOperators.Group.Finset
import Ninjastorms.Libc.AllocatorRequests

/-!
# Transient allocations

A pair is a call of `malloc` and a call of `free` with its result, whatever the
result is, as `ethernet_send` does it.  The result may be null: `free` then puts
the block `nullBlock`, 16 bytes below the end of the address space, on the free
list, and the list may even become endless.

* `Listed` and `Looping` are the two forms of the free list; `Listed.take`,
  `Listed.free`, `Listed.free_again`, `Looping.take` and `Looping.free` are the
  changes that `malloc` and `free` make to them.
* `transientInv_pairStep` carries the account of the moves of the break through one
  pair: each move leaves a block of its size behind, on the free list, so that
  the next one is for a larger size.
* `transient_allocations_bounded` is the result for every sequence of pairs.
-/

namespace Ninjastorms
namespace Libc

open Lib.ByteMemory Lib.LinkedList Lib.Tiling Lib.Runs

/-- The heap and what has happened during a sequence of pairs: the rounded sizes
for which the break has moved, whether a `malloc` has returned null, and whether
one has not returned. -/
structure Transient where
  heap : Heap
  moves : List Nat
  failed : Bool
  hung : Bool

/-- The size of the block for a request. -/
def rounded (size : Word) : Nat :=
  (align16 (size + overhead)).toNat

/-- `free(malloc(size))`. -/
def pairStep (head : ListHead) (s : Transient) (size : Word) : Transient :=
  if s.hung then s
  else
    match malloc head size s.heap with
    | none => { s with hung := true }
    | some (ptr, heap) =>
        -- `free` does not test for the null pointer
        { heap := free head ptr heap
          moves :=
            if heap.currentHeapAddress = s.heap.currentHeapAddress then s.moves
            else s.moves ++ [rounded size]
          failed := s.failed || ptr == 0
          hung := false }

/-- Before the first pair. -/
def beforePairs (c : Client) : Transient where
  heap := c.heap
  moves := []
  failed := false
  hung := c.hung

/-- The break only moves if the free list ends and the block for the request is
larger than every block in it. -/
def MovesForLarger (head : ListHead) (s : Transient) (size : Word) : Prop :=
  (pairStep head s size).heap.currentHeapAddress ≠ s.heap.currentHeapAddress →
    ∃ free, Chain s.heap.mem (load32 s.heap.mem head.address) free ∧
      ∀ a ∈ free, (blockSize s.heap.mem a).toNat < rounded size

/-- The sum of the distinct sizes of the blocks for the requests. -/
def distinctSum (sizes : List Word) : Nat :=
  ∑ n ∈ (sizes.map rounded).toFinset, n

/-! ### Blocks on the free list -/

/-- The header that `free` computes for the null pointer. -/
def nullBlock : Word :=
  0 - overhead

/-- A header below the break, or that of the null pointer. -/
def Placed (stop : Nat) (a : Word) : Prop :=
  16 ∣ a.toNat ∧ (HEAP_START.toNat ≤ a.toNat ∧ a.toNat + 16 ≤ stop ∨ a = nullBlock)

/-- The cells that hold a link. -/
def LinkCell (head : ListHead) (stop : Nat) (link : Word) : Prop :=
  link = head.address ∨ Placed stop link

section Placed

variable {head : ListHead} {stop : Nat} {mem : Mem} {a b : Word}

theorem Placed.mono {stop' : Nat} (h : Placed stop a) (hle : stop ≤ stop') : Placed stop' a :=
  ⟨h.1, h.2.imp (fun hin => ⟨hin.1, hin.2.trans hle⟩) id⟩

theorem placed_nullBlock (stop : Nat) : Placed stop nullBlock :=
  ⟨by decide, Or.inr rfl⟩

theorem Placed.ne_zero (h : Placed stop a) : a ≠ 0 := by
  rintro rfl
  rcases h.2 with ⟨hlow, -⟩ | hnull
  · exact absurd hlow (by decide)
  · exact absurd hnull (by decide)

/-- Different headers have no byte in common. -/
theorem Placed.separate (ha : Placed stop a) (hb : Placed stop b) (hne : a ≠ b) :
    Separate a 16 b 16 := by
  have hdiff : a.toNat ≠ b.toNat := fun heq => hne (BitVec.eq_of_toNat_eq heq)
  have halt := a.isLt
  have hblt := b.isLt
  have hdvda := ha.1
  have hdvdb := hb.1
  rcases Nat.lt_or_gt_of_ne hdiff with hlt | hlt
  · exact separate_of_toNat_le (by omega) (by omega)
  · exact (separate_of_toNat_le (by omega) (by omega)).symm

theorem Placed.separate_link (ha : Placed stop a) (hb : Placed stop b) (hne : a ≠ b) :
    Separate a 4 b 4 :=
  (ha.separate hb hne).mono (by omega) (by omega)

/-- A link and a size field have no byte in common. -/
theorem Placed.separate_size (ha : Placed stop a) (hb : Placed stop b) :
    Separate (a + 4) 4 b 4 := by
  by_cases heq : a = b
  · subst heq
    exact (separate_words a).symm
  · exact ((ha.separate hb heq).mono (Nat.le_refl _) (by omega)).part (i := 4) (by omega) (by omega)

variable (hstop : stop ≤ heapEnd) (hlow : head.address.toNat + 8 ≤ nullBlock.toNat)
include hstop hlow

/-- A header has no byte in common with the head of the list. -/
theorem Placed.separate_head (ha : Placed stop a) : Separate a 16 head.address 4 := by
  have hnull : nullBlock.toNat + 16 = 2 ^ 32 := by decide
  have hHeap : heapEnd = HEAP_START.toNat + HEAP_SIZE.toNat := rfl
  have hend : heapEnd < 2 ^ 32 := by decide
  rcases ha.2 with ⟨hstart, hin⟩ | rfl
  · rcases head.outside with hbelow | ⟨habove, htop⟩
    · exact (separate_of_toNat_le (by omega) (by omega)).symm
    · exact separate_of_toNat_le (by omega) (by omega)
  · exact (separate_of_toNat_le (by omega) (by omega)).symm

/-- Writing a link changes no size field. -/
theorem Placed.blockSize_store {link v : Word} (ha : Placed stop a)
    (hlink : LinkCell head stop link) : blockSize (store32 mem link v) a = blockSize mem a := by
  refine load32_store32 ?_
  rcases hlink with rfl | hplaced
  · exact (ha.separate_head hstop hlow).part (i := 4) (by omega) (by omega)
  · exact ha.separate_size hplaced

/-- Writing a link changes no other link. -/
theorem LinkCell.load_store {cell link v : Word} (hcell : LinkCell head stop cell)
    (hlink : LinkCell head stop link) (hne : cell ≠ link) :
    load32 (store32 mem link v) cell = load32 mem cell := by
  refine load32_store32 ?_
  rcases hcell with rfl | hcell <;> rcases hlink with rfl | hlink
  · exact absurd rfl hne
  · exact ((hlink.separate_head hstop hlow).mono (by omega) (Nat.le_refl _)).symm
  · exact (hcell.separate_head hstop hlow).mono (by omega) (Nat.le_refl _)
  · exact hcell.separate_link hlink hne

/-- Writing a size field changes no link and no other size field. -/
theorem LinkCell.load_store_size {cell v : Word} (hcell : LinkCell head stop cell)
    (ha : Placed stop a) : load32 (store32 mem (a + 4) v) cell = load32 mem cell := by
  refine load32_store32 ?_
  rcases hcell with rfl | hcell
  · exact ((ha.separate_head hstop hlow).part (i := 4) (by omega) (by omega)).symm
  · exact (ha.separate_size hcell).symm

omit hstop hlow in
theorem Placed.blockSize_store_size {v : Word} (ha : Placed stop a) (hb : Placed stop b)
    (hne : a ≠ b) : blockSize (store32 mem (b + 4) v) a = blockSize mem a := by
  have hpart : Separate (b + 4) 4 a 16 :=
    (hb.separate ha hne.symm).part (i := 4) (by omega) (by omega)
  exact load32_store32 (hpart.symm.part (i := 4) (by omega) (by omega))

/-- The head of the list is not a header. -/
theorem Placed.ne_head (ha : Placed stop a) : a ≠ head.address := by
  rintro rfl
  exact ha.separate_head hstop hlow head.address ⟨by simp, by simp⟩

end Placed

/-! ### The free list -/

/-- The free list is `nodes`. -/
structure Listed (head : ListHead) (stop : Nat) (mem : Mem) (nodes : List Word) : Prop where
  chain : Chain mem (load32 mem head.address) nodes
  nodup : nodes.Nodup
  placed : ∀ a ∈ nodes, Placed stop a

/-- The free list does not end, and leads to `nodes` only. -/
structure Looping (head : ListHead) (stop : Nat) (mem : Mem) (nodes : List Word) : Prop where
  endless : Endless mem (load32 mem head.address) nodes
  placed : ∀ a ∈ nodes, Placed stop a

/-- The memory after `free` has put the block `x` on the list. -/
def freed (head : ListHead) (mem : Mem) (x : Word) : Mem :=
  store32 (store32 mem x (load32 mem head.address)) head.address x

theorem free_mem (head : ListHead) (x : Word) (h : Heap) :
    free head (x + overhead) h = { h with mem := freed head h.mem x } := by
  rw [free, BitVec.add_sub_cancel]
  rfl

section FreeList

variable {head : ListHead} {stop : Nat} {mem : Mem} {nodes pre post : List Word} {a x block : Word}

theorem load_freed_head : load32 (freed head mem x) head.address = x :=
  load32_store32_self _ _ _

/-- The list has fewer blocks than the loop of `malloc` has turns. -/
theorem Listed.length_lt (h : Listed head stop mem nodes) (hstop : stop ≤ heapEnd) :
    nodes.length < searchFuel := by
  -- the headers are aligned: there is one of them in each 16 bytes of the heap, and
  -- the null block
  let index (a : Word) : Nat := a.toNat / 16
  have hindex : (nodes.map index).Nodup := by
    refine (List.nodup_map_iff_inj_on h.nodup).mpr fun a ha b hb heq => ?_
    have hdvda := (h.placed a ha).1
    have hdvdb := (h.placed b hb).1
    refine BitVec.eq_of_toNat_eq ?_
    simp only [index] at heq
    omega
  have hin : nodes.map index ⊆
      index nullBlock :: List.range' (HEAP_START.toNat / 16) (HEAP_SIZE.toNat / 16) := by
    intro i hi
    obtain ⟨a, ha, rfl⟩ := List.mem_map.mp hi
    have hHeap : heapEnd = HEAP_START.toNat + HEAP_SIZE.toNat := rfl
    have hdvd : 16 ∣ HEAP_START.toNat ∧ 16 ∣ HEAP_SIZE.toNat := by decide
    rcases (h.placed a ha).2 with ⟨hlow, hhigh⟩ | rfl
    · refine List.mem_cons_of_mem _ (List.mem_range'_1.mpr ?_)
      simp only [index]
      omega
    · exact List.mem_cons_self
  have hle := (hindex.subperm hin).length_le
  rw [List.length_map, List.length_cons, List.length_range'] at hle
  have hfuel : searchFuel = HEAP_SIZE.toNat / 16 + 2 := by decide
  omega

theorem Listed.mono {stop' : Nat} (h : Listed head stop mem nodes) (hle : stop ≤ stop') :
    Listed head stop' mem nodes :=
  ⟨h.chain, h.nodup, fun a ha => (h.placed a ha).mono hle⟩

theorem linkCell_lastLink (hpre : ∀ a ∈ pre, Placed stop a) :
    LinkCell head stop (lastLink head.address pre) := by
  rcases List.eq_nil_or_concat pre with rfl | ⟨init, last, rfl⟩
  · exact Or.inl rfl
  · right
    rw [lastLink, List.concat_eq_append, List.getLastD_concat]
    exact hpre last (by simp)

variable (hstop : stop ≤ heapEnd) (hlow : head.address.toNat + 8 ≤ nullBlock.toNat)
include hstop hlow

/-- `malloc` takes a block out of the list. -/
theorem Listed.take (h : Listed head stop mem (pre ++ block :: post)) :
    Listed head stop (store32 mem (lastLink head.address pre) (blockNext mem block))
      (pre ++ post) where
  chain := by
    refine h.chain.unlink_cell h.nodup (fun a ha => ?_) fun a ha b hb hne =>
      (h.placed a ha).separate_link (h.placed b hb) hne
    exact ((h.placed a ha).separate_head hstop hlow).mono (by omega) (Nat.le_refl _)
  nodup := (List.nodup_middle.mp h.nodup).of_cons
  placed := fun a ha => h.placed a (by
    simp only [List.mem_append, List.mem_cons] at ha ⊢
    tauto)

/-! What `free` leaves in the cells. -/

theorem load_freed_self (hx : Placed stop x) :
    load32 (freed head mem x) x = load32 mem head.address := by
  rw [freed, LinkCell.load_store hstop hlow (Or.inr hx) (Or.inl rfl) (hx.ne_head hstop hlow),
    load32_store32_self]

theorem load_freed (hx : Placed stop x) (ha : Placed stop a) (hne : a ≠ x) :
    load32 (freed head mem x) a = load32 mem a := by
  rw [freed, LinkCell.load_store hstop hlow (Or.inr ha) (Or.inl rfl) (ha.ne_head hstop hlow),
    LinkCell.load_store hstop hlow (Or.inr ha) (Or.inr hx) hne]

theorem blockSize_freed (hx : Placed stop x) (ha : Placed stop a) :
    blockSize (freed head mem x) a = blockSize mem a := by
  rw [freed, ha.blockSize_store hstop hlow (Or.inl rfl),
    ha.blockSize_store hstop hlow (Or.inr hx)]

theorem Listed.free (h : Listed head stop mem nodes) (hx : Placed stop x) (hnew : x ∉ nodes) :
    Listed head stop (freed head mem x) (x :: nodes) where
  chain := by
    rw [load_freed_head]
    refine chain_cons ?_ hx.ne_zero
    rw [load_freed_self hstop hlow hx]
    refine h.chain.congr fun a ha => load_freed hstop hlow hx (h.placed a ha) ?_
    rintro rfl
    exact hnew ha
  nodup := List.nodup_cons.mpr ⟨hnew, h.nodup⟩
  placed := List.forall_mem_cons.mpr ⟨hx, h.placed⟩

/-- A block that is on the list already closes a cycle. -/
theorem Listed.free_again (h : Listed head stop mem nodes) (hx : x ∈ nodes) :
    ∃ cycle, Looping head stop (freed head mem x) cycle := by
  obtain ⟨pre, post, rfl⟩ := List.append_of_mem hx
  have hplaced : ∀ a ∈ pre ++ [x], Placed stop a := by
    intro a ha
    refine h.placed a ?_
    simp only [List.mem_append, List.mem_cons] at ha ⊢
    tauto
  have hxp : Placed stop x := hplaced x (by simp)
  refine ⟨pre ++ [x], ?_, hplaced⟩
  rw [load_freed_head]
  refine h.chain.endless (fun a ha hne => ?_) (load_freed_self hstop hlow hxp)
    fun a ha => (hplaced a ha).ne_zero
  exact load_freed hstop hlow hxp (hplaced a (by simp [ha])) hne

theorem Looping.take (h : Looping head stop mem nodes) {link : Word}
    (hlink : link = head.address ∨ link ∈ nodes) (hblock : block ∈ nodes) :
    Looping head stop (store32 mem link (blockNext mem block)) nodes := by
  have hcell : LinkCell head stop link := hlink.imp_right (h.placed link)
  have hnext : blockNext mem block ∈ nodes := h.endless.next block hblock
  -- `link` now leads to the node behind `block`, which is one of `nodes` again
  refine ⟨⟨?_, fun a ha => ?_, h.endless.ne_zero⟩, h.placed⟩
  · by_cases heq : head.address = link
    · rw [heq, load32_store32_self]
      exact hnext
    · rw [LinkCell.load_store hstop hlow (Or.inl rfl) hcell heq]
      exact h.endless.first
  · by_cases heq : a = link
    · rw [heq, load32_store32_self]
      exact hnext
    · rw [LinkCell.load_store hstop hlow (Or.inr (h.placed a ha)) hcell heq]
      exact h.endless.next a ha

theorem Looping.free (h : Looping head stop mem nodes) (hx : Placed stop x) :
    Looping head stop (freed head mem x) (x :: nodes) := by
  have hplaced : ∀ a ∈ x :: nodes, Placed stop a := List.forall_mem_cons.mpr ⟨hx, h.placed⟩
  refine ⟨⟨?_, fun a ha => ?_, fun a ha => (hplaced a ha).ne_zero⟩, hplaced⟩
  · rw [load_freed_head]
    exact List.mem_cons_self
  · by_cases heq : a = x
    · rw [heq, load_freed_self hstop hlow hx]
      exact List.mem_cons_of_mem _ h.endless.first
    · have hmem : a ∈ nodes := (List.mem_cons.mp ha).resolve_left heq
      rw [load_freed hstop hlow hx (hplaced a ha) heq]
      exact List.mem_cons_of_mem _ (h.endless.next a hmem)

/-- `malloc` writes the size field of a new block. -/
theorem Listed.grow (h : Listed head stop mem nodes) (hx : Placed stop x) (v : Word) :
    Listed head stop (store32 mem (x + 4) v) nodes := by
  refine ⟨?_, h.nodup, h.placed⟩
  rw [LinkCell.load_store_size hstop hlow (Or.inl rfl) hx]
  exact h.chain.congr fun a ha =>
    LinkCell.load_store_size hstop hlow (Or.inr (h.placed a ha)) hx

end FreeList

/-- In an endless list the loop of `malloc` finds a block, or goes on for ever. -/
theorem search_looping {head : ListHead} {stop : Nat} {mem : Mem} {nodes : List Word}
    (h : Looping head stop mem nodes) (size : Word) (fuel : Nat) {link p : Word}
    (hlink : link = head.address ∨ link ∈ nodes) (hp : p ∈ nodes) :
    search mem size fuel link p = .outOfFuel ∨
    ∃ link' block, (link' = head.address ∨ link' ∈ nodes) ∧ block ∈ nodes ∧
      search mem size fuel link p = .found link' block := by
  induction fuel generalizing link p with
  | zero => exact Or.inl rfl
  | succ fuel ih =>
      rw [search, if_neg (h.endless.ne_zero p hp)]
      split
      · exact Or.inr ⟨link, p, hlink, hp, rfl⟩
      · exact ih (Or.inr hp) (h.endless.next p hp)

/-! ### One pair -/

section Pair

variable {head : ListHead} {s : Transient} {nodes pre post : List Word} {x block size : Word}

theorem add_overhead_eq_zero : x + overhead = 0 ↔ x = nullBlock := by
  rw [nullBlock, overhead_eq]
  bv_omega

theorem pairStep_of_malloc {heap : Heap} (hrun : s.hung = false)
    (hcall : malloc head size s.heap = some (x + overhead, heap)) :
    pairStep head s size =
      { heap := { heap with mem := freed head heap.mem x }
        moves :=
          if heap.currentHeapAddress = s.heap.currentHeapAddress then s.moves
          else s.moves ++ [rounded size]
        failed := s.failed || decide (x = nullBlock)
        hung := false } := by
  have hnull : (x + overhead == 0) = decide (x = nullBlock) :=
    decide_eq_decide.mpr add_overhead_eq_zero
  rw [pairStep, hrun, if_neg Bool.false_ne_true, hcall]
  simp only [free_mem, hnull]

/-- As long as the list ends: a block of the size of each move is on it, and the
null block is on it only after a failure. -/
structure Finite (head : ListHead) (s : Transient) (nodes : List Word) : Prop where
  listed : Listed head s.heap.currentHeapAddress.toNat s.heap.mem nodes
  covered : ∀ m ∈ s.moves, ∃ a ∈ nodes, m ≤ (blockSize s.heap.mem a).toNat
  clean : s.failed = false → nullBlock ∉ nodes
  returned : s.hung = false

variable (hstop : s.heap.currentHeapAddress.toNat ≤ heapEnd)
  (hlow : head.address.toNat + 8 ≤ nullBlock.toNat)
include hstop hlow

/-- A block is taken out of the list and put back to its front. -/
theorem Finite.taken (h : Finite head s (pre ++ block :: post))
    (hcall : malloc head size s.heap = some (block + overhead, { s.heap with
      mem := store32 s.heap.mem (lastLink head.address pre) (blockNext s.heap.mem block) })) :
    let s' := pairStep head s size
    s'.heap.currentHeapAddress = s.heap.currentHeapAddress ∧ s'.moves = s.moves ∧
      (s.failed = false → s'.failed = false) ∧ Finite head s' (block :: (pre ++ post)) := by
  have hmem : ∀ a, a ∈ block :: (pre ++ post) ↔ a ∈ pre ++ block :: post := fun a =>
    List.perm_middle.mem_iff.symm
  have hblock : Placed s.heap.currentHeapAddress.toNat block := h.listed.placed block (by simp)
  have hlink : LinkCell head s.heap.currentHeapAddress.toNat (lastLink head.address pre) :=
    linkCell_lastLink fun a ha => h.listed.placed a (by simp [ha])
  have hnew : block ∉ pre ++ post := (List.nodup_middle.mp h.listed.nodup).notMem
  have hclean : s.failed = false → block ≠ nullBlock := by
    rintro hfailed rfl
    exact h.clean hfailed (by simp)
  rw [pairStep_of_malloc h.returned hcall]
  refine ⟨rfl, if_pos rfl, fun hfailed => ?_, ?_, fun m hm => ?_, fun hfailed => ?_, rfl⟩
  · simpa [hfailed] using hclean hfailed
  · exact (h.listed.take hstop hlow).free hstop hlow hblock hnew
  · rw [if_pos rfl] at hm
    obtain ⟨a, ha, hle⟩ := h.covered m hm
    refine ⟨a, (hmem a).mpr ha, ?_⟩
    rw [blockSize_freed hstop hlow hblock (h.listed.placed a ha),
      (h.listed.placed a ha).blockSize_store hstop hlow hlink]
    exact hle
  · rw [hmem]
    exact h.clean (Bool.or_eq_false_iff.mp hfailed).1

/-- `malloc` fails, and the null block is put on the list. -/
theorem Finite.refused (h : Finite head s nodes)
    (hcall : malloc head size s.heap =
      some (0, { s.heap with errno := SymbolicErrno.ENOMEM.val })) :
    let s' := pairStep head s size
    s'.heap.currentHeapAddress = s.heap.currentHeapAddress ∧ s'.moves = s.moves ∧
      s'.failed = true ∧ ((∃ nodes', Finite head s' nodes') ∨
        ∃ nodes', Looping head s'.heap.currentHeapAddress.toNat s'.heap.mem nodes') := by
  have hnull : Placed s.heap.currentHeapAddress.toNat nullBlock := placed_nullBlock _
  have hzero : (0 : Word) = nullBlock + overhead := by decide
  rw [hzero] at hcall
  rw [pairStep_of_malloc h.returned hcall]
  refine ⟨rfl, if_pos rfl, by simp, ?_⟩
  -- the second failure puts the null block on the list for the second time
  by_cases hmem : nullBlock ∈ nodes
  · exact Or.inr (h.listed.free_again hstop hlow hmem)
  · left
    refine ⟨nullBlock :: nodes, h.listed.free hstop hlow hnull hmem, fun m hm => ?_,
      fun hfailed => ?_, rfl⟩
    · rw [if_pos rfl] at hm
      obtain ⟨a, ha, hle⟩ := h.covered m hm
      refine ⟨a, List.mem_cons_of_mem _ ha, ?_⟩
      rw [blockSize_freed hstop hlow hnull (h.listed.placed a ha)]
      exact hle
    · simp at hfailed

omit hstop in
/-- The break moves, and the new block is put on the list. -/
theorem Finite.grown (h : Finite head s nodes) {total : Word} (htotal : total.toNat = rounded size)
    (hpos : 16 ≤ total.toNat) (hlow' : HEAP_START.toNat ≤ s.heap.currentHeapAddress.toNat)
    (haligned : 16 ∣ s.heap.currentHeapAddress.toNat)
    (hroom : s.heap.currentHeapAddress.toNat + total.toNat ≤ heapEnd)
    (hcall : malloc head size s.heap = some (s.heap.currentHeapAddress + overhead, { s.heap with
      mem := store32 s.heap.mem (s.heap.currentHeapAddress + 4) total
      currentHeapAddress := s.heap.currentHeapAddress + total })) :
    let s' := pairStep head s size
    s'.heap.currentHeapAddress.toNat = s.heap.currentHeapAddress.toNat + rounded size ∧
      s'.moves = s.moves ++ [rounded size] ∧ s'.failed = s.failed ∧
      Finite head s' (s.heap.currentHeapAddress :: nodes) := by
  have hend : heapEnd + 16 < 2 ^ 32 := by decide
  have hbreak : (s.heap.currentHeapAddress + total).toNat =
      s.heap.currentHeapAddress.toNat + total.toNat := BitVec.toNat_add_of_lt (by omega)
  have hmoved : s.heap.currentHeapAddress + total ≠ s.heap.currentHeapAddress := by
    intro heq
    have hval := congrArg BitVec.toNat heq
    omega
  have hstop : (s.heap.currentHeapAddress + total).toNat ≤ heapEnd := by omega
  have hplaced : ∀ a ∈ nodes, Placed (s.heap.currentHeapAddress + total).toNat a := fun a ha =>
    (h.listed.placed a ha).mono (by omega)
  have hnewPlaced : Placed (s.heap.currentHeapAddress + total).toNat s.heap.currentHeapAddress :=
    ⟨haligned, Or.inl ⟨hlow', by omega⟩⟩
  -- the blocks on the list end at the break, or begin far above it
  have hne : ∀ a ∈ nodes, a ≠ s.heap.currentHeapAddress := by
    rintro a ha rfl
    rcases (h.listed.placed _ ha).2 with ⟨-, hhigh⟩ | hnull
    · omega
    · have hval := congrArg BitVec.toNat hnull
      rw [show nullBlock.toNat = 2 ^ 32 - 16 by decide] at hval
      omega
  have hnotNull : s.heap.currentHeapAddress ≠ nullBlock := by
    intro hnull
    have hval := congrArg BitVec.toNat hnull
    rw [show nullBlock.toNat = 2 ^ 32 - 16 by decide] at hval
    omega
  rw [pairStep_of_malloc h.returned hcall]
  refine ⟨by rw [← htotal]; exact hbreak, if_neg hmoved, by simp [hnotNull], ?_, fun m hm => ?_,
    fun hfailed => ?_, rfl⟩
  · refine ((h.listed.mono (by omega)).grow hstop hlow hnewPlaced total).free hstop hlow hnewPlaced ?_
    exact fun hmem => hne _ hmem rfl
  · rw [if_neg hmoved] at hm
    rcases List.mem_append.mp hm with hold | hnew
    · obtain ⟨a, ha, hle⟩ := h.covered m hold
      refine ⟨a, List.mem_cons_of_mem _ ha, ?_⟩
      rw [blockSize_freed hstop hlow hnewPlaced (hplaced a ha),
        (hplaced a ha).blockSize_store_size hnewPlaced (hne a ha)]
      exact hle
    · refine ⟨s.heap.currentHeapAddress, List.mem_cons_self, ?_⟩
      rw [blockSize_freed hstop hlow hnewPlaced hnewPlaced, List.mem_singleton.mp hnew, ← htotal]
      exact Nat.le_of_eq (congrArg BitVec.toNat (load32_store32_self _ _ _)).symm
  · have hclean := h.clean (Bool.or_eq_false_iff.mp hfailed).1
    exact fun hmem => hclean ((List.mem_cons.mp hmem).resolve_left (Ne.symm hnotNull))

/-- On an endless list `malloc` finds a block, or does not return. -/
theorem Looping.pair (h : Looping head s.heap.currentHeapAddress.toNat s.heap.mem nodes)
    (size : Word) (hrun : s.hung = false) :
    let s' := pairStep head s size
    s'.heap.currentHeapAddress = s.heap.currentHeapAddress ∧ s'.moves = s.moves ∧
      (s.failed = true → s'.failed = true) ∧ (s'.hung = true ∨
        ∃ nodes', Looping head s'.heap.currentHeapAddress.toNat s'.heap.mem nodes') := by
  rcases search_looping h (align16 (size + overhead)) searchFuel (Or.inl rfl) h.endless.first with
    hsearch | ⟨link, block, hlink, hblock, hsearch⟩
  · have hcall : malloc head size s.heap = none := by
      simp only [malloc, hsearch]
    have hstep : pairStep head s size = { s with hung := true } := by
      rw [pairStep, hrun, if_neg Bool.false_ne_true, hcall]
    rw [hstep]
    exact ⟨rfl, rfl, id, Or.inl rfl⟩
  · have hcall : malloc head size s.heap = some (block + overhead, { s.heap with
        mem := store32 s.heap.mem link (blockNext s.heap.mem block) }) := by
      simp only [malloc, hsearch]
    rw [pairStep_of_malloc hrun hcall]
    refine ⟨rfl, if_pos rfl, fun hfailed => by simp [hfailed], Or.inr ⟨block :: nodes, ?_⟩⟩
    exact (h.take hstop hlow hlink hblock).free hstop hlow (h.placed block hblock)

end Pair

/-! ### The account of the moves -/

/-- The break has moved from `start` by the sum of the moves; these increase, and
are sizes from `sums`.  If all of `sums` fits, no `malloc` has failed.  The list
ends as long as none has. -/
structure TransientInv (head : ListHead) (sums : Finset Nat) (start : Nat) (s : Transient) :
    Prop where
  low : HEAP_START.toNat ≤ start
  moved : s.heap.currentHeapAddress.toNat = start + s.moves.sum
  inHeap : s.heap.currentHeapAddress.toNat ≤ heapEnd
  aligned : 16 ∣ s.heap.currentHeapAddress.toNat
  increasing : s.moves.Pairwise (· < ·)
  known : ∀ m ∈ s.moves, m ∈ sums
  room : start + ∑ n ∈ sums, n ≤ heapEnd → s.failed = false
  list : (∃ nodes, Finite head s nodes) ∨ s.failed = true ∧ (s.hung = true ∨
    ∃ nodes, Looping head s.heap.currentHeapAddress.toNat s.heap.mem nodes)

section Account

variable {head : ListHead} {sums : Finset Nat} {start : Nat} {s : Transient} {size : Word}

/-- Increasing numbers from a finite set have at most its sum. -/
theorem sum_le_of_increasing {moves : List Nat} (hincreasing : moves.Pairwise (· < ·))
    (hknown : ∀ m ∈ moves, m ∈ sums) : moves.sum ≤ ∑ n ∈ sums, n := by
  have hnodup : moves.Nodup := hincreasing.imp fun hlt => Nat.ne_of_lt hlt
  calc moves.sum = ∑ n ∈ moves.toFinset, n := by
        rw [List.sum_toFinset _ hnodup, List.map_id']
    _ ≤ ∑ n ∈ sums, n := Finset.sum_le_sum_of_subset fun m hm =>
        hknown m (List.mem_toFinset.mp hm)

/-- A pair that does not move the break only has to account for the list and for
a failure. -/
theorem TransientInv.keep (h : TransientInv head sums start s)
    (hbreak : (pairStep head s size).heap.currentHeapAddress = s.heap.currentHeapAddress)
    (hmoves : (pairStep head s size).moves = s.moves)
    (hroom : start + ∑ n ∈ sums, n ≤ heapEnd → (pairStep head s size).failed = false)
    (hlist : (∃ nodes, Finite head (pairStep head s size) nodes) ∨
      (pairStep head s size).failed = true ∧ ((pairStep head s size).hung = true ∨
        ∃ nodes, Looping head (pairStep head s size).heap.currentHeapAddress.toNat
          (pairStep head s size).heap.mem nodes)) :
    TransientInv head sums start (pairStep head s size) where
  low := h.low
  moved := by rw [hbreak, hmoves, h.moved]
  inHeap := by rw [hbreak]; exact h.inHeap
  aligned := by rw [hbreak]; exact h.aligned
  increasing := by rw [hmoves]; exact h.increasing
  known := by rw [hmoves]; exact h.known
  room := hroom
  list := hlist

/-- The size of the next move is larger than all earlier ones. -/
theorem TransientInv.increasing_snoc {nodes : List Word} (h : TransientInv head sums start s)
    (hfinite : Finite head s nodes)
    (hsmall : ∀ a ∈ nodes, blockSize s.heap.mem a < align16 (size + overhead)) :
    (s.moves ++ [rounded size]).Pairwise (· < ·) := by
  refine List.pairwise_append.mpr ⟨h.increasing, List.pairwise_singleton _ _, fun m hm n hn => ?_⟩
  obtain ⟨a, ha, hle⟩ := hfinite.covered m hm
  rw [List.mem_singleton.mp hn]
  exact hle.trans_lt (BitVec.lt_def.mp (hsmall a ha))

theorem TransientInv.known_snoc (h : TransientInv head sums start s)
    (hknown : rounded size ∈ sums) : ∀ m ∈ s.moves ++ [rounded size], m ∈ sums := by
  intro m hm
  rcases List.mem_append.mp hm with hold | hnew
  · exact h.known m hold
  · rw [List.mem_singleton.mp hnew]
    exact hknown

/-- One pair keeps the account, and moves the break for a larger size only. -/
theorem transientInv_pairStep (hlow : head.address.toNat + 8 ≤ nullBlock.toNat)
    (h : TransientInv head sums start s) (hknown : rounded size ∈ sums)
    (hsize : size.toNat ≤ HEAP_SIZE.toNat) :
    TransientInv head sums start (pairStep head s size) ∧ MovesForLarger head s size := by
  have hHeap : heapEnd + HEAP_SIZE.toNat + 31 < 2 ^ 32 := by decide
  have hbreak := h.inHeap
  have hrequest : size.toNat + 31 < 2 ^ 32 := by omega
  obtain ⟨hfit, hdvd, hle⟩ := toNat_blockSize_request hrequest
  rcases h.list with ⟨nodes, hfinite⟩ | ⟨hfailed, hhung | ⟨nodes, hlooping⟩⟩
  · have hne : s.heap.currentHeapAddress ≠ 0 := by
      intro hzero
      have hmoved := h.moved
      have hstart : 0 < HEAP_START.toNat := by decide
      have hlow' := h.low
      rw [hzero] at hmoved
      change 0 = _ at hmoved
      omega
    have hsum : s.heap.currentHeapAddress.toNat + (align16 (size + overhead)).toNat < 2 ^ 32 := by
      omega
    rcases malloc_of_chain hfinite.listed.chain (hfinite.listed.length_lt hbreak) hsum hne with
      ⟨hfull, hsmall, hcall⟩ | ⟨pre, block, post, rfl, -, hcall⟩ | ⟨hroom, hsmall, hcall⟩
    · obtain ⟨hsame, hmoves, hfailed, hlist⟩ := hfinite.refused hbreak hlow hcall
      refine ⟨h.keep hsame hmoves (fun hfits => ?_) ?_, fun hmoved => absurd hsame hmoved⟩
      · -- the size is a new one, and there is room for it
        exfalso
        have hsum := sum_le_of_increasing (h.increasing_snoc hfinite hsmall) (h.known_snoc hknown)
        have hmoved := h.moved
        have hend : heapEnd = HEAP_START.toNat + HEAP_SIZE.toNat := rfl
        rw [List.sum_append, List.sum_singleton, rounded] at hsum
        omega
      · exact hlist.imp_right fun hloop => ⟨hfailed, Or.inr hloop⟩
    · obtain ⟨hsame, hmoves, hfailed, hlist⟩ := hfinite.taken hbreak hlow hcall
      exact ⟨h.keep hsame hmoves (fun hfits => hfailed (h.room hfits)) (Or.inl ⟨_, hlist⟩),
        fun hmoved => absurd hsame hmoved⟩
    · have hlow' : HEAP_START.toNat ≤ s.heap.currentHeapAddress.toNat := by
        rw [h.moved]
        exact h.low.trans (Nat.le_add_right _ _)
      obtain ⟨hgrown, hmoves, hfailed, hlist⟩ :=
        hfinite.grown hlow rfl (by omega) hlow' h.aligned hroom hcall
      refine ⟨⟨h.low, ?_, ?_, ?_, ?_, ?_, fun hfits => ?_, Or.inl ⟨_, hlist⟩⟩, fun _ => ?_⟩
      · rw [hgrown, hmoves, h.moved, List.sum_append, List.sum_singleton, Nat.add_assoc]
      · rw [hgrown]
        exact hroom
      · rw [hgrown]
        exact Nat.dvd_add h.aligned hdvd
      · rw [hmoves]
        exact h.increasing_snoc hfinite hsmall
      · rw [hmoves]
        exact h.known_snoc hknown
      · rw [hfailed]
        exact h.room hfits
      · exact ⟨nodes, hfinite.listed.chain, fun a ha => BitVec.lt_def.mp (hsmall a ha)⟩
  · have hstep : pairStep head s size = s := by rw [pairStep, if_pos hhung]
    rw [MovesForLarger, hstep]
    exact ⟨h, fun hmoved => absurd rfl hmoved⟩
  · by_cases hhung : s.hung = true
    · have hstep : pairStep head s size = s := by rw [pairStep, if_pos hhung]
      rw [MovesForLarger, hstep]
      exact ⟨h, fun hmoved => absurd rfl hmoved⟩
    · obtain ⟨hsame, hmoves, hstill, hlist⟩ :=
        hlooping.pair hbreak hlow size (Bool.eq_false_iff.mpr hhung)
      refine ⟨h.keep hsame hmoves (fun hfits => ?_) (Or.inr ⟨hstill hfailed, hlist⟩),
        fun hmoved => absurd hsame hmoved⟩
      exact absurd (h.room hfits) (by simp [hfailed])

/-- The account at the start: a heap in which no block is lost or broken. -/
theorem transientInv_beforePairs {c : Client} (h : Inv head c) :
    TransientInv head sums c.heap.currentHeapAddress.toNat (beforePairs c) := by
  obtain ⟨free, blocks, hshape⟩ := h
  have hend : heapEnd < nullBlock.toNat := by decide
  have hbreak : c.heap.currentHeapAddress.toNat ≤ heapEnd := hshape.bounded
  have hbounds : ∀ a ∈ free, HEAP_START.toNat ≤ a.toNat ∧
      a.toNat + 16 ≤ c.heap.currentHeapAddress.toNat := by
    intro a ha
    obtain ⟨hstart, hsize, hhigh⟩ := hshape.bounds (List.mem_append_left _ ha)
    omega
  refine ⟨hshape.tiles.le, rfl, hbreak, hshape.tiles.dvd_stop (by decide) hshape.dvd,
    List.Pairwise.nil, by simp [beforePairs], fun _ => rfl, Or.inl ⟨free, ⟨?_, ?_, ?_, hshape.returned⟩⟩⟩
  · exact ⟨hshape.chain, (List.nodup_append.mp hshape.nodup).1, fun a ha =>
      ⟨hshape.aligned (List.mem_append_left _ ha), Or.inl (hbounds a ha)⟩⟩
  · simp [beforePairs]
  · intro _ hnull
    have hin := (hbounds nullBlock hnull).2
    omega

end Account

/-! ### Sequences of pairs -/

/-- What a sequence of pairs does to the break, and when it does not fail. -/
structure TransientBounded (head : ListHead) (c : Client) (sizes : List Word) : Prop where
  movesForLarger : EveryStep (pairStep head) (MovesForLarger head) (beforePairs c) sizes
  increasing : (run (pairStep head) (beforePairs c) sizes).moves.Pairwise (· < ·)
  growth : (run (pairStep head) (beforePairs c) sizes).heap.currentHeapAddress.toNat =
    c.heap.currentHeapAddress.toNat + (run (pairStep head) (beforePairs c) sizes).moves.sum
  bounded : (run (pairStep head) (beforePairs c) sizes).moves.sum ≤ distinctSum sizes
  succeeds : c.heap.currentHeapAddress.toNat + distinctSum sizes ≤ heapEnd →
    (run (pairStep head) (beforePairs c) sizes).failed = false ∧
    (run (pairStep head) (beforePairs c) sizes).hung = false

theorem transientBounded_of_inv {head : ListHead} {c : Client} {sizes : List Word}
    (hlow : head.address.toNat + 8 ≤ nullBlock.toNat) (h : Inv head c)
    (hsizes : ∀ n ∈ sizes, n.toNat ≤ HEAP_SIZE.toNat) : TransientBounded head c sizes := by
  let sums := (sizes.map rounded).toFinset
  let start := c.heap.currentHeapAddress.toNat
  have hok : EveryStep (pairStep head)
      (fun _ size => rounded size ∈ sums ∧ size.toNat ≤ HEAP_SIZE.toNat) (beforePairs c) sizes :=
    everyStep_of_forall_mem fun n hn =>
      ⟨List.mem_toFinset.mpr (List.mem_map_of_mem hn), hsizes n hn⟩
  have hinit : TransientInv head sums start (beforePairs c) := transientInv_beforePairs h
  have hkeep : ∀ s size, TransientInv head sums start s →
      rounded size ∈ sums ∧ size.toNat ≤ HEAP_SIZE.toNat →
      TransientInv head sums start (pairStep head s size) :=
    fun s size hs hsize => (transientInv_pairStep hlow hs hsize.1 hsize.2).1
  have hfinal := everyState_iff_reached.mp (everyState_of_invariant hkeep hinit hok) sizes
    List.prefix_rfl
  refine ⟨everyStep_of_invariant hkeep (fun s size hs hsize =>
    (transientInv_pairStep hlow hs hsize.1 hsize.2).2) hinit hok,
    hfinal.increasing, hfinal.moved, sum_le_of_increasing hfinal.increasing hfinal.known,
    fun hfits => ?_⟩
  have hfailed := hfinal.room hfits
  rcases hfinal.list with ⟨nodes, hfinite⟩ | ⟨hfail, -⟩
  · exact ⟨hfailed, hfinite.returned⟩
  · exact absurd hfailed (by simp [hfail])

/-- **Transient allocations.**  If every request so far was one that `malloc` can
serve or must refuse, then from there on pairs for at most `bound` bytes move
the break for increasing sizes only, and never fail if the distinct sizes
together fit into the heap.  The image is linked below the last 16 bytes of the
address space. -/
theorem transient_allocations_bounded (head : ListHead)
    (hlow : head.address.toNat + 8 ≤ nullBlock.toNat) (mem : Mem) (calls : List Call)
    (hlegal : EveryStep (step head) Legal (initialClient head mem) calls)
    (hserved : EveryStep (step head) (RequestOk head) (initialClient head mem) calls)
    (bound : Nat) (hbound : bound ≤ HEAP_SIZE.toNat) (sizes : List Word)
    (hsizes : ∀ n ∈ sizes, n.toNat ≤ bound) :
    TransientBounded head (run (step head) (initialClient head mem) calls) sizes := by
  refine transientBounded_of_inv hlow ?_ fun n hn => (hsizes n hn).trans hbound
  exact inv_reached head mem calls hlegal hserved

/-- Two blocks are on the free list; the first pair takes one of them, the
second one moves the break, and the third one takes the new block. -/
theorem reuseCalls_transient :
    let head : ListHead := ⟨0x8000, by decide⟩
    TransientBounded head (run (step head) (initialClient head fun _ => 0) reuseCalls)
      [16, 100, 100] :=
  transient_allocations_bounded ⟨0x8000, by decide⟩ (by decide) (fun _ => 0) reuseCalls
    (by decide +kernel) (by decide +kernel) 100 (by decide) [16, 100, 100] (by simp)

/-- A request for nearly the whole address space moves the break to the address
0; the next `malloc` returns null although there is room. -/
theorem hugeRequest_not_transientBounded :
    let head : ListHead := ⟨0x8000, by decide⟩
    EveryStep (step head) Legal (initialClient head fun _ => 0) [.malloc 0xFAFFFFF0] ∧
    ¬ TransientBounded head (run (step head) (initialClient head fun _ => 0) [.malloc 0xFAFFFFF0])
      [16] := by
  refine ⟨⟨trivial, trivial⟩, fun h => ?_⟩
  have hfailed := (h.succeeds (by decide +kernel)).1
  exact absurd hfailed (by decide +kernel)

end Libc
end Ninjastorms
