import Ninjastorms.Lib.Runs
import Ninjastorms.Lib.Tiling
import Ninjastorms.Libc.Malloc

/-!
# Allocator safety

A program that uses the allocator calls `malloc` and `free` in any order and
writes into the areas it was given.  `Client` records beside the heap the
blocks that are live: returned by `malloc` and not yet freed.

* `Shape` is the representation invariant: the free list and the live blocks
  together tile the heap up to the break.  The list and the order of the tiling
  are its parameters, so that each call says how it changes them.
* `shape_malloc_found`, `shape_malloc_grow`, `inv_free` and `inv_store` are the
  step lemmas.  They all rest on `Shape.separate`: blocks are apart from
  each other and from the head of the free list.
* `allocator_safe` carries the invariant along every run.
-/

namespace Ninjastorms
namespace Libc

open Lib.ByteMemory Lib.LinkedList Lib.Tiling Lib.Runs

/-- A live block: the pointer that `malloc` returned and the size it was asked for. -/
structure Block where
  ptr : Word
  size : Word
  deriving DecidableEq

/-- The header of a live block. -/
def Block.header (b : Block) : Word :=
  b.ptr - overhead

/-- The heap and the blocks that are live in it.  `hung` says that a call of
`malloc` has not returned. -/
structure Client where
  heap : Heap
  live : List Block
  hung : Bool

/-- What a program does with the allocator. -/
inductive Call where
  | malloc (size : Word)
  | free (ptr : Word)
  | store (address : Word) (value : Byte)

/-- A program that has just started. -/
def initialClient (head : ListHead) (mem : Mem) : Client where
  heap := initialHeap head mem
  live := []
  hung := false

def step (head : ListHead) (c : Client) : Call → Client
  | .malloc size =>
      match malloc head size c.heap with
      | none => { c with hung := true }
      | some (ptr, heap) =>
          if ptr = 0 then { c with heap := heap }
          else { c with heap := heap, live := ⟨ptr, size⟩ :: c.live }
  | .free ptr =>
      { c with heap := free head ptr c.heap, live := c.live.eraseP fun b => b.ptr == ptr }
  | .store address value =>
      { c with heap := { c.heap with
          mem := fun x => if x = address then value else c.heap.mem x } }

/-- The calls of a well-behaved program: it asks for at most the whole heap,
frees live blocks only, and writes into live areas only. -/
def Allowed (c : Client) : Call → Prop
  | .malloc size => size.toNat ≤ HEAP_SIZE.toNat
  | .free ptr => ∃ b ∈ c.live, b.ptr = ptr
  | .store address _ => ∃ b ∈ c.live, offset b.ptr address < b.size.toNat

instance (c : Client) : (call : Call) → Decidable (Allowed c call)
  | .malloc size => inferInstanceAs (Decidable (size.toNat ≤ HEAP_SIZE.toNat))
  | .free ptr => inferInstanceAs (Decidable (∃ b ∈ c.live, b.ptr = ptr))
  | .store address _ =>
      inferInstanceAs (Decidable (∃ b ∈ c.live, offset b.ptr address < b.size.toNat))

/-! ### What is promised -/

/-- The first address and the length of a block. -/
def extent (mem : Mem) (header : Word) : Nat × Nat :=
  (header.toNat, (blockSize mem header).toNat)

/-- The first address and the length of the area behind the header of a live block. -/
def userArea (mem : Mem) (b : Block) : Nat × Nat :=
  (b.ptr.toNat, (blockSize mem b.header).toNat - 16)

/-- Two ranges have no address in common. -/
def Apart (r s : Nat × Nat) : Prop :=
  r.1 + r.2 ≤ s.1 ∨ s.1 + s.2 ≤ r.1

/-- The headers of all blocks: those in the free list and those of live blocks. -/
def headers (c : Client) (free : List Word) : List Word :=
  free ++ c.live.map Block.header

/-- The promise of the allocator to its client. -/
structure Safe (head : ListHead) (c : Client) : Prop where
  /-- Every call has returned. -/
  returned : c.hung = false
  /-- The free list ends, and its blocks and the live ones tile the heap up to
  the break; no block occurs twice. -/
  tiled : ∃ free blocks, Chain c.heap.mem (load32 c.heap.mem head.address) free ∧
    (headers c free).Nodup ∧ blocks.Perm ((headers c free).map (extent c.heap.mem)) ∧
    Tiles HEAP_START.toNat blocks c.heap.currentHeapAddress.toNat ∧
    ∀ b ∈ c.live, ∀ a ∈ headers c free, Apart (userArea c.heap.mem b) (a.toNat, 16)
  aligned : ∀ b ∈ c.live, 16 ∣ b.ptr.toNat
  large : ∀ b ∈ c.live, b.size.toNat ≤ (userArea c.heap.mem b).2
  inside : ∀ b ∈ c.live, HEAP_START.toNat ≤ b.ptr.toNat ∧
    b.ptr.toNat + (userArea c.heap.mem b).2 ≤ HEAP_START.toNat + HEAP_SIZE.toNat
  disjoint : c.live.Pairwise fun b b' => Apart (userArea c.heap.mem b) (userArea c.heap.mem b')

/-- A call does not change the size field of a block that is live before it. -/
def SizesKept (head : ListHead) (c : Client) (call : Call) : Prop :=
  ∀ b ∈ c.live,
    blockSize (step head c call).heap.mem b.header = blockSize c.heap.mem b.header

/-! ### The invariant -/

/-- The free list is `free`, and the blocks in the order of their addresses are `blocks`. -/
structure Shape (head : ListHead) (c : Client) (free : List Word)
    (blocks : List (Nat × Nat)) : Prop where
  chain : Chain c.heap.mem (load32 c.heap.mem head.address) free
  perm : blocks.Perm ((headers c free).map (extent c.heap.mem))
  tiles : Tiles HEAP_START.toNat blocks c.heap.currentHeapAddress.toNat
  bounded : c.heap.currentHeapAddress.toNat ≤ HEAP_START.toNat + HEAP_SIZE.toNat
  dvd : ∀ b ∈ blocks, 16 ∣ b.2
  large : ∀ b ∈ c.live, b.size.toNat + 16 ≤ (blockSize c.heap.mem b.header).toNat
  returned : c.hung = false

def Inv (head : ListHead) (c : Client) : Prop :=
  ∃ free blocks, Shape head c free blocks

section Shape

variable {head : ListHead} {c : Client} {free : List Word} {blocks : List (Nat × Nat)}

theorem Shape.extent_mem (h : Shape head c free blocks) {a : Word} (ha : a ∈ headers c free) :
    extent c.heap.mem a ∈ blocks :=
  h.perm.mem_iff.mpr (List.mem_map_of_mem ha)

/-- Where a block lies. -/
theorem Shape.bounds (h : Shape head c free blocks) {a : Word} (ha : a ∈ headers c free) :
    HEAP_START.toNat ≤ a.toNat ∧ 16 ≤ (blockSize c.heap.mem a).toNat ∧
    a.toNat + (blockSize c.heap.mem a).toNat ≤ c.heap.currentHeapAddress.toNat := by
  have hmem := h.extent_mem ha
  obtain ⟨hlow, hpos, hhigh⟩ := h.tiles.bounds hmem
  have hdvd := h.dvd _ hmem
  exact ⟨hlow, Nat.le_of_dvd hpos hdvd, hhigh⟩

theorem Shape.aligned (h : Shape head c free blocks) {a : Word} (ha : a ∈ headers c free) :
    16 ∣ a.toNat :=
  h.tiles.dvd_fst (by decide) h.dvd (h.extent_mem ha)

theorem Shape.ne_zero (h : Shape head c free blocks) {a : Word} (ha : a ∈ headers c free) :
    a ≠ 0 := by
  rintro rfl
  have hlow := (h.bounds ha).1
  exact absurd hlow (by decide)

/-- No block occurs twice, in the free list or among the live ones. -/
theorem Shape.nodup (h : Shape head c free blocks) : (headers c free).Nodup := by
  have hfst : (blocks.map Prod.fst).Perm ((headers c free).map BitVec.toNat) := by
    have hmap := h.perm.map Prod.fst
    rwa [List.map_map] at hmap
  exact List.Nodup.of_map _ (hfst.nodup_iff.mp h.tiles.nodup_fst)

theorem Shape.extent_disjoint (h : Shape head c free blocks) {a b : Word}
    (ha : a ∈ headers c free) (hb : b ∈ headers c free) (hne : a ≠ b) :
    Apart (extent c.heap.mem a) (extent c.heap.mem b) :=
  h.tiles.disjoint (h.extent_mem ha) (h.extent_mem hb)
    fun heq => hne (BitVec.eq_of_toNat_eq heq)

/-- Different blocks have no byte in common. -/
theorem Shape.separate (h : Shape head c free blocks) {a b : Word}
    (ha : a ∈ headers c free) (hb : b ∈ headers c free) (hne : a ≠ b) :
    Separate a (blockSize c.heap.mem a).toNat b (blockSize c.heap.mem b).toNat := by
  have hHeap : HEAP_START.toNat + HEAP_SIZE.toNat < 2 ^ 32 := by decide
  have hbreak := h.bounded
  have ha' := (h.bounds ha).2.2
  have hb' := (h.bounds hb).2.2
  rcases h.extent_disjoint ha hb hne with hle | hle
  · exact separate_of_toNat_le hle (by omega)
  · exact (separate_of_toNat_le hle (by omega)).symm

/-- A block has no byte in common with the head of the free list. -/
theorem Shape.separate_head (h : Shape head c free blocks) {a : Word}
    (ha : a ∈ headers c free) :
    Separate a (blockSize c.heap.mem a).toNat head.address 8 := by
  have hbreak := h.bounded
  obtain ⟨hlow, -, hhigh⟩ := h.bounds ha
  have hHeap : HEAP_START.toNat + HEAP_SIZE.toNat < 2 ^ 32 := by decide
  rcases head.outside with hbelow | ⟨habove, htop⟩
  · exact (separate_of_toNat_le (by omega) (by omega)).symm
  · exact separate_of_toNat_le (by omega) htop

/-- The cells that hold a link: the head of the list and the first word of a block. -/
def IsLink (head : ListHead) (c : Client) (free : List Word) (link : Word) : Prop :=
  link = head.address ∨ link ∈ headers c free

/-- A link and a size field have no byte in common. -/
theorem Shape.separate_size_link (h : Shape head c free blocks) {link a : Word}
    (hlink : IsLink head c free link) (ha : a ∈ headers c free) :
    Separate (a + 4) 4 link 4 := by
  have hsize := (h.bounds ha).2.1
  have hlt := (blockSize c.heap.mem a).isLt
  by_cases heq : a = link
  · subst heq
    exact (separate_words a).symm
  · have hblock : Separate a (blockSize c.heap.mem a).toNat link 4 := by
      rcases hlink with rfl | hmem
      · exact (h.separate_head ha).mono (Nat.le_refl _) (by omega)
      · have hother := (h.bounds hmem).2.1
        exact (h.separate ha hmem heq).mono (Nat.le_refl _) (by omega)
    exact hblock.part (i := 4) (by omega) (by omega)

/-- Writing a link changes no size field. -/
theorem Shape.blockSize_store_link (h : Shape head c free blocks) {link a v : Word}
    (hlink : IsLink head c free link) (ha : a ∈ headers c free) (mem : Mem) :
    blockSize (store32 mem link v) a = blockSize mem a :=
  load32_store32 (h.separate_size_link hlink ha)

/-- Writing a link changes no other link. -/
theorem Shape.separate_links (h : Shape head c free blocks) {link a : Word}
    (hlink : IsLink head c free link) (ha : a ∈ headers c free) (hne : a ≠ link) :
    Separate a 4 link 4 := by
  have hsize := (h.bounds ha).2.1
  rcases hlink with rfl | hmem
  · exact (h.separate_head ha).mono (by omega) (by omega)
  · have hother := (h.bounds hmem).2.1
    exact (h.separate ha hmem hne).mono (by omega) (by omega)

/-- The free list has far fewer blocks than the loop of `malloc` has turns. -/
theorem Shape.length_free_lt (h : Shape head c free blocks) : free.length < searchFuel := by
  have hlen : ∀ b ∈ blocks, 16 ≤ b.2 := fun b hb =>
    Nat.le_of_dvd (h.tiles.bounds hb).2.1 (h.dvd b hb)
  have hcount := h.tiles.length_mul_le hlen
  have hperm := h.perm.length_eq
  have hbreak := h.bounded
  simp only [headers, List.length_map, List.length_append] at hperm
  have hsize : HEAP_SIZE.toNat = 2 ^ 24 := rfl
  have hfuel : searchFuel = 2 ^ 20 + 2 := rfl
  omega

/-! ### The invariant gives the promise -/

@[simp] theorem header_mk (a size : Word) : Block.header ⟨a + overhead, size⟩ = a :=
  BitVec.add_sub_cancel a overhead

theorem add_overhead_ne_zero {a : Word} (h : a.toNat + 16 < 2 ^ 32) : a + overhead ≠ 0 := by
  rw [overhead_eq]
  bv_omega

theorem Block.toNat_ptr {b : Block} (h : b.header.toNat + 16 < 2 ^ 32) :
    b.ptr.toNat = b.header.toNat + 16 := by
  rw [Block.header, overhead_eq] at *
  bv_omega

theorem header_mem_headers {b : Block} (hb : b ∈ c.live) : b.header ∈ headers c free :=
  List.mem_append_right _ (List.mem_map_of_mem hb)

/-- Where the area of a live block lies. -/
theorem Shape.userArea_eq (h : Shape head c free blocks) {b : Block} (hb : b ∈ c.live) :
    b.ptr.toNat = b.header.toNat + 16 ∧
    b.ptr.toNat + (userArea c.heap.mem b).2 =
      b.header.toNat + (blockSize c.heap.mem b.header).toNat := by
  obtain ⟨-, hsize, hhigh⟩ := h.bounds (header_mem_headers hb)
  have hbreak := h.bounded
  have hHeap : HEAP_START.toNat + HEAP_SIZE.toNat < 2 ^ 32 := by decide
  have hptr := Block.toNat_ptr (b := b) (by omega)
  refine ⟨hptr, ?_⟩
  simp only [userArea, hptr]
  omega

theorem Shape.safe (h : Shape head c free blocks) : Safe head c where
  returned := h.returned
  tiled := by
    refine ⟨free, blocks, h.chain, h.nodup, h.perm, h.tiles, fun b hb a ha => ?_⟩
    obtain ⟨hptr, hend⟩ := h.userArea_eq hb
    by_cases heq : a = b.header
    · -- its own header lies right in front of the area
      right
      subst heq
      exact Nat.le_of_eq hptr.symm
    · have hsize := (h.bounds ha).2.1
      rcases h.extent_disjoint (header_mem_headers hb) ha (Ne.symm heq) with hle | hle
      · left
        exact (Nat.le_of_eq hend).trans hle
      · right
        simp only [extent, userArea] at hle ⊢
        omega
  aligned := by
    intro b hb
    rw [(h.userArea_eq hb).1]
    exact Nat.dvd_add (h.aligned (header_mem_headers hb)) (Nat.dvd_refl 16)
  large := by
    intro b hb
    have hlarge := h.large b hb
    simp only [userArea]
    omega
  inside := by
    intro b hb
    obtain ⟨hptr, hend⟩ := h.userArea_eq hb
    obtain ⟨hlow, -, hhigh⟩ := h.bounds (header_mem_headers hb)
    have hbreak := h.bounded
    omega
  disjoint := by
    have hnodup : (c.live.map Block.header).Nodup := (List.nodup_append.mp h.nodup).2.1
    rw [List.Nodup, List.pairwise_map] at hnodup
    refine hnodup.imp_of_mem fun {b b'} hb hb' hne => ?_
    obtain ⟨hptr, hend⟩ := h.userArea_eq hb
    obtain ⟨hptr', hend'⟩ := h.userArea_eq hb'
    have hdisjoint := h.extent_disjoint (header_mem_headers hb) (header_mem_headers hb') hne
    simp only [Apart, extent, userArea] at hdisjoint hend hend' ⊢
    omega

/-! ### One call of `malloc` -/

theorem isLink_lastLink {pre post : List Word} :
    IsLink head c (pre ++ post) (lastLink head.address pre) := by
  rcases List.eq_nil_or_concat pre with rfl | ⟨init, last, rfl⟩
  · exact Or.inl rfl
  · right
    simp [lastLink, headers]

/-- Unlinking the block that the loop has found. -/
theorem Shape.chain_unlink {pre post : List Word} {block : Word}
    (h : Shape head c (pre ++ block :: post) blocks) :
    let mem := store32 c.heap.mem (lastLink head.address pre) (blockNext c.heap.mem block)
    Chain mem (load32 mem head.address) (pre ++ post) := by
  have hmem : ∀ a ∈ pre ++ block :: post, a ∈ headers c (pre ++ block :: post) :=
    fun a ha => List.mem_append_left _ ha
  refine h.chain.unlink_cell (List.nodup_append.mp h.nodup).1 (fun a ha => ?_) fun a ha b hb hne => ?_
  · have hsize := (h.bounds (hmem a ha)).2.1
    exact (h.separate_head (hmem a ha)).mono (by omega) (by omega)
  · exact h.separate_links (Or.inr (hmem b hb)) (hmem a ha) hne

/-- `malloc` takes the block that the loop has found out of the free list. -/
theorem shape_malloc_found {pre post : List Word} {block size : Word}
    (h : Shape head c (pre ++ block :: post) blocks)
    (hfit : size.toNat + 16 ≤ (blockSize c.heap.mem block).toNat) :
    Shape head
      { heap := { c.heap with
          mem := store32 c.heap.mem (lastLink head.address pre) (blockNext c.heap.mem block) }
        live := ⟨block + overhead, size⟩ :: c.live
        hung := c.hung }
      (pre ++ post) blocks := by
  have hblock : block ∈ headers c (pre ++ block :: post) := by simp [headers]
  have hkeep : ∀ a ∈ headers c (pre ++ block :: post), blockSize
      (store32 c.heap.mem (lastLink head.address pre) (blockNext c.heap.mem block)) a =
        blockSize c.heap.mem a :=
    fun a ha => h.blockSize_store_link isLink_lastLink ha _
  refine ⟨h.chain_unlink, ?_, h.tiles, h.bounded, h.dvd, fun b hb => ?_, h.returned⟩
  · -- the blocks are the same; one has moved from the free list to the live ones
    have hsame : (headers c (pre ++ block :: post)).map (extent _) =
        (headers c (pre ++ block :: post)).map (extent c.heap.mem) :=
      List.map_congr_left fun a ha => congrArg (Prod.mk a.toNat ·.toNat) (hkeep a ha)
    refine h.perm.trans ?_
    rw [← hsame]
    refine List.Perm.map _ ?_
    simp only [headers, List.map_cons, header_mk, List.append_assoc, List.cons_append]
    refine List.Perm.append_left pre ?_
    exact List.perm_middle.symm
  · rcases List.mem_cons.mp hb with rfl | hlive
    · simpa only [header_mk, hkeep block hblock] using hfit
    · simpa only [hkeep _ (header_mem_headers hlive)] using h.large b hlive

/-- The size field of a block at the break lies behind every block. -/
theorem Shape.separate_break (h : Shape head c free blocks)
    (hroom : c.heap.currentHeapAddress.toNat + 8 ≤ HEAP_START.toNat + HEAP_SIZE.toNat) :
    Separate head.address 4 (c.heap.currentHeapAddress + 4) 4 ∧ ∀ a ∈ headers c free,
      Separate a (blockSize c.heap.mem a).toNat (c.heap.currentHeapAddress + 4) 4 := by
  have hHeap : HEAP_START.toNat + HEAP_SIZE.toNat < 2 ^ 32 := by decide
  have hstart := h.tiles.le
  have hfour : (c.heap.currentHeapAddress + 4).toNat = c.heap.currentHeapAddress.toNat + 4 :=
    BitVec.toNat_add_of_lt (show c.heap.currentHeapAddress.toNat + 4 < 2 ^ 32 by omega)
  constructor
  · rcases head.outside with hbelow | ⟨habove, htop⟩
    · exact separate_of_toNat_le (by omega) (by omega)
    · exact (separate_of_toNat_le (by omega) (by omega)).symm
  · intro a ha
    have hhigh := (h.bounds ha).2.2
    exact separate_of_toNat_le (by omega) (by omega)

theorem Shape.blockSize_store_break (h : Shape head c free blocks)
    (hroom : c.heap.currentHeapAddress.toNat + 8 ≤ HEAP_START.toNat + HEAP_SIZE.toNat)
    {a : Word} (ha : a ∈ headers c free) (v : Word) :
    blockSize (store32 c.heap.mem (c.heap.currentHeapAddress + 4) v) a =
      blockSize c.heap.mem a := by
  have hsize := (h.bounds ha).2.1
  have hlt := (blockSize c.heap.mem a).isLt
  exact load32_store32 (((h.separate_break hroom).2 a ha).part (i := 4) (by omega) (by omega))

/-- `malloc` moves the break and makes a new block behind the last one. -/
theorem shape_malloc_grow {size total : Word} (h : Shape head c free blocks)
    (hfit : size.toNat + 16 ≤ total.toNat) (hdvd : 16 ∣ total.toNat)
    (hroom : c.heap.currentHeapAddress.toNat + total.toNat ≤
      HEAP_START.toNat + HEAP_SIZE.toNat) :
    Shape head
      { heap := { c.heap with
          mem := store32 c.heap.mem (c.heap.currentHeapAddress + 4) total
          currentHeapAddress := c.heap.currentHeapAddress + total }
        live := ⟨c.heap.currentHeapAddress + overhead, size⟩ :: c.live
        hung := c.hung }
      free (blocks ++ [(c.heap.currentHeapAddress.toNat, total.toNat)]) := by
  have hHeap : HEAP_START.toNat + HEAP_SIZE.toNat < 2 ^ 32 := by decide
  have hbreak : (c.heap.currentHeapAddress + total).toNat =
      c.heap.currentHeapAddress.toNat + total.toNat :=
    BitVec.toNat_add_of_lt (by omega)
  obtain ⟨hhead, hbehind⟩ := h.separate_break (by omega)
  have hkeep : ∀ a ∈ headers c free,
      blockSize (store32 c.heap.mem (c.heap.currentHeapAddress + 4) total) a =
        blockSize c.heap.mem a :=
    fun a ha => h.blockSize_store_break (by omega) ha total
  refine ⟨?_, ?_, ?_, ?_, ?_, fun b hb => ?_, h.returned⟩
  · -- the write behind the break reaches neither the head of the list nor a link
    rw [load32_store32 hhead]
    refine h.chain.congr fun a ha => load32_store32 ?_
    have hsize := (h.bounds (List.mem_append_left _ ha)).2.1
    exact (hbehind a (List.mem_append_left _ ha)).mono (by omega) (Nat.le_refl _)
  · have hsame : (headers c free).map (extent _) = (headers c free).map (extent c.heap.mem) :=
      List.map_congr_left fun a ha => congrArg (Prod.mk a.toNat ·.toNat) (hkeep a ha)
    have hnew : extent (store32 c.heap.mem (c.heap.currentHeapAddress + 4) total)
        c.heap.currentHeapAddress = (c.heap.currentHeapAddress.toNat, total.toNat) := by
      simp only [extent, blockSize, load32_store32_self]
    have hcons : (headers c free ++ [c.heap.currentHeapAddress]).Perm
        (free ++ c.heap.currentHeapAddress :: c.live.map Block.header) := by
      rw [headers, List.append_assoc]
      exact List.Perm.append_left free (List.perm_append_singleton _ _)
    refine (h.perm.append_right _).trans ?_
    rw [← hsame, ← hnew]
    have hmap := hcons.map
      (extent (store32 c.heap.mem (c.heap.currentHeapAddress + 4) total))
    simp only [headers, List.map_append, List.map_cons, List.map_nil, header_mk] at hmap ⊢
    exact hmap
  · simp only [hbreak]
    exact h.tiles.snoc (by omega)
  · simp only [hbreak]
    exact hroom
  · intro b hb
    rcases List.mem_append.mp hb with hold | hnew
    · exact h.dvd b hold
    · rw [List.mem_singleton.mp hnew]
      exact hdvd
  · rcases List.mem_cons.mp hb with rfl | hlive
    · simpa only [header_mk, blockSize, load32_store32_self] using hfit
    · simpa only [hkeep _ (header_mem_headers hlive)] using h.large b hlive

/-- The sums that `malloc` and `sbrk` form for a request are the mathematical ones. -/
def Fits (c : Client) (size : Word) : Prop :=
  size.toNat + 31 < 2 ^ 32 ∧
    c.heap.currentHeapAddress.toNat + (align16 (size + overhead)).toNat < 2 ^ 32

instance (c : Client) (size : Word) : Decidable (Fits c size) :=
  inferInstanceAs (Decidable (_ ∧ _))

/-- A request of at most the heap size fits. -/
theorem Shape.fits (h : Shape head c free blocks) {size : Word}
    (hsize : size.toNat ≤ HEAP_SIZE.toNat) : Fits c size := by
  have hHeap : HEAP_START.toNat + HEAP_SIZE.toNat + HEAP_SIZE.toNat + 31 < 2 ^ 32 := by decide
  have hbreak := h.bounded
  have hrequest : size.toNat + 31 < 2 ^ 32 := by omega
  obtain ⟨-, -, htotal⟩ := toNat_blockSize_request hrequest
  exact ⟨by omega, by omega⟩

/-- A break of 0 would look like a failed `sbrk`. -/
theorem Shape.break_ne_zero (h : Shape head c free blocks) : c.heap.currentHeapAddress ≠ 0 := by
  intro heq
  have hstart := h.tiles.le
  rw [heq] at hstart
  exact absurd hstart (by decide)

/-- What a call of `malloc` does to the client. -/
theorem malloc_cases {size : Word} (h : Shape head c free blocks) (hfits : Fits c size) :
    step head c (.malloc size) =
      { c with heap := { c.heap with errno := SymbolicErrno.ENOMEM.val } } ∨
    (∃ pre block post, free = pre ++ block :: post ∧
      size.toNat + 16 ≤ (blockSize c.heap.mem block).toNat ∧
      step head c (.malloc size) =
        { heap := { c.heap with
            mem := store32 c.heap.mem (lastLink head.address pre) (blockNext c.heap.mem block) }
          live := ⟨block + overhead, size⟩ :: c.live
          hung := c.hung }) ∨
    ∃ total : Word, size.toNat + 16 ≤ total.toNat ∧ 16 ∣ total.toNat ∧
      c.heap.currentHeapAddress.toNat + total.toNat ≤ HEAP_START.toNat + HEAP_SIZE.toNat ∧
      step head c (.malloc size) =
        { heap := { c.heap with
            mem := store32 c.heap.mem (c.heap.currentHeapAddress + 4) total
            currentHeapAddress := c.heap.currentHeapAddress + total }
          live := ⟨c.heap.currentHeapAddress + overhead, size⟩ :: c.live
          hung := c.hung } := by
  obtain ⟨hfit, hdvd, -⟩ := toNat_blockSize_request hfits.1
  have hHeap : HEAP_START.toNat + HEAP_SIZE.toNat + 16 < 2 ^ 32 := by decide
  have hbreak := h.bounded
  rcases malloc_of_chain h.chain h.length_free_lt hfits.2 h.break_ne_zero with
    ⟨-, -, hcall⟩ | ⟨pre, block, post, rfl, hge, hcall⟩ | ⟨hroom, -, hcall⟩
  · left
    simp only [step, hcall, if_true]
  · right; left
    have hne : block + overhead ≠ 0 := by
      obtain ⟨-, hlarge, hhigh⟩ := h.bounds (a := block) (by simp [headers])
      exact add_overhead_ne_zero (by omega)
    refine ⟨pre, block, post, rfl, hfit.trans (BitVec.le_def.mp hge), ?_⟩
    simp only [step, hcall, if_neg hne]
  · right; right
    have hne : c.heap.currentHeapAddress + overhead ≠ 0 := add_overhead_ne_zero (by omega)
    refine ⟨_, hfit, hdvd, hroom, ?_⟩
    simp only [step, hcall, if_neg hne]

theorem inv_malloc {size : Word} (h : Shape head c free blocks) (hfits : Fits c size) :
    Inv head (step head c (.malloc size)) := by
  rcases malloc_cases h hfits with hstep | ⟨pre, block, post, rfl, hfit, hstep⟩ |
    ⟨total, hfit, hdvd, hroom, hstep⟩
  · rw [hstep]
    exact ⟨free, blocks, h.chain, h.perm, h.tiles, h.bounded, h.dvd, h.large, h.returned⟩
  · rw [hstep]
    exact ⟨pre ++ post, blocks, shape_malloc_found h hfit⟩
  · rw [hstep]
    exact ⟨free, _, shape_malloc_grow h hfit hdvd hroom⟩

theorem sizesKept_malloc {size : Word} (h : Shape head c free blocks) (hfits : Fits c size) :
    SizesKept head c (.malloc size) := by
  intro b hb
  have hheader : b.header ∈ headers c free := header_mem_headers hb
  rcases malloc_cases h hfits with hstep | ⟨pre, block, post, rfl, -, hstep⟩ |
    ⟨total, hfit, -, hroom, hstep⟩
  · rw [hstep]
  · rw [hstep]
    exact h.blockSize_store_link isLink_lastLink hheader _
  · rw [hstep]
    exact h.blockSize_store_break (by omega) hheader total

/-! ### One call of `free` -/

theorem Shape.blockSize_free (h : Shape head c free blocks) {b : Block} (hb : b ∈ c.live)
    {a : Word} (ha : a ∈ headers c free) :
    blockSize (Libc.free head b.ptr c.heap).mem a = blockSize c.heap.mem a := by
  have hlink : IsLink head c free b.header := Or.inr (header_mem_headers hb)
  exact (h.blockSize_store_link (Or.inl rfl) ha _).trans (h.blockSize_store_link hlink ha _)

/-- `free` moves a live block to the front of the free list. -/
theorem inv_free {ptr : Word} (h : Shape head c free blocks)
    (hlive : ∃ b ∈ c.live, b.ptr = ptr) : Inv head (step head c (.free ptr)) := by
  obtain ⟨b₀, hb₀, hptr₀⟩ := hlive
  obtain ⟨b, before, after, -, hb, hsplit, herase⟩ :=
    List.exists_of_eraseP (p := fun b => b.ptr == ptr) hb₀ (by simp [hptr₀])
  have hptr : b.ptr = ptr := by simpa using hb
  have hmem : b ∈ c.live := by rw [hsplit]; simp
  have hheader : b.header ∈ headers c free := header_mem_headers hmem
  have hkeep : ∀ a ∈ headers c free,
      blockSize (Libc.free head ptr c.heap).mem a = blockSize c.heap.mem a := by
    rw [← hptr]
    exact fun a ha => h.blockSize_free hmem ha
  have hlinks : ∀ a ∈ headers c free, Separate a 4 head.address 4 := fun a ha =>
    (h.separate_head ha).mono ((by decide : 4 ≤ 16).trans (h.bounds ha).2.1) (by omega)
  refine ⟨b.header :: free, blocks, ?_, ?_, h.tiles, h.bounded, h.dvd, ?_, h.returned⟩
  · have hfirst : load32 (Libc.free head ptr c.heap).mem head.address = b.header := by
      rw [← hptr]
      exact load32_store32_self _ _ _
    have hnext : load32 (Libc.free head ptr c.heap).mem b.header =
        load32 c.heap.mem head.address := by
      rw [← hptr]
      exact (load32_store32 (hlinks _ hheader)).trans (load32_store32_self _ _ _)
    show Chain (Libc.free head ptr c.heap).mem
      (load32 (Libc.free head ptr c.heap).mem head.address) (b.header :: free)
    rw [hfirst]
    refine chain_cons ?_ (h.ne_zero hheader)
    rw [hnext]
    refine h.chain.congr fun a ha => ?_
    have hfree : a ∈ headers c free := List.mem_append_left _ ha
    -- a live block is not in the free list
    have hne : a ≠ b.header := by
      rintro rfl
      exact (List.nodup_append.mp h.nodup).2.2 _ ha _ (List.mem_map_of_mem hmem) rfl
    rw [← hptr]
    exact (load32_store32 (hlinks a hfree)).trans
      (load32_store32 (h.separate_links (Or.inr hheader) hfree hne))
  · have hperm : (headers c free).Perm
        (headers (step head c (.free ptr)) (b.header :: free)) := by
      simp only [headers, step, herase]
      rw [hsplit, List.map_append, List.map_cons, List.map_append, List.cons_append]
      refine (List.Perm.append_left free List.perm_middle).trans ?_
      exact List.perm_middle
    refine h.perm.trans (((List.Perm.map _ hperm)).trans ?_)
    refine (List.Perm.of_eq (List.map_congr_left fun a ha => ?_)).symm
    exact congrArg (Prod.mk a.toNat ·.toNat) (hkeep a (hperm.mem_iff.mpr ha))
  · intro d hd
    have hd' : d ∈ c.live := List.mem_of_mem_eraseP hd
    simpa only [step, hkeep _ (header_mem_headers hd')] using h.large d hd'

theorem sizesKept_free {ptr : Word} (h : Shape head c free blocks)
    (hlive : ∃ b ∈ c.live, b.ptr = ptr) : SizesKept head c (.free ptr) := by
  obtain ⟨b₀, hb₀, rfl⟩ := hlive
  exact fun b hb => h.blockSize_free hb₀ (header_mem_headers hb)

/-! ### A write of the program into a live area -/

/-- The bytes of a block behind its header. -/
theorem Shape.offset_store (h : Shape head c free blocks) {b : Block} (hb : b ∈ c.live)
    {address : Word} (hin : offset b.ptr address < b.size.toNat) :
    16 ≤ offset b.header address ∧
      offset b.header address < (blockSize c.heap.mem b.header).toNat := by
  have hlarge := h.large b hb
  have hlt := (blockSize c.heap.mem b.header).isLt
  have hptr : b.header + BitVec.ofNat 32 16 = b.ptr := BitVec.sub_add_cancel b.ptr overhead
  rw [← hptr, offset_add_lt_iff _ _ (by omega)] at hin
  omega

/-- The program has written into one live area at most. -/
def WritesInto (c : Client) (b : Block) (mem : Mem) : Prop :=
  ∀ x, ¬ offset b.ptr x < b.size.toNat → mem x = c.heap.mem x

/-- Writes into a live area change no link and no size field. -/
theorem Shape.write_keeps (h : Shape head c free blocks) {b : Block} (hb : b ∈ c.live) {mem : Mem}
    (hwrites : WritesInto c b mem) :
    load32 mem head.address = load32 c.heap.mem head.address ∧
    (∀ a ∈ headers c free, load32 mem a = load32 c.heap.mem a) ∧
    (∀ a ∈ headers c free, blockSize mem a = blockSize c.heap.mem a) := by
  have hframe : ∀ a, (∀ x, offset b.ptr x < b.size.toNat → ¬ offset a x < 4) →
      load32 mem a = load32 c.heap.mem a :=
    fun a ha => load32_congr fun x hx => hwrites x fun hin => ha x hin hx
  -- the first eight bytes of any block
  have hout : ∀ a ∈ headers c free, ∀ x, offset b.ptr x < b.size.toNat → ¬ offset a x < 8 := by
    intro a ha x hin hlt8
    obtain ⟨hge, hlt⟩ := h.offset_store hb hin
    by_cases heq : a = b.header
    · subst heq
      omega
    · have hsize := (h.bounds ha).2.1
      exact h.separate ha (header_mem_headers hb) heq x ⟨by omega, hlt⟩
  refine ⟨hframe _ fun x hin hhead => ?_, fun a ha => hframe a fun x hin hlink => ?_,
    fun a ha => hframe (a + 4) fun x hin hfour => ?_⟩
  · obtain ⟨hge, hlt⟩ := h.offset_store hb hin
    exact h.separate_head (header_mem_headers hb) x ⟨hlt, by omega⟩
  · have := hout a ha x hin
    omega
  · have := (offset_add_lt_iff a x (k := 4) (n := 4) (by omega)).mp hfour
    exact hout a ha x hin (by omega)

theorem inv_write (h : Shape head c free blocks) {b : Block} (hb : b ∈ c.live) {mem : Mem}
    (hwrites : WritesInto c b mem) : Inv head { c with heap := { c.heap with mem := mem } } := by
  obtain ⟨hhead, hlinks, hsizes⟩ := h.write_keeps hb hwrites
  refine ⟨free, blocks, ?_, ?_, h.tiles, h.bounded, h.dvd, fun b hb => ?_, h.returned⟩
  · simp only [hhead]
    exact h.chain.congr fun a ha => hlinks a (List.mem_append_left _ ha)
  · refine h.perm.trans (List.Perm.of_eq (List.map_congr_left fun a ha => ?_))
    exact congrArg (Prod.mk a.toNat ·.toNat) (hsizes a ha).symm
  · simpa only [hsizes _ (header_mem_headers hb)] using h.large b hb

theorem writesInto_store {address : Word} (value : Byte) {b : Block}
    (hin : offset b.ptr address < b.size.toNat) :
    WritesInto c b fun x => if x = address then value else c.heap.mem x := by
  refine fun x hx => if_neg ?_
  rintro rfl
  exact hx hin

theorem inv_store {address : Word} {value : Byte} (h : Shape head c free blocks)
    (hlive : ∃ b ∈ c.live, offset b.ptr address < b.size.toNat) :
    Inv head (step head c (.store address value)) := by
  obtain ⟨b, hb, hin⟩ := hlive
  exact inv_write h hb (writesInto_store value hin)

theorem sizesKept_store {address : Word} {value : Byte} (h : Shape head c free blocks)
    (hlive : ∃ b ∈ c.live, offset b.ptr address < b.size.toNat) :
    SizesKept head c (.store address value) := by
  obtain ⟨b, hb, hin⟩ := hlive
  exact fun _ hb' => (h.write_keeps hb (writesInto_store value hin)).2.2 _ (header_mem_headers hb')

end Shape

/-! ### Runs -/

theorem inv_initial (head : ListHead) (mem : Mem) : Inv head (initialClient head mem) := by
  refine ⟨[], [], ?_, List.Perm.nil, rfl, Nat.le_add_right _ _, by simp, by simp [initialClient], rfl⟩
  show load32 (store32 (store32 mem head.address 0) (head.address + 4) 0) head.address = 0
  rw [load32_store32 (separate_words head.address), load32_store32_self]

theorem inv_step {head : ListHead} (c : Client) (call : Call) (h : Inv head c)
    (hallowed : Allowed c call) : Inv head (step head c call) := by
  obtain ⟨free, blocks, hshape⟩ := h
  cases call with
  | malloc size => exact inv_malloc hshape (hshape.fits hallowed)
  | free ptr => exact inv_free hshape hallowed
  | store address value => exact inv_store hshape hallowed

theorem sizesKept_step {head : ListHead} (c : Client) (call : Call) (h : Inv head c)
    (hallowed : Allowed c call) : SizesKept head c call := by
  obtain ⟨free, blocks, hshape⟩ := h
  cases call with
  | malloc size => exact sizesKept_malloc hshape (hshape.fits hallowed)
  | free ptr => exact sizesKept_free hshape hallowed
  | store address value => exact sizesKept_store hshape hallowed

/-- **Allocator safety.**  As long as the program keeps to the rules, the
allocator keeps its promise in every state, and no call changes the size of a
live block. -/
theorem allocator_safe (head : ListHead) (mem : Mem) (calls : List Call)
    (hallowed : EveryStep (step head) Allowed (initialClient head mem) calls) :
    EveryState (step head) (Safe head) (initialClient head mem) calls ∧
    EveryStep (step head) (SizesKept head) (initialClient head mem) calls := by
  have hinit := inv_initial head mem
  constructor
  · refine (everyState_of_invariant inv_step hinit hallowed).imp ?_
    rintro c ⟨free, blocks, hshape⟩
    exact hshape.safe
  · exact everyStep_of_invariant inv_step sizesKept_step hinit hallowed

/-- Two requests, a write, a release, and a smaller request that reuses the block. -/
def reuseCalls : List Call :=
  [.malloc 4, .malloc 40, .store 0x5000030 7, .free 0x5000030, .malloc 20, .free 0x5000010]

theorem reuseCalls_safe :
    let head : ListHead := ⟨0x8000, by decide⟩
    EveryState (step head) (Safe head) (initialClient head fun _ => 0) reuseCalls ∧
    EveryStep (step head) (SizesKept head) (initialClient head fun _ => 0) reuseCalls :=
  allocator_safe ⟨0x8000, by decide⟩ (fun _ => 0) reuseCalls (by decide +kernel)

end Libc
end Ninjastorms
