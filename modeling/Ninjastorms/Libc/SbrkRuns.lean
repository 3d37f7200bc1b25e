import Ninjastorms.Lib.Runs
import Ninjastorms.Lib.Tiling
import Ninjastorms.Libc.Malloc

/-!
# Runs of `sbrk`

Any sequence of calls of `sbrk`, with increments over the whole range of a
`size_t`.  `ranges` records what has been handed out: the address that a
successful call has returned, and the increment.

`sbrk` compares the sum of the break and the increment with the end of the heap
after it has been reduced modulo 2^32.  `sbrk_lawful_iff` says that the calls
keep to `SbrkLaw` exactly as long as none of these sums is reduced.
-/

namespace Ninjastorms
namespace Libc

open Lib.Tiling Lib.Runs

/-- The end of the heap. -/
def heapEnd : Nat :=
  HEAP_START.toNat + HEAP_SIZE.toNat

/-- The heap, and the ranges that successful calls have returned so far. -/
structure SbrkRun where
  heap : Heap
  ranges : List (Nat × Nat)

/-- Before the first call. -/
def initialSbrkRun (heap : Heap) : SbrkRun where
  heap := { heap with currentHeapAddress := HEAP_START }
  ranges := []

/-- One call of `sbrk`; null stands for a call that has failed. -/
def sbrkStep (s : SbrkRun) (increment : Word) : SbrkRun where
  heap := (sbrk increment s.heap).2
  ranges :=
    if (sbrk increment s.heap).1 = 0 then s.ranges
    else s.ranges ++ [((sbrk increment s.heap).1.toNat, increment.toNat)]

/-- The break as a number. -/
def SbrkRun.break (s : SbrkRun) : Nat :=
  s.heap.currentHeapAddress.toNat

/-- What a call promises. -/
structure SbrkLaw (s : SbrkRun) (increment : Word) : Prop where
  inHeap : HEAP_START.toNat ≤ (sbrkStep s increment).break ∧ (sbrkStep s increment).break ≤ heapEnd
  grows : s.break ≤ (sbrkStep s increment).break
  succeeds : (sbrk increment s.heap).1 ≠ 0 ↔ s.break + increment.toNat ≤ heapEnd
  consecutive : EndToEnd HEAP_START.toNat (sbrkStep s increment).ranges (sbrkStep s increment).break
  disjoint : (sbrkStep s increment).ranges.Pairwise fun r r' => r.1 + r.2 ≤ r'.1
  fails : (sbrk increment s.heap).1 = 0 →
    (sbrkStep s increment).heap.errno = SymbolicErrno.ENOMEM.val ∧
    (sbrkStep s increment).break = s.break

/-- The sum that `sbrk` computes is the mathematical one. -/
def SumFits (s : SbrkRun) (increment : Word) : Prop :=
  s.break + increment.toNat < 2 ^ 32

instance (s : SbrkRun) (increment : Word) : Decidable (SumFits s increment) :=
  inferInstanceAs (Decidable (_ < _))

/-! ### One call -/

structure SbrkInv (s : SbrkRun) : Prop where
  low : HEAP_START.toNat ≤ s.break
  high : s.break ≤ heapEnd
  consecutive : EndToEnd HEAP_START.toNat s.ranges s.break

variable {s : SbrkRun} {increment : Word}

/-- A call whose sum is not reduced fails, or moves the break behind the range
that it returns. -/
theorem sbrk_cases (h : SbrkInv s) (hfits : SumFits s increment) :
    (heapEnd < s.break + increment.toNat ∧
      sbrk increment s.heap = (0, { s.heap with errno := SymbolicErrno.ENOMEM.val })) ∨
    (s.break + increment.toNat ≤ heapEnd ∧ s.heap.currentHeapAddress ≠ 0 ∧
      sbrk increment s.heap = (s.heap.currentHeapAddress,
        { s.heap with currentHeapAddress := s.heap.currentHeapAddress + increment }) ∧
      (s.heap.currentHeapAddress + increment).toNat = s.break + increment.toNat) := by
  have hsum : (s.heap.currentHeapAddress + increment).toNat = s.break + increment.toNat :=
    BitVec.toNat_add_of_lt hfits
  have hend : (HEAP_START + HEAP_SIZE).toNat = heapEnd := rfl
  unfold sbrk
  by_cases hfull : s.heap.currentHeapAddress + increment > HEAP_START + HEAP_SIZE
  · left
    rw [if_pos hfull]
    refine ⟨?_, rfl⟩
    rw [← hsum, ← hend]
    exact BitVec.lt_def.mp hfull
  · right
    rw [if_neg hfull]
    refine ⟨?_, ?_, rfl, hsum⟩
    · rw [← hsum, ← hend]
      exact BitVec.le_def.mp (BitVec.not_lt.mp hfull)
    · intro hzero
      have hlow := h.low
      rw [SbrkRun.break, hzero] at hlow
      exact absurd hlow (by decide)

theorem sbrkInv_step (h : SbrkInv s) (hfits : SumFits s increment) :
    SbrkInv (sbrkStep s increment) := by
  rcases sbrk_cases h hfits with ⟨-, hcall⟩ | ⟨hroom, hne, hcall, hsum⟩
  · have hstep : sbrkStep s increment =
        { s with heap := { s.heap with errno := SymbolicErrno.ENOMEM.val } } := by
      simp only [sbrkStep, hcall, if_true]
    rw [hstep]
    exact ⟨h.low, h.high, h.consecutive⟩
  · have hbreak : (sbrkStep s increment).break = s.break + increment.toNat := by
      simp only [SbrkRun.break, sbrkStep, hcall]
      exact hsum
    have hranges : (sbrkStep s increment).ranges = s.ranges ++ [(s.break, increment.toNat)] := by
      simp only [sbrkStep, hcall, if_neg hne]
      rfl
    refine ⟨?_, ?_, ?_⟩
    · rw [hbreak]
      exact h.low.trans (Nat.le_add_right _ _)
    · rw [hbreak]
      exact hroom
    · rw [hbreak, hranges]
      exact h.consecutive.snoc increment.toNat

theorem sbrkLaw_of_fits (h : SbrkInv s) (hfits : SumFits s increment) : SbrkLaw s increment := by
  have hafter := sbrkInv_step h hfits
  refine ⟨⟨hafter.low, hafter.high⟩, ?_, ?_, hafter.consecutive, hafter.consecutive.pairwise, ?_⟩
  · rcases sbrk_cases h hfits with ⟨-, hcall⟩ | ⟨-, -, hcall, hsum⟩
    · simp only [SbrkRun.break, sbrkStep, hcall]
      exact Nat.le_refl _
    · simp only [SbrkRun.break, sbrkStep, hcall]
      rw [hsum]
      exact Nat.le_add_right _ _
  · rcases sbrk_cases h hfits with ⟨hfull, hcall⟩ | ⟨hroom, hne, hcall, -⟩
    · rw [hcall]
      exact ⟨fun hne => absurd rfl hne, fun hroom => absurd hfull (Nat.not_lt.mpr hroom)⟩
    · rw [hcall]
      exact ⟨fun _ => hroom, fun _ => hne⟩
  · rcases sbrk_cases h hfits with ⟨-, hcall⟩ | ⟨-, hne, hcall, -⟩
    · intro _
      simp only [SbrkRun.break, sbrkStep, hcall, and_self]
    · intro hzero
      rw [hcall] at hzero
      exact absurd hzero hne

/-- A sum that is reduced ends up below the end of the heap, and the call
succeeds although there is no room. -/
theorem fits_of_sbrkLaw (h : SbrkInv s) (hlaw : SbrkLaw s increment) : SumFits s increment := by
  by_contra hwrap
  have hend : heapEnd < 2 ^ 32 := by decide
  have hinc := increment.isLt
  have hhigh := h.high
  have hlow := h.low
  have hstart : HEAP_START.toNat = 0x5000000 := rfl
  unfold SumFits at hwrap
  have hsum : (s.heap.currentHeapAddress + increment).toNat = s.break + increment.toNat - 2 ^ 32 := by
    rw [BitVec.toNat_add]
    change (s.break + increment.toNat) % 2 ^ 32 = _
    omega
  have hroom : ¬ s.heap.currentHeapAddress + increment > HEAP_START + HEAP_SIZE := by
    have htop : (HEAP_START + HEAP_SIZE).toNat = heapEnd := rfl
    rw [gt_iff_lt, BitVec.lt_def, hsum, htop]
    omega
  -- the old break is returned, which is not null
  have hresult : (sbrk increment s.heap).1 ≠ 0 := by
    rw [sbrk, if_neg hroom]
    intro hzero
    rw [SbrkRun.break, show s.heap.currentHeapAddress = 0 from hzero] at hlow
    exact absurd hlow (by decide)
  have hle := hlaw.succeeds.mp hresult
  omega

/-! ### Runs -/

/-- **The break.**  `sbrk` keeps its law along a run exactly as long as no call
asks for so much that the sum with the break is reduced modulo 2^32. -/
theorem sbrk_lawful_iff (heap : Heap) (increments : List Word) :
    EveryStep sbrkStep SbrkLaw (initialSbrkRun heap) increments ↔
      EveryStep sbrkStep SumFits (initialSbrkRun heap) increments :=
  everyStep_iff_everyStep (fun _ _ h hfits => sbrkInv_step h hfits)
    (fun _ _ h => ⟨fits_of_sbrkLaw h, sbrkLaw_of_fits h⟩)
    ⟨Nat.le_refl _, Nat.le_add_right _ _, rfl⟩

/-- A single call in a fresh heap asks for nearly the whole address space, and
moves the break to the address 0. -/
theorem sbrk_hugeIncrement_unlawful :
    ¬ EveryStep sbrkStep SbrkLaw (initialSbrkRun ⟨fun _ => 0, HEAP_START, 0⟩) [0xFB000000] := by
  rintro ⟨hlaw, -⟩
  exact absurd hlaw.inHeap (by decide)

end Libc
end Ninjastorms
