import Mathlib.Data.List.Pairwise
import Mathlib.Data.List.Perm.Basic
import Mathlib.Tactic.Common

/-!
# Blocks that tile an interval

A block is a pair of a first address and a length.  `Tiles start blocks stop`
says that the blocks, in the order of the list, lie end to end from `start` to
`stop`: no gap and no overlap.  Everything an allocator needs to know about its
blocks follows from it: they lie inside the interval, they are pairwise
disjoint, their first addresses are distinct and aligned with their lengths,
and there are not too many of them.  `EndToEnd` is the same for blocks that may
be empty.
-/

namespace Ninjastorms
namespace Lib
namespace Tiling

/-- The blocks lie end to end from `start` to `stop`, and none is empty. -/
def Tiles : Nat → List (Nat × Nat) → Nat → Prop
  | start, [], stop => start = stop
  | start, (a, n) :: rest, stop => a = start ∧ 0 < n ∧ Tiles (start + n) rest stop

variable {start stop : Nat} {blocks : List (Nat × Nat)}

@[simp] theorem tiles_nil : Tiles start [] stop ↔ start = stop := Iff.rfl

@[simp] theorem tiles_cons {b : Nat × Nat} {rest : List (Nat × Nat)} :
    Tiles start (b :: rest) stop ↔ b.1 = start ∧ 0 < b.2 ∧ Tiles (start + b.2) rest stop :=
  Iff.rfl

/-- The blocks lie end to end from `start` to `stop`; they may be empty. -/
def EndToEnd : Nat → List (Nat × Nat) → Nat → Prop
  | start, [], stop => start = stop
  | start, (a, n) :: rest, stop => a = start ∧ EndToEnd (start + n) rest stop

theorem EndToEnd.snoc (h : EndToEnd start blocks stop) (n : Nat) :
    EndToEnd start (blocks ++ [(stop, n)]) (stop + n) := by
  induction blocks generalizing start with
  | nil =>
      have hstart : start = stop := h
      subst hstart
      exact ⟨rfl, rfl⟩
  | cons b rest ih => exact ⟨h.1, ih h.2⟩

theorem EndToEnd.le_fst (h : EndToEnd start blocks stop) {b : Nat × Nat} (hb : b ∈ blocks) :
    start ≤ b.1 := by
  induction blocks generalizing start with
  | nil => simp at hb
  | cons c rest ih =>
      obtain ⟨hstart, hrest⟩ := h
      rcases List.mem_cons.mp hb with rfl | hmem
      · exact Nat.le_of_eq hstart.symm
      · exact Nat.le_trans (Nat.le_add_right _ _) (ih hrest hmem)

/-- Later blocks begin where earlier ones have ended. -/
theorem EndToEnd.pairwise (h : EndToEnd start blocks stop) :
    blocks.Pairwise fun b c => b.1 + b.2 ≤ c.1 := by
  induction blocks generalizing start with
  | nil => exact List.Pairwise.nil
  | cons b rest ih =>
      obtain ⟨hstart, hrest⟩ := h
      refine List.Pairwise.cons (fun c hc => ?_) (ih hrest)
      rw [hstart]
      exact hrest.le_fst hc

/-- A new block behind the last one. -/
theorem Tiles.snoc {n : Nat} (h : Tiles start blocks stop) (hn : 0 < n) :
    Tiles start (blocks ++ [(stop, n)]) (stop + n) := by
  induction blocks generalizing start with
  | nil =>
      have hstart : start = stop := h
      subst hstart
      exact ⟨rfl, hn, rfl⟩
  | cons b rest ih => exact ⟨h.1, h.2.1, ih h.2.2⟩

theorem Tiles.le (h : Tiles start blocks stop) : start ≤ stop := by
  induction blocks generalizing start with
  | nil => exact Nat.le_of_eq h
  | cons b rest ih =>
      have hrest := ih h.2.2
      omega

/-- Every block lies inside the interval. -/
theorem Tiles.bounds (h : Tiles start blocks stop) {b : Nat × Nat} (hb : b ∈ blocks) :
    start ≤ b.1 ∧ 0 < b.2 ∧ b.1 + b.2 ≤ stop := by
  induction blocks generalizing start with
  | nil => simp at hb
  | cons c rest ih =>
      obtain ⟨hstart, hpos, hrest⟩ := h
      rcases List.mem_cons.mp hb with rfl | hmem
      · have hle := hrest.le
        omega
      · have hin := ih hrest hmem
        omega

theorem Tiles.endToEnd (h : Tiles start blocks stop) : EndToEnd start blocks stop := by
  induction blocks generalizing start with
  | nil => exact h
  | cons b rest ih => exact ⟨h.1, ih h.2.2⟩

theorem Tiles.pairwise_fst_lt (h : Tiles start blocks stop) :
    blocks.Pairwise fun b c => b.1 < c.1 := by
  refine h.endToEnd.pairwise.imp_of_mem fun {b c} hb hc hle => ?_
  have hpos := (h.bounds hb).2.1
  omega

/-- No two blocks begin at the same address. -/
theorem Tiles.nodup_fst (h : Tiles start blocks stop) : (blocks.map Prod.fst).Nodup := by
  rw [List.Nodup, List.pairwise_map]
  exact h.pairwise_fst_lt.imp fun hlt => Nat.ne_of_lt hlt

/-- Two blocks are either the same or disjoint. -/
theorem Tiles.disjoint (h : Tiles start blocks stop) {b c : Nat × Nat} (hb : b ∈ blocks)
    (hc : c ∈ blocks) (hne : b.1 ≠ c.1) : b.1 + b.2 ≤ c.1 ∨ c.1 + c.2 ≤ b.1 := by
  induction blocks generalizing start with
  | nil => simp at hb
  | cons d rest ih =>
      obtain ⟨hstart, -, hrest⟩ := h
      rcases List.mem_cons.mp hb with rfl | hb' <;> rcases List.mem_cons.mp hc with rfl | hc'
      · exact absurd rfl hne
      · have hin := hrest.bounds hc'
        omega
      · have hin := hrest.bounds hb'
        omega
      · exact ih hrest hb' hc'

/-- If the interval and all blocks begin and end on multiples of `k`, every
block begins on one. -/
theorem Tiles.dvd_fst {k : Nat} (h : Tiles start blocks stop) (hstart : k ∣ start)
    (hlen : ∀ b ∈ blocks, k ∣ b.2) {b : Nat × Nat} (hb : b ∈ blocks) : k ∣ b.1 := by
  induction blocks generalizing start with
  | nil => simp at hb
  | cons c rest ih =>
      obtain ⟨hfst, -, hrest⟩ := h
      rcases List.mem_cons.mp hb with rfl | hmem
      · rw [hfst]
        exact hstart
      · exact ih hrest (Nat.dvd_add hstart (hlen c (by simp)))
          (fun d hd => hlen d (by simp [hd])) hmem

theorem Tiles.dvd_stop {k : Nat} (h : Tiles start blocks stop) (hstart : k ∣ start)
    (hlen : ∀ b ∈ blocks, k ∣ b.2) : k ∣ stop := by
  induction blocks generalizing start with
  | nil => exact (show start = stop from h) ▸ hstart
  | cons c rest ih =>
      exact ih h.2.2 (Nat.dvd_add hstart (hlen c (by simp))) fun d hd => hlen d (by simp [hd])

/-- An interval has no room for more blocks than its length allows. -/
theorem Tiles.length_mul_le {k : Nat} (h : Tiles start blocks stop)
    (hlen : ∀ b ∈ blocks, k ≤ b.2) : blocks.length * k + start ≤ stop := by
  induction blocks generalizing start with
  | nil => simpa using Nat.le_of_eq h
  | cons b rest ih =>
      have hrest := ih h.2.2 (fun d hd => hlen d (by simp [hd]))
      have hb := hlen b (by simp)
      rw [List.length_cons, Nat.succ_mul]
      omega

end Tiling
end Lib
end Ninjastorms
