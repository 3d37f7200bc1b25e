import Mathlib.Data.List.Nodup
import Mathlib.Data.List.Range
import Mathlib.Tactic.Common

/-!
# Circular buffers that keep one slot empty

A buffer of `N` slots is an array with two indices: `start`, the next slot to
take from, and `stop`, the next slot to write to.  `start = stop` means empty
and `next stop = start` means full, so at most `N - 1` slots are ever occupied.
Indices are `Fin N`, so an index outside the array cannot be built.

* `next` / `ahead` — the index arithmetic modulo `N`;
* `interval start stop` — the occupied indices, oldest first;
* `contents slots start stop` — the queue the buffer stands for;
* `contents_write` / `contents_take` — writing at `stop` appends to the queue
  and advancing `start` removes its head, at any fill level and across the
  wrap-around.
-/

namespace Ninjastorms
namespace Lib
namespace CircularBuffer

variable {N : Nat} {α : Type*}

/-- The index after `i`, modulo the number of slots. -/
def next (i : Fin N) : Fin N :=
  ⟨(i.val + 1) % N, Nat.mod_lt _ i.pos⟩

/-- How many steps of `next` lead from `s` to `e`. -/
def ahead (s e : Fin N) : Nat :=
  (e.val + N - s.val) % N

/-- The index `k` steps after `s`. -/
def advance (s : Fin N) (k : Nat) : Fin N :=
  ⟨(s.val + k) % N, Nat.mod_lt _ s.pos⟩

/-- The indices from `s` up to but not including `e`, in circular order. -/
def interval (s e : Fin N) : List (Fin N) :=
  (List.range (ahead s e)).map (advance s)

/-- The queue that the slots between `s` and `e` stand for, oldest first. -/
def contents (slots : Fin N → α) (s e : Fin N) : List α :=
  (interval s e).map slots

/-! ### Index arithmetic -/

theorem ahead_lt (s e : Fin N) : ahead s e < N :=
  Nat.mod_lt _ s.pos

/-- `ahead` as a case distinction instead of a remainder: the form `omega` reads. -/
theorem ahead_eq_ite (s e : Fin N) :
    ahead s e = if s.val ≤ e.val then e.val - s.val else e.val + N - s.val := by
  have hs := s.isLt
  have he := e.isLt
  unfold ahead
  split
  · have hsum : e.val + N - s.val = (e.val - s.val) + N := by omega
    rw [hsum, Nat.add_mod_right, Nat.mod_eq_of_lt (by omega)]
  · exact Nat.mod_eq_of_lt (by omega)

theorem next_val_eq_ite (i : Fin N) :
    (next i).val = if i.val + 1 = N then 0 else i.val + 1 := by
  have hi := i.isLt
  unfold next
  split
  · rename_i h
    simp [h]
  · exact Nat.mod_eq_of_lt (by omega)

theorem advance_val_eq_ite (s : Fin N) {k : Nat} (hk : k < N) :
    (advance s k).val = if s.val + k < N then s.val + k else s.val + k - N := by
  have hs := s.isLt
  unfold advance
  split
  · rename_i h
    exact Nat.mod_eq_of_lt h
  · rename_i h
    have hsum : s.val + k = (s.val + k - N) + N := by omega
    show (s.val + k) % N = s.val + k - N
    rw [hsum, Nat.add_mod_right, Nat.mod_eq_of_lt (by omega)]
    omega

@[simp] theorem ahead_self (s : Fin N) : ahead s s = 0 := by
  rw [ahead_eq_ite]
  simp

/-- Every index is reached from every other one. -/
@[simp] theorem advance_ahead (s e : Fin N) : advance s (ahead s e) = e := by
  apply Fin.ext
  rw [advance_val_eq_ite s (ahead_lt s e), ahead_eq_ite]
  have hs := s.isLt
  have he := e.isLt
  split <;> split <;> omega

theorem ahead_advance (s : Fin N) {k : Nat} (hk : k < N) : ahead s (advance s k) = k := by
  rw [ahead_eq_ite, advance_val_eq_ite s hk]
  have hs := s.isLt
  split <;> split <;> omega

@[simp] theorem advance_zero (s : Fin N) : advance s 0 = s := by
  apply Fin.ext
  simpa [advance] using Nat.mod_eq_of_lt s.isLt

theorem next_injective : Function.Injective (next : Fin N → Fin N) := by
  intro i j h
  have hval : (next i).val = (next j).val := congrArg Fin.val h
  rw [next_val_eq_ite, next_val_eq_ite] at hval
  apply Fin.ext
  have hi := i.isLt
  have hj := j.isLt
  split at hval <;> split at hval <;> omega

theorem next_ne_self (hN : 1 < N) (i : Fin N) : next i ≠ i := by
  intro h
  have hval : (next i).val = i.val := congrArg Fin.val h
  have hi := i.isLt
  rw [next_val_eq_ite] at hval
  split at hval <;> omega

/-- Moving the far end one slot on: one step more, unless it meets the near end. -/
theorem ahead_next_right {s e : Fin N} (h : next e ≠ s) :
    ahead s (next e) = ahead s e + 1 := by
  have hne : (next e).val ≠ s.val := fun hval => h (Fin.ext hval)
  have hnext := next_val_eq_ite e
  rw [ahead_eq_ite, ahead_eq_ite]
  have hs := s.isLt
  have he := e.isLt
  split at hnext <;> split <;> split <;> omega

/-- Moving the near end one slot on: one step less, unless the ends had met. -/
theorem ahead_next_left {s e : Fin N} (h : s ≠ e) :
    ahead s e = ahead (next s) e + 1 := by
  have hne : s.val ≠ e.val := fun hval => h (Fin.ext hval)
  rw [ahead_eq_ite, ahead_eq_ite, next_val_eq_ite]
  have hs := s.isLt
  have he := e.isLt
  split <;> split <;> split <;> omega

/-- The buffer is full exactly when all slots but one are occupied. -/
theorem next_eq_iff_full {s e : Fin N} : next e = s ↔ ahead s e = N - 1 := by
  rw [ahead_eq_ite, Fin.ext_iff, next_val_eq_ite]
  have hs := s.isLt
  have he := e.isLt
  split <;> split <;> omega

theorem advance_succ (s : Fin N) {k : Nat} (hk : k + 1 < N) :
    advance s (k + 1) = advance (next s) k := by
  apply Fin.ext
  rw [advance_val_eq_ite s hk, advance_val_eq_ite (next s) (by omega), next_val_eq_ite]
  have hs := s.isLt
  split <;> split <;> split <;> omega

/-! ### The occupied interval -/

@[simp] theorem length_interval (s e : Fin N) : (interval s e).length = ahead s e := by
  simp [interval]

@[simp] theorem interval_self (s : Fin N) : interval s s = [] := by
  simp [interval]

theorem mem_interval_iff {s e i : Fin N} : i ∈ interval s e ↔ ahead s i < ahead s e := by
  rw [interval, List.mem_map]
  constructor
  · rintro ⟨k, hk, rfl⟩
    have hlt := List.mem_range.mp hk
    rwa [ahead_advance s (hlt.trans (ahead_lt s e))]
  · intro h
    exact ⟨ahead s i, List.mem_range.mpr h, advance_ahead s i⟩

theorem nodup_interval (s e : Fin N) : (interval s e).Nodup := by
  rw [interval]
  refine List.Nodup.map_on ?_ List.nodup_range
  intro k hk l hl heq
  have hk' := (List.mem_range.mp hk).trans (ahead_lt s e)
  have hl' := (List.mem_range.mp hl).trans (ahead_lt s e)
  rw [← ahead_advance s hk', ← ahead_advance s hl', heq]

/-- The slot to write next is not occupied. -/
theorem stop_notMem_interval (s e : Fin N) : e ∉ interval s e := by
  simp [mem_interval_iff]

/-- Writing one more slot extends the occupied interval at its far end. -/
theorem interval_next_right {s e : Fin N} (h : next e ≠ s) :
    interval s (next e) = interval s e ++ [e] := by
  rw [interval, ahead_next_right h, List.range_succ, List.map_append]
  simp [interval]

/-- Taking a slot shortens the occupied interval at its near end. -/
theorem interval_next_left {s e : Fin N} (h : s ≠ e) :
    interval s e = s :: interval (next s) e := by
  have hlt := ahead_lt s e
  rw [interval, ahead_next_left h, List.range_succ_eq_map, List.map_cons, List.map_map]
  refine congrArg₂ List.cons (advance_zero s) (List.map_congr_left fun k hk => ?_)
  have hk' := List.mem_range.mp hk
  exact advance_succ s (by rw [ahead_next_left h] at hlt; omega)

/-! ### The queue -/

@[simp] theorem length_contents (slots : Fin N → α) (s e : Fin N) :
    (contents slots s e).length = ahead s e := by
  simp [contents]

@[simp] theorem contents_self (slots : Fin N → α) (s : Fin N) :
    contents slots s s = [] := by
  simp [contents]

/-- Only the occupied slots matter. -/
theorem contents_congr {slots slots' : Fin N → α} {s e : Fin N}
    (h : ∀ i ∈ interval s e, slots' i = slots i) :
    contents slots' s e = contents slots s e :=
  List.map_congr_left h

/-- **Writing appends.**  A write to the slot at `stop` that changes no occupied
slot, followed by an advance of `stop`, appends the written value. -/
theorem contents_write (slots : Fin N → α) {slots' : Fin N → α} {s e : Fin N} (hroom : next e ≠ s)
    (hkeep : ∀ i ∈ interval s e, slots' i = slots i) :
    contents slots' s (next e) = contents slots s e ++ [slots' e] := by
  rw [contents, interval_next_right hroom, List.map_append]
  congr 1
  exact contents_congr hkeep

/-- **Taking removes the head.** -/
theorem contents_take {slots : Fin N → α} {s e : Fin N} (h : s ≠ e) :
    contents slots s e = slots s :: contents slots (next s) e := by
  rw [contents, interval_next_left h]
  rfl

end CircularBuffer
end Lib
end Ninjastorms
