import Mathlib.Data.List.FinRange
import Mathlib.Data.Fin.Basic
import Mathlib.Logic.Function.Basic
import Mathlib.Tactic.Common

/-!
# Loops over a table of fixed size

Loops that go once through an array `Fin n → α`.

* `visit` changes the entry it stands at and remembers the index when the entry
  is a hit, so that the last hit wins.  `foldl_visit` says what a whole scan
  does: every entry is changed once, and the result is `lastHit`.
* `foldl_fill` — a loop that computes every entry from its index.
* `firstMin` looks for a smallest key and stops at the first entry whose key is
  the bottom one.  `firstMin_spec` says that it finds the leftmost minimum.
-/

namespace Ninjastorms
namespace Lib
namespace TableScan

/-! ### Change every entry, remember the last hit -/

section Visit

variable {α : Type*} {n : Nat} (hit : α → Prop) [DecidablePred hit] (change : α → α)

/-- One turn of the loop. -/
def visit (acc : Option (Fin n) × (Fin n → α)) (i : Fin n) : Option (Fin n) × (Fin n → α) :=
  (if hit (acc.2 i) then some i else acc.1, Function.update acc.2 i (change (acc.2 i)))

/-- The last index in a list whose entry is a hit, `found` if there is none. -/
def lastHitIn (t : Fin n → α) : List (Fin n) → Option (Fin n) → Option (Fin n)
  | [], found => found
  | i :: rest, found => lastHitIn t rest (if hit (t i) then some i else found)

/-- The last index of the table whose entry is a hit. -/
def lastHit (t : Fin n → α) : Option (Fin n) :=
  lastHitIn hit t (List.finRange n) none

variable {hit change}

theorem lastHitIn_congr {t t' : Fin n → α} {l : List (Fin n)} (found : Option (Fin n))
    (h : ∀ i ∈ l, t' i = t i) : lastHitIn hit t' l found = lastHitIn hit t l found := by
  induction l generalizing found with
  | nil => rfl
  | cons i rest ih =>
      rw [lastHitIn, lastHitIn, h i (by simp)]
      exact ih _ fun j hj => h j (by simp [hj])

theorem foldl_visit_list {l : List (Fin n)} (hnodup : l.Nodup) (found : Option (Fin n))
    (t : Fin n → α) :
    l.foldl (visit hit change) (found, t) =
      (lastHitIn hit t l found, fun i => if i ∈ l then change (t i) else t i) := by
  induction l generalizing found t with
  | nil => simp [lastHitIn]
  | cons i rest ih =>
      obtain ⟨hi, hrest⟩ := List.nodup_cons.mp hnodup
      have hother : ∀ j ∈ rest, Function.update t i (change (t i)) j = t j := fun j hj =>
        Function.update_of_ne (ne_of_mem_of_not_mem hj hi) _ _
      rw [List.foldl_cons, visit, ih hrest, lastHitIn, lastHitIn_congr _ hother]
      refine congrArg (Prod.mk _) (funext fun j => ?_)
      by_cases hj : j = i
      · subst hj
        simp [hi]
      · simp [hj]

/-- **A whole scan.** -/
theorem foldl_visit (t : Fin n → α) :
    (List.finRange n).foldl (visit hit change) (none, t) =
      (lastHit hit t, fun i => change (t i)) := by
  rw [foldl_visit_list (List.nodup_finRange n), lastHit]
  simp

theorem lastHitIn_cases (hit : α → Prop) [DecidablePred hit] (t : Fin n → α)
    {l : List (Fin n)} (hl : l.Pairwise (· < ·))
    (found : Option (Fin n)) :
    (lastHitIn hit t l found = found ∧ ∀ i ∈ l, ¬ hit (t i)) ∨
    ∃ i ∈ l, lastHitIn hit t l found = some i ∧ hit (t i) ∧ ∀ j ∈ l, i < j → ¬ hit (t j) := by
  induction l generalizing found with
  | nil => exact Or.inl ⟨rfl, by simp⟩
  | cons i rest ih =>
      obtain ⟨hlt, hrest⟩ := List.pairwise_cons.mp hl
      rcases ih hrest (if hit (t i) then some i else found) with
        ⟨heq, hnone⟩ | ⟨k, hk, heq, hhit, hlast⟩
      · -- no hit behind `i`
        by_cases hi : hit (t i)
        · right
          refine ⟨i, by simp, by rw [lastHitIn, heq, if_pos hi], hi, fun j hj hij => ?_⟩
          rcases List.mem_cons.mp hj with rfl | hj'
          · exact absurd hij (lt_irrefl _)
          · exact hnone j hj'
        · left
          refine ⟨by rw [lastHitIn, heq, if_neg hi], fun j hj => ?_⟩
          rcases List.mem_cons.mp hj with rfl | hj'
          · exact hi
          · exact hnone j hj'
      · right
        refine ⟨k, by simp [hk], heq, hhit, fun j hj hkj => ?_⟩
        rcases List.mem_cons.mp hj with rfl | hj'
        · exact absurd hkj (lt_asymm (hlt k hk))
        · exact hlast j hj' hkj

/-- The result of a scan: no entry is a hit, or the last one that is. -/
theorem lastHit_cases (hit : α → Prop) [DecidablePred hit] (t : Fin n → α) :
    (lastHit hit t = none ∧ ∀ i, ¬ hit (t i)) ∨
    ∃ i, lastHit hit t = some i ∧ hit (t i) ∧ ∀ j, i < j → ¬ hit (t j) := by
  rcases lastHitIn_cases hit t (List.pairwise_lt_finRange n) none with
    ⟨heq, hnone⟩ | ⟨i, -, heq, hhit, hlast⟩
  · exact Or.inl ⟨heq, fun i => hnone i (List.mem_finRange i)⟩
  · exact Or.inr ⟨i, heq, hhit, fun j hij => hlast j (List.mem_finRange j) hij⟩

end Visit

/-! ### Fill the table in -/

section Fill

variable {α : Type*} {n : Nat}

theorem foldl_fill_list (f : Fin n → α → α) {l : List (Fin n)} (hnodup : l.Nodup)
    (t : Fin n → α) :
    l.foldl (fun t i => Function.update t i (f i (t i))) t =
      fun i => if i ∈ l then f i (t i) else t i := by
  induction l generalizing t with
  | nil => simp
  | cons i rest ih =>
      obtain ⟨hi, hrest⟩ := List.nodup_cons.mp hnodup
      rw [List.foldl_cons, ih hrest]
      funext j
      by_cases hj : j = i
      · subst hj
        simp [hi]
      · simp [hj]

/-- A loop that computes every entry from its index and the entry itself. -/
theorem foldl_fill (f : Fin n → α → α) (t : Fin n → α) :
    (List.finRange n).foldl (fun t i => Function.update t i (f i (t i))) t =
      fun i => f i (t i) := by
  rw [foldl_fill_list f (List.nodup_finRange n)]
  simp

end Fill

/-! ### The leftmost minimum -/

section FirstMin

variable {κ : Type*} [LinearOrder κ] [OrderBot κ] {n : Nat} (key : Fin n → κ)

/-- The loop: stop at an entry with the bottom key, otherwise remember the entry
if its key is smaller than that of the remembered one. -/
def firstMin : List (Fin n) → Fin n → Fin n
  | [], slot => slot
  | i :: rest, slot =>
      if key i = ⊥ then i
      else if key i < key slot then firstMin rest i
      else firstMin rest slot

variable {key}

theorem firstMin_behind {l : List (Fin n)} {slot : Fin n} (hl : l.Pairwise (· < ·))
    (hslot : ∀ j ∈ l, slot < j) (hne : key slot ≠ ⊥) :
    let s := firstMin key l slot
    (s = slot ∨ key s < key slot) ∧
      ∀ j ∈ l, key s ≤ key j ∧ (j < s → key s < key j) := by
  induction l generalizing slot with
  | nil => exact ⟨Or.inl rfl, by simp⟩
  | cons i rest ih =>
      obtain ⟨hlt, hrest⟩ := List.pairwise_cons.mp hl
      by_cases hbot : key i = ⊥
      · simp only [firstMin, hbot, if_true]
        refine ⟨Or.inr (bot_lt_iff_ne_bot.mpr hne), fun j hj => ⟨bot_le, fun hji => ?_⟩⟩
        rcases List.mem_cons.mp hj with rfl | hj'
        · exact absurd hji (lt_irrefl _)
        · exact absurd hji (lt_asymm (hlt j hj'))
      · by_cases hsmall : key i < key slot
        · simp only [firstMin, if_neg hbot, if_pos hsmall]
          obtain ⟨hor, hall⟩ := ih hrest hlt hbot
          -- the result is `i` itself or has a smaller key, and `i` beats the old slot
          have hle : key (firstMin key rest i) ≤ key i := by
            rcases hor with heq | hlt'
            · rw [heq]
            · exact hlt'.le
          refine ⟨Or.inr (hle.trans_lt hsmall), fun j hj => ?_⟩
          rcases List.mem_cons.mp hj with rfl | hj'
          · refine ⟨hle, fun hjs => ?_⟩
            rcases hor with heq | hlt'
            · rw [heq] at hjs
              exact absurd hjs (lt_irrefl _)
            · exact hlt'
          · exact hall j hj'
        · simp only [firstMin, if_neg hbot, if_neg hsmall]
          obtain ⟨hor, hall⟩ := ih hrest (fun j hj => hslot j (by simp [hj])) hne
          have hle : key slot ≤ key i := not_lt.mp hsmall
          refine ⟨hor, fun j hj => ?_⟩
          rcases List.mem_cons.mp hj with rfl | hj'
          · rcases hor with heq | hlt'
            · rw [heq]
              exact ⟨hle, fun hjs => absurd hjs (lt_asymm (hslot j (by simp)))⟩
            · exact ⟨(hlt'.trans_le hle).le, fun _ => hlt'.trans_le hle⟩
          · exact hall j hj'

/-- **The leftmost minimum.**  A scan of the whole table that starts with the
first entry remembered. -/
theorem firstMin_spec {m : Nat} (key : Fin (m + 1) → κ) :
    let s := firstMin key (List.finRange (m + 1)) 0
    ∀ j, key s ≤ key j ∧ (j < s → key s < key j) := by
  have hsorted := List.pairwise_lt_finRange (m + 1)
  rw [List.finRange_succ] at hsorted ⊢
  obtain ⟨hpos, hrest⟩ := List.pairwise_cons.mp hsorted
  by_cases hbot : key 0 = ⊥
  · simp only [firstMin, hbot, if_true]
    exact fun j => ⟨bot_le, fun hj => absurd hj (Fin.not_lt_zero j)⟩
  · simp only [firstMin, if_neg hbot, lt_irrefl, if_false]
    obtain ⟨hor, hall⟩ := firstMin_behind hrest hpos hbot
    intro j
    rcases Fin.eq_zero_or_eq_succ j with rfl | ⟨k, rfl⟩
    · rcases hor with heq | hlt
      · rw [heq]
        exact ⟨le_refl _, fun hj => absurd hj (lt_irrefl _)⟩
      · exact ⟨hlt.le, fun _ => hlt⟩
    · exact hall _ (List.mem_map_of_mem (List.mem_finRange k))

end FirstMin

end TableScan
end Lib
end Ninjastorms
