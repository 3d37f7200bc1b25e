import Mathlib.Data.List.Rotate

/-!
# Turns of a round

A round is a list; the one at its head is on turn.  A tick moves the head to
the end, and a newcomer joins at the end.  `Turned k l l'` says that `k` ticks,
with newcomers in between, have led from the round `l` to the round `l'`.

* `Turned.head?_eq` — whoever stands at a place of the round is on turn after
  as many ticks, whoever joins meanwhile;
* `heads_of_round` — as many ticks as there are members give each of them one
  turn, in their order.
-/

namespace Ninjastorms
namespace Lib
namespace RoundRobin

variable {α : Type*}

/-- `k` ticks and any newcomers lead from one round to the other. -/
inductive Turned : Nat → List α → List α → Prop
  | stop (l : List α) : Turned 0 l l
  | tick {k : Nat} {l l' : List α} (h : Turned k (l.rotate 1) l') : Turned (k + 1) l l'
  | join {k : Nat} {l l' : List α} (a : α) (h : Turned k (l ++ [a]) l') : Turned k l l'

/-- Those who have not been on turn yet stand at the front, in their order. -/
theorem Turned.drop_prefix {k : Nat} {l l' : List α} (h : Turned k l l') (hk : k < l.length) :
    l.drop k <+: l' := by
  induction h with
  | stop l =>
      rw [List.drop_zero]
  | @tick k l l' _ ih =>
      cases l with
      | nil => exact absurd hk (Nat.not_lt_zero _)
      | cons a rest =>
          have hrest : k < rest.length := Nat.lt_of_succ_lt_succ hk
          have hrotate : (a :: rest).rotate 1 = rest ++ [a] := by simp
          rw [hrotate, List.length_append] at ih
          have hprefix := ih (Nat.lt_add_right 1 hrest)
          rw [List.drop_append_of_le_length (Nat.le_of_lt hrest)] at hprefix
          rw [List.drop_succ_cons]
          exact (List.prefix_append _ _).trans hprefix
  | @join k l l' a _ ih =>
      rw [List.length_append] at ih
      have hprefix := ih (Nat.lt_add_right 1 hk)
      rw [List.drop_append_of_le_length (Nat.le_of_lt hk)] at hprefix
      exact (List.prefix_append _ _).trans hprefix

/-- **Whose turn it is.**  After `k` ticks it is that of whoever stood at place `k`. -/
theorem Turned.head?_eq {k : Nat} {l l' : List α} (h : Turned k l l') (hk : k < l.length) :
    l'.head? = some l[k] := by
  obtain ⟨tail, rfl⟩ := h.drop_prefix hk
  rw [List.drop_eq_getElem_cons hk, List.cons_append, List.head?_cons]

/-- **A full round.**  Everyone is on turn once, beginning with the second. -/
theorem heads_of_round (l : List α) :
    ((List.range l.length).map fun k => (l.rotate (k + 1)).head?) = (l.rotate 1).map some := by
  apply List.ext_getElem
  · simp
  · intro k hk _
    have hlt : k < l.length := by simpa using hk
    have hpos : 0 < (l.rotate (k + 1)).length := by
      rw [List.length_rotate]
      exact Nat.zero_lt_of_lt hlt
    rw [List.getElem_map, List.getElem_range, List.getElem_map, List.head?_eq_getElem?,
      List.getElem?_eq_getElem hpos, List.getElem_rotate, List.getElem_rotate, Nat.zero_add]

end RoundRobin
end Lib
end Ninjastorms
