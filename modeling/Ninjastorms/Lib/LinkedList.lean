import Ninjastorms.Lib.ByteMemory

/-!
# Singly linked lists in byte memory

A node is an address whose first word is the link to the next node; the null
pointer ends the list.  `Chain m p nodes` says that following the links from
the pointer `p` visits exactly `nodes`.

* `Chain.congr` — a chain only depends on the link words of its nodes;
* `chain_cons` and `chain_unlink` — putting a node in front, and taking a node
  out of the middle by overwriting the link of its predecessor, which is what
  removal through a pointer to a link does (`Chain.unlink_cell`);
* `Endless` — a list that does not end, and how one comes about.
-/

namespace Ninjastorms
namespace Lib
namespace LinkedList

open ByteMemory

/-- Following the links from `p` visits exactly these nodes. -/
def Chain (m : Mem) : BitVec 32 → List (BitVec 32) → Prop
  | p, [] => p = 0
  | p, a :: rest => p = a ∧ a ≠ 0 ∧ Chain m (load32 m a) rest

variable {m m' : Mem} {p : BitVec 32} {nodes : List (BitVec 32)}

@[simp] theorem chain_nil : Chain m p [] ↔ p = 0 := Iff.rfl

@[simp] theorem chain_cons_iff {a : BitVec 32} {rest : List (BitVec 32)} :
    Chain m p (a :: rest) ↔ p = a ∧ a ≠ 0 ∧ Chain m (load32 m a) rest := Iff.rfl

/-- Only the link words of the nodes matter. -/
theorem Chain.congr (h : Chain m p nodes) (hlink : ∀ a ∈ nodes, load32 m' a = load32 m a) :
    Chain m' p nodes := by
  induction nodes generalizing p with
  | nil => exact h
  | cons a rest ih =>
      obtain ⟨hp, hne, hrest⟩ := h
      refine ⟨hp, hne, ?_⟩
      rw [hlink a (by simp)]
      exact ih hrest fun b hb => hlink b (by simp [hb])

/-- The links determine the nodes. -/
theorem Chain.unique {nodes' : List (BitVec 32)} (h : Chain m p nodes) (h' : Chain m p nodes') :
    nodes = nodes' := by
  induction nodes generalizing p nodes' with
  | nil =>
      cases nodes' with
      | nil => rfl
      | cons a rest => exact absurd (h'.1.symm.trans h) h'.2.1
  | cons a rest ih =>
      cases nodes' with
      | nil => exact absurd (h.1.symm.trans h') h.2.1
      | cons b rest' =>
          obtain ⟨rfl, -, hrest⟩ := h
          obtain ⟨rfl, -, hrest'⟩ := h'
          rw [ih hrest hrest']

/-- A node whose link is the pointer to a chain goes in front of it. -/
theorem chain_cons {a : BitVec 32} (h : Chain m (load32 m a) nodes) (ha : a ≠ 0) :
    Chain m a (a :: nodes) :=
  ⟨rfl, ha, h⟩

/-- The tail of a chain behind one of its nodes. -/
theorem Chain.tail (pre : List (BitVec 32)) {post : List (BitVec 32)} {b : BitVec 32}
    (h : Chain m p (pre ++ b :: post)) : b ≠ 0 ∧ Chain m (load32 m b) post := by
  induction pre generalizing p with
  | nil => exact h.2
  | cons a pre ih => exact ih h.2.2

/-- **Unlinking.**  Overwriting the link of `q` with the link of the node `b`
behind it takes `b` out of the chain. -/
theorem chain_unlink {pre post : List (BitVec 32)} {q b : BitVec 32}
    (h : Chain m p (pre ++ q :: b :: post))
    (hsep : ∀ a ∈ pre ++ b :: post, Separate a 4 q 4) :
    Chain (store32 m q (load32 m b)) p (pre ++ q :: post) := by
  have hkeep : ∀ a ∈ pre ++ b :: post, load32 (store32 m q (load32 m b)) a = load32 m a :=
    fun a ha => load32_store32 (hsep a ha)
  induction pre generalizing p with
  | nil =>
      obtain ⟨hp, hq, -, hb, hpost⟩ := h
      refine ⟨hp, hq, ?_⟩
      rw [load32_store32_self]
      exact hpost.congr fun a ha => hkeep a (by simp [ha])
  | cons a pre ih =>
      obtain ⟨hp, ha, hrest⟩ := h
      refine ⟨hp, ha, ?_⟩
      rw [hkeep a (by simp)]
      exact ih hrest (fun c hc => hsep c (by simp only [List.cons_append, List.mem_cons, hc, or_true]))
        fun c hc => hkeep c (by simp only [List.cons_append, List.mem_cons, hc, or_true])

/-- **Unlinking through a pointer to a link.**  `cell` holds the pointer to the
first node; the link that points to `b`, which is `cell` or the link of the node
in front of `b`, is overwritten. -/
theorem Chain.unlink_cell {cell : BitVec 32} {pre post : List (BitVec 32)} {b : BitVec 32}
    (h : Chain m (load32 m cell) (pre ++ b :: post)) (hnodup : (pre ++ b :: post).Nodup)
    (hcell : ∀ a ∈ pre ++ b :: post, Separate a 4 cell 4)
    (hnodes : ∀ a ∈ pre ++ b :: post, ∀ c ∈ pre ++ b :: post, a ≠ c → Separate a 4 c 4) :
    let m' := store32 m (pre.getLastD cell) (load32 m b)
    Chain m' (load32 m' cell) (pre ++ post) := by
  rcases List.eq_nil_or_concat pre with rfl | ⟨init, last, rfl⟩
  · -- the first node: the cell is overwritten
    have htail := (Chain.tail [] h).2
    simp only [List.getLastD_nil, List.nil_append, load32_store32_self]
    exact htail.congr fun a ha => load32_store32 (hcell a (by simp [ha]))
  · -- any other node: the link of its predecessor is overwritten
    simp only [List.concat_eq_append, List.getLastD_concat, List.append_assoc,
      List.singleton_append] at *
    have hlast : last ∈ init ++ last :: b :: post := by simp
    rw [load32_store32 (hcell last hlast).symm]
    refine chain_unlink h fun a ha => hnodes a ?_ last hlast ?_
    · simp only [List.mem_append, List.mem_cons] at ha ⊢
      tauto
    · rintro rfl
      exact (List.nodup_middle.mp hnodup).notMem ha

/-- The nodes in front of `b` lead to each other and to `b`. -/
theorem Chain.next_mem {pre post : List (BitVec 32)} {b : BitVec 32}
    (h : Chain m p (pre ++ b :: post)) :
    p ∈ pre ++ [b] ∧ ∀ a ∈ pre, load32 m a ∈ pre ++ [b] := by
  induction pre generalizing p with
  | nil => exact ⟨List.mem_singleton.mpr h.1, by simp⟩
  | cons a pre ih =>
      obtain ⟨rfl, -, hrest⟩ := h
      obtain ⟨hfirst, hnext⟩ := ih hrest
      refine ⟨by simp, fun c hc => ?_⟩
      rcases List.mem_cons.mp hc with rfl | hmem
      · exact List.mem_cons_of_mem _ hfirst
      · exact List.mem_cons_of_mem _ (hnext c hmem)

/-- Following the links from `p` never ends: `nodes` lead only to each other, and
the null pointer is none of them. -/
structure Endless (m : Mem) (p : BitVec 32) (nodes : List (BitVec 32)) : Prop where
  first : p ∈ nodes
  next : ∀ a ∈ nodes, load32 m a ∈ nodes
  ne_zero : ∀ a ∈ nodes, a ≠ 0

/-- A node of a chain that is put in front of it once more closes a cycle. -/
theorem Chain.endless {pre post : List (BitVec 32)} {b : BitVec 32}
    (h : Chain m p (pre ++ b :: post)) (hpre : ∀ a ∈ pre, a ≠ b → load32 m' a = load32 m a)
    (hb : load32 m' b = p) (hne : ∀ a ∈ pre ++ [b], a ≠ 0) : Endless m' b (pre ++ [b]) where
  first := by simp
  next := by
    intro a ha
    obtain ⟨hfirst, hnext⟩ := h.next_mem
    by_cases heq : a = b
    · rw [heq, hb]
      exact hfirst
    · have hmem : a ∈ pre := by simpa [heq] using ha
      rw [hpre a hmem heq]
      exact hnext a hmem
  ne_zero := hne

end LinkedList
end Lib
end Ninjastorms
