import Ninjastorms.Types
import Mathlib.Logic.Function.Basic
import Mathlib.Tactic.Common

/-!
# Copying and filling bytes

`libc/string/memcpy.c` and `libc/string/memset.c` over an object in memory: the
bytes from a pointer on, by their offset.  The loops of the source run from the
first byte to the last; `memcpy_apply` and `memset_apply` read their result.
`slice` is a stretch of an object as a list of bytes.
-/

namespace Ninjastorms
namespace Libc

/-- The bytes from a pointer on. -/
abbrev Bytes := Nat → Byte

/-- `memcpy(dest + off, src, n)`. -/
def memcpy (dest : Bytes) (off : Nat) (src : Bytes) : Nat → Bytes
  | 0 => dest
  | n + 1 => Function.update (memcpy dest off src n) (off + n) (src n)

/-- `memset(s + off, c, n)`. -/
def memset (s : Bytes) (off : Nat) (c : Byte) : Nat → Bytes
  | 0 => s
  | n + 1 => Function.update (memset s off c n) (off + n) c

theorem memcpy_apply (dest : Bytes) (off : Nat) (src : Bytes) (n k : Nat) :
    memcpy dest off src n k =
      if off ≤ k ∧ k < off + n then src (k - off) else dest k := by
  induction n with
  | zero =>
      have hempty : ¬ (off ≤ k ∧ k < off + 0) := by omega
      rw [memcpy, if_neg hempty]
  | succ n ih =>
      rw [memcpy]
      by_cases hk : k = off + n
      · have hin : off ≤ k ∧ k < off + (n + 1) := by omega
        rw [hk, Function.update_self, if_pos (hk ▸ hin), Nat.add_sub_cancel_left]
      · have hiff : (off ≤ k ∧ k < off + (n + 1)) ↔ (off ≤ k ∧ k < off + n) := by omega
        rw [Function.update_of_ne hk, ih]
        simp only [hiff]

theorem memcpy_inside {dest src : Bytes} {off n k : Nat} (hlow : off ≤ k) (hhigh : k < off + n) :
    memcpy dest off src n k = src (k - off) := by
  rw [memcpy_apply, if_pos ⟨hlow, hhigh⟩]

theorem memcpy_outside {dest src : Bytes} {off n k : Nat} (h : k < off ∨ off + n ≤ k) :
    memcpy dest off src n k = dest k := by
  rw [memcpy_apply, if_neg (by omega)]

/-- Only the bytes that are copied matter. -/
theorem memcpy_congr {dest src src' : Bytes} {off n : Nat} (h : ∀ k < n, src k = src' k) :
    memcpy dest off src n = memcpy dest off src' n := by
  induction n with
  | zero => rfl
  | succ n ih => rw [memcpy, memcpy, ih fun k hk => h k (by omega), h n (Nat.lt_succ_self n)]

theorem memset_eq_memcpy (s : Bytes) (off : Nat) (c : Byte) (n : Nat) :
    memset s off c n = memcpy s off (fun _ => c) n := by
  induction n with
  | zero => rfl
  | succ n ih => rw [memset, memcpy, ih]

theorem memset_apply (s : Bytes) (off : Nat) (c : Byte) (n k : Nat) :
    memset s off c n k = if off ≤ k ∧ k < off + n then c else s k := by
  rw [memset_eq_memcpy, memcpy_apply]

/-! ### Stretches of bytes -/

/-- The `n` bytes from offset `a` on. -/
def slice (b : Bytes) (a n : Nat) : List Byte :=
  (List.range n).map fun k => b (a + k)

@[simp] theorem length_slice (b : Bytes) (a n : Nat) : (slice b a n).length = n := by
  simp [slice]

theorem slice_congr {b b' : Bytes} {a a' n : Nat} (h : ∀ k < n, b (a + k) = b' (a' + k)) :
    slice b a n = slice b' a' n :=
  List.map_congr_left fun k hk => h k (List.mem_range.mp hk)

theorem slice_add (b : Bytes) (a m n : Nat) :
    slice b a (m + n) = slice b a m ++ slice b (a + m) n := by
  simp only [slice, List.range_add, List.map_append, List.map_map]
  congr 1
  exact List.map_congr_left fun k _ => congrArg b (Nat.add_assoc a m k).symm

theorem slice_const (v : Byte) (a n : Nat) : slice (fun _ => v) a n = List.replicate n v := by
  simp [slice]

/-- Equal stretches have equal bytes. -/
theorem apply_of_slice_eq {b b' : Bytes} {a a' n : Nat} (h : slice b a n = slice b' a' n) {k : Nat}
    (hk : k < n) : b (a + k) = b' (a' + k) :=
  List.map_inj_left.mp h k (List.mem_range.mpr hk)

/-- What has been copied is found again. -/
theorem slice_memcpy {dest src : Bytes} {off a m n : Nat} (hlow : off ≤ a) (hhigh : a + m ≤ off + n) :
    slice (memcpy dest off src n) a m = slice src (a - off) m := by
  apply slice_congr
  intro k hk
  rw [memcpy_inside (by omega) (by omega)]
  congr 1
  omega

/-- A copy leaves the rest of the object alone. -/
theorem slice_memcpy_of_disjoint {dest src : Bytes} {off a m n : Nat}
    (h : a + m ≤ off ∨ off + n ≤ a) : slice (memcpy dest off src n) a m = slice dest a m := by
  apply slice_congr
  intro k hk
  exact memcpy_outside (by omega)

/-- A single byte that is stored is copied. -/
theorem update_eq_memcpy (b : Bytes) (off : Nat) (v : Byte) :
    Function.update b off v = memcpy b off (fun _ => v) 1 := rfl

end Libc
end Ninjastorms
