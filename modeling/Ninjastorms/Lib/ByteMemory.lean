import Mathlib.Data.BitVec
import Mathlib.Tactic.Common
import Mathlib.Tactic.IntervalCases

/-!
# Byte-addressed memory with 32-bit addresses

Memory is a function from 32-bit addresses, which wrap around, to bytes.  A
range of bytes is given by its first address and its length, and membership is
measured by `offset a x`, the distance from `a` forward to `x`: this makes every
statement about ranges independent of whether they wrap.

* `byteAt v k` — byte `k` of a value, least significant first, with the rules
  for shifts, masks and truncations by whole bytes;
* `writeBytes` — replace a range of bytes, with the rules for reading inside,
  outside, and for exchanging two writes;
* `copyBytes` — copy a range byte by byte, which is one such write if source and
  destination do not overlap;
* `load32` / `store32` — the little-endian word accesses, and the frame rules
  for words that do not overlap.
-/

namespace Ninjastorms
namespace Lib
namespace ByteMemory

/-- Memory: a byte for each 32-bit address. -/
abbrev Mem := BitVec 32 → BitVec 8

/-- Byte `k` of a value, counted from the least significant one; zero beyond its width. -/
def byteAt {n : Nat} (v : BitVec n) (k : Nat) : BitVec 8 :=
  v.extractLsb' (8 * k) 8

/-! ### The bytes of a value -/

section Bytes

variable {n : Nat}

theorem getLsbD_byteAt (v : BitVec n) (k i : Nat) :
    (byteAt v k).getLsbD i = (decide (i < 8) && v.getLsbD (8 * k + i)) := by
  simp [byteAt, BitVec.getLsbD_extractLsb']

@[simp] theorem byteAt_zero (k : Nat) : byteAt (0#n) k = 0 := by
  ext i
  simp [byteAt]

theorem byteAt_or (v w : BitVec n) (k : Nat) :
    byteAt (v ||| w) k = byteAt v k ||| byteAt w k := by
  apply BitVec.eq_of_getLsbD_eq
  intro i hi
  simp only [BitVec.getLsbD_or, getLsbD_byteAt, hi, decide_true, Bool.true_and]

theorem byteAt_and (v w : BitVec n) (k : Nat) :
    byteAt (v &&& w) k = byteAt v k &&& byteAt w k := by
  apply BitVec.eq_of_getLsbD_eq
  intro i hi
  simp only [BitVec.getLsbD_and, getLsbD_byteAt, hi, decide_true, Bool.true_and]

/-- A left shift by whole bytes moves the bytes up and fills with zero bytes. -/
theorem byteAt_shiftLeft (v : BitVec n) (j : Nat) {k : Nat} (hk : 8 * k + 8 ≤ n) :
    byteAt (v <<< (8 * j)) k = if j ≤ k then byteAt v (k - j) else 0 := by
  apply BitVec.eq_of_getLsbD_eq
  intro i hi
  have hin : 8 * k + i < n := by omega
  rw [getLsbD_byteAt, BitVec.getLsbD_shiftLeft]
  split
  · have hsub : 8 * k + i - 8 * j = 8 * (k - j) + i := by omega
    have hge : ¬ 8 * k + i < 8 * j := by omega
    simp only [getLsbD_byteAt, hi, hin, hge, hsub, decide_true, decide_false, Bool.not_false,
      Bool.true_and]
  · have hlt : 8 * k + i < 8 * j := by omega
    simp only [hi, hin, hlt, decide_true, Bool.not_true, Bool.and_false, Bool.false_and,
      BitVec.ofNat_eq_ofNat, BitVec.getLsbD_zero]

/-- A right shift by whole bytes moves the bytes down. -/
theorem byteAt_ushiftRight (v : BitVec n) (j k : Nat) :
    byteAt (v >>> (8 * j)) k = byteAt v (k + j) := by
  apply BitVec.eq_of_getLsbD_eq
  intro i hi
  have hsum : 8 * j + (8 * k + i) = 8 * (k + j) + i := by omega
  simp only [BitVec.getLsbD_ushiftRight, getLsbD_byteAt, hsum]

/-- There are no bytes beyond the width. -/
theorem byteAt_of_le (v : BitVec n) {k : Nat} (hk : n ≤ 8 * k) : byteAt v k = 0 := by
  apply BitVec.eq_of_getLsbD_eq
  intro i hi
  have hge : n ≤ 8 * k + i := by omega
  rw [getLsbD_byteAt, BitVec.getLsbD_of_ge v _ hge, Bool.and_false]
  exact BitVec.getLsbD_zero.symm

/-- Shifting up and down again by whole bytes clears the upper bytes. -/
theorem byteAt_clearHigh {m : Nat} (v : BitVec (8 * m)) {j k : Nat} :
    byteAt ((v <<< (8 * j)) >>> (8 * j)) k = if k + j < m then byteAt v k else 0 := by
  rw [byteAt_ushiftRight]
  split
  · rw [byteAt_shiftLeft v j (by omega), if_pos (by omega), Nat.add_sub_cancel]
  · exact byteAt_of_le _ (by omega)

/-- Shifting down and up again by whole bytes clears the lower bytes. -/
theorem byteAt_clearLow {m : Nat} (v : BitVec (8 * m)) {j k : Nat} (hk : k < m) :
    byteAt ((v >>> (8 * j)) <<< (8 * j)) k = if j ≤ k then byteAt v k else 0 := by
  rw [byteAt_shiftLeft _ j (by omega)]
  split
  · rename_i hjk
    rw [byteAt_ushiftRight, Nat.sub_add_cancel hjk]
  · rfl

/-- Truncation or zero-extension keeps the bytes that lie inside both widths. -/
theorem byteAt_setWidth (v : BitVec n) {m k : Nat} (hk : 8 * k + 8 ≤ m) :
    byteAt (v.setWidth m) k = byteAt v k := by
  apply BitVec.eq_of_getLsbD_eq
  intro i hi
  have him : 8 * k + i < m := by omega
  simp only [getLsbD_byteAt, BitVec.getLsbD_setWidth, him, decide_true, Bool.true_and]

/-- A single byte, widened and moved up to place `j`. -/
theorem byteAt_lane (b : BitVec 8) (j : Nat) {k : Nat} (hk : 8 * k + 8 ≤ n) :
    byteAt (b.setWidth n <<< (8 * j)) k = if k = j then b else 0 := by
  rw [byteAt_shiftLeft _ j hk]
  rcases Nat.lt_trichotomy k j with hlt | rfl | hgt
  · rw [if_neg (by omega), if_neg (by omega)]
  · rw [if_pos (Nat.le_refl k), if_pos rfl, Nat.sub_self, byteAt_setWidth _ (by omega)]
    ext i
    simp [byteAt]
  · rw [if_pos (by omega), if_neg (by omega), byteAt_setWidth _ (by omega),
      byteAt_of_le _ (by omega)]

@[simp] theorem byteAt_byte (b : BitVec 8) : byteAt b 0 = b := by
  apply BitVec.eq_of_getLsbD_eq
  intro i hi
  simp only [getLsbD_byteAt, hi, decide_true, Bool.true_and, Nat.mul_zero, Nat.zero_add]

/-- A value put in front of a byte: the byte is the least significant one. -/
theorem byteAt_append (hi : BitVec n) (lo : BitVec 8) (k : Nat) :
    byteAt (hi ++ lo) k = if k = 0 then lo else byteAt hi (k - 1) := by
  apply BitVec.eq_of_getLsbD_eq
  intro i hlt
  rw [getLsbD_byteAt, BitVec.getLsbD_append]
  by_cases hk : k = 0
  · have hlow : 8 * k + i < 8 := by omega
    have hpos : 8 * k + i = i := by omega
    simp only [hk, hlt, if_true, decide_true, Bool.true_and, Nat.mul_zero, Nat.zero_add]
  · have hlow : ¬ 8 * k + i < 8 := by omega
    have hpos : 8 * k + i - 8 = 8 * (k - 1) + i := by omega
    simp only [hk, hlt, hlow, hpos, if_false, decide_true, Bool.true_and, getLsbD_byteAt]

/-- A value is determined by its bytes. -/
theorem eq_of_byteAt {m : Nat} {v w : BitVec (8 * m)}
    (h : ∀ k < m, byteAt v k = byteAt w k) : v = w := by
  apply BitVec.eq_of_getLsbD_eq
  intro i hi
  have hbyte := congrArg (fun b => b.getLsbD (i % 8)) (h (i / 8) (by omega))
  have hpos : 8 * (i / 8) + i % 8 = i := by omega
  have hmod : i % 8 < 8 := Nat.mod_lt _ (by omega)
  simpa only [getLsbD_byteAt, hpos, hmod, decide_true, Bool.true_and] using hbyte

end Bytes

/-! ### Ranges of addresses -/

/-- The distance from `a` forward to `x`. -/
def offset (a x : BitVec 32) : Nat :=
  (x - a).toNat

/-- Two ranges of bytes have no address in common. -/
def Separate (a : BitVec 32) (n : Nat) (b : BitVec 32) (k : Nat) : Prop :=
  ∀ x, ¬ (offset a x < n ∧ offset b x < k)

@[simp] theorem offset_self (a : BitVec 32) : offset a a = 0 := by
  simp [offset]

theorem offset_lt (a x : BitVec 32) : offset a x < 2 ^ 32 :=
  (x - a).isLt

theorem offset_add_ofNat (a : BitVec 32) {k : Nat} (hk : k < 2 ^ 32) :
    offset a (a + BitVec.ofNat 32 k) = k := by
  have hsub : a + BitVec.ofNat 32 k - a = BitVec.ofNat 32 k := by
    rw [BitVec.add_comm, BitVec.add_sub_cancel]
  rw [offset, hsub, BitVec.toNat_ofNat, Nat.mod_eq_of_lt hk]

/-- The address at a given offset. -/
theorem add_offset (a x : BitVec 32) : a + BitVec.ofNat 32 (offset a x) = x := by
  rw [offset, BitVec.ofNat_toNat, BitVec.setWidth_eq, BitVec.add_comm, BitVec.sub_add_cancel]

/-- A range that starts `k` bytes further on. -/
theorem offset_add_lt_iff (a x : BitVec 32) {k n : Nat} (hkn : k + n ≤ 2 ^ 32) :
    offset (a + BitVec.ofNat 32 k) x < n ↔ k ≤ offset a x ∧ offset a x < k + n := by
  unfold offset
  by_cases hn : n = 0
  · omega
  · have hk : (BitVec.ofNat 32 k).toNat = k := by
      rw [BitVec.toNat_ofNat, Nat.mod_eq_of_lt (by omega)]
    have hx := (x - a).isLt
    have hsub : x - (a + BitVec.ofNat 32 k) = (x - a) - BitVec.ofNat 32 k := by
      bv_omega
    rw [hsub, BitVec.toNat_sub, hk]
    omega

theorem offset_add_of_le {a x : BitVec 32} {k : Nat} (hk : k ≤ offset a x) :
    offset (a + BitVec.ofNat 32 k) x = offset a x - k := by
  have hx := offset_lt a x
  unfold offset at *
  have hk' : (BitVec.ofNat 32 k).toNat = k := by
    rw [BitVec.toNat_ofNat, Nat.mod_eq_of_lt (by omega)]
  have hsub : x - (a + BitVec.ofNat 32 k) = (x - a) - BitVec.ofNat 32 k := by
    bv_omega
  rw [hsub, BitVec.toNat_sub, hk']
  omega

theorem Separate.symm {a b : BitVec 32} {n k : Nat} (h : Separate a n b k) :
    Separate b k a n :=
  fun x hx => h x hx.symm

theorem Separate.mono {a b : BitVec 32} {n k n' k' : Nat} (h : Separate a n b k)
    (hn : n' ≤ n) (hk : k' ≤ k) : Separate a n' b k' :=
  fun x hx => h x ⟨hx.1.trans_le hn, hx.2.trans_le hk⟩

/-- Ranges that lie one behind the other below the top of the address space. -/
theorem separate_of_toNat_le {a b : BitVec 32} {n k : Nat}
    (hab : a.toNat + n ≤ b.toNat) (hb : b.toNat + k ≤ 2 ^ 32) : Separate a n b k := by
  rintro x ⟨hxa, hxb⟩
  have hx := x.isLt
  simp only [offset, BitVec.toNat_sub] at hxa hxb
  omega

/-- A part of a range that is separate from another one. -/
theorem Separate.part {a b : BitVec 32} {n k i n' : Nat} (h : Separate a n b k)
    (hpart : i + n' ≤ n) (hn : n ≤ 2 ^ 32) : Separate (a + BitVec.ofNat 32 i) n' b k := by
  rintro x ⟨hxa, hxb⟩
  have hin := (offset_add_lt_iff a x (by omega)).mp hxa
  exact h x ⟨by omega, hxb⟩

/-- Two parts of one range, the first before the second. -/
theorem separate_parts (a : BitVec 32) {i n j k : Nat} (hij : i + n ≤ j)
    (hjk : j + k ≤ 2 ^ 32) : Separate (a + BitVec.ofNat 32 i) n (a + BitVec.ofNat 32 j) k := by
  rintro x ⟨hi, hj⟩
  have hi' := (offset_add_lt_iff a x (by omega)).mp hi
  have hj' := (offset_add_lt_iff a x (by omega)).mp hj
  omega

/-- A word and the one behind it. -/
theorem separate_words (a : BitVec 32) : Separate a 4 (a + 4) 4 := by
  have hparts := separate_parts a (i := 0) (n := 4) (j := 4) (k := 4) (by omega) (by omega)
  simpa using hparts

/-! ### Writing a range -/

/-- Memory with the `n` bytes from `a` on replaced by `f 0`, `f 1`, ... -/
def writeBytes (m : Mem) (a : BitVec 32) (n : Nat) (f : Nat → BitVec 8) : Mem :=
  fun x => if offset a x < n then f (offset a x) else m x

theorem writeBytes_inside {m : Mem} {a x : BitVec 32} {n : Nat} {f : Nat → BitVec 8}
    (h : offset a x < n) : writeBytes m a n f x = f (offset a x) :=
  if_pos h

theorem writeBytes_outside {m : Mem} {a x : BitVec 32} {n : Nat} {f : Nat → BitVec 8}
    (h : ¬ offset a x < n) : writeBytes m a n f x = m x :=
  if_neg h

theorem writeBytes_at {m : Mem} {a : BitVec 32} {n k : Nat} {f : Nat → BitVec 8}
    (hk : k < n) (hn : n ≤ 2 ^ 32) : writeBytes m a n f (a + BitVec.ofNat 32 k) = f k := by
  have hoff := offset_add_ofNat a (k := k) (by omega)
  rw [writeBytes_inside (by rw [hoff]; exact hk), hoff]

/-- Two writes to separate ranges commute. -/
theorem writeBytes_comm {m : Mem} {a b : BitVec 32} {n k : Nat} {f g : Nat → BitVec 8}
    (h : Separate a n b k) :
    writeBytes (writeBytes m a n f) b k g = writeBytes (writeBytes m b k g) a n f := by
  funext x
  by_cases ha : offset a x < n
  · have hb : ¬ offset b x < k := fun hb => h x ⟨ha, hb⟩
    simp only [writeBytes, ha, hb, if_true, if_false]
  · simp only [writeBytes, ha, if_false]

/-- A memory that agrees with `m` but for some bytes behind `base` is `m` with
those bytes written. -/
theorem eq_writeBytes_of_lanes {m m' : Mem} {base : BitVec 32} {off n : Nat} (len : Nat)
    {f : Nat → BitVec 8} (hfit : off + n ≤ len) (hlen : len ≤ 2 ^ 32)
    (hin : ∀ x, offset base x < len → m' x =
      if off ≤ offset base x ∧ offset base x < off + n then f (offset base x - off) else m x)
    (hout : ∀ x, len ≤ offset base x → m' x = m x) :
    m' = writeBytes m (base + BitVec.ofNat 32 off) n f := by
  funext x
  have hiff := offset_add_lt_iff base x (k := off) (n := n) (by omega)
  by_cases hx : off ≤ offset base x ∧ offset base x < off + n
  · rw [writeBytes_inside (hiff.mpr hx), offset_add_of_le hx.1, hin x (by omega), if_pos hx]
  · rw [writeBytes_outside (fun h => hx (hiff.mp h))]
    by_cases hlt : offset base x < len
    · rw [hin x hlt, if_neg hx]
    · exact hout x (by omega)

/-- Reading next to a write, in offsets from one address. -/
theorem writeBytes_offset (m : Mem) (a : BitVec 32) {off n k : Nat} (f : Nat → BitVec 8)
    (hn : off + n ≤ 2 ^ 32) (hk : k < 2 ^ 32) :
    writeBytes m (a + BitVec.ofNat 32 off) n f (a + BitVec.ofNat 32 k) =
      if off ≤ k ∧ k < off + n then f (k - off) else m (a + BitVec.ofNat 32 k) := by
  have hiff := offset_add_lt_iff a (a + BitVec.ofNat 32 k) hn
  rw [offset_add_ofNat a hk] at hiff
  by_cases hin : off ≤ k ∧ k < off + n
  · have hle : off ≤ offset a (a + BitVec.ofNat 32 k) := by
      rw [offset_add_ofNat a hk]
      exact hin.1
    rw [writeBytes_inside (hiff.mpr hin), offset_add_of_le hle, offset_add_ofNat a hk, if_pos hin]
  · rw [writeBytes_outside fun h => hin (hiff.mp h), if_neg hin]

/-! ### Copying byte by byte -/

/-- The `n` bytes from `src` on are copied to `dest`, in ascending order. -/
def copyBytes (m : Mem) (dest src : BitVec 32) : Nat → Mem
  | 0 => m
  | n + 1 =>
      let m' := copyBytes m dest src n
      writeBytes m' (dest + BitVec.ofNat 32 n) 1 fun _ => m' (src + BitVec.ofNat 32 n)

theorem copyBytes_outside {m : Mem} {dest src x : BitVec 32} {n : Nat} (hn : n ≤ 2 ^ 32)
    (hx : ¬ offset dest x < n) : copyBytes m dest src n x = m x := by
  induction n with
  | zero => rfl
  | succ n ih =>
      have hone : ¬ offset (dest + BitVec.ofNat 32 n) x < 1 := fun h =>
        hx ((offset_add_lt_iff dest x (by omega)).mp h).2
      rw [copyBytes, writeBytes_outside hone]
      exact ih (by omega) (by omega)

/-- Without an overlap it is a write of the bytes that were there before. -/
theorem copyBytes_eq_writeBytes {m : Mem} {dest src : BitVec 32} {n : Nat} (hn : n ≤ 2 ^ 32)
    (hsep : Separate dest n src n) :
    copyBytes m dest src n = writeBytes m dest n fun k => m (src + BitVec.ofNat 32 k) := by
  induction n with
  | zero =>
      funext x
      rw [copyBytes, writeBytes_outside (Nat.not_lt_zero _)]
  | succ n ih =>
      have hsep' : Separate dest n src n := hsep.mono (by omega) (by omega)
      have hsrc : offset src (src + BitVec.ofNat 32 n) = n := offset_add_ofNat src (by omega)
      have hread : ¬ offset dest (src + BitVec.ofNat 32 n) < n := fun h =>
        hsep (src + BitVec.ofNat 32 n) ⟨by omega, by omega⟩
      rw [copyBytes, ih (by omega) hsep']
      funext x
      have hiff := offset_add_lt_iff dest x (k := n) (n := 1) (by omega)
      simp only [writeBytes_outside hread]
      by_cases hlast : offset dest x = n
      · rw [writeBytes_inside (hiff.mpr (by omega)), writeBytes_inside (by omega), hlast]
      · rw [writeBytes_outside fun h => hlast (by have := hiff.mp h; omega)]
        by_cases hx : offset dest x < n
        · rw [writeBytes_inside hx, writeBytes_inside (by omega)]
        · rw [writeBytes_outside hx, writeBytes_outside (by omega)]

/-- The first `k` bytes from `a` on, read one by one into a number of `w` bits. -/
def gatherLE (m : Mem) (a : BitVec 32) (w : Nat) : Nat → BitVec w
  | 0 => 0
  | k + 1 => gatherLE m a w k ||| ((m (a + BitVec.ofNat 32 k)).setWidth w <<< (8 * k))

/-- The `n` bytes from `a` on, read one by one as a little-endian number. -/
def readLE (m : Mem) (a : BitVec 32) (n : Nat) : BitVec (8 * n) :=
  gatherLE m a (8 * n) n

theorem byteAt_gatherLE (m : Mem) (a : BitVec 32) {w j : Nat} (hj : 8 * j + 8 ≤ w) (k : Nat) :
    byteAt (gatherLE m a w k) j = if j < k then m (a + BitVec.ofNat 32 j) else 0 := by
  induction k with
  | zero => simp [gatherLE]
  | succ k ih =>
      rw [gatherLE, byteAt_or, ih, byteAt_lane _ k hj]
      rcases Nat.lt_trichotomy j k with hlt | rfl | hgt
      · have hne : j ≠ k := by omega
        have hlt' : j < k + 1 := by omega
        simp [hlt, hne, hlt']
      · simp
      · have hne : j ≠ k := by omega
        have hge : ¬ j < k := by omega
        have hge' : ¬ j < k + 1 := by omega
        simp [hge, hne, hge']

theorem byteAt_readLE (m : Mem) (a : BitVec 32) {n k : Nat} (hk : k < n) :
    byteAt (readLE m a n) k = m (a + BitVec.ofNat 32 k) := by
  rw [readLE, byteAt_gatherLE m a (by omega), if_pos hk]

/-! ### Word accesses -/

/-- The little-endian word at `a`. -/
def load32 (m : Mem) (a : BitVec 32) : BitVec 32 :=
  m (a + 3) ++ m (a + 2) ++ m (a + 1) ++ m a

/-- Memory with the little-endian word at `a` replaced. -/
def store32 (m : Mem) (a v : BitVec 32) : Mem :=
  writeBytes m a 4 (byteAt v)

theorem store32_outside {m : Mem} {a v x : BitVec 32} (h : ¬ offset a x < 4) :
    store32 m a v x = m x :=
  writeBytes_outside h

theorem byteAt_load32 (m : Mem) (a : BitVec 32) {k : Nat} (hk : k < 4) :
    byteAt (load32 m a) k = m (a + BitVec.ofNat 32 k) := by
  apply BitVec.eq_of_getLsbD_eq
  intro i hi
  rw [getLsbD_byteAt]
  interval_cases k <;>
    simp only [load32, BitVec.getLsbD_append, hi, decide_true, Bool.true_and, Nat.reduceMul,
      Nat.zero_add, if_true, BitVec.ofNat_eq_ofNat, BitVec.add_zero]
  · have h1 : ¬ 8 + i < 8 := by omega
    have h2 : 8 + i - 8 = i := by omega
    simp [h1, h2, hi]
  · have h1 : ¬ 16 + i < 8 := by omega
    have h2 : ¬ 16 + i - 8 < 8 := by omega
    have h3 : 16 + i - 8 - 8 = i := by omega
    simp [h1, h2, h3, hi]
  · have h1 : ¬ 24 + i < 8 := by omega
    have h2 : ¬ 24 + i - 8 < 8 := by omega
    have h3 : ¬ 24 + i - 8 - 8 < 8 := by omega
    have h4 : 24 + i - 8 - 8 - 8 = i := by omega
    simp [h1, h2, h3, h4]

/-- The byte of a loaded word that comes from the address `x`. -/
theorem byteAt_load32_offset (m : Mem) {a x : BitVec 32} (hx : offset a x < 4) :
    byteAt (load32 m a) (offset a x) = m x := by
  rw [byteAt_load32 m a hx, add_offset]

/-- Words are equal when their four bytes are. -/
theorem word_eq_of_byteAt {v w : BitVec 32} (h : ∀ k < 4, byteAt v k = byteAt w k) : v = w :=
  eq_of_byteAt (m := 4) h

/-- A word load only sees the four bytes from its address on. -/
theorem load32_congr {m m' : Mem} {a : BitVec 32} (h : ∀ x, offset a x < 4 → m' x = m x) :
    load32 m' a = load32 m a := by
  apply word_eq_of_byteAt
  intro k hk
  rw [byteAt_load32 m' a hk, byteAt_load32 m a hk]
  exact h _ (by rw [offset_add_ofNat a (by omega)]; exact hk)

@[simp] theorem load32_store32_self (m : Mem) (a v : BitVec 32) :
    load32 (store32 m a v) a = v := by
  apply word_eq_of_byteAt
  intro k hk
  rw [byteAt_load32 _ a hk, store32, writeBytes_at hk (by omega)]

/-- Storing what is there changes nothing. -/
@[simp] theorem store32_load32 (m : Mem) (a : BitVec 32) : store32 m a (load32 m a) = m := by
  funext x
  by_cases hx : offset a x < 4
  · rw [store32, writeBytes_inside hx, byteAt_load32_offset m hx]
  · exact store32_outside hx

@[simp] theorem store32_store32 (m : Mem) (a v w : BitVec 32) :
    store32 (store32 m a v) a w = store32 m a w := by
  funext x
  by_cases hx : offset a x < 4
  · simp only [store32, writeBytes_inside hx]
  · rw [store32_outside hx, store32_outside hx, store32_outside hx]

/-- A write to a separate range leaves a word alone. -/
theorem load32_writeBytes {m : Mem} {a b : BitVec 32} {n : Nat} {f : Nat → BitVec 8}
    (h : Separate a 4 b n) : load32 (writeBytes m b n f) a = load32 m a :=
  load32_congr fun x hx => writeBytes_outside fun hb => h x ⟨hx, hb⟩

theorem load32_store32 {m : Mem} {a b v : BitVec 32} (h : Separate a 4 b 4) :
    load32 (store32 m b v) a = load32 m a :=
  load32_writeBytes h

end ByteMemory
end Lib
end Ninjastorms
