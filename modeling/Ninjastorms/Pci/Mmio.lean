import Ninjastorms.Lib.ByteMemory
import Ninjastorms.Types

/-!
# Writes to the PCI address space

`kernel/pci/pci_mmio.c`.  The bus only carries whole aligned words, so a write
of another width or to another address is a read-modify-write of the one, two
or three words it touches, with shift amounts computed from the alignment.

Each function is first related to a byte store at `base + off`, where `base` is
divisible by 4 and `off < 4` (`pciWrite8_mem` and its companions, one byte of
one word at a time), and `pciWrite_byteStore` collects what this means for a
byte-addressed memory, for all four widths at once.
-/

namespace Ninjastorms
namespace Pci

open Lib.ByteMemory

/-- The memory behind the bus, and the addresses of the stores so far. -/
structure Bus where
  mem : Mem
  stores : List Word

/-- `pci_read32`. -/
def pciRead32 (bus : Bus) (address : Word) : Word :=
  load32 bus.mem address

/-- `write_word`. -/
def writeWord (bus : Bus) (address value : Word) : Bus :=
  { mem := store32 bus.mem address value
    stores := bus.stores ++ [address] }

/-- `address % 4`, which the functions below keep in a `uint8_t`. -/
def alignOffset (address : Word) : Nat :=
  address.toNat % 4

/-- `pci_write8`. -/
def pciWrite8 (bus : Bus) (address : Word) (value : Byte) : Bus :=
  let offset := alignOffset address
  let wordRead := pciRead32 bus (address - BitVec.ofNat 32 offset)
  let wordWrite := value.setWidth 32 <<< (8 * offset)
  let mask := ~~~((0xFF : Word) <<< (8 * offset))
  let word := (wordRead &&& mask) ||| wordWrite
  writeWord bus (address - BitVec.ofNat 32 offset) word

/-- `pci_write16`. -/
def pciWrite16 (bus : Bus) (address : Word) (value : HalfWord) : Bus :=
  let offset := alignOffset address
  if offset ≠ 3 then
    let wordRead := pciRead32 bus (address - BitVec.ofNat 32 offset)
    let wordWrite := value.setWidth 32 <<< (8 * offset)
    let mask := ~~~((0xFFFF : Word) <<< (8 * offset))
    let word := (wordRead &&& mask) ||| wordWrite
    writeWord bus (address - BitVec.ofNat 32 offset) word
  else
    let lowerWordRead := pciRead32 bus (address - 3)
    let lowerWordWrite := value.setWidth 32 <<< (8 * 3)
    let lowerWord := ((lowerWordRead <<< (8 * 1)) >>> (8 * 1)) ||| lowerWordWrite
    let bus := writeWord bus (address - 3) lowerWord
    let upperWordRead := pciRead32 bus (address + 1)
    let upperWordWrite := value.setWidth 32 >>> (8 * 1)
    let upperWord := ((upperWordRead >>> (8 * 1)) <<< (8 * 1)) ||| upperWordWrite
    writeWord bus (address + 1) upperWord

/-- `pci_write32`. -/
def pciWrite32 (bus : Bus) (address : Word) (value : Word) : Bus :=
  let lowerOffset := alignOffset address
  if lowerOffset ≠ 0 then
    let upperOffset := 4 - lowerOffset
    let lowerWordRead := pciRead32 bus (address - BitVec.ofNat 32 lowerOffset)
    let lowerWordWrite := value <<< (8 * lowerOffset)
    let lowerWord :=
      ((lowerWordRead <<< (8 * upperOffset)) >>> (8 * upperOffset)) ||| lowerWordWrite
    let bus := writeWord bus (address - BitVec.ofNat 32 lowerOffset) lowerWord
    let upperWordRead := pciRead32 bus (address + BitVec.ofNat 32 upperOffset)
    let upperWordWrite := value >>> (8 * upperOffset)
    let upperWord :=
      ((upperWordRead >>> (8 * lowerOffset)) <<< (8 * lowerOffset)) ||| upperWordWrite
    writeWord bus (address + BitVec.ofNat 32 upperOffset) upperWord
  else
    writeWord bus address value

/-- `pci_write64`. -/
def pciWrite64 (bus : Bus) (address : Word) (value : DoubleWord) : Bus :=
  let lowerOffset := alignOffset address
  if lowerOffset ≠ 0 then
    let upperOffset := 4 - lowerOffset
    let lowerWordRead := pciRead32 bus (address - BitVec.ofNat 32 lowerOffset)
    let lowerWordWrite := (value <<< (8 * lowerOffset)).setWidth 32
    let lowerWord :=
      ((lowerWordRead <<< (8 * upperOffset)) >>> (8 * upperOffset)) ||| lowerWordWrite
    let bus := writeWord bus (address - BitVec.ofNat 32 lowerOffset) lowerWord
    let middleWordWrite := (value >>> (8 * upperOffset)).setWidth 32
    let bus := writeWord bus (address + BitVec.ofNat 32 upperOffset) middleWordWrite
    let upperWordRead := pciRead32 bus (address + 4 + BitVec.ofNat 32 upperOffset)
    let upperWordWrite := (value >>> (8 * (upperOffset + 4))).setWidth 32
    let upperWord :=
      ((upperWordRead >>> (8 * lowerOffset)) <<< (8 * lowerOffset)) ||| upperWordWrite
    writeWord bus (address + 4 + BitVec.ofNat 32 upperOffset) upperWord
  else
    let bus := writeWord bus address (value.setWidth 32)
    writeWord bus (address + 4) ((value >>> 32).setWidth 32)

/-! ### Addresses by word and offset -/

/-- Every address is an aligned one plus its offset. -/
theorem exists_base (address : Word) :
    ∃ base : Word, ∃ off : Nat, off < 4 ∧ base.toNat % 4 = 0 ∧
      address = base + BitVec.ofNat 32 off ∧ alignOffset address = off ∧
      address - BitVec.ofNat 32 off = base := by
  have hlt := address.isLt
  have hoff : (BitVec.ofNat 32 (address.toNat % 4)).toNat = address.toNat % 4 := by
    rw [BitVec.toNat_ofNat]
    omega
  refine ⟨address - BitVec.ofNat 32 (address.toNat % 4), address.toNat % 4,
    Nat.mod_lt _ (by omega), ?_, ?_, rfl, rfl⟩
  · rw [BitVec.toNat_sub, hoff]
    omega
  · rw [BitVec.sub_add_cancel]

theorem base_add_add (base : Word) (i j : Nat) :
    base + BitVec.ofNat 32 i + BitVec.ofNat 32 j = base + BitVec.ofNat 32 (i + j) := by
  rw [BitVec.add_assoc, BitVec.ofNat_add]

/-- A store to the word `j` bytes behind `base`, one byte at a time. -/
theorem store32_ahead (m : Mem) (base v x : Word) {j : Nat} (hj : j + 4 ≤ 2 ^ 32) :
    store32 m (base + BitVec.ofNat 32 j) v x =
      if j ≤ offset base x ∧ offset base x < j + 4 then byteAt v (offset base x - j) else m x := by
  have hiff := offset_add_lt_iff base x (k := j) (n := 4) hj
  by_cases hx : j ≤ offset base x ∧ offset base x < j + 4
  · rw [if_pos hx, store32, writeBytes_inside (hiff.mpr hx), offset_add_of_le hx.1]
  · rw [if_neg hx, store32, writeBytes_outside fun h => hx (hiff.mp h)]

/-- A load from the word `j` bytes behind `base`, one byte at a time. -/
theorem byteAt_load32_ahead (m : Mem) (base x : Word) {j : Nat} (hj : j + 4 ≤ 2 ^ 32)
    (hx : j ≤ offset base x ∧ offset base x < j + 4) :
    byteAt (load32 m (base + BitVec.ofNat 32 j)) (offset base x - j) = m x := by
  rw [← offset_add_of_le hx.1]
  exact byteAt_load32_offset m ((offset_add_lt_iff base x hj).mpr hx)

/-! ### One byte of one word -/

/-- The word that `pci_write8` and the one-word case of `pci_write16` store:
the bytes under the mask from the value, the others as they were read. -/
theorem byteAt_masked (r mask w : Word) (d : Nat) :
    byteAt ((r &&& mask) ||| w) d = (byteAt r d &&& byteAt mask d) ||| byteAt w d := by
  rw [byteAt_or, byteAt_and]

theorem byteAt_mask8 : ∀ off < 4, ∀ d < 4,
    byteAt (~~~((0xFF : Word) <<< (8 * off))) d = if d = off then 0 else 0xFF := by
  decide

theorem byteAt_mask16 : ∀ off < 3, ∀ d < 4,
    byteAt (~~~((0xFFFF : Word) <<< (8 * off))) d =
      if off ≤ d ∧ d < off + 2 then 0 else 0xFF := by
  decide

theorem and_ff (b : Byte) : b &&& 0xFF = b :=
  BitVec.and_allOnes

/-- The lower word of a split write: the bytes below `lo` are kept, the others
come from the value. -/
theorem byteAt_lower (r w : Word) {lo d : Nat} (hlo : lo ≤ 4) {b : Byte}
    (hw : byteAt w d = if lo ≤ d then b else 0) :
    byteAt (((r <<< (8 * (4 - lo))) >>> (8 * (4 - lo))) ||| w) d =
      if lo ≤ d then b else byteAt r d := by
  rw [byteAt_or, byteAt_clearHigh (m := 4) r, hw]
  by_cases h : lo ≤ d
  · rw [if_neg (by omega), if_pos h, if_pos h]
    exact BitVec.zero_or
  · rw [if_pos (by omega), if_neg h, if_neg h]
    exact BitVec.or_zero

/-- The upper word of a split write: the bytes from `hi` on are kept. -/
theorem byteAt_upper (r w : Word) {hi d : Nat} (hd : d < 4) {b : Byte}
    (hw : byteAt w d = if d < hi then b else 0) :
    byteAt (((r >>> (8 * hi)) <<< (8 * hi)) ||| w) d = if d < hi then b else byteAt r d := by
  rw [byteAt_or, byteAt_clearLow (m := 4) r hd, hw]
  by_cases h : d < hi
  · rw [if_neg (by omega), if_pos h, if_pos h]
    exact BitVec.zero_or
  · rw [if_pos (by omega), if_neg h, if_neg h]
    exact BitVec.or_zero

/-! ### One, two and three words -/

/-- A read-modify-write of one word under a mask stores the bytes under the mask. -/
theorem store_masked {m : Mem} {base mask w : Word} {off n : Nat} {f : Nat → Byte}
    (hfit : off + n ≤ 4)
    (hmask : ∀ d < 4, byteAt mask d = if off ≤ d ∧ d < off + n then 0 else 0xFF)
    (hw : ∀ d < 4, byteAt w d = if off ≤ d ∧ d < off + n then f (d - off) else 0) :
    store32 m base ((load32 m base &&& mask) ||| w) =
      writeBytes m (base + BitVec.ofNat 32 off) n f := by
  refine eq_writeBytes_of_lanes 4 hfit (by omega) ?_ fun x hx => writeBytes_outside (by omega)
  intro x hx
  rw [store32, writeBytes_inside hx, byteAt_masked, hmask _ hx, hw _ hx,
    byteAt_load32_offset m hx]
  split
  · simp
  · rw [and_ff]
    exact BitVec.or_zero

/-- The first word of a split write: the bytes from `lo` on are stored. -/
theorem store_first {m : Mem} {base wl : Word} {lo : Nat} {f : Nat → Byte} (hlo : lo ≤ 4)
    (hwl : ∀ d < 4, byteAt wl d = if lo ≤ d then f (d - lo) else 0) (x : Word) :
    store32 m base (((load32 m base <<< (8 * (4 - lo))) >>> (8 * (4 - lo))) ||| wl) x =
      if offset base x < 4 then
        (if lo ≤ offset base x then f (offset base x - lo) else m x)
      else m x := by
  by_cases hx : offset base x < 4
  · rw [store32, writeBytes_inside hx, byteAt_lower _ _ hlo (hwl _ hx),
      byteAt_load32_offset m hx, if_pos hx]
  · rw [store32, writeBytes_outside hx, if_neg hx]

/-- The last word of a split write, `start` bytes behind the first one, completes the
range. -/
theorem store_last {m m' : Mem} {base wu : Word} {lo hi start n : Nat} {f : Nat → Byte}
    (hstart : lo ≤ start ∧ start ≤ 8) (hhi : hi ≤ 4) (hn : lo + n = start + hi)
    (hm' : ∀ x, m' x = if offset base x < start then
      (if lo ≤ offset base x then f (offset base x - lo) else m x) else m x)
    (hwu : ∀ d < 4, byteAt wu d = if d < hi then f (d + (start - lo)) else 0) :
    store32 m' (base + BitVec.ofNat 32 start)
        (((load32 m' (base + BitVec.ofNat 32 start) >>> (8 * hi)) <<< (8 * hi)) ||| wu) =
      writeBytes m (base + BitVec.ofNat 32 lo) n f := by
  refine eq_writeBytes_of_lanes (start + 4) (by omega) (by omega) ?_ ?_
  · intro x hx
    rw [store32_ahead m' base _ x (by omega)]
    by_cases hlow : offset base x < start
    · rw [if_neg (by omega), hm' x, if_pos hlow]
      exact if_congr (by omega) rfl rfl
    · -- the last read-modify-write reads what the others have left
      have hword : start ≤ offset base x ∧ offset base x < start + 4 := by omega
      have hsub : offset base x - start + (start - lo) = offset base x - lo := by omega
      rw [if_pos hword, byteAt_upper _ _ (by omega) (hwu _ (by omega)),
        byteAt_load32_ahead m' base x (by omega) hword, hm' x, if_neg hlow, hsub]
      exact if_congr (by omega) rfl rfl
  · intro x hx
    rw [store32_ahead m' base _ x (by omega), if_neg (by omega), hm' x, if_neg (by omega)]

/-- Two read-modify-writes of neighbouring words store a range across their border. -/
theorem store_split {m : Mem} {base wl wu : Word} (lo hi : Nat) {n : Nat} {f : Nat → Byte}
    (hlo : lo ≤ 4) (hhi : hi ≤ 4) (hn : lo + n = 4 + hi)
    (hwl : ∀ d < 4, byteAt wl d = if lo ≤ d then f (d - lo) else 0)
    (hwu : ∀ d < 4, byteAt wu d = if d < hi then f (d + (4 - lo)) else 0) :
    let m' := store32 m base
      (((load32 m base <<< (8 * (4 - lo))) >>> (8 * (4 - lo))) ||| wl)
    store32 m' (base + BitVec.ofNat 32 4)
        (((load32 m' (base + BitVec.ofNat 32 4) >>> (8 * hi)) <<< (8 * hi)) ||| wu) =
      writeBytes m (base + BitVec.ofNat 32 lo) n f :=
  store_last (by omega) hhi hn (store_first hlo hwl) hwu

/-- A read-modify-write, a whole word and a read-modify-write store a range that
covers the middle one of three words. -/
theorem store_split_middle {m : Mem} {base wl wm wu : Word} {lo n : Nat} {f : Nat → Byte}
    (hlo : lo ≤ 4) (hn : n = 8)
    (hwl : ∀ d < 4, byteAt wl d = if lo ≤ d then f (d - lo) else 0)
    (hwm : ∀ d < 4, byteAt wm d = f (d + (4 - lo)))
    (hwu : ∀ d < 4, byteAt wu d = if d < lo then f (d + (8 - lo)) else 0) :
    let m' := store32 m base
      (((load32 m base <<< (8 * (4 - lo))) >>> (8 * (4 - lo))) ||| wl)
    let m'' := store32 m' (base + BitVec.ofNat 32 4) wm
    store32 m'' (base + BitVec.ofNat 32 8)
        (((load32 m'' (base + BitVec.ofNat 32 8) >>> (8 * lo)) <<< (8 * lo)) ||| wu) =
      writeBytes m (base + BitVec.ofNat 32 lo) n f := by
  intro m' m''
  have hm'' : ∀ x, m'' x = if offset base x < 8 then
      (if lo ≤ offset base x then f (offset base x - lo) else m x) else m x := by
    intro x
    have hfirst : m' x = if offset base x < 4 then
        (if lo ≤ offset base x then f (offset base x - lo) else m x) else m x :=
      store_first hlo hwl x
    have hstore := store32_ahead m' base wm x (j := 4) (by omega)
    by_cases hx : 4 ≤ offset base x ∧ offset base x < 4 + 4
    · -- the middle word is overwritten as a whole
      have hsub : offset base x - 4 + (4 - lo) = offset base x - lo := by omega
      rw [if_pos hx, hwm _ (by omega), hsub] at hstore
      rw [if_pos hx.2, if_pos (by omega)]
      exact hstore
    · rw [if_neg hx] at hstore
      exact (hstore.trans hfirst).trans (if_congr (by omega) rfl rfl)
  exact store_last (by omega) hlo (by omega) hm'' hwu

/-- Two whole words store eight bytes. -/
theorem store_two {m : Mem} {base wl wu : Word} {f : Nat → Byte}
    (hwl : ∀ d < 4, byteAt wl d = f d) (hwu : ∀ d < 4, byteAt wu d = f (d + 4)) :
    store32 (store32 m base wl) (base + 4) wu = writeBytes m base 8 f := by
  funext x
  have hfour : base + 4 = base + BitVec.ofNat 32 4 := rfl
  rw [hfour, store32_ahead _ base wu x (by omega)]
  by_cases hx : 4 ≤ offset base x ∧ offset base x < 4 + 4
  · rw [if_pos hx, hwu _ (by omega), Nat.sub_add_cancel hx.1, writeBytes_inside (by omega)]
  · rw [if_neg hx]
    by_cases hlow : offset base x < 4
    · rw [store32, writeBytes_inside hlow, hwl _ hlow, writeBytes_inside (by omega)]
    · rw [store32, writeBytes_outside hlow, writeBytes_outside (by omega)]

/-! ### The four functions -/

/-- A value of any width, cut or widened to a word and moved up by `lo` bytes. -/
theorem byteAt_valueUp {n : Nat} (v : BitVec n) {lo d : Nat} (hd : d < 4) :
    byteAt (v.setWidth 32 <<< (8 * lo)) d = if lo ≤ d then byteAt v (d - lo) else 0 := by
  rw [byteAt_shiftLeft _ lo (by omega)]
  split
  · exact byteAt_setWidth v (by omega)
  · rfl

/-- Widening a value to a word adds only zero bytes. -/
theorem byteAt_setWidth_word (v : HalfWord) (d : Nat) :
    byteAt (v.setWidth 32) d = byteAt v d := by
  by_cases h : d < 4
  · exact byteAt_setWidth v (by omega)
  · rw [byteAt_of_le _ (by omega), byteAt_of_le _ (by omega)]

theorem pciWrite8_mem (bus : Bus) (address : Word) (value : Byte) :
    (pciWrite8 bus address value).mem = writeBytes bus.mem address 1 (byteAt value) := by
  obtain ⟨base, off, hoff, -, rfl, halign, hsub⟩ := exists_base address
  simp only [pciWrite8, halign, hsub, writeWord, pciRead32]
  refine store_masked (by omega) (fun d hd => ?_) fun d hd => ?_
  · rw [byteAt_mask8 off hoff d hd]
    exact if_congr (by omega) rfl rfl
  · rw [byteAt_lane value off (by omega)]
    by_cases h : d = off
    · rw [if_pos h, if_pos (by omega), h, Nat.sub_self, byteAt_byte]
    · rw [if_neg h, if_neg (by omega)]

theorem pciWrite16_mem (bus : Bus) (address : Word) (value : HalfWord) :
    (pciWrite16 bus address value).mem = writeBytes bus.mem address 2 (byteAt value) := by
  obtain ⟨base, off, hoff, -, rfl, halign, hsub⟩ := exists_base address
  by_cases hthree : off = 3
  · -- the only offset at which two bytes reach into the next word
    subst hthree
    have hlow : base + BitVec.ofNat 32 3 - 3 = base := hsub
    have hhigh : base + BitVec.ofNat 32 3 + 1 = base + BitVec.ofNat 32 4 := base_add_add base 3 1
    simp only [pciWrite16, halign, writeWord, pciRead32, ne_eq, not_true_eq_false, if_false,
      hlow, hhigh]
    refine store_split 3 1 (by omega) (by omega) (by omega)
      (fun d hd => byteAt_valueUp value hd) fun d hd => ?_
    rw [byteAt_ushiftRight, byteAt_setWidth_word value]
    by_cases h : d < 1
    · rw [if_pos h]
    · rw [if_neg h]
      exact byteAt_of_le value (by omega)
  · simp only [pciWrite16, halign, ne_eq, hthree, not_false_eq_true, if_true, hsub, writeWord,
      pciRead32]
    refine store_masked (by omega) (byteAt_mask16 off (by omega)) fun d hd => ?_
    rw [byteAt_valueUp value hd]
    by_cases h : off ≤ d
    · by_cases h' : d < off + 2
      · rw [if_pos h, if_pos ⟨h, h'⟩]
      · rw [if_pos h, if_neg (by omega)]
        exact byteAt_of_le value (by omega)
    · rw [if_neg h, if_neg (by omega)]

theorem pciWrite32_mem (bus : Bus) (address : Word) (value : Word) :
    (pciWrite32 bus address value).mem = writeBytes bus.mem address 4 (byteAt value) := by
  by_cases haligned : alignOffset address = 0
  · simp only [pciWrite32, haligned, ne_eq, not_true_eq_false, if_false, writeWord]
    rfl
  · obtain ⟨base, off, hoff, -, rfl, halign, hsub⟩ := exists_base address
    have hzero : off ≠ 0 := halign ▸ haligned
    have hhigh : base + BitVec.ofNat 32 off + BitVec.ofNat 32 (4 - off) =
        base + BitVec.ofNat 32 4 := by
      rw [base_add_add, Nat.add_sub_of_le (by omega)]
    simp only [pciWrite32, halign, hzero, ne_eq, not_false_eq_true, if_true, writeWord, pciRead32,
      hsub, hhigh]
    refine store_split off off (by omega) (by omega) (by omega)
      (fun d hd => byteAt_shiftLeft value off (by omega)) fun d hd => ?_
    rw [byteAt_ushiftRight]
    by_cases h : d < off
    · rw [if_pos h]
    · rw [if_neg h]
      exact byteAt_of_le value (by omega)

theorem pciWrite64_mem (bus : Bus) (address : Word) (value : DoubleWord) :
    (pciWrite64 bus address value).mem = writeBytes bus.mem address 8 (byteAt value) := by
  by_cases haligned : alignOffset address = 0
  · simp only [pciWrite64, haligned, ne_eq, not_true_eq_false, if_false, writeWord]
    refine store_two (fun d hd => byteAt_setWidth value (by omega)) fun d hd => ?_
    rw [byteAt_setWidth _ (by omega)]
    exact byteAt_ushiftRight value 4 d
  · obtain ⟨base, off, hoff, -, rfl, halign, hsub⟩ := exists_base address
    have hzero : off ≠ 0 := halign ▸ haligned
    have hmid : base + BitVec.ofNat 32 off + BitVec.ofNat 32 (4 - off) =
        base + BitVec.ofNat 32 4 := by
      rw [base_add_add, Nat.add_sub_of_le (by omega)]
    have hhigh : base + BitVec.ofNat 32 off + 4 + BitVec.ofNat 32 (4 - off) =
        base + BitVec.ofNat 32 8 := by
      have hfour : base + BitVec.ofNat 32 off + 4 = base + BitVec.ofNat 32 (off + 4) :=
        base_add_add base off 4
      rw [hfour, base_add_add, show off + 4 + (4 - off) = 8 by omega]
    simp only [pciWrite64, halign, hzero, ne_eq, not_false_eq_true, if_true, writeWord, pciRead32,
      hsub, hmid, hhigh]
    refine store_split_middle (by omega) rfl (fun d hd => ?_) (fun d hd => ?_) fun d hd => ?_
    · rw [byteAt_setWidth _ (by omega), byteAt_shiftLeft value off (by omega)]
    · rw [byteAt_setWidth _ (by omega), byteAt_ushiftRight]
    · rw [byteAt_setWidth _ (by omega), byteAt_ushiftRight]
      by_cases h : d < off
      · rw [if_pos h, show d + (4 - off + 4) = d + (8 - off) by omega]
      · rw [if_neg h]
        exact byteAt_of_le value (by omega)

/-! ### Only aligned stores -/

/-- Every store between two states of the bus goes to an address divisible by 4. -/
def StoresAligned (bus bus' : Bus) : Prop :=
  ∃ new, bus'.stores = bus.stores ++ new ∧ ∀ address ∈ new, address.toNat % 4 = 0

theorem aligned_add_four {base : Word} (h : base.toNat % 4 = 0) {k : Nat} (hk : k < 2 ^ 32)
    (hfour : k % 4 = 0) : (base + BitVec.ofNat 32 k).toNat % 4 = 0 := by
  rw [BitVec.toNat_add, BitVec.toNat_ofNat, Nat.mod_eq_of_lt hk]
  omega

theorem writeWord_aligned {bus : Bus} {address : Word} (value : Word)
    (h : address.toNat % 4 = 0) : StoresAligned bus (writeWord bus address value) :=
  ⟨[address], rfl, by simpa using h⟩

theorem StoresAligned.trans {bus bus' bus'' : Bus} (h : StoresAligned bus bus')
    (h' : StoresAligned bus' bus'') : StoresAligned bus bus'' := by
  obtain ⟨new, hnew, hall⟩ := h
  obtain ⟨new', hnew', hall'⟩ := h'
  refine ⟨new ++ new', by rw [hnew', hnew, List.append_assoc], fun address hmem => ?_⟩
  rcases List.mem_append.mp hmem with hm | hm
  · exact hall address hm
  · exact hall' address hm

theorem pciWrite8_aligned (bus : Bus) (address : Word) (value : Byte) :
    StoresAligned bus (pciWrite8 bus address value) := by
  obtain ⟨base, off, -, hbase, -, halign, hsub⟩ := exists_base address
  simp only [pciWrite8, halign, hsub]
  exact writeWord_aligned _ hbase

theorem pciWrite16_aligned (bus : Bus) (address : Word) (value : HalfWord) :
    StoresAligned bus (pciWrite16 bus address value) := by
  obtain ⟨base, off, -, hbase, haddr, halign, hsub⟩ := exists_base address
  by_cases hthree : off = 3
  · subst hthree
    have hlow : address - 3 = base := hsub
    have hhigh : address + 1 = base + BitVec.ofNat 32 4 := by
      rw [haddr]
      exact base_add_add base 3 1
    simp only [pciWrite16, halign, ne_eq, not_true_eq_false, if_false, hlow, hhigh]
    exact (writeWord_aligned _ hbase).trans
      (writeWord_aligned _ (aligned_add_four hbase (by omega) rfl))
  · simp only [pciWrite16, halign, ne_eq, hthree, not_false_eq_true, if_true, hsub]
    exact writeWord_aligned _ hbase

theorem pciWrite32_aligned (bus : Bus) (address : Word) (value : Word) :
    StoresAligned bus (pciWrite32 bus address value) := by
  obtain ⟨base, off, hoff, hbase, haddr, halign, hsub⟩ := exists_base address
  by_cases hzero : off = 0
  · simp only [pciWrite32, halign, hzero, ne_eq, not_true_eq_false, if_false]
    exact writeWord_aligned _ (halign.trans hzero)
  · have hhigh : address + BitVec.ofNat 32 (4 - off) = base + BitVec.ofNat 32 4 := by
      rw [haddr, base_add_add, Nat.add_sub_of_le (by omega)]
    simp only [pciWrite32, halign, ne_eq, hzero, not_false_eq_true, if_true, hsub, hhigh]
    exact (writeWord_aligned _ hbase).trans
      (writeWord_aligned _ (aligned_add_four hbase (by omega) rfl))

theorem pciWrite64_aligned (bus : Bus) (address : Word) (value : DoubleWord) :
    StoresAligned bus (pciWrite64 bus address value) := by
  obtain ⟨base, off, hoff, hbase, haddr, halign, hsub⟩ := exists_base address
  by_cases hzero : off = 0
  · have haddr0 : address.toNat % 4 = 0 := halign.trans hzero
    simp only [pciWrite64, halign, hzero, ne_eq, not_true_eq_false, if_false]
    exact (writeWord_aligned _ haddr0).trans
      (writeWord_aligned _ (aligned_add_four haddr0 (k := 4) (by omega) rfl))
  · have hmid : address + BitVec.ofNat 32 (4 - off) = base + BitVec.ofNat 32 4 := by
      rw [haddr, base_add_add, Nat.add_sub_of_le (by omega)]
    have hhigh : address + 4 + BitVec.ofNat 32 (4 - off) = base + BitVec.ofNat 32 8 := by
      have hfour : base + BitVec.ofNat 32 off + 4 = base + BitVec.ofNat 32 (off + 4) :=
        base_add_add base off 4
      rw [haddr, hfour, base_add_add, show off + 4 + (4 - off) = 8 by omega]
    simp only [pciWrite64, halign, ne_eq, hzero, not_false_eq_true, if_true, hsub, hmid, hhigh]
    exact ((writeWord_aligned _ hbase).trans
      (writeWord_aligned _ (aligned_add_four hbase (by omega) rfl))).trans
      (writeWord_aligned _ (aligned_add_four hbase (by omega) rfl))

/-! ### All widths at once -/

/-- The widths for which there is a write function. -/
inductive Width where
  | w8
  | w16
  | w32
  | w64
  deriving DecidableEq, Repr

/-- The number of bytes of a value. -/
def Width.bytes : Width → Nat
  | .w8 => 1
  | .w16 => 2
  | .w32 => 4
  | .w64 => 8

/-- The write function for a width. -/
def pciWrite : (width : Width) → Bus → Word → BitVec (8 * width.bytes) → Bus
  | .w8, bus, address, value => pciWrite8 bus address value
  | .w16, bus, address, value => pciWrite16 bus address value
  | .w32, bus, address, value => pciWrite32 bus address value
  | .w64, bus, address, value => pciWrite64 bus address value

/-- Every write is a byte store at its address. -/
theorem pciWrite_mem (width : Width) (bus : Bus) (address : Word)
    (value : BitVec (8 * width.bytes)) :
    (pciWrite width bus address value).mem =
      writeBytes bus.mem address width.bytes (byteAt value) := by
  cases width with
  | w8 => exact pciWrite8_mem bus address value
  | w16 => exact pciWrite16_mem bus address value
  | w32 => exact pciWrite32_mem bus address value
  | w64 => exact pciWrite64_mem bus address value

theorem pciWrite_aligned (width : Width) (bus : Bus) (address : Word)
    (value : BitVec (8 * width.bytes)) :
    StoresAligned bus (pciWrite width bus address value) := by
  cases width with
  | w8 => exact pciWrite8_aligned bus address value
  | w16 => exact pciWrite16_aligned bus address value
  | w32 => exact pciWrite32_aligned bus address value
  | w64 => exact pciWrite64_aligned bus address value

theorem Width.bytes_le (width : Width) : width.bytes ≤ 8 := by
  cases width <;> decide

/-- Byte ranges without a common byte, from their addresses. -/
theorem separate_of_bytes_ne {a b : Word} {n k : Nat}
    (h : ∀ i < n, ∀ j < k, a + BitVec.ofNat 32 i ≠ b + BitVec.ofNat 32 j) :
    Separate a n b k := by
  rintro x ⟨hxa, hxb⟩
  exact h _ hxa _ hxb ((add_offset a x).trans (add_offset b x).symm)

/-- **PCI writes refine a byte store.**  A write of any width changes exactly
the bytes of its range, to the little-endian bytes of the value, through
aligned stores only.  So the value reads back byte by byte, and two writes to
ranges without a common byte commute. -/
theorem pciWrite_byteStore (width : Width) (bus : Bus) (address : Word)
    (value : BitVec (8 * width.bytes)) :
    (∀ k < width.bytes,
      (pciWrite width bus address value).mem (address + BitVec.ofNat 32 k) = byteAt value k) ∧
    (∀ x, (∀ k < width.bytes, x ≠ address + BitVec.ofNat 32 k) →
      (pciWrite width bus address value).mem x = bus.mem x) ∧
    StoresAligned bus (pciWrite width bus address value) ∧
    readLE (pciWrite width bus address value).mem address width.bytes = value ∧
    ∀ (width' : Width) (address' : Word) (value' : BitVec (8 * width'.bytes)),
      (∀ k < width.bytes, ∀ l < width'.bytes,
        address + BitVec.ofNat 32 k ≠ address' + BitVec.ofNat 32 l) →
      (pciWrite width' (pciWrite width bus address value) address' value').mem =
        (pciWrite width (pciWrite width' bus address' value') address value).mem := by
  have hbytes := width.bytes_le
  have hat : ∀ k < width.bytes,
      (pciWrite width bus address value).mem (address + BitVec.ofNat 32 k) = byteAt value k := by
    intro k hk
    rw [pciWrite_mem, writeBytes_at hk (by omega)]
  refine ⟨hat, ?_, pciWrite_aligned width bus address value, ?_, ?_⟩
  · intro x hx
    rw [pciWrite_mem]
    refine writeBytes_outside fun hlt => hx _ hlt ?_
    exact (add_offset address x).symm
  · apply eq_of_byteAt
    intro k hk
    rw [byteAt_readLE _ _ hk, hat k hk]
  · intro width' address' value' hne
    simp only [pciWrite_mem]
    exact writeBytes_comm (separate_of_bytes_ne hne)

end Pci
end Ninjastorms
