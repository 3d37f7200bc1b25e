import Ninjastorms.Drivers.Pininfo
import Ninjastorms.Lib.Runs

/-!
# The GPIO driver

`kernel/drivers/gpio.c` over the registers of the system configuration module
and of the GPIO controller.  A register is the word at its address, with one
exception: a bank has two addresses for its output latch, and a write to one of
them sets, to the other one clears the bits of the latch that are 1 in the value.

A pin has a field of four bits in a multiplexing register, a direction bit and
a latch bit.  `muxField_gpioInitPin`, `direction_gpioInitPin` and the lemmas
after them say what each function does to these of any pin, its own or another
one.  Over a run of calls, `gpio_pins_independent` shows that each pin only
depends on the calls for it.
-/

namespace Ninjastorms
namespace Drivers

open Lib.Runs

/-! ### The registers -/

/-- `SYSCFG0_BASE`. -/
def SYSCFG0_BASE : Word := 0x01C14000

/-- `GPIO_BASE`. -/
def GPIO_BASE : Word := 0x01E26000

def KICK0_UNLOCK : Word := 0x83E70B13
def KICK1_UNLOCK : Word := 0x95A4F1E0
def KICK0_LOCK : Word := 0x0
def KICK1_LOCK : Word := 0x0

/-- `&SYSCFG_KICK(N)`. -/
def syscfgKick (n : Word) : Word :=
  SYSCFG0_BASE + 0x38 + n * 0x4

/-- `&SYSCFG_PINMUX(N)`. -/
def syscfgPinmux (n : Word) : Word :=
  SYSCFG0_BASE + 0x120 + n * 0x4

/-- `GPIO_BANK`. -/
def gpioBank (n : Word) : Word :=
  GPIO_BASE + (0x10 : Word) + (n >>> 5) * (0x28 : Word)

/-- `GPIO_MASK`. -/
def gpioMask (n : Word) : Word :=
  (1 : Word) <<< (n &&& 0x1F)

/-- `&GPIO_DIR(N)`. -/
def gpioDir (n : Word) : Word :=
  gpioBank n + 0x00

/-- `&GPIO_CLR(N)`. -/
def gpioClr (n : Word) : Word :=
  gpioBank n + 0x0C

/-- The words at the addresses, the output latch of each bank, and the calls of
`printf` so far. -/
structure Registers where
  word : Word → Word
  latch : Nat → Word
  printed : List (String × Word)

/-- What a write to an address reaches. -/
inductive Port where
  | plain
  | setData (bank : Nat)
  | clrData (bank : Nat)
  deriving DecidableEq

/-- The number of banks. -/
def numBanks : Nat := 5

/-- The registers of a bank take `0x28` bytes; set and clear are at `0x08` and `0x0C`. -/
def port (address : Word) : Port :=
  let off := (address - (GPIO_BASE + 0x10)).toNat
  if off < numBanks * 0x28 then
    if off % 0x28 = 0x08 then .setData (off / 0x28)
    else if off % 0x28 = 0x0C then .clrData (off / 0x28)
    else .plain
  else .plain

/-- A read. -/
def Registers.load (r : Registers) (address : Word) : Word :=
  r.word address

/-- A write. -/
def Registers.store (r : Registers) (address value : Word) : Registers :=
  match port address with
  | .plain => { r with word := fun x => if x = address then value else r.word x }
  | .setData bank =>
      { r with latch := fun k => if k = bank then r.latch k ||| value else r.latch k }
  | .clrData bank =>
      { r with latch := fun k => if k = bank then r.latch k &&& ~~~value else r.latch k }

/-! ### The functions -/

/-- `SYSCFG_UNLOCK`. -/
def syscfgUnlock (r : Registers) : Registers :=
  (r.store (syscfgKick 0) KICK0_UNLOCK).store (syscfgKick 1) KICK1_UNLOCK

/-- `SYSCFG_LOCK`. -/
def syscfgLock (r : Registers) : Registers :=
  (r.store (syscfgKick 0) KICK0_LOCK).store (syscfgKick 1) KICK1_LOCK

/-- `pininfo[pin]`, where `beyond` is what lies behind the table. -/
def pinInfoAt (beyond : Nat → PinInfo) (pin : Word) : PinInfo :=
  pininfo.getD pin.toNat (beyond pin.toNat)

def canNotInitialize : String :=
  "gpio: can not initialize pin %x - need init information in pin_info\n"

variable (beyond : Nat → PinInfo)

/-- `gpio_init_pin`. -/
def gpioInitPin (pin : Word) (r : Registers) : Registers :=
  let r := syscfgUnlock r
  -- the row is read before the number is checked
  let pi := pinInfoAt beyond pin
  let r :=
    if pin.toNat ≥ pininfoSize ∨ pi.muxregMask = 0 then
      { r with printed := r.printed ++ [(canNotInitialize, pin)] }
    else r
  -- also after the message
  let r := r.store (syscfgPinmux pi.muxreg) (r.load (syscfgPinmux pi.muxreg) &&& pi.muxregMask)
  let r := r.store (syscfgPinmux pi.muxreg) (r.load (syscfgPinmux pi.muxreg) ||| pi.muxregMode)
  syscfgLock r

/-- `gpio_init_outpin`. -/
def gpioInitOutpin (pin : Word) (r : Registers) : Registers :=
  let r := syscfgUnlock r
  let r := gpioInitPin beyond pin r
  -- clear pin data and set direction
  let r := r.store (gpioClr pin) (gpioMask pin)
  let r := r.store (gpioDir pin) (r.load (gpioDir pin) &&& ~~~gpioMask pin)
  syscfgLock r

/-- `gpio_init_inpin`. -/
def gpioInitInpin (pin : Word) (r : Registers) : Registers :=
  let r := syscfgUnlock r
  let r := gpioInitPin beyond pin r
  -- set direction
  let r := r.store (gpioDir pin) (r.load (gpioDir pin) ||| gpioMask pin)
  syscfgLock r

/-- `gpio_set`. -/
def gpioSet (pin value : Word) (r : Registers) : Registers :=
  let r := gpioInitOutpin beyond pin r
  -- the clear register lies behind the set register
  r.store (gpioBank pin + 8 + (if value = 0 then (1 : Word) else 0) * 4) (gpioMask pin)

/-- `gpio_get`: the value it returns and the registers it leaves. -/
def gpioGet (pin : Word) (r : Registers) : Word × Registers :=
  let r := gpioInitInpin beyond pin r
  (if r.load (gpioBank pin + 0x10) &&& gpioMask pin ≠ 0 then 1 else 0, r)

/-! ### The fields of a pin -/

/-- The field of a listed pin in its multiplexing register. -/
def muxField (r : Registers) (pin : GpioPin) : BitVec 4 :=
  (r.word (syscfgPinmux pin.info.muxreg)).extractLsb' (4 * pin.info.nibble) 4

/-- The mode that the table lists for the pin. -/
def GpioPin.mode (pin : GpioPin) : BitVec 4 :=
  pin.info.muxregMode.extractLsb' (4 * pin.info.nibble) 4

/-- The direction bit of a pin; it is set for an input. -/
def direction (r : Registers) (pin : Word) : Bool :=
  (r.word (gpioDir pin)).getLsbD (pin.toNat % 32)

/-- The bit of a pin in the output latch. -/
def latchBit (r : Registers) (pin : Word) : Bool :=
  (r.latch (pin.toNat / 32)).getLsbD (pin.toNat % 32)

/-- The kick registers hold the lock values. -/
def Locked (r : Registers) : Prop :=
  r.word (syscfgKick 0) = KICK0_LOCK ∧ r.word (syscfgKick 1) = KICK1_LOCK

instance (r : Registers) : Decidable (Locked r) :=
  inferInstanceAs (Decidable (_ ∧ _))

/-! ### Addresses -/

section Addresses

variable {a n m : Word}

theorem toNat_syscfgPinmux (h : n.toNat < numMuxregs) :
    (syscfgPinmux n).toNat = 0x01C14120 + 4 * n.toNat := by
  have hn : n.toNat < 20 := h
  simp only [syscfgPinmux, SYSCFG0_BASE]
  bv_omega

theorem toNat_ushiftRight_five : (n >>> 5).toNat = n.toNat / 32 := by
  rw [BitVec.toNat_ushiftRight, Nat.shiftRight_eq_div_pow]

/-- The address of a bank, also for the rows of the table behind the GPIO pins. -/
theorem toNat_gpioBank_of_lt (hn : n.toNat < 160) :
    (gpioBank n).toNat = 0x01E26010 + n.toNat / 32 * 0x28 := by
  have hbase : (GPIO_BASE + 0x10).toNat = 0x01E26010 := by decide
  have hstep : ((n >>> 5) * 0x28).toNat = n.toNat / 32 * 0x28 := by
    rw [BitVec.toNat_mul, toNat_ushiftRight_five]
    exact Nat.mod_eq_of_lt (show n.toNat / 32 * 0x28 < 2 ^ 32 by omega)
  rw [gpioBank, BitVec.toNat_add_of_lt (by omega), hbase, hstep]

theorem toNat_gpioBank (h : n.toNat < numGpioPins) :
    (gpioBank n).toNat = 0x01E26010 + n.toNat / 32 * 0x28 :=
  toNat_gpioBank_of_lt (lt_trans h (by decide))

/-- The addresses below the banks are those of plain registers. -/
theorem port_of_lt (h : a.toNat < 0x01E26010) : port a = .plain := by
  have hbase : (GPIO_BASE + 0x10).toNat = 0x01E26010 := by decide
  have hout : ¬ (a - (GPIO_BASE + 0x10)).toNat < numBanks * 0x28 := by
    rw [BitVec.toNat_sub, hbase, numBanks]
    omega
  simp only [port, if_neg hout]

/-- What a register of a bank is. -/
theorem port_gpioBank (h : n.toNat < numGpioPins) {k : Nat} (hk : k < 0x28) :
    port (gpioBank n + BitVec.ofNat 32 k) =
      if k = 0x08 then .setData (n.toNat / 32)
      else if k = 0x0C then .clrData (n.toNat / 32)
      else .plain := by
  have hn : n.toNat < 144 := h
  have hbank := toNat_gpioBank h
  have hbase : (GPIO_BASE + 0x10).toNat = 0x01E26010 := by decide
  have hsub : (gpioBank n + BitVec.ofNat 32 k - (GPIO_BASE + 0x10)).toNat =
      n.toNat / 32 * 0x28 + k := by
    have hadd : (gpioBank n + BitVec.ofNat 32 k).toNat = (gpioBank n).toNat + k := by
      rw [BitVec.toNat_add, BitVec.toNat_ofNat]
      omega
    rw [BitVec.toNat_sub, hadd, hbank, hbase]
    omega
  have hin : n.toNat / 32 * 0x28 + k < numBanks * 0x28 := by
    rw [numBanks]
    omega
  have hmod : (n.toNat / 32 * 0x28 + k) % 0x28 = k := by omega
  have hdiv : (n.toNat / 32 * 0x28 + k) / 0x28 = n.toNat / 32 := by omega
  simp only [port, hsub, if_pos hin, hmod, hdiv]

theorem port_gpioDir (h : n.toNat < numGpioPins) : port (gpioDir n) = .plain :=
  port_gpioBank h (k := 0x00) (by omega)

theorem port_gpioClr (h : n.toNat < numGpioPins) : port (gpioClr n) = .clrData (n.toNat / 32) :=
  port_gpioBank h (k := 0x0C) (by omega)

theorem port_syscfgPinmux (h : n.toNat < numMuxregs) : port (syscfgPinmux n) = .plain := by
  have hn : n.toNat < 20 := h
  refine port_of_lt ?_
  rw [toNat_syscfgPinmux h]
  omega

theorem toNat_gpioDir (h : n.toNat < numGpioPins) :
    (gpioDir n).toNat = 0x01E26010 + n.toNat / 32 * 0x28 := by
  rw [gpioDir, show gpioBank n + 0x00 = gpioBank n from BitVec.add_zero _, toNat_gpioBank h]

theorem syscfgPinmux_ne_gpioDir (hn : n.toNat < numMuxregs) (hm : m.toNat < numGpioPins) :
    syscfgPinmux n ≠ gpioDir m := by
  have hlt : n.toNat < 20 := hn
  intro heq
  have hval := congrArg BitVec.toNat heq
  rw [toNat_syscfgPinmux hn, toNat_gpioDir hm] at hval
  omega

theorem syscfgPinmux_inj (hn : n.toNat < numMuxregs) (hm : m.toNat < numMuxregs)
    (heq : syscfgPinmux n = syscfgPinmux m) : n = m := by
  have hval := congrArg BitVec.toNat heq
  rw [toNat_syscfgPinmux hn, toNat_syscfgPinmux hm] at hval
  exact BitVec.eq_of_toNat_eq (by omega)

/-- Pins with the same direction register are in the same bank. -/
theorem bank_eq_of_gpioDir_eq (hn : n.toNat < numGpioPins) (hm : m.toNat < numGpioPins)
    (heq : gpioDir n = gpioDir m) : n.toNat / 32 = m.toNat / 32 := by
  have hval := congrArg BitVec.toNat heq
  rw [toNat_gpioDir hn, toNat_gpioDir hm] at hval
  omega

theorem gpioDir_congr (h : n.toNat / 32 = m.toNat / 32) : gpioDir n = gpioDir m := by
  have hshift : n >>> 5 = m >>> 5 :=
    BitVec.eq_of_toNat_eq (by rw [toNat_ushiftRight_five, toNat_ushiftRight_five, h])
  simp only [gpioDir, gpioBank, hshift]

/-- The kick registers are none of the others. -/
theorem syscfgKick_ne {k : Word} (hk : k = 0 ∨ k = 1) :
    port (syscfgKick k) = .plain ∧
    (∀ n, n.toNat < numMuxregs → syscfgPinmux n ≠ syscfgKick k) ∧
    ∀ n, n.toNat < numGpioPins → gpioDir n ≠ syscfgKick k := by
  have hval : (syscfgKick k).toNat < 0x01C14120 := by
    rcases hk with rfl | rfl <;> decide
  refine ⟨port_of_lt (by omega), fun n hn heq => ?_, fun n hn heq => ?_⟩
  · rw [← heq, toNat_syscfgPinmux hn] at hval
    omega
  · rw [← heq, toNat_gpioDir hn] at hval
    omega

/-- The mask of a pin is its bit in the registers of its bank. -/
theorem getLsbD_gpioMask {i : Nat} (hi : i < 32) :
    (gpioMask n).getLsbD i = decide (i = n.toNat % 32) := by
  have hand : (n &&& 0x1F).toNat = n.toNat % 32 := by
    rw [BitVec.toNat_and]
    exact Nat.and_two_pow_sub_one_eq_mod n.toNat 5
  have hshift : (gpioMask n).getLsbD i = ((1 : Word) <<< (n.toNat % 32)).getLsbD i := by
    rw [gpioMask, BitVec.shiftLeft_eq', hand]
  rw [hshift, BitVec.getLsbD_shiftLeft]
  by_cases heq : i = n.toNat % 32
  · simp [← heq, hi]
  · by_cases hlt : i < n.toNat % 32
    · simp [hlt, heq]
    · have hpos : i - n.toNat % 32 ≠ 0 := by omega
      simp [heq, hpos]

end Addresses

/-! ### One write -/

section Store

variable {r : Registers} {a v : Word} {pin : GpioPin} {n m : Word}

theorem word_store (x : Word) :
    (r.store a v).word x = if port a = .plain ∧ x = a then v else r.word x := by
  unfold Registers.store
  cases port a <;> simp

theorem latch_store_plain (h : port a = .plain) : (r.store a v).latch = r.latch := by
  simp only [Registers.store, h]

theorem muxField_store (h : port a = .plain → syscfgPinmux pin.info.muxreg ≠ a) :
    muxField (r.store a v) pin = muxField r pin := by
  rw [muxField, word_store, if_neg fun hboth => h hboth.1 hboth.2, muxField]

theorem direction_store (h : port a = .plain → gpioDir n ≠ a) :
    direction (r.store a v) n = direction r n := by
  rw [direction, word_store, if_neg fun hboth => h hboth.1 hboth.2, direction]

theorem latchBit_store (h : port a = .plain) : latchBit (r.store a v) n = latchBit r n := by
  rw [latchBit, latch_store_plain h, latchBit]

theorem GpioPin.muxreg_lt (pin : GpioPin) : pin.info.muxreg.toNat < numMuxregs :=
  pin.wellFormed.2.2.2

/-- A write to a direction register only concerns the bits of its bank. -/
theorem direction_store_gpioDir (hn : n.toNat < numGpioPins) (hm : m.toNat < numGpioPins) :
    direction (r.store (gpioDir m) v) n =
      if n.toNat / 32 = m.toNat / 32 then v.getLsbD (n.toNat % 32) else direction r n := by
  rw [direction, word_store]
  by_cases hbank : n.toNat / 32 = m.toNat / 32
  · rw [if_pos ⟨port_gpioDir hm, gpioDir_congr hbank⟩, if_pos hbank]
  · rw [if_neg fun hboth => hbank (bank_eq_of_gpioDir_eq hn hm hboth.2), if_neg hbank, direction]

/-- Two pins of a bank with the same bit are the same pin. -/
theorem eq_of_bit_eq (hbank : n.toNat / 32 = m.toNat / 32) (hbit : n.toNat % 32 = m.toNat % 32) :
    n = m :=
  BitVec.eq_of_toNat_eq (by omega)

/-- Setting or clearing the bit of `m` in a register of its bank. -/
theorem getLsbD_update (hbank : n.toNat / 32 = m.toNat / 32) (w : Word) (set : Bool) :
    (if set then w ||| gpioMask m else w &&& ~~~gpioMask m).getLsbD (n.toNat % 32) =
      if n = m then set else w.getLsbD (n.toNat % 32) := by
  have hlt : n.toNat % 32 < 32 := Nat.mod_lt _ (by omega)
  have hmask : (gpioMask m).getLsbD (n.toNat % 32) = decide (n = m) := by
    rw [getLsbD_gpioMask hlt]
    exact decide_eq_decide.mpr ⟨eq_of_bit_eq hbank, fun heq => by rw [heq]⟩
  cases set
  · rw [if_neg Bool.false_ne_true, BitVec.getLsbD_and, BitVec.getLsbD_not, hmask]
    by_cases heq : n = m <;> simp [heq, hlt]
  · rw [if_pos rfl, BitVec.getLsbD_or, hmask]
    by_cases heq : n = m <;> simp [heq]

/-- Setting or clearing a direction bit. -/
theorem direction_update (hn : n.toNat < numGpioPins) (hm : m.toNat < numGpioPins) (set : Bool) :
    direction (r.store (gpioDir m) (if set then r.load (gpioDir m) ||| gpioMask m
      else r.load (gpioDir m) &&& ~~~gpioMask m)) n = if n = m then set else direction r n := by
  rw [direction_store_gpioDir hn hm]
  by_cases hbank : n.toNat / 32 = m.toNat / 32
  · rw [if_pos hbank, getLsbD_update hbank, Registers.load, direction, gpioDir_congr hbank]
  · have hne : n ≠ m := fun heq => hbank (by rw [heq])
    rw [if_neg hbank, if_neg hne]

/-- A write to the set or the clear register of the bank of `m`. -/
theorem latchBit_update {set : Bool}
    (h : port a = if set then .setData (m.toNat / 32) else .clrData (m.toNat / 32)) :
    latchBit (r.store a (gpioMask m)) n = if n = m then set else latchBit r n := by
  have hlatch : (r.store a (gpioMask m)).latch (n.toNat / 32) =
      if n.toNat / 32 = m.toNat / 32 then
        if set then r.latch (n.toNat / 32) ||| gpioMask m
        else r.latch (n.toNat / 32) &&& ~~~gpioMask m
      else r.latch (n.toNat / 32) := by
    cases set <;> simp only [Registers.store, h] <;> rfl
  rw [latchBit, hlatch, latchBit]
  by_cases hbank : n.toNat / 32 = m.toNat / 32
  · rw [if_pos hbank, getLsbD_update hbank]
  · have hne : n ≠ m := fun heq => hbank (by rw [heq])
    rw [if_neg hbank, if_neg hne]

/-- The two writes of `gpio_init_pin` put the mode of the pin into its field, and
leave all other fields as they are. -/
theorem muxField_update (p q : GpioPin) :
    let a := syscfgPinmux p.info.muxreg
    let r₁ := r.store a (r.load a &&& p.info.muxregMask)
    muxField (r₁.store a (r₁.load a ||| p.info.muxregMode)) q =
      if q = p then p.mode else muxField r q := by
  intro a r₁
  obtain ⟨hnibble, hmask, hmode, hreg⟩ := p.wellFormed
  have hport : port a = .plain := port_syscfgPinmux hreg
  have hword : (r₁.store a (r₁.load a ||| p.info.muxregMode)).word a =
      (r.word a &&& p.info.muxregMask) ||| p.info.muxregMode := by
    simp only [r₁, Registers.load, word_store, hport, true_and, if_true]
  by_cases heq : q = p
  · subst heq
    rw [if_pos rfl, muxField, hword, GpioPin.mode]
    apply BitVec.eq_of_getLsbD_eq
    intro i hi
    have hin : 4 * q.info.nibble + i < 32 := by omega
    have hfield : (4 * q.info.nibble + i) / 4 = q.info.nibble := by omega
    simp [hi, q.wellFormed.getLsbD_mask hin, hfield]
  · rw [if_neg heq]
    by_cases hsame : q.info.muxreg = p.info.muxreg
    · -- another field of the same register
      have hne : q.info.nibble ≠ p.info.nibble := (GpioPin.field_ne heq).resolve_left (not_not.mpr hsame)
      rw [muxField, muxField, hsame, hword]
      apply BitVec.eq_of_getLsbD_eq
      intro i hi
      have hin : 4 * q.info.nibble + i < 32 := by
        have hq := q.wellFormed.1
        omega
      have hout : (4 * q.info.nibble + i) / 4 ≠ p.info.nibble := by omega
      have hmaskBit := p.wellFormed.getLsbD_mask hin
      have hmodeBit := p.wellFormed.getLsbD_mode hin hout
      simp [hi, hmaskBit, hmodeBit, hout, a]
    · have hne : syscfgPinmux q.info.muxreg ≠ a := fun hadd =>
        hsame (syscfgPinmux_inj q.muxreg_lt hreg hadd)
      rw [muxField_store fun _ => hne, muxField_store fun _ => hne]

end Store

/-! ### One call -/

/-- The fields of all pins are the same. -/
structure SameFields (r r' : Registers) : Prop where
  mux : ∀ q, muxField r' q = muxField r q
  direction : ∀ n, n.toNat < numGpioPins → direction r' n = direction r n
  latch : ∀ n, latchBit r' n = latchBit r n

/-- What a call for a pin does to the fields: that of the pin holds its mode, its
direction and latch bit are as given, or as before where none is given, and
those of the other pins are as before. -/
structure Touches (pin : GpioPin) (dir out : Option Bool) (r r' : Registers) : Prop where
  mux : ∀ q, muxField r' q = if q = pin then pin.mode else muxField r q
  direction : ∀ n, n.toNat < numGpioPins →
    direction r' n = if n = pin.number then dir.getD (direction r n) else direction r n
  latch : ∀ n, n.toNat < numGpioPins →
    latchBit r' n = if n = pin.number then out.getD (latchBit r n) else latchBit r n

section Calls

variable {r r₁ r₂ r₃ : Registers} {pin : GpioPin} {dir out : Option Bool}

theorem SameFields.trans (h : SameFields r r₁) (h' : SameFields r₁ r₂) : SameFields r r₂ where
  mux := fun q => (h'.mux q).trans (h.mux q)
  direction := fun n hn => (h'.direction n hn).trans (h.direction n hn)
  latch := fun n => (h'.latch n).trans (h.latch n)

theorem sameFields_store_kick {k : Word} (hk : k = 0 ∨ k = 1) (v : Word) :
    SameFields r (r.store (syscfgKick k) v) := by
  obtain ⟨hport, hmux, hdir⟩ := syscfgKick_ne hk
  exact ⟨fun q => muxField_store fun _ => hmux _ q.muxreg_lt,
    fun n hn => direction_store fun _ => hdir n hn, fun n => latchBit_store hport⟩

theorem sameFields_unlock : SameFields r (syscfgUnlock r) :=
  (sameFields_store_kick (Or.inl rfl) _).trans (sameFields_store_kick (Or.inr rfl) _)

theorem sameFields_lock : SameFields r (syscfgLock r) :=
  (sameFields_store_kick (Or.inl rfl) _).trans (sameFields_store_kick (Or.inr rfl) _)

theorem locked_lock : Locked (syscfgLock r) := by
  have hport : port (syscfgKick 0) = .plain ∧ port (syscfgKick 1) = .plain := by decide
  have hne : syscfgKick 0 ≠ syscfgKick 1 := by decide
  constructor
  · rw [syscfgLock, word_store, if_neg fun hboth => hne hboth.2, word_store, if_pos ⟨hport.1, rfl⟩]
  · rw [syscfgLock, word_store, if_pos ⟨hport.2, rfl⟩]

/-- What happens between an unlock and a lock. -/
theorem Touches.locking (h : Touches pin dir out (syscfgUnlock r) r₁) :
    Touches pin dir out r (syscfgLock r₁) where
  mux := fun q => by
    rw [sameFields_lock.mux, h.mux, sameFields_unlock.mux]
  direction := fun n hn => by
    rw [sameFields_lock.direction n hn, h.direction n hn, sameFields_unlock.direction n hn]
  latch := fun n hn => by
    rw [sameFields_lock.latch, h.latch n hn, sameFields_unlock.latch]

/-- A write to the direction register of the pin. -/
theorem Touches.update_direction (h : Touches pin dir out r r₁) (set : Bool) :
    Touches pin (some set) out r (r₁.store (gpioDir pin.number) (if set then
      r₁.load (gpioDir pin.number) ||| gpioMask pin.number
      else r₁.load (gpioDir pin.number) &&& ~~~gpioMask pin.number)) where
  mux := fun q => by
    rw [muxField_store fun _ => syscfgPinmux_ne_gpioDir q.muxreg_lt pin.isGpio, h.mux]
  direction := fun n hn => by
    rw [direction_update hn pin.isGpio, h.direction n hn]
    split <;> rfl
  latch := fun n hn => by
    rw [latchBit_store (port_gpioDir pin.isGpio), h.latch n hn]

/-- A write to the set or the clear register of the bank of the pin. -/
theorem Touches.update_latch (h : Touches pin dir out r r₁) {a : Word} {set : Bool}
    (hport : port a = if set then .setData (pin.number.toNat / 32)
      else .clrData (pin.number.toNat / 32)) :
    Touches pin dir (some set) r (r₁.store a (gpioMask pin.number)) := by
  have hdata : port a ≠ .plain := by
    rw [hport]
    cases set <;> simp
  refine ⟨fun q => ?_, fun n hn => ?_, fun n hn => ?_⟩
  · rw [muxField_store fun hplain => absurd hplain hdata, h.mux]
  · rw [direction_store fun hplain => absurd hplain hdata, h.direction n hn]
  · rw [latchBit_update hport, h.latch n hn]
    split <;> rfl

variable {beyond : Nat → PinInfo}

theorem pinInfoAt_number (pin : GpioPin) : pinInfoAt beyond pin.number = pin.info := by
  have hlt : pin.number.toNat < pininfo.length := pin.isGpio.trans numGpioPins_lt_pininfoSize
  rw [pinInfoAt, GpioPin.info, tableRow, List.getD_eq_getElem?_getD, List.getD_eq_getElem?_getD,
    List.getElem?_eq_getElem hlt, Option.getD_some, Option.getD_some]

theorem touches_gpioInitPin (pin : GpioPin) (r : Registers) :
    Touches pin none none r (gpioInitPin beyond pin.number r) := by
  have hlisted : ¬ (pin.number.toNat ≥ pininfoSize ∨ pin.info.muxregMask = 0) := by
    have hsize := numGpioPins_lt_pininfoSize
    have hgpio := pin.isGpio
    rintro (hge | hzero)
    · omega
    · exact pin.listed hzero
  have hport : port (syscfgPinmux pin.info.muxreg) = .plain := port_syscfgPinmux pin.muxreg_lt
  simp only [gpioInitPin, pinInfoAt_number, if_neg hlisted]
  refine Touches.locking ⟨fun q => muxField_update pin q, fun n hn => ?_, fun n hn => ?_⟩
  · have hne : gpioDir n ≠ syscfgPinmux pin.info.muxreg :=
      (syscfgPinmux_ne_gpioDir pin.muxreg_lt hn).symm
    rw [direction_store fun _ => hne, direction_store fun _ => hne, Option.getD_none, ite_self]
  · rw [latchBit_store hport, latchBit_store hport, Option.getD_none, ite_self]

theorem touches_gpioInitOutpin (pin : GpioPin) (r : Registers) :
    Touches pin (some false) (some false) r (gpioInitOutpin beyond pin.number r) :=
  (((touches_gpioInitPin pin _).update_latch (port_gpioClr pin.isGpio)).update_direction
    false).locking

theorem touches_gpioInitInpin (pin : GpioPin) (r : Registers) :
    Touches pin (some true) none r (gpioInitInpin beyond pin.number r) :=
  ((touches_gpioInitPin pin _).update_direction true).locking

/-- The address that `gpio_set` writes to. -/
theorem port_gpioSet (pin : GpioPin) (value : Word) :
    port (gpioBank pin.number + 8 + (if value = 0 then (1 : Word) else 0) * 4) =
      if value != 0 then .setData (pin.number.toNat / 32)
      else .clrData (pin.number.toNat / 32) := by
  by_cases hzero : value = 0
  · rw [if_pos hzero, if_neg (by simp [hzero]), BitVec.add_assoc]
    exact port_gpioBank pin.isGpio (k := 0x0C) (by omega)
  · rw [if_neg hzero, if_pos (by simpa using hzero), BitVec.add_assoc]
    exact port_gpioBank pin.isGpio (k := 0x08) (by omega)

theorem touches_gpioSet (pin : GpioPin) (value : Word) (r : Registers) :
    Touches pin (some false) (some (value != 0)) r (gpioSet beyond pin.number value r) :=
  (touches_gpioInitOutpin pin r).update_latch (port_gpioSet pin value)

theorem locked_gpioSet (pin : GpioPin) (value : Word) (r : Registers) :
    Locked (gpioSet beyond pin.number value r) := by
  have hdata : port (gpioBank pin.number + 8 + (if value = 0 then (1 : Word) else 0) * 4) ≠
      .plain := by
    rw [port_gpioSet]
    split <;> simp
  have hinit : Locked (gpioInitOutpin beyond pin.number r) := locked_lock
  simpa only [Locked, gpioSet, word_store, hdata, false_and, if_false] using hinit

end Calls

/-! ### Runs -/

/-- The calls of the driver for listed pins. -/
inductive Call where
  | initPin (pin : GpioPin)
  | initOutpin (pin : GpioPin)
  | initInpin (pin : GpioPin)
  | set (pin : GpioPin) (value : Word)
  | get (pin : GpioPin)

def step (beyond : Nat → PinInfo) (r : Registers) : Call → Registers
  | .initPin pin => gpioInitPin beyond pin.number r
  | .initOutpin pin => gpioInitOutpin beyond pin.number r
  | .initInpin pin => gpioInitInpin beyond pin.number r
  | .set pin value => gpioSet beyond pin.number value r
  | .get pin => (gpioGet beyond pin.number r).2

/-- The pin a call is for. -/
def Call.pin : Call → GpioPin
  | .initPin pin | .initOutpin pin | .initInpin pin | .set pin _ | .get pin => pin

/-- The direction bit that a call fixes. -/
def Call.direction : Call → Option Bool
  | .initPin _ => none
  | .initOutpin _ | .set _ _ => some false
  | .initInpin _ | .get _ => some true

/-- The latch bit that a call fixes. -/
def Call.latch : Call → Option Bool
  | .initOutpin _ => some false
  | .set _ value => some (value != 0)
  | .initPin _ | .initInpin _ | .get _ => none

/-- The calls for the pin `n`. -/
def callsFor (n : Word) (calls : List Call) : List Call :=
  calls.filter fun call => n = call.pin.number

section Runs

variable {beyond : Nat → PinInfo}

theorem touches_step (r : Registers) (call : Call) :
    Touches call.pin call.direction call.latch r (step beyond r call) := by
  cases call with
  | initPin pin => exact touches_gpioInitPin pin r
  | initOutpin pin => exact touches_gpioInitOutpin pin r
  | initInpin pin => exact touches_gpioInitInpin pin r
  | set pin value => exact touches_gpioSet pin value r
  | get pin => exact touches_gpioInitInpin pin r

theorem locked_step (r : Registers) (call : Call) : Locked (step beyond r call) := by
  cases call with
  | initPin pin => exact locked_lock
  | initOutpin pin => exact locked_lock
  | initInpin pin => exact locked_lock
  | set pin value => exact locked_gpioSet pin value r
  | get pin => exact locked_lock

/-- The field of a pin is only changed by calls for it, which put its mode there. -/
theorem muxField_run (r : Registers) (calls : List Call) (pin : GpioPin) :
    muxField (run (step beyond) r calls) pin =
      if callsFor pin.number calls = [] then muxField r pin else pin.mode := by
  have hstep : ∀ r call, muxField (step beyond r call) pin =
      if pin.number = call.pin.number then (some pin.mode).getD (muxField r pin)
      else muxField r pin := by
    intro r call
    rw [(touches_step r call).mux]
    by_cases heq : pin.number = call.pin.number
    · have hpin : pin = call.pin := GpioPin.ext_number heq
      rw [if_pos hpin, if_pos heq, ← hpin, Option.getD_some]
    · rw [if_neg fun hpin => heq (congrArg GpioPin.number hpin), if_neg heq]
  rw [run_lastFixed (fun r => muxField r pin) (fun _ => some pin.mode) hstep]
  unfold callsFor
  rcases List.eq_nil_or_concat (calls.filter fun call => pin.number = call.pin.number) with
    hnil | ⟨init, last, hlast⟩
  · rw [hnil]
    rfl
  · rw [hlast, if_neg (by simp)]
    simp [lastFixed]

/-- **Pins are independent.**  Whatever the registers hold at first: after any
calls for listed pins, the field, the direction and the latch bit of each pin
only depend on the calls for this pin, and the kick registers are locked after
every call. -/
theorem gpio_pins_independent (beyond : Nat → PinInfo) (r : Registers) (calls : List Call) :
    let after := run (step beyond) r calls
    (∀ pin : GpioPin, muxField after pin =
      if callsFor pin.number calls = [] then muxField r pin else pin.mode) ∧
    (∀ n : Word, n.toNat < numGpioPins →
      direction after n =
        (lastFixed Call.direction (callsFor n calls)).getD (direction r n) ∧
      latchBit after n = (lastFixed Call.latch (callsFor n calls)).getD (latchBit r n)) ∧
    EveryStep (step beyond) (fun r call => Locked (step beyond r call)) r calls := by
  refine ⟨muxField_run r calls, fun n hn => ⟨?_, ?_⟩, ?_⟩
  · exact run_lastFixed (fun r => direction r n) Call.direction
      (fun r call => (touches_step r call).direction n hn) r calls
  · exact run_lastFixed (fun r => latchBit r n) Call.latch
      (fun r call => (touches_step r call).latch n hn) r calls
  · exact everyStep_iff_split.mpr fun _ call _ _ => locked_step _ call

end Runs

end Drivers
end Ninjastorms
