import Ninjastorms.Drivers.Gpio

/-!
# Pins without multiplexing information

`gpio_init_pin` reads the row of a pin before it checks its number, prints a
message when there is no row or the row has no mask, and goes on.  Here the read
is checked: behind the table it stops the call with the index
(`Entry.call_eq`).

The rows without a mask are all zero, so that such a pin clears register 0
(`pinmux_gpioInitPin`).  `unlistedPin_keeps_pinmux_iff` says when this does no
harm, for all functions of the driver.
-/

namespace Ninjastorms
namespace Drivers

/-! ### The functions with a checked read -/

/-- `pininfo[pin]`; a read behind the table is an error. -/
def readPinInfo (pin : Word) : Except Nat PinInfo :=
  match pininfo[pin.toNat]? with
  | some pi => .ok pi
  | none => .error pin.toNat

/-- `gpio_init_pin`. -/
def gpioInitPinIn (pin : Word) (r : Registers) : Except Nat Registers := do
  let r := syscfgUnlock r
  let pi ← readPinInfo pin
  let r :=
    if pin.toNat ≥ pininfoSize ∨ pi.muxregMask = 0 then
      { r with printed := r.printed ++ [(canNotInitialize, pin)] }
    else r
  let r := r.store (syscfgPinmux pi.muxreg) (r.load (syscfgPinmux pi.muxreg) &&& pi.muxregMask)
  let r := r.store (syscfgPinmux pi.muxreg) (r.load (syscfgPinmux pi.muxreg) ||| pi.muxregMode)
  return syscfgLock r

/-- `gpio_init_outpin`. -/
def gpioInitOutpinIn (pin : Word) (r : Registers) : Except Nat Registers := do
  let r := syscfgUnlock r
  let r ← gpioInitPinIn pin r
  let r := r.store (gpioClr pin) (gpioMask pin)
  let r := r.store (gpioDir pin) (r.load (gpioDir pin) &&& ~~~gpioMask pin)
  return syscfgLock r

/-- `gpio_init_inpin`. -/
def gpioInitInpinIn (pin : Word) (r : Registers) : Except Nat Registers := do
  let r := syscfgUnlock r
  let r ← gpioInitPinIn pin r
  let r := r.store (gpioDir pin) (r.load (gpioDir pin) ||| gpioMask pin)
  return syscfgLock r

/-- `gpio_set`. -/
def gpioSetIn (pin value : Word) (r : Registers) : Except Nat Registers := do
  let r ← gpioInitOutpinIn pin r
  return r.store (gpioBank pin + 8 + (if value = 0 then (1 : Word) else 0) * 4) (gpioMask pin)

/-- `gpio_get`. -/
def gpioGetIn (pin : Word) (r : Registers) : Except Nat (Word × Registers) := do
  let r ← gpioInitInpinIn pin r
  return (if r.load (gpioBank pin + 0x10) &&& gpioMask pin ≠ 0 then 1 else 0, r)

/-- The functions of the driver. -/
inductive Entry where
  | initPin
  | initOutpin
  | initInpin
  | set (value : Word)
  | get

/-- A call, up to the registers that it leaves. -/
def Entry.call (pin : Word) (r : Registers) : Entry → Except Nat Registers
  | .initPin => gpioInitPinIn pin r
  | .initOutpin => gpioInitOutpinIn pin r
  | .initInpin => gpioInitInpinIn pin r
  | .set value => gpioSetIn pin value r
  | .get => Prod.snd <$> gpioGetIn pin r

/-- The call of `gpio_init_pin` in it. -/
def Entry.muxStep (pin : Word) (r : Registers) : Entry → Except Nat Registers
  | .initPin => gpioInitPinIn pin r
  | .initOutpin | .initInpin | .set _ | .get => gpioInitPinIn pin (syscfgUnlock r)

/-- The call as it is in `Gpio`, where any row may lie behind the table. -/
def Entry.run (beyond : Nat → PinInfo) (pin : Word) (r : Registers) : Entry → Registers
  | .initPin => gpioInitPin beyond pin r
  | .initOutpin => gpioInitOutpin beyond pin r
  | .initInpin => gpioInitInpin beyond pin r
  | .set value => gpioSet beyond pin value r
  | .get => (gpioGet beyond pin r).2

/-! ### What is promised -/

/-- The pin has no row in the table, or one without a mask. -/
def NoMuxInfo (pin : Word) : Prop :=
  pininfoSize ≤ pin.toNat ∨ (tableRow pin.toNat).muxregMask = 0

instance (pin : Word) : Decidable (NoMuxInfo pin) :=
  inferInstanceAs (Decidable (_ ∨ _))

/-- No row outside the table has been read, and all multiplexing registers are as
they were. -/
def KeepsPinmux (r : Registers) (result : Except Nat Registers) : Prop :=
  ∃ r', result = .ok r' ∧
    ∀ n, n.toNat < numMuxregs → r'.word (syscfgPinmux n) = r.word (syscfgPinmux n)

/-! ### The table -/

section Table

variable {pin : Word} {r : Registers}

theorem row_of_no_mask : ∀ n < pininfoSize, (tableRow n).muxregMask = 0 →
    tableRow n = ⟨0, 0, 0⟩ := by
  decide +kernel

theorem readPinInfo_of_lt (h : pin.toNat < pininfoSize) :
    readPinInfo pin = .ok (tableRow pin.toNat) := by
  have hget : pininfo[pin.toNat]? = some (tableRow pin.toNat) := by
    rw [tableRow, List.getD_eq_getElem?_getD, List.getElem?_eq_getElem h, Option.getD_some]
  rw [readPinInfo, hget]

theorem readPinInfo_of_ge (h : pininfoSize ≤ pin.toNat) : readPinInfo pin = .error pin.toNat := by
  rw [readPinInfo, List.getElem?_eq_none h]

theorem pinInfoAt_of_lt (beyond : Nat → PinInfo) (h : pin.toNat < pininfoSize) :
    pinInfoAt beyond pin = tableRow pin.toNat := by
  rw [pinInfoAt, tableRow, List.getD_eq_getElem?_getD, List.getD_eq_getElem?_getD,
    List.getElem?_eq_getElem h, Option.getD_some, Option.getD_some]

/-- With a row, the checked function is the plain one. -/
theorem gpioInitPinIn_of_lt (beyond : Nat → PinInfo) (h : pin.toNat < pininfoSize)
    (r : Registers) : gpioInitPinIn pin r = .ok (gpioInitPin beyond pin r) := by
  rw [gpioInitPinIn, gpioInitPin, pinInfoAt_of_lt beyond h]
  simp only [readPinInfo_of_lt h]
  rfl

theorem gpioInitPinIn_of_ge (h : pininfoSize ≤ pin.toNat) (r : Registers) :
    gpioInitPinIn pin r = .error pin.toNat := by
  unfold gpioInitPinIn
  simp only [readPinInfo_of_ge h]
  rfl

/-- **The checked functions.**  Inside the table they are those of `Gpio`; behind it,
each of them makes the read that is not allowed. -/
theorem Entry.call_eq (beyond : Nat → PinInfo) (entry : Entry) (pin : Word) (r : Registers) :
    entry.call pin r =
      if pin.toNat < pininfoSize then .ok (entry.run beyond pin r) else .error pin.toNat := by
  by_cases h : pin.toNat < pininfoSize
  · rw [if_pos h]
    have hpin := gpioInitPinIn_of_lt beyond h
    cases entry with
    | initPin => exact hpin r
    | initOutpin => simp only [Entry.call, gpioInitOutpinIn, hpin]; rfl
    | initInpin => simp only [Entry.call, gpioInitInpinIn, hpin]; rfl
    | set value => simp only [Entry.call, gpioSetIn, gpioInitOutpinIn, hpin]; rfl
    | get => simp only [Entry.call, gpioGetIn, gpioInitInpinIn, hpin]; rfl
  · rw [if_neg h]
    have hpin := gpioInitPinIn_of_ge (Nat.not_lt.mp h)
    cases entry with
    | initPin => exact hpin r
    | initOutpin => simp only [Entry.call, gpioInitOutpinIn, hpin]; rfl
    | initInpin => simp only [Entry.call, gpioInitInpinIn, hpin]; rfl
    | set value => simp only [Entry.call, gpioSetIn, gpioInitOutpinIn, hpin]; rfl
    | get => simp only [Entry.call, gpioGetIn, gpioInitInpinIn, hpin]; rfl

end Table

/-! ### The multiplexing registers -/

section Pinmux

variable {pin n : Word} {r : Registers} {beyond : Nat → PinInfo}

theorem pinmux_store {a v : Word} (h : syscfgPinmux n ≠ a) :
    (r.store a v).word (syscfgPinmux n) = r.word (syscfgPinmux n) := by
  rw [word_store, if_neg fun hboth => h hboth.2]

theorem pinmux_unlock (hn : n.toNat < numMuxregs) :
    (syscfgUnlock r).word (syscfgPinmux n) = r.word (syscfgPinmux n) := by
  rw [syscfgUnlock, pinmux_store ((syscfgKick_ne (Or.inr rfl)).2.1 n hn),
    pinmux_store ((syscfgKick_ne (Or.inl rfl)).2.1 n hn)]

theorem pinmux_lock (hn : n.toNat < numMuxregs) :
    (syscfgLock r).word (syscfgPinmux n) = r.word (syscfgPinmux n) := by
  rw [syscfgLock, pinmux_store ((syscfgKick_ne (Or.inr rfl)).2.1 n hn),
    pinmux_store ((syscfgKick_ne (Or.inl rfl)).2.1 n hn)]

/-- The registers of a bank are none of the multiplexing registers. -/
theorem syscfgPinmux_ne_bank (hn : n.toNat < numMuxregs) (hpin : pin.toNat < pininfoSize) {k : Nat}
    (hk : k < 0x28) : syscfgPinmux n ≠ gpioBank pin + BitVec.ofNat 32 k := by
  have hsize : pininfoSize = 154 := by decide +kernel
  have hreg : n.toNat < 20 := hn
  have hbank := toNat_gpioBank_of_lt (n := pin) (by omega)
  have hadd : (gpioBank pin + BitVec.ofNat 32 k).toNat = (gpioBank pin).toNat + k := by
    rw [BitVec.toNat_add, BitVec.toNat_ofNat]
    omega
  intro heq
  have hval := congrArg BitVec.toNat heq
  rw [toNat_syscfgPinmux hn, hadd, hbank] at hval
  omega

/-- **The damage.**  A pin whose row has no mask clears register 0, with the fields of
pins that do have one. -/
theorem pinmux_gpioInitPin (hpin : pin.toNat < pininfoSize)
    (hmask : (tableRow pin.toNat).muxregMask = 0) (hn : n.toNat < numMuxregs) :
    (gpioInitPin beyond pin r).word (syscfgPinmux n) =
      if n = 0 then 0 else r.word (syscfgPinmux n) := by
  have hzero : (0 : Word).toNat < numMuxregs := by decide
  have hport : port (syscfgPinmux 0) = .plain := port_syscfgPinmux hzero
  have hrow : pinInfoAt beyond pin = ⟨0, 0, 0⟩ := by
    rw [pinInfoAt_of_lt beyond hpin]
    exact row_of_no_mask _ hpin hmask
  simp only [gpioInitPin, hrow, or_true, if_true]
  rw [pinmux_lock hn]
  by_cases heq : n = 0
  · subst heq
    rw [if_pos rfl, word_store, if_pos ⟨hport, rfl⟩, Registers.load, word_store,
      if_pos ⟨hport, rfl⟩]
    exact BitVec.or_zero.trans BitVec.and_zero
  · have hne : syscfgPinmux n ≠ syscfgPinmux 0 := fun hsame =>
      heq (syscfgPinmux_inj hn hzero hsame)
    rw [if_neg heq, pinmux_store hne, pinmux_store hne]
    exact pinmux_unlock hn

/-- The rest of a call leaves the multiplexing registers alone. -/
theorem pinmux_run (hpin : pin.toNat < pininfoSize)
    (hmask : (tableRow pin.toNat).muxregMask = 0) (hn : n.toNat < numMuxregs) (entry : Entry) :
    (entry.run beyond pin r).word (syscfgPinmux n) =
      if n = 0 then 0 else r.word (syscfgPinmux n) := by
  have hdir : syscfgPinmux n ≠ gpioDir pin := syscfgPinmux_ne_bank hn hpin (k := 0x00) (by omega)
  have hclr : syscfgPinmux n ≠ gpioClr pin := syscfgPinmux_ne_bank hn hpin (k := 0x0C) (by omega)
  have hout : (gpioInitOutpin beyond pin r).word (syscfgPinmux n) =
      if n = 0 then 0 else r.word (syscfgPinmux n) := by
    rw [gpioInitOutpin, pinmux_lock hn, pinmux_store hdir, pinmux_store hclr,
      pinmux_gpioInitPin hpin hmask hn, pinmux_unlock hn]
  have hinp : (gpioInitInpin beyond pin r).word (syscfgPinmux n) =
      if n = 0 then 0 else r.word (syscfgPinmux n) := by
    rw [gpioInitInpin, pinmux_lock hn, pinmux_store hdir, pinmux_gpioInitPin hpin hmask hn,
      pinmux_unlock hn]
  cases entry with
  | initPin => exact pinmux_gpioInitPin hpin hmask hn
  | initOutpin => exact hout
  | initInpin => exact hinp
  | set value =>
      have hset : syscfgPinmux n ≠
          gpioBank pin + 8 + (if value = 0 then (1 : Word) else 0) * 4 := by
        rw [BitVec.add_assoc]
        by_cases hvalue : value = 0
        · rw [if_pos hvalue]
          exact syscfgPinmux_ne_bank hn hpin (k := 0x0C) (by omega)
        · rw [if_neg hvalue]
          exact syscfgPinmux_ne_bank hn hpin (k := 0x08) (by omega)
      exact (pinmux_store hset).trans hout
  | get => exact hinp

/-- What clears register 0, unless it reads behind the table, does no harm exactly if
there is a row and the register is clear already. -/
theorem keepsPinmux_iff {result : Except Nat Registers} (hpin : NoMuxInfo pin)
    (hbehind : pininfoSize ≤ pin.toNat → result = .error pin.toNat)
    (hrow : pin.toNat < pininfoSize → (tableRow pin.toNat).muxregMask = 0 → ∃ r', result = .ok r' ∧
      ∀ n, n.toNat < numMuxregs →
        r'.word (syscfgPinmux n) = if n = 0 then 0 else r.word (syscfgPinmux n)) :
    KeepsPinmux r result ↔ pin.toNat < pininfoSize ∧ r.word (syscfgPinmux 0) = 0 := by
  by_cases hlt : pin.toNat < pininfoSize
  · have hmask := hpin.resolve_left (Nat.not_le.mpr hlt)
    obtain ⟨r', hresult, hword⟩ := hrow hlt hmask
    constructor
    · rintro ⟨r'', hresult', hkeep⟩
      obtain rfl := Except.ok.inj (hresult.symm.trans hresult')
      have hzero : (0 : Word).toNat < numMuxregs := by decide
      refine ⟨hlt, ?_⟩
      rw [← hkeep 0 hzero, hword 0 hzero, if_pos rfl]
    · rintro ⟨-, hclear⟩
      refine ⟨r', hresult, fun n hn => ?_⟩
      rw [hword n hn]
      split
      · rename_i hn0
        rw [hn0, hclear]
      · rfl
  · constructor
    · rintro ⟨r', hresult, -⟩
      rw [hbehind (Nat.not_lt.mp hlt)] at hresult
      cases hresult
    · exact fun h => absurd h.1 hlt

theorem muxStep_of_ge (h : pininfoSize ≤ pin.toNat) (entry : Entry) :
    entry.muxStep pin r = .error pin.toNat := by
  cases entry with
  | initPin => exact gpioInitPinIn_of_ge h r
  | _ => exact gpioInitPinIn_of_ge h (syscfgUnlock r)

theorem pinmux_muxStep (hpin : pin.toNat < pininfoSize)
    (hmask : (tableRow pin.toNat).muxregMask = 0) (entry : Entry) :
    ∃ r', entry.muxStep pin r = .ok r' ∧ ∀ n, n.toNat < numMuxregs →
      r'.word (syscfgPinmux n) = if n = 0 then 0 else r.word (syscfgPinmux n) := by
  have hstep := gpioInitPinIn_of_lt (fun _ => ⟨0, 0, 0⟩) hpin
  cases entry with
  | initPin => exact ⟨_, hstep r, fun n hn => pinmux_gpioInitPin hpin hmask hn⟩
  | _ =>
      refine ⟨_, hstep (syscfgUnlock r), fun n hn => ?_⟩
      rw [pinmux_gpioInitPin hpin hmask hn, pinmux_unlock hn]

end Pinmux

/-- **Pins without information.**  For every such pin, every function of the driver
and all contents of the registers: the mux step, and the whole call, leave the
multiplexing registers alone and stay in the table exactly if the pin has a row
and register 0 is clear already. -/
theorem unlistedPin_keeps_pinmux_iff (pin : Word) (hpin : NoMuxInfo pin) (entry : Entry)
    (r : Registers) :
    (KeepsPinmux r (entry.muxStep pin r) ↔
      pin.toNat < pininfoSize ∧ r.word (syscfgPinmux 0) = 0) ∧
    (KeepsPinmux r (entry.call pin r) ↔
      pin.toNat < pininfoSize ∧ r.word (syscfgPinmux 0) = 0) := by
  constructor
  · exact keepsPinmux_iff hpin (fun h => muxStep_of_ge h entry)
      fun hlt hmask => pinmux_muxStep hlt hmask entry
  · refine keepsPinmux_iff hpin (fun h => ?_) fun hlt hmask => ?_
    · rw [entry.call_eq (fun _ => ⟨0, 0, 0⟩), if_neg (Nat.not_lt.mpr h)]
    · refine ⟨entry.run (fun _ => ⟨0, 0, 0⟩) pin r, ?_, fun n hn => pinmux_run hlt hmask hn entry⟩
      rw [entry.call_eq (fun _ => ⟨0, 0, 0⟩), if_pos hlt]

/-- The registers when the mode of pin 11 is selected. -/
def pin11Selected : Registers where
  word := fun a => if a = syscfgPinmux 0 then 0x00080000 else 0
  latch := fun _ => 0
  printed := []

theorem unlistedPin_keeps_pinmux_iff_zero :
    (KeepsPinmux pin11Selected (Entry.initPin.muxStep 0 pin11Selected) ↔
      (0 : Word).toNat < pininfoSize ∧ pin11Selected.word (syscfgPinmux 0) = 0) ∧
    (KeepsPinmux pin11Selected (Entry.initPin.call 0 pin11Selected) ↔
      (0 : Word).toNat < pininfoSize ∧ pin11Selected.word (syscfgPinmux 0) = 0) :=
  unlistedPin_keeps_pinmux_iff 0 (Or.inr (by decide)) .initPin pin11Selected

/-- `gpio_init_pin(0)`: pin 11 loses its function. -/
theorem pin0_clears_pinmux :
    NoMuxInfo 0 ∧ ¬ KeepsPinmux pin11Selected (Entry.initPin.muxStep 0 pin11Selected) := by
  have hpin : NoMuxInfo 0 := Or.inr (by decide)
  refine ⟨hpin, fun hkeep => ?_⟩
  have hiff := keepsPinmux_iff (r := pin11Selected) hpin (fun h => muxStep_of_ge h .initPin)
    fun hlt hmask => pinmux_muxStep hlt hmask .initPin
  exact absurd (hiff.mp hkeep).2 (by decide)

end Drivers
end Ninjastorms
