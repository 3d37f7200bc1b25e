import Ninjastorms.Drivers.Gpio
import Ninjastorms.Lib.Simulation

/-!
# LEDs, motors, sensors and buttons

`kernel/drivers/led.c`, `motor.c`, `sensor.c` and `button.c` on top of the GPIO
driver.  Each has a table of pins, a constructor that configures them, and
functions that set or read them.  A pin in a table is a listed one by its type
(`GpioPin`), so that none of the calls prints the message of `gpio_init_pin`.

What the brick shows is the `Panel`: two bits for an LED and for the bridge of a
motor, one for the light of a sensor.  `devices_show_panel` says that after the
constructors, in any order, every run of calls does to the panel what the calls
say, and that the pins stay configured.
-/

namespace Ninjastorms
namespace Drivers
namespace Devices

open Lib.Runs Lib.Simulation

/-! ### The tables -/

/-- A pin with a row of its own in `pininfo`. -/
def listedPin (b o : Word)
    (h : (gpioPin b o).toNat < numGpioPins ∧ (tableRow (gpioPin b o).toNat).muxregMask ≠ 0) :
    GpioPin :=
  ⟨gpioPin b o, h.1, h.2⟩

/-- `led_info`. -/
structure LedInfo where
  pin1 : GpioPin
  pin2 : GpioPin

/-- `leds`: `LED_LEFT` and `LED_RIGHT`. -/
def leds : Fin 2 → LedInfo
  | 0 => ⟨listedPin 6 13 (by decide), listedPin 6 7 (by decide)⟩
  | 1 => ⟨listedPin 6 12 (by decide), listedPin 6 14 (by decide)⟩

/-- `motor_port_info`; the channels of the converter are not used. -/
structure MotorPortInfo where
  pin1 : GpioPin
  pin2 : GpioPin
  pin5w : GpioPin
  pin5r : GpioPin
  pin6 : GpioPin

/-- `ports` of `motor.c`. -/
def motorPorts : Fin 4 → MotorPortInfo
  | 0 => ⟨listedPin 3 15 (by decide), listedPin 3 6 (by decide), listedPin 5 4 (by decide),
      listedPin 5 11 (by decide), listedPin 0 4 (by decide)⟩
  | 1 => ⟨listedPin 0 3 (by decide), listedPin 2 1 (by decide), listedPin 2 5 (by decide),
      listedPin 5 8 (by decide), listedPin 2 9 (by decide)⟩
  | 2 => ⟨listedPin 6 8 (by decide), listedPin 5 9 (by decide), listedPin 3 8 (by decide),
      listedPin 5 13 (by decide), listedPin 3 14 (by decide)⟩
  | 3 => ⟨listedPin 5 10 (by decide), listedPin 5 3 (by decide), listedPin 5 15 (by decide),
      listedPin 6 9 (by decide), listedPin 2 8 (by decide)⟩

/-- `sensor_port_info`, without the channels of the converter. -/
structure SensorPortInfo where
  pin1 : GpioPin
  pin2 : GpioPin
  pin5 : GpioPin
  pin6 : GpioPin
  buffer : GpioPin

/-- `ports` of `sensor.c`. -/
def sensorPorts : Fin 4 → SensorPortInfo
  | 0 => ⟨listedPin 8 10 (by decide), listedPin 2 2 (by decide), listedPin 0 2 (by decide),
      listedPin 0 15 (by decide), listedPin 8 11 (by decide)⟩
  | 1 => ⟨listedPin 8 12 (by decide), listedPin 8 15 (by decide), listedPin 0 14 (by decide),
      listedPin 0 13 (by decide), listedPin 8 14 (by decide)⟩
  | 2 => ⟨listedPin 8 9 (by decide), listedPin 7 11 (by decide), listedPin 0 12 (by decide),
      listedPin 1 14 (by decide), listedPin 7 9 (by decide)⟩
  | 3 => ⟨listedPin 6 4 (by decide), listedPin 7 8 (by decide), listedPin 0 1 (by decide),
      listedPin 1 15 (by decide), listedPin 7 10 (by decide)⟩

/-- There are buttons. -/
local instance button_neZero : NeZero 6 := ⟨by decide⟩

/-- `buttons`. -/
def buttons : Fin 6 → GpioPin
  | 0 => listedPin 6 6 (by decide)
  | 1 => listedPin 7 12 (by decide)
  | 2 => listedPin 7 15 (by decide)
  | 3 => listedPin 7 14 (by decide)
  | 4 => listedPin 1 13 (by decide)
  | 5 => listedPin 6 10 (by decide)

/-! ### The functions -/

/-- The indices of `leds`. -/
def sides : List (Fin 2) :=
  [0, 1]

/-- The indices of the tables `ports`, in the order of the loops over them. -/
def ports : List (Fin 4) :=
  [0, 1, 2, 3]

/-- `LED_LEFT` and `LED_RIGHT`. -/
def LED_LEFT : Word := 0x01

def LED_RIGHT : Word := 0x02

/-- `motor_state`; every other value stands for `MOTOR_OFF` as well. -/
def MOTOR_BACKWARD : Word := 0x00

def MOTOR_OFF : Word := 0x01

def MOTOR_FORWARD : Word := 0x02

/-- `SYSCFG1_BASE`. -/
def SYSCFG1_BASE : Word := 0x01E2C000

variable (beyond : Nat → PinInfo)

/-- `led_set`. -/
def ledSet (led color : Word) (r : Registers) : Registers :=
  let r :=
    if led &&& LED_LEFT ≠ 0 then
      let r := gpioSet beyond (leds 0).pin1.number (color &&& 1) r
      gpioSet beyond (leds 0).pin2.number ((color &&& 2) >>> 1) r
    else r
  if led &&& LED_RIGHT ≠ 0 then
    let r := gpioSet beyond (leds 1).pin1.number (color &&& 1) r
    gpioSet beyond (leds 1).pin2.number ((color &&& 2) >>> 1) r
  else r

/-- `led_init`. -/
def ledInit (r : Registers) : Registers :=
  let r := gpioInitOutpin beyond (leds 0).pin1.number r
  let r := gpioInitOutpin beyond (leds 0).pin2.number r
  let r := gpioInitOutpin beyond (leds 1).pin1.number r
  gpioInitOutpin beyond (leds 1).pin2.number r

/-- `motor_set_state`. -/
def motorSetState (port : Fin 4) (state : Word) (r : Registers) : Registers :=
  if state = MOTOR_FORWARD then
    let r := gpioSet beyond (motorPorts port).pin1.number 1 r
    gpioSet beyond (motorPorts port).pin2.number 0 r
  else if state = MOTOR_BACKWARD then
    let r := gpioSet beyond (motorPorts port).pin1.number 0 r
    gpioSet beyond (motorPorts port).pin2.number 1 r
  else
    let r := gpioSet beyond (motorPorts port).pin1.number 0 r
    gpioSet beyond (motorPorts port).pin2.number 0 r

/-- `*address &= mask` for a register of the pull resistors. -/
def pullMask (address mask : Word) (r : Registers) : Registers :=
  r.store address (r.load address &&& mask)

/-- `motor_init`. -/
def motorInit (r : Registers) : Registers :=
  let r := ports.foldl (fun r i =>
    let r := gpioInitOutpin beyond (motorPorts i).pin1.number r
    let r := gpioInitOutpin beyond (motorPorts i).pin2.number r
    let r := gpioInitOutpin beyond (motorPorts i).pin5w.number r
    let r := gpioInitOutpin beyond (motorPorts i).pin5r.number r
    gpioInitOutpin beyond (motorPorts i).pin6.number r) r
  pullMask (SYSCFG1_BASE + 0x0C) (~~~0xFFFFFFFF) r

/-- `button_get_state`: what it returns and the registers it leaves. -/
def buttonGetState (button : Fin 6) (r : Registers) : Word × Registers :=
  gpioGet beyond (buttons button).number r

/-- `button_init`. -/
def buttonInit (r : Registers) : Registers :=
  let r := gpioInitInpin beyond (buttons 0).number r
  let r := gpioInitInpin beyond (buttons 1).number r
  let r := gpioInitInpin beyond (buttons 2).number r
  let r := gpioInitInpin beyond (buttons 3).number r
  let r := gpioInitInpin beyond (buttons 4).number r
  let r := gpioInitInpin beyond (buttons 5).number r
  pullMask (SYSCFG1_BASE + 0x10) 0xFDFFFFFF r

/-- `sensor_light_get`; `adc` is what `adc_get` returns. -/
def sensorLightGet (adc : HalfWord) (port : Fin 4) (r : Registers) : HalfWord × Registers :=
  (adc, gpioSet beyond (sensorPorts port).pin5.number 1 r)

/-- `sensor_init`. -/
def sensorInit (r : Registers) : Registers :=
  let r := ports.foldl (fun r i =>
    let r := gpioInitInpin beyond (sensorPorts i).pin1.number r
    let r := gpioInitInpin beyond (sensorPorts i).pin2.number r
    let r := gpioInitOutpin beyond (sensorPorts i).pin5.number r
    let r := gpioInitPin beyond (sensorPorts i).pin6.number r
    gpioInitPin beyond (sensorPorts i).buffer.number r) r
  pullMask (SYSCFG1_BASE + 0x0C) (~~~0xFFFFFFFF) r

/-- A constructor of one of the drivers. -/
inductive Constructor where
  | led
  | motor
  | button
  | sensor
  deriving DecidableEq

def construct (r : Registers) : Constructor → Registers
  | .led => ledInit beyond r
  | .motor => motorInit beyond r
  | .button => buttonInit beyond r
  | .sensor => sensorInit beyond r

/-- A call of one of the drivers. -/
inductive DeviceCall where
  | ledSet (led color : Word)
  | motorSetState (port : Fin 4) (state : Word)
  | buttonGetState (button : Fin 6)
  | sensorLightGet (adc : HalfWord) (port : Fin 4)

def deviceStep (r : Registers) : DeviceCall → Registers
  | .ledSet led color => ledSet beyond led color r
  | .motorSetState port state => motorSetState beyond port state r
  | .buttonGetState button => (buttonGetState beyond button r).2
  | .sensorLightGet adc port => (sensorLightGet beyond adc port r).2

/-! ### What is promised -/

/-- What the brick shows: the two bits of an LED and of the bridge of a motor, and
the light of a sensor. -/
@[ext] structure Panel where
  led : Fin 2 → Bool × Bool
  motor : Fin 4 → Bool × Bool
  light : Fin 4 → Bool

/-- Everything is off. -/
def dark : Panel where
  led := fun _ => (false, false)
  motor := fun _ => (false, false)
  light := fun _ => false

/-- The bit of `led_id` for an LED. -/
def ledMask : Fin 2 → Word
  | 0 => LED_LEFT
  | 1 => LED_RIGHT

/-- What a call says about the panel. -/
def panelStep (p : Panel) : DeviceCall → Panel
  | .ledSet led color =>
      { p with
        led := fun side =>
          if led &&& ledMask side ≠ 0 then (color.getLsbD 0, color.getLsbD 1) else p.led side }
  | .motorSetState port state =>
      let bridge := (decide (state = MOTOR_FORWARD), decide (state = MOTOR_BACKWARD))
      { p with motor := Function.update p.motor port bridge }
  | .buttonGetState _ => p
  | .sensorLightGet _ port => { p with light := Function.update p.light port true }

/-- A pin of one of the tables. -/
inductive DevicePin where
  | ledPin1 (side : Fin 2)
  | ledPin2 (side : Fin 2)
  | motorPin1 (port : Fin 4)
  | motorPin2 (port : Fin 4)
  | motorPin5w (port : Fin 4)
  | motorPin5r (port : Fin 4)
  | motorPin6 (port : Fin 4)
  | sensorPin1 (port : Fin 4)
  | sensorPin2 (port : Fin 4)
  | sensorPin5 (port : Fin 4)
  | sensorPin6 (port : Fin 4)
  | sensorBuffer (port : Fin 4)
  | button (b : Fin 6)
  deriving DecidableEq

def DevicePin.pin : DevicePin → GpioPin
  | ledPin1 side => (leds side).pin1
  | ledPin2 side => (leds side).pin2
  | motorPin1 port => (motorPorts port).pin1
  | motorPin2 port => (motorPorts port).pin2
  | motorPin5w port => (motorPorts port).pin5w
  | motorPin5r port => (motorPorts port).pin5r
  | motorPin6 port => (motorPorts port).pin6
  | sensorPin1 port => (sensorPorts port).pin1
  | sensorPin2 port => (sensorPorts port).pin2
  | sensorPin5 port => (sensorPorts port).pin5
  | sensorPin6 port => (sensorPorts port).pin6
  | sensorBuffer port => (sensorPorts port).buffer
  | button b => buttons b

/-- The panel of the registers. -/
def panelOf (r : Registers) : Panel where
  led := fun side =>
    (latchBit r (DevicePin.ledPin1 side).pin.number, latchBit r (DevicePin.ledPin2 side).pin.number)
  motor := fun port =>
    (latchBit r (DevicePin.motorPin1 port).pin.number,
      latchBit r (DevicePin.motorPin2 port).pin.number)
  light := fun port => latchBit r (DevicePin.sensorPin5 port).pin.number

/-- The constructor that configures a pin. -/
def DevicePin.owner : DevicePin → Constructor
  | ledPin1 _ | ledPin2 _ => .led
  | motorPin1 _ | motorPin2 _ | motorPin5w _ | motorPin5r _ | motorPin6 _ => .motor
  | sensorPin1 _ | sensorPin2 _ | sensorPin5 _ | sensorPin6 _ | sensorBuffer _ => .sensor
  | .button _ => .button

/-- The direction of a pin, where the constructor gives one: it is set for an input. -/
def DevicePin.input : DevicePin → Option Bool
  | sensorPin1 _ | sensorPin2 _ | .button _ => some true
  | sensorPin6 _ | sensorBuffer _ => none
  | _ => some false

/-- The pin selects its GPIO function, and has its direction. -/
def Configured (r : Registers) (d : DevicePin) : Prop :=
  muxField r d.pin = d.pin.mode ∧
    ∀ input, d.input = some input → direction r d.pin.number = input

/-! ### The pins -/

def devicePins : List DevicePin :=
  sides.flatMap (fun side => [.ledPin1 side, .ledPin2 side]) ++
  ports.flatMap (fun port => [.motorPin1 port, .motorPin2 port, .motorPin5w port,
    .motorPin5r port, .motorPin6 port, .sensorPin1 port, .sensorPin2 port, .sensorPin5 port,
    .sensorPin6 port, .sensorBuffer port]) ++
  [.button 0, .button 1, .button 2, .button 3, .button 4, .button 5]

theorem mem_devicePins (d : DevicePin) : d ∈ devicePins := by
  have hsides : ∀ side : Fin 2, side = 0 ∨ side = 1 := by decide
  have hports : ∀ port : Fin 4, port ∈ ports := by decide
  have hbuttons : ∀ b : Fin 6, b = 0 ∨ b = 1 ∨ b = 2 ∨ b = 3 ∨ b = 4 ∨ b = 5 := by decide
  cases d <;> simp [devicePins, sides, hsides, hports, hbuttons]

/-- No two entries of the tables are the same pin. -/
theorem numbers_nodup : (devicePins.map fun d => d.pin.number).Nodup := by
  decide +kernel

theorem number_inj {d e : DevicePin} : d.pin.number = e.pin.number ↔ d = e := by
  constructor
  · exact List.inj_on_of_nodup_map numbers_nodup (mem_devicePins d) (mem_devicePins e)
  · rintro rfl
    rfl

/-! ### Calls of the GPIO driver -/

/-- The calls of the GPIO driver that a call makes. -/
def DeviceCall.calls : DeviceCall → List Call
  | .ledSet led color => sides.flatMap fun side =>
      if led &&& ledMask side ≠ 0 then
        [.set (DevicePin.ledPin1 side).pin (color &&& 1),
          .set (DevicePin.ledPin2 side).pin ((color &&& 2) >>> 1)]
      else []
  | .motorSetState port state =>
      [.set (DevicePin.motorPin1 port).pin (if state = MOTOR_FORWARD then 1 else 0),
        .set (DevicePin.motorPin2 port).pin (if state = MOTOR_BACKWARD then 1 else 0)]
  | .buttonGetState button => [.get (DevicePin.button button).pin]
  | .sensorLightGet _ port => [.set (DevicePin.sensorPin5 port).pin 1]

/-- The calls of the GPIO driver that a constructor makes. -/
def Constructor.calls : Constructor → List Call
  | .led => sides.flatMap fun side =>
      [.initOutpin (DevicePin.ledPin1 side).pin, .initOutpin (DevicePin.ledPin2 side).pin]
  | .motor => ports.flatMap fun port =>
      [.initOutpin (DevicePin.motorPin1 port).pin, .initOutpin (DevicePin.motorPin2 port).pin,
        .initOutpin (DevicePin.motorPin5w port).pin, .initOutpin (DevicePin.motorPin5r port).pin,
        .initOutpin (DevicePin.motorPin6 port).pin]
  | .button => [0, 1, 2, 3, 4, 5].map fun button => .initInpin (DevicePin.button button).pin
  | .sensor => ports.flatMap fun port =>
      [.initInpin (DevicePin.sensorPin1 port).pin, .initInpin (DevicePin.sensorPin2 port).pin,
        .initOutpin (DevicePin.sensorPin5 port).pin, .initPin (DevicePin.sensorPin6 port).pin,
        .initPin (DevicePin.sensorBuffer port).pin]

/-- The write to a pull register at the end of a constructor. -/
def Constructor.pull : Constructor → Option (Word × Word)
  | .led => none
  | .motor | .sensor => some (SYSCFG1_BASE + 0x0C, ~~~0xFFFFFFFF)
  | .button => some (SYSCFG1_BASE + 0x10, 0xFDFFFFFF)

section Calls

variable {beyond : Nat → PinInfo} {r : Registers}

theorem construct_eq (k : Constructor) :
    construct beyond r k =
      k.pull.elim id (fun w => pullMask w.1 w.2) (run (step beyond) r k.calls) := by
  cases k with
  | led =>
      simp only [construct, ledInit, Constructor.calls, Constructor.pull, sides, List.flatMap_cons,
        List.flatMap_nil, List.cons_append, List.nil_append, run_cons, run_nil, step, DevicePin.pin,
        Option.elim_none, id]
  | motor =>
      simp only [construct, motorInit, Constructor.calls, Constructor.pull, run_flatMap, run_cons,
        run_nil, step, DevicePin.pin, Option.elim_some]
  | button =>
      simp only [construct, buttonInit, Constructor.calls, Constructor.pull, List.map_cons,
        List.map_nil, run_cons, run_nil, step, DevicePin.pin, Option.elim_some]
  | sensor =>
      simp only [construct, sensorInit, Constructor.calls, Constructor.pull, run_flatMap, run_cons,
        run_nil, step, DevicePin.pin, Option.elim_some]

theorem deviceStep_eq (c : DeviceCall) :
    deviceStep beyond r c = run (step beyond) r c.calls := by
  cases c with
  | ledSet led color =>
      have hcalls : (DeviceCall.ledSet led color).calls =
          (if led &&& LED_LEFT ≠ 0 then [.set (leds 0).pin1 (color &&& 1),
            .set (leds 0).pin2 ((color &&& 2) >>> 1)] else []) ++
          ((if led &&& LED_RIGHT ≠ 0 then [.set (leds 1).pin1 (color &&& 1),
            .set (leds 1).pin2 ((color &&& 2) >>> 1)] else []) ++ []) := rfl
      rw [hcalls, List.append_nil, run_append]
      simp only [deviceStep, ledSet, apply_ite (run (step beyond) _), run_cons, run_nil, step]
  | motorSetState port state =>
      show motorSetState beyond port state r = _
      unfold motorSetState
      by_cases hforward : state = MOTOR_FORWARD
      · subst hforward
        rfl
      · rw [if_neg hforward]
        by_cases hbackward : state = MOTOR_BACKWARD
        · subst hbackward
          rfl
        · rw [if_neg hbackward, DeviceCall.calls, if_neg hforward, if_neg hbackward]
          rfl
  | buttonGetState button => rfl
  | sensorLightGet adc port => rfl

/-- `gpio_set` of a pin, seen at another one. -/
theorem latchBit_set (d e : DevicePin) (v : Word) :
    latchBit (step beyond r (.set e.pin v)) d.pin.number =
      if d = e then v != 0 else latchBit r d.pin.number := by
  have htouches : latchBit (step beyond r (.set e.pin v)) d.pin.number = _ :=
    (touches_gpioSet e.pin v r).latch d.pin.number d.pin.isGpio
  by_cases heq : d = e
  · rw [if_pos heq]
    rw [if_pos (number_inj.mpr heq)] at htouches
    exact htouches
  · rw [if_neg heq]
    rw [if_neg fun hnumber => heq (number_inj.mp hnumber)] at htouches
    exact htouches

theorem color_bits (color : Word) :
    (color &&& 1 != 0) = color.getLsbD 0 ∧ ((color &&& 2) >>> 1 != 0) = color.getLsbD 1 := by
  have hsecond : (color &&& 2) >>> 1 = (color >>> 1) &&& 1 := by
    apply BitVec.eq_of_getLsbD_eq
    intro i hi
    have htwo : (2 : Word).getLsbD (1 + i) = (1 : Word).getLsbD i := by
      rw [show (2 : Word) = (1 : Word) <<< 1 from rfl, BitVec.getLsbD_shiftLeft]
      have hfirst : i = 0 → 1 + i < 32 := by omega
      simpa using hfirst
    simp only [BitVec.getLsbD_ushiftRight, BitVec.getLsbD_and, htwo]
  have hbit : ∀ v : Word, (v &&& 1 != 0) = v.getLsbD 0 := by
    intro v
    have hone : v &&& 1 = (BitVec.ofBool (v.getLsbD 0)).setWidth 32 :=
      BitVec.and_one_eq_setWidth_ofBool_getLsbD
    rw [hone]
    cases v.getLsbD 0
    · rfl
    · rfl
  refine ⟨hbit color, ?_⟩
  rw [hsecond, hbit, BitVec.getLsbD_ushiftRight]

/-- The part of `led_set` for one LED. -/
theorem panelOf_side (led color : Word) (side : Fin 2) (r : Registers) :
    panelOf (run (step beyond) r (if led &&& ledMask side ≠ 0 then
        [.set (DevicePin.ledPin1 side).pin (color &&& 1),
          .set (DevicePin.ledPin2 side).pin ((color &&& 2) >>> 1)]
      else [])) =
      { panelOf r with
        led := Function.update (panelOf r).led side (if led &&& ledMask side ≠ 0 then
          (color.getLsbD 0, color.getLsbD 1) else (panelOf r).led side) } := by
  obtain ⟨hred, hgreen⟩ := color_bits color
  by_cases hmask : led &&& ledMask side ≠ 0
  · rw [if_pos hmask, if_pos hmask, run_cons, run_cons, run_nil]
    ext other
    · by_cases heq : other = side
      · simpa [panelOf, latchBit_set, heq] using hred
      · simp [panelOf, latchBit_set, heq]
    · by_cases heq : other = side
      · simpa [panelOf, latchBit_set, heq] using hgreen
      · simp [panelOf, latchBit_set, heq]
    · simp [panelOf, latchBit_set]
    · simp [panelOf, latchBit_set]
    · simp [panelOf, latchBit_set]
  · rw [if_neg hmask, if_neg hmask, run_nil, Function.update_eq_self]

/-- **A call does to the panel what it says.** -/
theorem panelOf_deviceStep (c : DeviceCall) :
    panelOf (deviceStep beyond r c) = panelStep (panelOf r) c := by
  rw [deviceStep_eq]
  cases c with
  | ledSet led color =>
      simp only [DeviceCall.calls, sides, List.flatMap_cons, List.flatMap_nil, List.append_nil,
        run_append, panelOf_side, panelStep]
      have hsides : ∀ side : Fin 2, side = 0 ∨ side = 1 := by decide
      congr 1
      funext side
      rcases hsides side with rfl | rfl
      · rw [Function.update_of_ne (by decide), Function.update_self]
      · rw [Function.update_self, Function.update_of_ne (by decide)]
  | motorSetState port state =>
      ext other
      · simp [DeviceCall.calls, panelOf, panelStep, latchBit_set]
      · simp [DeviceCall.calls, panelOf, panelStep, latchBit_set]
      · by_cases heq : other = port
        · by_cases hforward : state = MOTOR_FORWARD
          · simp [DeviceCall.calls, panelOf, panelStep, latchBit_set, heq, hforward]
          · simp [DeviceCall.calls, panelOf, panelStep, latchBit_set, heq, hforward]
        · simp [DeviceCall.calls, panelOf, panelStep, latchBit_set, heq]
      · by_cases heq : other = port
        · by_cases hbackward : state = MOTOR_BACKWARD
          · simp [DeviceCall.calls, panelOf, panelStep, latchBit_set, heq, hbackward]
          · simp [DeviceCall.calls, panelOf, panelStep, latchBit_set, heq, hbackward]
        · simp [DeviceCall.calls, panelOf, panelStep, latchBit_set, heq]
      · simp [DeviceCall.calls, panelOf, panelStep, latchBit_set]
  | buttonGetState button =>
      have hlatch : ∀ d : DevicePin,
          latchBit (step beyond r (.get (DevicePin.button button).pin)) d.pin.number =
            latchBit r d.pin.number := fun d =>
        ((touches_gpioInitInpin _ r).latch d.pin.number d.pin.isGpio).trans (ite_self _)
      simp only [DeviceCall.calls, run_cons, run_nil, panelOf, panelStep, hlatch]
  | sensorLightGet adc port =>
      ext other
      · simp [DeviceCall.calls, panelOf, panelStep, latchBit_set]
      · simp [DeviceCall.calls, panelOf, panelStep, latchBit_set]
      · simp [DeviceCall.calls, panelOf, panelStep, latchBit_set]
      · simp [DeviceCall.calls, panelOf, panelStep, latchBit_set]
      · by_cases heq : other = port
        · simp [DeviceCall.calls, panelOf, panelStep, latchBit_set, heq]
        · simp [DeviceCall.calls, panelOf, panelStep, latchBit_set, heq]

/-! ### The configuration of the pins -/

/-- The registers of the pull resistors are none of the others. -/
theorem sameFields_pullMask {address : Word} (haddress : address = SYSCFG1_BASE + 0x0C ∨
    address = SYSCFG1_BASE + 0x10) (mask : Word) : SameFields r (pullMask address mask r) := by
  have hval : 0x01E26100 < address.toNat := by
    rcases haddress with rfl | rfl
    · decide
    · decide
  have hport : port address = .plain := by
    rcases haddress with rfl | rfl
    · decide
    · decide
  refine ⟨fun q => muxField_store fun _ heq => ?_, fun n hn => direction_store fun _ heq => ?_,
    fun n => latchBit_store hport⟩
  · have hlt : q.info.muxreg.toNat < 20 := q.muxreg_lt
    rw [← heq, toNat_syscfgPinmux q.muxreg_lt] at hval
    omega
  · have hlt : n.toNat < 144 := hn
    rw [← heq, toNat_gpioDir hn] at hval
    omega

theorem locked_pullMask {address : Word} (haddress : address = SYSCFG1_BASE + 0x0C ∨
    address = SYSCFG1_BASE + 0x10) (mask : Word) (h : Locked r) :
    Locked (pullMask address mask r) := by
  have hne : syscfgKick 0 ≠ address ∧ syscfgKick 1 ≠ address := by
    rcases haddress with rfl | rfl
    · decide
    · decide
  constructor
  · rw [pullMask, word_store, if_neg fun hboth => hne.1 hboth.2]
    exact h.1
  · rw [pullMask, word_store, if_neg fun hboth => hne.2 hboth.2]
    exact h.2

theorem printed_store (a v : Word) : (r.store a v).printed = r.printed := by
  unfold Registers.store
  cases port a <;> rfl

theorem printed_pullMask (address mask : Word) :
    (pullMask address mask r).printed = r.printed :=
  printed_store _ _

/-- A call for a listed pin prints nothing. -/
theorem printed_step (call : Call) : (step beyond r call).printed = r.printed := by
  have hinit : ∀ (pin : GpioPin) (r : Registers),
      (gpioInitPin beyond pin.number r).printed = r.printed := by
    intro pin r
    have hlisted : ¬ (pin.number.toNat ≥ pininfoSize ∨ pin.info.muxregMask = 0) := by
      have hsize := numGpioPins_lt_pininfoSize
      have hgpio := pin.isGpio
      rintro (hge | hzero)
      · omega
      · exact pin.listed hzero
    simp only [gpioInitPin, syscfgLock, syscfgUnlock, printed_store, pinInfoAt_number,
      if_neg hlisted]
  cases call <;>
    simp only [step, gpioInitOutpin, gpioInitInpin, gpioSet, gpioGet, syscfgLock, syscfgUnlock,
      printed_store, hinit]

/-- What the calls of the driver leave in a pin. -/
theorem fields_run (beyond : Nat → PinInfo) (r : Registers) (calls : List Call) (d : DevicePin) :
    muxField (run (step beyond) r calls) d.pin =
      (if callsFor d.pin.number calls = [] then muxField r d.pin else d.pin.mode) ∧
    direction (run (step beyond) r calls) d.pin.number =
      (lastFixed Call.direction (callsFor d.pin.number calls)).getD (direction r d.pin.number) ∧
    latchBit (run (step beyond) r calls) d.pin.number =
      (lastFixed Call.latch (callsFor d.pin.number calls)).getD (latchBit r d.pin.number) :=
  ⟨muxField_run r calls d.pin,
    run_lastFixed (fun r => direction r d.pin.number) Call.direction
      (fun r call => (touches_step r call).direction d.pin.number d.pin.isGpio) r calls,
    run_lastFixed (fun r => latchBit r d.pin.number) Call.latch
      (fun r call => (touches_step r call).latch d.pin.number d.pin.isGpio) r calls⟩

/-- The constructor of a pin makes calls for it, and they give it its direction; an
output is cleared. -/
theorem owner_calls : ∀ d ∈ devicePins,
    (callsFor d.pin.number d.owner.calls).isEmpty = false ∧
    lastFixed Call.direction (callsFor d.pin.number d.owner.calls) = d.input ∧
    (d.input = some false →
      lastFixed Call.latch (callsFor d.pin.number d.owner.calls) = some false) := by
  decide +kernel

/-- The other constructors make none. -/
theorem other_calls : ∀ d ∈ devicePins, ∀ k ∈ [Constructor.led, .motor, .button, .sensor],
    k ≠ d.owner → (callsFor d.pin.number k.calls).isEmpty = true := by
  decide +kernel

theorem sameFields_construct (beyond : Nat → PinInfo) (r : Registers) (k : Constructor) :
    SameFields (run (step beyond) r k.calls) (construct beyond r k) := by
  rw [construct_eq]
  generalize run (step beyond) r k.calls = r'
  cases k with
  | led => exact ⟨fun _ => rfl, fun _ _ => rfl, fun _ => rfl⟩
  | motor => exact sameFields_pullMask (Or.inl rfl) _
  | button => exact sameFields_pullMask (Or.inr rfl) _
  | sensor => exact sameFields_pullMask (Or.inl rfl) _

theorem printed_run (beyond : Nat → PinInfo) (r : Registers) (calls : List Call) :
    (run (step beyond) r calls).printed = r.printed :=
  run_of_invariant (fun r' : Registers => r'.printed = r.printed) (fun _ => True)
    (fun _ call h _ => (printed_step call).trans h) rfl fun _ _ => trivial

theorem printed_construct (k : Constructor) : (construct beyond r k).printed = r.printed := by
  rw [construct_eq]
  refine Eq.trans ?_ (printed_run beyond r k.calls)
  generalize run (step beyond) r k.calls = r'
  cases k with
  | led => rfl
  | motor => exact printed_pullMask _ _
  | button => exact printed_pullMask _ _
  | sensor => exact printed_pullMask _ _

theorem locked_run {calls : List Call} (hne : calls ≠ []) :
    Locked (run (step beyond) r calls) := by
  rcases List.eq_nil_or_concat calls with rfl | ⟨init, last, rfl⟩
  · exact absurd rfl hne
  · rw [List.concat_eq_append, run_append]
    exact locked_step _ last

theorem locked_construct (k : Constructor) : Locked (construct beyond r k) := by
  have hne : k.calls ≠ [] := by cases k <;> simp [Constructor.calls, sides, ports]
  have hlocked : Locked (run (step beyond) r k.calls) := locked_run hne
  rw [construct_eq]
  generalize run (step beyond) r k.calls = r' at hlocked
  cases k with
  | led => exact hlocked
  | motor => exact locked_pullMask (Or.inl rfl) _ hlocked
  | button => exact locked_pullMask (Or.inr rfl) _ hlocked
  | sensor => exact locked_pullMask (Or.inl rfl) _ hlocked

/-- A pin is configured, and cleared if it is an output. -/
def Cleared (r : Registers) (d : DevicePin) : Prop :=
  Configured r d ∧ (d.input = some false → latchBit r d.pin.number = false)

/-- The fields after a constructor. -/
theorem fields_construct (beyond : Nat → PinInfo) (r : Registers) (k : Constructor) (d : DevicePin) :
    muxField (construct beyond r k) d.pin =
      (if callsFor d.pin.number k.calls = [] then muxField r d.pin else d.pin.mode) ∧
    direction (construct beyond r k) d.pin.number =
      (lastFixed Call.direction (callsFor d.pin.number k.calls)).getD (direction r d.pin.number) ∧
    latchBit (construct beyond r k) d.pin.number =
      (lastFixed Call.latch (callsFor d.pin.number k.calls)).getD (latchBit r d.pin.number) := by
  obtain ⟨hmux, hdirection, hlatch⟩ := fields_run beyond r k.calls d
  have hsame := sameFields_construct beyond r k
  exact ⟨(hsame.mux d.pin).trans hmux, (hsame.direction _ d.pin.isGpio).trans hdirection,
    (hsame.latch _).trans hlatch⟩

theorem cleared_owner (d : DevicePin) : Cleared (construct beyond r d.owner) d := by
  obtain ⟨hcalls, hinput, hout⟩ := owner_calls d (mem_devicePins d)
  obtain ⟨hmux, hdirection, hlatch⟩ := fields_construct beyond r d.owner d
  refine ⟨⟨?_, fun input hd => ?_⟩, fun hd => ?_⟩
  · rw [hmux, if_neg fun hnil => by simp [hnil] at hcalls]
  · rw [hdirection, hinput, hd, Option.getD_some]
  · rw [hlatch, hout hd, Option.getD_some]

theorem cleared_construct {d : DevicePin} (h : Cleared r d) (k : Constructor) :
    Cleared (construct beyond r k) d := by
  by_cases howner : k = d.owner
  · rw [howner]
    exact cleared_owner d
  · have hall : k ∈ [Constructor.led, .motor, .button, .sensor] := by cases k <;> simp
    have hnone := List.isEmpty_iff.mp (other_calls d (mem_devicePins d) k hall howner)
    obtain ⟨hmux, hdirection, hlatch⟩ := fields_construct beyond r k d
    rw [hnone] at hmux hdirection hlatch
    refine ⟨⟨hmux.trans h.1.1, fun input hd => hdirection.trans (h.1.2 input hd)⟩, fun hd => ?_⟩
    exact hlatch.trans (h.2 hd)

/-- After the constructors, in any order, all pins are configured and all outputs cleared. -/
theorem cleared_run {order : List Constructor} {d : DevicePin} (hmem : d.owner ∈ order) :
    Cleared (run (construct beyond) r order) d := by
  obtain ⟨before, after, rfl⟩ := List.append_of_mem hmem
  rw [run_append, run_cons]
  exact run_of_invariant (fun r => Cleared r d) (fun _ => True)
    (fun _ k h _ => cleared_construct h k) (cleared_owner d) fun _ _ => trivial

/-- A call that a driver makes: for a pin of its own table, with the direction of the pin. -/
def Proper (k : Constructor) (call : Call) : Prop :=
  ∃ e : DevicePin, call.pin = e.pin ∧ call.direction = e.input ∧ e.owner = k

/-- The driver that a call belongs to. -/
def DeviceCall.owner : DeviceCall → Constructor
  | .ledSet _ _ => .led
  | .motorSetState _ _ => .motor
  | .buttonGetState _ => .button
  | .sensorLightGet _ _ => .sensor

theorem proper_calls (c : DeviceCall) : ∀ call ∈ c.calls, Proper c.owner call := by
  cases c with
  | ledSet led color =>
      intro call hcall
      obtain ⟨side, -, hside⟩ := List.mem_flatMap.mp hcall
      split at hside
      · rcases List.mem_cons.mp hside with rfl | hsecond
        · exact ⟨.ledPin1 side, rfl, rfl, rfl⟩
        · rw [List.mem_singleton.mp hsecond]
          exact ⟨.ledPin2 side, rfl, rfl, rfl⟩
      · exact absurd hside List.not_mem_nil
  | motorSetState port state =>
      intro call hcall
      rcases List.mem_cons.mp hcall with rfl | hsecond
      · exact ⟨.motorPin1 port, rfl, rfl, rfl⟩
      · rw [List.mem_singleton.mp hsecond]
        exact ⟨.motorPin2 port, rfl, rfl, rfl⟩
  | buttonGetState b =>
      intro call hcall
      rw [List.mem_singleton.mp hcall]
      exact ⟨.button b, rfl, rfl, rfl⟩
  | sensorLightGet adc port =>
      intro call hcall
      rw [List.mem_singleton.mp hcall]
      exact ⟨.sensorPin5 port, rfl, rfl, rfl⟩

theorem configured_step {k : Constructor} {call : Call} (hproper : Proper k call) {d : DevicePin}
    (h : Configured r d) : Configured (step beyond r call) d := by
  obtain ⟨e, hpin, hdirection, -⟩ := hproper
  have htouches : Touches call.pin call.direction call.latch r (step beyond r call) :=
    touches_step r call
  rw [hpin, hdirection] at htouches
  refine ⟨?_, fun input hd => ?_⟩
  · rw [htouches.mux]
    split
    · rename_i heq
      rw [heq]
    · exact h.1
  · rw [htouches.direction _ d.pin.isGpio]
    split
    · rename_i hnumber
      rw [← number_inj.mp hnumber, hd, Option.getD_some]
    · exact h.2 input hd

theorem configured_run {k : Constructor} {calls : List Call} (hproper : ∀ call ∈ calls, Proper k call)
    {d : DevicePin} (h : Configured r d) : Configured (run (step beyond) r calls) d :=
  run_of_invariant (fun r => Configured r d) (Proper k) (fun _ _ h hproper => configured_step hproper h)
    h hproper

end Calls

/-- What holds between calls, once the constructors have run. -/
structure Running (printed : List (String × Word)) (r : Registers) : Prop where
  configured : ∀ d, Configured r d
  printed : r.printed = printed
  locked : Locked r

section Runs

variable {beyond : Nat → PinInfo} {r : Registers} {printed : List (String × Word)}

theorem panelOf_of_cleared (h : ∀ d, Cleared r d) : panelOf r = dark := by
  ext index
  · exact (h (.ledPin1 index)).2 rfl
  · exact (h (.ledPin2 index)).2 rfl
  · exact (h (.motorPin1 index)).2 rfl
  · exact (h (.motorPin2 index)).2 rfl
  · exact (h (.sensorPin5 index)).2 rfl

theorem running_construct {order : List Constructor} (hall : ∀ k, k ∈ order) :
    Running r.printed (run (construct beyond) r order) := by
  refine ⟨fun d => (cleared_run (hall d.owner)).1, ?_, ?_⟩
  · exact run_of_invariant (fun r' : Registers => r'.printed = r.printed) (fun _ => True)
      (fun _ k h _ => (printed_construct k).trans h) rfl fun _ _ => trivial
  · rcases List.eq_nil_or_concat order with rfl | ⟨init, last, rfl⟩
    · exact absurd (hall .led) List.not_mem_nil
    · rw [List.concat_eq_append, run_append]
      exact locked_construct last

theorem running_deviceStep (c : DeviceCall) (h : Running printed r) :
    Running printed (deviceStep beyond r c) := by
  rw [deviceStep_eq]
  refine ⟨fun d => configured_run (proper_calls c) (h.configured d), ?_, ?_⟩
  · rw [printed_run, h.printed]
  · by_cases hnil : c.calls = []
    · rw [hnil]
      exact h.locked
    · exact locked_run hnil

end Runs

/-- The constructors have run in this order. -/
def ready (beyond : Nat → PinInfo) (r : Registers) (order : List Constructor) : Registers :=
  run (construct beyond) r order

/-- **The brick shows what was asked for.**  Whatever the registers hold at first and
in whatever order the constructors run: after any calls of the drivers, the LEDs, the
bridges of the motors and the lights show what these calls say.  All pins select their
GPIO function and have their direction, so that no call makes a button an output; the
multiplexing is locked, and no message has been printed. -/
theorem devices_show_panel (beyond : Nat → PinInfo) (r : Registers) (order : List Constructor)
    (hall : ∀ k, k ∈ order) (calls : List DeviceCall) :
    panelOf (run (deviceStep beyond) (ready beyond r order) calls) = run panelStep dark calls ∧
    Running r.printed (run (deviceStep beyond) (ready beyond r order) calls) := by
  have hstart : panelOf (ready beyond r order) = dark :=
    panelOf_of_cleared fun d => cleared_run (hall d.owner)
  constructor
  · rw [← hstart]
    exact run_hom panelOf (fun r c => panelOf_deviceStep c) _ calls
  · exact run_of_invariant (Running r.printed) (fun _ => True)
      (fun _ c h _ => running_deviceStep c h) (running_construct hall) fun _ _ => trivial

/-- Registers of zeros, some calls, and the constructors in the order of the list. -/
theorem someCalls_show_panel :
    let r : Registers := ⟨fun _ => 0, fun _ => 0, []⟩
    let calls : List DeviceCall := [.ledSet 3 2, .motorSetState 1 MOTOR_FORWARD,
      .buttonGetState 4, .ledSet LED_LEFT 1, .motorSetState 1 MOTOR_OFF]
    let after := run (deviceStep fun _ => ⟨0, 0, 0⟩)
      (ready (fun _ => ⟨0, 0, 0⟩) r [.led, .motor, .button, .sensor]) calls
    panelOf after = run panelStep dark calls ∧ Running [] after :=
  devices_show_panel (fun _ => ⟨0, 0, 0⟩) ⟨fun _ => 0, fun _ => 0, []⟩
    [.led, .motor, .button, .sensor] (fun k => by cases k <;> decide)
    [.ledSet 3 2, .motorSetState 1 MOTOR_FORWARD, .buttonGetState 4, .ledSet LED_LEFT 1,
      .motorSetState 1 MOTOR_OFF]

/-! ### The bridge of a motor -/

/-- Both inputs of the bridge are driven. -/
def BothDriven (r : Registers) (port : Fin 4) : Prop :=
  latchBit r (DevicePin.motorPin1 port).pin.number = true ∧
    latchBit r (DevicePin.motorPin2 port).pin.number = true

instance (r : Registers) (port : Fin 4) : Decidable (BothDriven r port) :=
  inferInstanceAs (Decidable (_ ∧ _))

/-- Among the states between the calls of the GPIO driver that a call makes, both
inputs of a bridge are driven in one only: a motor that runs backward is set to run
forward, and the first pin has been set. -/
def DrivenOnlyOnReversal (beyond : Nat → PinInfo) (r : Registers) (c : DeviceCall) : Prop :=
  ∀ done, done <+: c.calls → ∀ port, BothDriven (run (step beyond) r done) port ↔
    c = .motorSetState port MOTOR_FORWARD ∧ done.length = 1 ∧
      (panelOf r).motor port = (false, true)

section Bridge

variable {beyond : Nat → PinInfo} {r : Registers}

/-- No call leaves both inputs driven. -/
theorem panelStep_not_both {p : Panel} (h : ∀ port, p.motor port ≠ (true, true)) (c : DeviceCall)
    (port : Fin 4) : (panelStep p c).motor port ≠ (true, true) := by
  cases c with
  | motorSetState other state =>
      simp only [panelStep]
      by_cases heq : port = other
      · subst heq
        rw [Function.update_self]
        intro hboth
        have hforward := of_decide_eq_true (congrArg Prod.fst hboth)
        have hbackward := of_decide_eq_true (congrArg Prod.snd hboth)
        rw [hforward] at hbackward
        exact absurd hbackward (by decide)
      · rw [Function.update_of_ne heq]
        exact h port
  | ledSet led color => exact h port
  | buttonGetState b => exact h port
  | sensorLightGet adc other => exact h port

/-- Calls for other pins leave the bridge as it is. -/
theorem bothDriven_run {calls : List Call} {port : Fin 4}
    (h : ∀ call ∈ calls, call.pin ≠ (DevicePin.motorPin1 port).pin ∧
      call.pin ≠ (DevicePin.motorPin2 port).pin) :
    BothDriven (run (step beyond) r calls) port ↔ BothDriven r port := by
  have hnone : ∀ d : DevicePin, (∀ call ∈ calls, call.pin ≠ d.pin) →
      latchBit (run (step beyond) r calls) d.pin.number = latchBit r d.pin.number := by
    intro d hd
    have hcalls : callsFor d.pin.number calls = [] := by
      refine List.filter_eq_nil_iff.mpr fun call hcall hnumber => hd call hcall ?_
      exact (GpioPin.ext_number (of_decide_eq_true hnumber)).symm
    rw [(fields_run beyond r calls d).2.2, hcalls]
    rfl
  rw [BothDriven, BothDriven, hnone _ fun call hcall => (h call hcall).1,
    hnone _ fun call hcall => (h call hcall).2]

/-- The states between the two calls that `motor_set_state` makes. -/
theorem bothDriven_motorSetState (h : ∀ port, (panelOf r).motor port ≠ (true, true))
    (other : Fin 4) (state : Word) :
    DrivenOnlyOnReversal beyond r (.motorSetState other state) := by
  intro done hdone port
  have hstart : ¬ BothDriven r port := fun hboth => h port (Prod.ext hboth.1 hboth.2)
  cases done with
  | nil => exact iff_of_false hstart fun hreversal => absurd hreversal.2.1 (by decide)
  | cons first rest =>
      obtain ⟨rfl, hrest⟩ := List.cons_prefix_cons.mp hdone
      cases rest with
      | nil =>
          rw [run_cons, run_nil, BothDriven, latchBit_set, latchBit_set]
          by_cases heq : port = other
          · subst heq
            by_cases hforward : state = MOTOR_FORWARD
            · -- the second input is still the one of before
              have hfirst : latchBit r (DevicePin.motorPin2 port).pin.number = true →
                  latchBit r (DevicePin.motorPin1 port).pin.number = false := by
                intro hsecond
                cases hlatch : latchBit r (DevicePin.motorPin1 port).pin.number with
                | false => rfl
                | true => exact absurd (Prod.ext hlatch hsecond) (h port)
              simpa [hforward, panelOf, Prod.ext_iff] using hfirst
            · simp [hforward]
          · have hne : DevicePin.motorPin1 port ≠ .motorPin1 other := by simpa using heq
            rw [if_neg hne, if_neg (by simp)]
            refine iff_of_false hstart fun hreversal => heq ?_
            exact ((DeviceCall.motorSetState.injEq _ _ _ _).mp hreversal.1).1.symm
      | cons second rest =>
          obtain ⟨rfl, hnil⟩ := List.cons_prefix_cons.mp hrest
          rw [List.prefix_nil.mp hnil]
          refine iff_of_false (fun hboth => ?_) fun hreversal => absurd hreversal.2.1 (by simp)
          have hafter : (panelOf (deviceStep beyond r (.motorSetState other state))).motor port ≠
              (true, true) := by
            rw [panelOf_deviceStep]
            exact panelStep_not_both h _ port
          rw [deviceStep_eq] at hafter
          exact hafter (Prod.ext hboth.1 hboth.2)

theorem drivenOnlyOnReversal (h : ∀ port, (panelOf r).motor port ≠ (true, true)) (c : DeviceCall) :
    DrivenOnlyOnReversal beyond r c := by
  intro done hdone port
  have hstart : ¬ BothDriven r port := fun hboth => h port (Prod.ext hboth.1 hboth.2)
  by_cases hmotor : c.owner = .motor
  · obtain ⟨other, state, rfl⟩ : ∃ other state, c = .motorSetState other state := by
      cases c with
      | motorSetState other state => exact ⟨other, state, rfl⟩
      | ledSet led color => cases hmotor
      | buttonGetState b => cases hmotor
      | sensorLightGet adc other => cases hmotor
    exact bothDriven_motorSetState h other state done hdone port
  · -- the calls are for pins of another table
    have hother : ∀ call ∈ done, call.pin ≠ (DevicePin.motorPin1 port).pin ∧
        call.pin ≠ (DevicePin.motorPin2 port).pin := by
      intro call hcall
      obtain ⟨e, hpin, -, howner⟩ := proper_calls c call (hdone.subset hcall)
      rw [← howner] at hmotor
      constructor
      · rintro hsame
        rw [hpin] at hsame
        exact hmotor (by rw [number_inj.mp (congrArg GpioPin.number hsame)]; rfl)
      · rintro hsame
        rw [hpin] at hsame
        exact hmotor (by rw [number_inj.mp (congrArg GpioPin.number hsame)]; rfl)
    rw [bothDriven_run hother]
    refine iff_of_false hstart fun hreversal => hmotor ?_
    rw [hreversal.1]
    rfl

end Bridge

/-- **A bridge is driven on both sides only while a motor is reversed** from backward
to forward, whatever the calls before were. -/
theorem bridge_driven_on_reversal (beyond : Nat → PinInfo) (r : Registers)
    (order : List Constructor) (hall : ∀ k, k ∈ order) (calls : List DeviceCall) :
    EveryStep (deviceStep beyond) (DrivenOnlyOnReversal beyond) (ready beyond r order) calls := by
  have hstart : panelOf (ready beyond r order) = dark :=
    panelOf_of_cleared fun d => cleared_run (hall d.owner)
  have hkeep : ∀ r c, (∀ port, (panelOf r).motor port ≠ (true, true)) → True →
      ∀ port, (panelOf (deviceStep beyond r c)).motor port ≠ (true, true) := by
    intro r c h _
    rw [panelOf_deviceStep]
    exact panelStep_not_both h c
  refine everyStep_of_invariant hkeep (fun r c h _ => drivenOnlyOnReversal h c) ?_
    (everyStep_true _ _)
  rw [hstart]
  exact fun _ => by simp [dark]

theorem reversedMotor_driven_on_reversal :
    EveryStep (deviceStep fun _ => ⟨0, 0, 0⟩) (DrivenOnlyOnReversal fun _ => ⟨0, 0, 0⟩)
      (ready (fun _ => ⟨0, 0, 0⟩) ⟨fun _ => 0, fun _ => 0, []⟩ [.led, .motor, .button, .sensor])
      [.motorSetState 2 MOTOR_BACKWARD, .motorSetState 2 MOTOR_FORWARD] :=
  bridge_driven_on_reversal (fun _ => ⟨0, 0, 0⟩) ⟨fun _ => 0, fun _ => 0, []⟩
    [.led, .motor, .button, .sensor] (fun k => by cases k <;> decide)
    [.motorSetState 2 MOTOR_BACKWARD, .motorSetState 2 MOTOR_FORWARD]

end Devices
end Drivers
end Ninjastorms
