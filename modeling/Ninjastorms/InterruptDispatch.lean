import Ninjastorms.ContextSwitch
import Ninjastorms.Network.ReceiveProgress

/-!
# The interrupts together

`handle_interrupt` of `kernel/interrupt.c` against the two timers and the network
card.  It reads the status of the interrupt controller once, and calls
`e1000_irq_handler`, `irq_handler_timer` and `irq_handler_clock` for the lines that it
has found raised.  A timer raises its line when it expires, and the handlers clear it
behind what they have done; what expires before that is merged into what is served.

`interrupts_accounted` says that nothing else is lost, and nothing counted twice.
`interrupts_settle` says that the handlers end, and that all is served then.
-/

namespace Ninjastorms
namespace Dispatch

open Scheduler ContextSwitch Network Lib.Runs Lib.ByteMemory

/-- A timer: its line, how often it has expired, and how often it has done so while
the line was raised already. -/
structure TimerLine where
  raised : Bool
  expired : Nat
  merged : Nat

/-- The timer expires. -/
def TimerLine.expire (t : TimerLine) : TimerLine where
  raised := true
  expired := t.expired + 1
  merged := if t.raised then t.merged + 1 else t.merged

/-- A write to the register `INTCLR` of a timer. -/
def TimerLine.clear (t : TimerLine) : TimerLine :=
  { t with raised := false }

/-- Where the processor is in `handle_interrupt`; `idle` is anywhere outside of it.
`schedule` and `clearTick` are in `irq_handler_timer`, `count` and `clearClock` in
`irq_handler_clock`. -/
inductive DispatchPc where
  | idle
  | readStatus
  | testCard (status : Word)
  | card (status : Word)
  | testTick (status : Word)
  | schedule (status : Word)
  | clearTick (status : Word)
  | testClock (status : Word)
  | count
  | clearClock
deriving DecidableEq

/-- The devices, and what their handlers work on. -/
structure Interrupts where
  card : E1000
  timer1 : TimerLine
  timer3 : TimerLine
  sched : State
  clock : DoubleWord
  pc : DispatchPc

/-- A device does something, or the processor takes an interrupt, or makes a step of
`handle_interrupt`. -/
inductive InterruptAction where
  | store (bytes : List Byte) (status : Byte)
  | raise (causes : Word)
  | expire1
  | expire3
  | interrupt
  | handler

/-- The bits of the raised lines. -/
def lineBits (card tick clock : Bool) : Word :=
  (if card then PCI3_INTBIT else 0) ||| (if tick then TIMER1_INTBIT else 0) |||
    (if clock then TIMER3_INTBIT else 0)

/-- The line of the card. -/
def Interrupts.cardRaised (s : Interrupts) : Bool :=
  s.card.intCause &&& s.card.intMask ≠ 0

/-- `PIC_IRQ_STATUS`. -/
def Interrupts.picStatus (s : Interrupts) : Word :=
  lineBits s.cardRaised s.timer1.raised s.timer3.raised

/-- One step of `handle_interrupt`. -/
def dispatchStep (s : Interrupts) : Interrupts :=
  match s.pc with
  | .idle => s
  | .readStatus => { s with pc := .testCard s.picStatus }
  | .testCard status =>
      if status &&& PCI3_INTBIT ≠ 0 then
        { s with card := e1000Step s.card .interrupt, pc := .card status }
      else { s with pc := .testTick status }
  | .card status =>
      let card := e1000Step s.card .handler
      { s with card := card, pc := if card.irq = .idle then .testTick status else .card status }
  | .testTick status =>
      if status &&& TIMER1_INTBIT ≠ 0 then { s with pc := .schedule status }
      else { s with pc := .testClock status }
  | .schedule status => { s with sched := irqHandlerTimer s.sched, pc := .clearTick status }
  | .clearTick status => { s with timer1 := s.timer1.clear, pc := .testClock status }
  | .testClock status =>
      if status &&& TIMER3_INTBIT ≠ 0 then { s with pc := .count } else { s with pc := .idle }
  | .count => { s with clock := s.clock + 1, pc := .clearClock }
  | .clearClock => { s with timer3 := s.timer3.clear, pc := .idle }

def interruptStep (s : Interrupts) : InterruptAction → Interrupts
  | .store bytes status => { s with card := e1000Step s.card (.store bytes status) }
  | .raise causes => { s with card := e1000Step s.card (.raise causes) }
  | .expire1 => { s with timer1 := s.timer1.expire }
  | .expire3 => { s with timer3 := s.timer3.expire }
  | .interrupt => if s.pc = .idle ∧ s.picStatus ≠ 0 then { s with pc := .readStatus } else s
  | .handler => dispatchStep s

/-- The state when the interrupts are enabled; the timers have just been started. -/
def enabledInterrupts (card : E1000) (sched : State) (clock : DoubleWord) : Interrupts where
  card := card
  timer1 := ⟨false, 0, 0⟩
  timer3 := ⟨false, 0, 0⟩
  sched := sched
  clock := clock
  pc := .idle

/-! ### What is promised -/

/-- `schedule` has been called, the line is not yet clear. -/
def Ticked : DispatchPc → Bool
  | .clearTick _ => true
  | _ => false

/-- The clock has been counted, the line is not yet clear. -/
def Counted : DispatchPc → Bool
  | .clearClock => true
  | _ => false

/-- Every expiration has been served or merged, but for one that waits if the line is
raised and the handler has not been there. -/
def TimerLine.Accounts (t : TimerLine) (served : Nat) (done : Bool) : Prop :=
  t.expired = served + t.merged + (t.raised && !done).toNat

/-- `schedule` has been called, and the clock counted, once for each expiration of their
timer that has not been merged and does not wait. -/
def Accounted (sched : State) (clock : DoubleWord) (s : Interrupts) : Prop :=
  ∃ ticks millis : Nat, s.sched = irqHandlerTimer^[ticks] sched ∧
    s.clock = clock + BitVec.ofNat 64 millis ∧
    s.timer1.Accounts ticks (Ticked s.pc) ∧ s.timer3.Accounts millis (Counted s.pc)

/-- Outside of the handler, whatever waits to be served has its line raised. -/
def Announced (s : Interrupts) : Prop :=
  s.pc = .idle →
    (s.timer1.raised ∨ s.timer3.raised ∨ s.card.ring.passed ≠ s.card.ring.stored) →
    s.picStatus ≠ 0

/-- The processor has something to do. -/
def InterruptWork (s : Interrupts) : InterruptAction → Prop
  | .interrupt => s.pc = .idle ∧ s.picStatus ≠ 0
  | .handler => s.pc ≠ .idle
  | _ => False

/-- Everything has been served. -/
structure Settled (sched : State) (clock : DoubleWord) (s : Interrupts) : Prop where
  idle : s.pc = .idle
  quiet : s.picStatus = 0
  sched : s.sched = irqHandlerTimer^[s.timer1.expired - s.timer1.merged] sched
  clock : s.clock = clock + BitVec.ofNat 64 (s.timer3.expired - s.timer3.merged)
  passed : s.card.ring.passed = s.card.ring.stored

/-! ### The invariant -/

/-- The handler will call `schedule`, or has, before it clears the line. -/
def TickDue : DispatchPc → Prop
  | .testCard status | .card status | .testTick status => status &&& TIMER1_INTBIT ≠ 0
  | .schedule _ | .clearTick _ => True
  | _ => False

/-- So for the clock. -/
def ClockDue : DispatchPc → Prop
  | .idle | .readStatus => False
  | .testCard status | .card status | .testTick status | .schedule status | .clearTick status
    | .testClock status => status &&& TIMER3_INTBIT ≠ 0
  | .count | .clearClock => True

/-- The processor is in `e1000_irq_handler`. -/
def InCard : DispatchPc → Bool
  | .card _ => true
  | _ => false

instance : (pc : DispatchPc) → Decidable (TickDue pc)
  | .testCard _ | .card _ | .testTick _ => inferInstanceAs (Decidable (_ ≠ _))
  | .schedule _ | .clearTick _ => isTrue trivial
  | .idle | .readStatus | .testClock _ | .count | .clearClock => isFalse id

instance : (pc : DispatchPc) → Decidable (ClockDue pc)
  | .testCard _ | .card _ | .testTick _ | .schedule _ | .clearTick _ | .testClock _ =>
      inferInstanceAs (Decidable (_ ≠ _))
  | .count | .clearClock => isTrue trivial
  | .idle | .readStatus => isFalse id

structure DispatchInv (buffers : RxBuffers) (sched : State) (clock : DoubleWord)
    (s : Interrupts) : Prop where
  card : E1000Inv buffers s.card
  inCard : s.card.irq = .idle ↔ InCard s.pc = false
  tick : TickDue s.pc → s.timer1.raised = true
  clockLine : ClockDue s.pc → s.timer3.raised = true
  accounted : Accounted sched clock s

/-! ### Lines -/

theorem lineBits_pci (card tick clock : Bool) :
    lineBits card tick clock &&& PCI3_INTBIT ≠ 0 ↔ card = true := by
  cases card <;> cases tick <;> cases clock <;> decide

theorem lineBits_timer1 (card tick clock : Bool) :
    lineBits card tick clock &&& TIMER1_INTBIT ≠ 0 ↔ tick = true := by
  cases card <;> cases tick <;> cases clock <;> decide

theorem lineBits_timer3 (card tick clock : Bool) :
    lineBits card tick clock &&& TIMER3_INTBIT ≠ 0 ↔ clock = true := by
  cases card <;> cases tick <;> cases clock <;> decide

theorem lineBits_eq_zero (card tick clock : Bool) :
    lineBits card tick clock = 0 ↔ card = false ∧ tick = false ∧ clock = false := by
  cases card <;> cases tick <;> cases clock <;> decide

section Timer

variable {t : TimerLine} {served : Nat}

/-- An expiration waits, or is merged. -/
theorem TimerLine.Accounts.expire {done : Bool} (h : t.Accounts served done)
    (hdone : done = true → t.raised = true) : t.expire.Accounts served done := by
  unfold TimerLine.Accounts TimerLine.expire at *
  cases hraised : t.raised with
  | true =>
      simp only [hraised, if_true] at h ⊢
      omega
  | false =>
      have hnot : done = false := by
        cases done with
        | false => rfl
        | true => exact absurd (hdone rfl) (by simp [hraised])
      simp only [hraised, hnot, Bool.false_and, Bool.not_false, Bool.and_self, Bool.toNat_false,
        Bool.toNat_true, Bool.false_eq_true, if_false] at h ⊢
      omega

/-- The handler serves the expiration that waits. -/
theorem TimerLine.Accounts.serve (h : t.Accounts served false) (hraised : t.raised = true) :
    t.Accounts (served + 1) true := by
  unfold TimerLine.Accounts at *
  simp only [hraised, Bool.not_false, Bool.and_self, Bool.toNat_true, Bool.not_true, Bool.and_false,
    Bool.toNat_false] at h ⊢
  omega

/-- Then it clears the line. -/
theorem TimerLine.Accounts.clear (h : t.Accounts served true) : t.clear.Accounts served false := by
  unfold TimerLine.Accounts TimerLine.clear at *
  simpa using h

end Timer

/-! ### One step -/

section Step

variable {buffers : RxBuffers} {sched : State} {clock : DoubleWord} {s : Interrupts}

theorem picStatus_timer1 (s : Interrupts) :
    s.picStatus &&& TIMER1_INTBIT ≠ 0 ↔ s.timer1.raised = true :=
  lineBits_timer1 _ _ _

theorem picStatus_timer3 (s : Interrupts) :
    s.picStatus &&& TIMER3_INTBIT ≠ 0 ↔ s.timer3.raised = true :=
  lineBits_timer3 _ _ _

theorem picStatus_card (s : Interrupts) :
    s.picStatus &&& PCI3_INTBIT ≠ 0 ↔ s.cardRaised = true :=
  lineBits_pci _ _ _

/-- A step that changes nothing but where the processor is. -/
theorem DispatchInv.setPc (h : DispatchInv buffers sched clock s) {pc : DispatchPc}
    (hcard : InCard pc = InCard s.pc) (htick : TickDue pc → s.timer1.raised = true)
    (hclock : ClockDue pc → s.timer3.raised = true) (hticked : Ticked pc = Ticked s.pc)
    (hcounted : Counted pc = Counted s.pc) :
    DispatchInv buffers sched clock { s with pc := pc } := by
  refine ⟨h.card, ?_, htick, hclock, ?_⟩
  · rw [h.inCard]
    simp only [hcard]
  · obtain ⟨ticks, millis, hsched, hclockEq, hticks, hmillis⟩ := h.accounted
    rw [← hticked] at hticks
    rw [← hcounted] at hmillis
    exact ⟨ticks, millis, hsched, hclockEq, hticks, hmillis⟩

/-- A step of the card that leaves its handler where it is. -/
theorem DispatchInv.setCard (h : DispatchInv buffers sched clock s) (a : E1000Action)
    (hirq : (e1000Step s.card a).irq = s.card.irq) :
    DispatchInv buffers sched clock { s with card := e1000Step s.card a } where
  card := e1000Inv_step a h.card
  inCard := by
    rw [hirq]
    exact h.inCard
  tick := h.tick
  clockLine := h.clockLine
  accounted := h.accounted

theorem irq_store (card : E1000) (bytes : List Byte) (status : Byte) :
    (e1000Step card (.store bytes status)).irq = card.irq := by
  simp only [e1000Step, storeFrame]
  split <;> rfl

theorem ticked_raised (h : DispatchInv buffers sched clock s) (hticked : Ticked s.pc = true) :
    s.timer1.raised = true := by
  refine h.tick ?_
  cases hpc : s.pc <;> rw [hpc] at hticked <;> trivial

theorem counted_raised (h : DispatchInv buffers sched clock s) (hcounted : Counted s.pc = true) :
    s.timer3.raised = true := by
  refine h.clockLine ?_
  cases hpc : s.pc <;> rw [hpc] at hcounted <;> trivial

theorem dispatchInv_expire1 (h : DispatchInv buffers sched clock s) :
    DispatchInv buffers sched clock { s with timer1 := s.timer1.expire } := by
  obtain ⟨ticks, millis, hsched, hclock, htick, hmillis⟩ := h.accounted
  exact ⟨h.card, h.inCard, fun _ => rfl, h.clockLine, ticks, millis, hsched, hclock,
    htick.expire (ticked_raised h), hmillis⟩

theorem dispatchInv_expire3 (h : DispatchInv buffers sched clock s) :
    DispatchInv buffers sched clock { s with timer3 := s.timer3.expire } := by
  obtain ⟨ticks, millis, hsched, hclock, htick, hmillis⟩ := h.accounted
  exact ⟨h.card, h.inCard, h.tick, fun _ => rfl, ticks, millis, hsched, hclock, htick,
    hmillis.expire (counted_raised h)⟩

/-- A step of `e1000_irq_handler`. -/
theorem dispatchInv_card (h : DispatchInv buffers sched clock s) {status : Word}
    (hpc : s.pc = .card status) : DispatchInv buffers sched clock (dispatchStep s) := by
  have hcard := e1000Inv_step .handler h.card
  have htick := h.tick
  have hclock := h.clockLine
  obtain ⟨ticks, millis, hsched, hclockEq, hticks, hmillis⟩ := h.accounted
  rw [hpc] at htick hclock hticks hmillis
  simp only [dispatchStep, hpc]
  by_cases hidle : (e1000Step s.card .handler).irq = .idle
  · rw [if_pos hidle]
    exact ⟨hcard, by simp [hidle, InCard], htick, hclock, ticks, millis, hsched, hclockEq, hticks,
      hmillis⟩
  · rw [if_neg hidle]
    exact ⟨hcard, by simp [hidle, InCard], htick, hclock, ticks, millis, hsched, hclockEq, hticks,
      hmillis⟩

/-- **A step of `handle_interrupt`.** -/
theorem dispatchInv_handler (h : DispatchInv buffers sched clock s) :
    DispatchInv buffers sched clock (dispatchStep s) := by
  have htick := h.tick
  have hclock := h.clockLine
  unfold dispatchStep
  cases hpc : s.pc with
  | idle => exact h
  | readStatus =>
      exact h.setPc (by rw [hpc]; rfl) (picStatus_timer1 s).mp (picStatus_timer3 s).mp
        (by rw [hpc]; rfl) (by rw [hpc]; rfl)
  | testCard status =>
      rw [hpc] at htick hclock
      simp only
      split
      · -- the handler of the card is entered
        have hidle : s.card.irq = .idle := h.inCard.mpr (by rw [hpc]; rfl)
        obtain ⟨ticks, millis, hsched, hclockEq, hticks, hmillis⟩ := h.accounted
        rw [hpc] at hticks hmillis
        refine ⟨e1000Inv_step .interrupt h.card, ?_, htick, hclock, ticks, millis, hsched, hclockEq,
          hticks, hmillis⟩
        simp [e1000Step, hidle, InCard]
      · exact h.setPc (by rw [hpc]; rfl) htick hclock (by rw [hpc]; rfl) (by rw [hpc]; rfl)
  | card status =>
      have hcard := dispatchInv_card h hpc
      simpa only [dispatchStep, hpc] using hcard
  | testTick status =>
      rw [hpc] at htick hclock
      simp only
      split
      · rename_i hbit
        exact h.setPc (by rw [hpc]; rfl) (fun _ => htick hbit) hclock (by rw [hpc]; rfl)
          (by rw [hpc]; rfl)
      · exact h.setPc (by rw [hpc]; rfl) (fun hdue => hdue.elim) hclock (by rw [hpc]; rfl)
          (by rw [hpc]; rfl)
  | schedule status =>
      obtain ⟨ticks, millis, hsched, hclockEq, hticks, hmillis⟩ := h.accounted
      rw [hpc] at htick hclock hticks hmillis
      have hidle : s.card.irq = .idle := h.inCard.mpr (by rw [hpc]; rfl)
      refine ⟨h.card, by simp [hidle, InCard], fun _ => htick trivial, hclock, ticks + 1, millis, ?_,
        hclockEq, hticks.serve (htick trivial), hmillis⟩
      rw [Function.iterate_succ_apply', ← hsched]
  | clearTick status =>
      obtain ⟨ticks, millis, hsched, hclockEq, hticks, hmillis⟩ := h.accounted
      rw [hpc] at hclock hticks hmillis
      have hidle : s.card.irq = .idle := h.inCard.mpr (by rw [hpc]; rfl)
      exact ⟨h.card, by simp [hidle, InCard], fun hdue => hdue.elim, hclock, ticks, millis, hsched,
        hclockEq, hticks.clear, hmillis⟩
  | testClock status =>
      rw [hpc] at hclock
      simp only
      split
      · rename_i hbit
        exact h.setPc (by rw [hpc]; rfl) (fun hdue => hdue.elim) (fun _ => hclock hbit)
          (by rw [hpc]; rfl) (by rw [hpc]; rfl)
      · exact h.setPc (by rw [hpc]; rfl) (fun hdue => hdue.elim) (fun hdue => hdue.elim)
          (by rw [hpc]; rfl) (by rw [hpc]; rfl)
  | count =>
      obtain ⟨ticks, millis, hsched, hclockEq, hticks, hmillis⟩ := h.accounted
      rw [hpc] at hclock hticks hmillis
      have hidle : s.card.irq = .idle := h.inCard.mpr (by rw [hpc]; rfl)
      refine ⟨h.card, by simp [hidle, InCard], fun hdue => hdue.elim, fun _ => hclock trivial, ticks,
        millis + 1, hsched, ?_, hticks, hmillis.serve (hclock trivial)⟩
      show s.clock + 1 = _
      rw [hclockEq, BitVec.ofNat_add, ← BitVec.add_assoc]
      rfl
  | clearClock =>
      obtain ⟨ticks, millis, hsched, hclockEq, hticks, hmillis⟩ := h.accounted
      rw [hpc] at hticks hmillis
      have hidle : s.card.irq = .idle := h.inCard.mpr (by rw [hpc]; rfl)
      exact ⟨h.card, by simp [hidle, InCard], fun hdue => hdue.elim, fun hdue => hdue.elim, ticks,
        millis, hsched, hclockEq, hticks, hmillis.clear⟩

theorem dispatchInv_step (s : Interrupts) (a : InterruptAction)
    (h : DispatchInv buffers sched clock s) :
    DispatchInv buffers sched clock (interruptStep s a) := by
  cases a with
  | store bytes status => exact h.setCard (.store bytes status) (irq_store s.card bytes status)
  | raise causes => exact h.setCard (.raise causes) rfl
  | expire1 => exact dispatchInv_expire1 h
  | expire3 => exact dispatchInv_expire3 h
  | interrupt =>
      simp only [interruptStep]
      split
      · rename_i hentered
        exact h.setPc (by rw [hentered.1]; rfl) (fun hdue => hdue.elim) (fun hdue => hdue.elim)
          (by rw [hentered.1]; rfl) (by rw [hentered.1]; rfl)
      · exact h
  | handler => exact dispatchInv_handler h

theorem dispatchInv_initial {card : E1000} (hcard : E1000Inv buffers card)
    (hidle : card.irq = .idle) (sched : State) (clock : DoubleWord) :
    DispatchInv buffers sched clock (enabledInterrupts card sched clock) where
  card := hcard
  inCard := by simp [enabledInterrupts, hidle, InCard]
  tick := fun hdue => hdue.elim
  clockLine := fun hdue => hdue.elim
  accounted := ⟨0, 0, rfl, (BitVec.add_zero clock).symm, rfl, rfl⟩

/-- A frame that waits has the line of the card raised. -/
theorem cardRaised_of_waiting (h : DispatchInv buffers sched clock s) (hpc : s.pc = .idle)
    (hwaits : s.card.ring.passed ≠ s.card.ring.stored) : s.cardRaised = true := by
  have hidle : s.card.irq = .idle := h.inCard.mpr (by rw [hpc]; rfl)
  simp only [Interrupts.cardRaised, decide_eq_true_eq]
  exact h.card.asks hidle hwaits

theorem DispatchInv.announced (h : DispatchInv buffers sched clock s) : Announced s := by
  intro hpc hwaits hzero
  obtain ⟨hcard, htick, hclock⟩ := (lineBits_eq_zero _ _ _).mp hzero
  rcases hwaits with hraised | hraised | hframe
  · rw [htick] at hraised
    exact Bool.false_ne_true hraised
  · rw [hclock] at hraised
    exact Bool.false_ne_true hraised
  · rw [cardRaised_of_waiting h hpc hframe] at hcard
    exact Bool.false_ne_true hcard.symm

end Step

/-! ### Progress -/

/-- The steps of `handle_interrupt` that are left, apart from those of the card's handler,
which costs ten more to enter. -/
def stepsLeft : DispatchPc → Nat
  | .idle => 0
  | .readStatus => 19
  | .testCard _ => 18
  | .card _ => 7
  | .testTick _ => 6
  | .schedule _ => 5
  | .clearTick _ => 4
  | .testClock _ => 3
  | .count => 2
  | .clearClock => 1

/-- The processor will read the causes of the card before it leaves the handler. -/
def willRead (s : Interrupts) : Bool :=
  match s.pc with
  | .readStatus => true
  | .testCard status => status &&& PCI3_INTBIT ≠ 0
  | .card _ =>
      match s.card.irq with
      | .writeMask | .readCause => true
      | _ => false
  | _ => false

/-- The processor will clear the line of the first timer before it leaves the handler. -/
def willTick (pc : DispatchPc) : Bool :=
  pc = .readStatus ∨ TickDue pc

def willCount (pc : DispatchPc) : Bool :=
  pc = .readStatus ∨ ClockDue pc

/-- A raised line that this run of the handler does not see to costs another one. -/
def lineWork (raised seenTo : Bool) : Nat :=
  if raised && !seenTo then 20 else 0

/-- The steps until everything has been served. -/
def interruptWork (s : Interrupts) : Nat :=
  stepsLeft s.pc + handlerWork s.card + lineWork s.timer1.raised (willTick s.pc) +
    lineWork s.timer3.raised (willCount s.pc) + lineWork s.cardRaised (willRead s)

@[simp] theorem lineWork_seenTo (raised : Bool) : lineWork raised true = 0 := by
  simp [lineWork]

@[simp] theorem lineWork_clear (seenTo : Bool) : lineWork false seenTo = 0 := by
  simp [lineWork]

theorem lineWork_le {raised seenTo seenTo' : Bool} (h : seenTo = true → seenTo' = true) :
    lineWork raised seenTo' ≤ lineWork raised seenTo := by
  cases seenTo with
  | true => rw [h rfl]
  | false =>
      cases seenTo' with
      | true => exact (lineWork_seenTo raised).trans_le (Nat.zero_le _)
      | false => exact Nat.le_refl _

/-- What the handler has read announces exactly the raised lines. -/
theorem lineWork_announced {raised seenTo : Bool} (h : seenTo = true ↔ raised = true) :
    lineWork raised seenTo = 0 := by
  cases raised with
  | false => exact lineWork_clear seenTo
  | true => rw [h.mpr rfl, lineWork_seenTo]

section Progress

variable {buffers : RxBuffers} {sched : State} {clock : DoubleWord} {s : Interrupts}

/-- The two steps of the card's handler that write to its registers. -/
theorem handlerStep_registers (card : E1000) (hmask : card.irq ≠ .writeMask)
    (hcause : card.irq ≠ .readCause) :
    (handlerStep card).intCause = card.intCause ∧ (handlerStep card).intMask = card.intMask := by
  unfold handlerStep
  cases hirq : card.irq with
  | writeMask => exact absurd hirq hmask
  | readCause => exact absurd hirq hcause
  | testLsc cause =>
      simp only
      split <;> exact ⟨rfl, rfl⟩
  | testRxt0 cause =>
      simp only
      split <;> exact ⟨rfl, rfl⟩
  | receiving =>
      simp only
      split <;> exact ⟨rfl, rfl⟩
  | _ => exact ⟨rfl, rfl⟩

/-- In the card's handler the line of the card goes down at most. -/
theorem lineWork_card {status : Word} (hpc : s.pc = .card status) :
    lineWork (dispatchStep s).cardRaised (willRead (dispatchStep s)) ≤
      lineWork s.cardRaised (willRead s) := by
  have hcard : (dispatchStep s).card = handlerStep s.card := by simp only [dispatchStep, hpc]; rfl
  by_cases hmask : s.card.irq = .writeMask
  · -- the causes are read next
    have hread : willRead (dispatchStep s) = true := by
      simp [dispatchStep, hpc, e1000Step, handlerStep, hmask, willRead]
    rw [hread, lineWork_seenTo]
    exact Nat.zero_le _
  · by_cases hcause : s.card.irq = .readCause
    · have hlow : (dispatchStep s).cardRaised = false := by
        simp [Interrupts.cardRaised, hcard, handlerStep, hcause]
      rw [hlow, lineWork_clear]
      exact Nat.zero_le _
    · obtain ⟨hintCause, hintMask⟩ := handlerStep_registers s.card hmask hcause
      have hsame : (dispatchStep s).cardRaised = s.cardRaised := by
        simp only [Interrupts.cardRaised, hcard, hintCause, hintMask]
      have hnot : willRead s = false := by
        simp only [willRead, hpc]
      rw [hsame]
      exact lineWork_le fun hread => absurd (hnot.symm.trans hread) (by decide)

theorem interruptWork_card (h : DispatchInv buffers sched clock s) {status : Word}
    (hpc : s.pc = .card status) : interruptWork (dispatchStep s) < interruptWork s := by
  have hirq : s.card.irq ≠ .idle := fun hidle => by
    have hnot := h.inCard.mp hidle
    rw [hpc] at hnot
    exact Bool.noConfusion hnot
  have hwork := handlerWork_handlerStep h.card hirq
  have hline := lineWork_card hpc
  have hnext : dispatchStep s = { s with
      card := handlerStep s.card
      pc := if (handlerStep s.card).irq = .idle then .testTick status else .card status } := by
    simp only [dispatchStep, hpc]
    rfl
  rw [hnext] at hline ⊢
  by_cases hidle : (handlerStep s.card).irq = .idle
  · have htick : willTick (.testTick status) = willTick (.card status) := by
      simp [willTick, TickDue]
    have hcount : willCount (.testTick status) = willCount (.card status) := by
      simp [willCount, ClockDue]
    simp only [if_pos hidle] at hline ⊢
    simp only [interruptWork, hpc, stepsLeft, htick, hcount] at hline ⊢
    omega
  · simp only [if_neg hidle] at hline ⊢
    simp only [interruptWork, hpc, stepsLeft] at hline ⊢
    omega

/-- The handler of the card is entered at the cost of nine steps at most. -/
theorem handlerWork_enter {card : E1000} (hidle : card.irq = .idle) :
    handlerWork (e1000Step card .interrupt) ≤ handlerWork card + 9 := by
  simp only [e1000Step, hidle, handlerWork]
  omega

/-- A step outside of the card's handler that brings no line up. -/
theorem interruptWork_step {s' : Interrupts} (hcard : s'.card = s.card)
    (hleft : stepsLeft s'.pc < stepsLeft s.pc)
    (htick : lineWork s'.timer1.raised (willTick s'.pc) ≤ lineWork s.timer1.raised (willTick s.pc))
    (hcount : lineWork s'.timer3.raised (willCount s'.pc) ≤
      lineWork s.timer3.raised (willCount s.pc))
    (hread : willRead s = true → willRead s' = true) : interruptWork s' < interruptWork s := by
  have hline : lineWork s.cardRaised (willRead s') ≤ lineWork s.cardRaised (willRead s) :=
    lineWork_le hread
  have hraised : s'.cardRaised = s.cardRaised := by simp only [Interrupts.cardRaised, hcard]
  simp only [interruptWork, hcard, hraised]
  omega

/-- Then the processor forgets no line. -/
theorem interruptWork_setPc {pc : DispatchPc} (hleft : stepsLeft pc < stepsLeft s.pc)
    (htick : willTick s.pc = true → willTick pc = true)
    (hcount : willCount s.pc = true → willCount pc = true)
    (hread : willRead s = true → willRead { s with pc := pc } = true) :
    interruptWork { s with pc := pc } < interruptWork s :=
  interruptWork_step rfl hleft (lineWork_le htick) (lineWork_le hcount) hread

/-- **Every step of `handle_interrupt` is paid for.** -/
theorem interruptWork_handler (h : DispatchInv buffers sched clock s) (hpc : s.pc ≠ .idle) :
    interruptWork (dispatchStep s) < interruptWork s := by
  cases hat : s.pc with
  | idle => exact absurd hat hpc
  | readStatus =>
      have htick : lineWork s.timer1.raised (willTick (.testCard s.picStatus)) = 0 :=
        lineWork_announced (by simpa [willTick, TickDue] using picStatus_timer1 s)
      have hcount : lineWork s.timer3.raised (willCount (.testCard s.picStatus)) = 0 :=
        lineWork_announced (by simpa [willCount, ClockDue] using picStatus_timer3 s)
      have hread : lineWork s.cardRaised (willRead { s with pc := .testCard s.picStatus }) = 0 :=
        lineWork_announced (by simpa [willRead] using picStatus_card s)
      simp only [dispatchStep, hat]
      show 18 + handlerWork s.card + lineWork s.timer1.raised (willTick (.testCard s.picStatus)) +
        lineWork s.timer3.raised (willCount (.testCard s.picStatus)) +
        lineWork s.cardRaised (willRead { s with pc := .testCard s.picStatus }) < _
      simp only [interruptWork, hat, stepsLeft]
      omega
  | testCard status =>
      simp only [dispatchStep, hat]
      split
      · rename_i hbit
        have hidle : s.card.irq = .idle := h.inCard.mpr (by rw [hat]; rfl)
        have henter := handlerWork_enter hidle
        have htick : willTick (.card status) = willTick (.testCard status) := by
          simp [willTick, TickDue]
        have hcount : willCount (.card status) = willCount (.testCard status) := by
          simp [willCount, ClockDue]
        have hread : willRead { s with card := e1000Step s.card .interrupt, pc := .card status } =
            true := by
          simp [willRead, e1000Step, hidle]
        simp only [interruptWork, hat, stepsLeft, htick, hcount, hread, lineWork_seenTo]
        omega
      · rename_i hno
        rw [not_ne_iff] at hno
        exact interruptWork_setPc (by simp [hat, stepsLeft]) (by simp [hat, willTick, TickDue])
          (by simp [hat, willCount, ClockDue]) (by simp [hat, willRead, hno])
  | card status => exact interruptWork_card h hat
  | testTick status =>
      simp only [dispatchStep, hat]
      split
      · exact interruptWork_setPc (by simp [hat, stepsLeft]) (by simp [hat, willTick, TickDue])
          (by simp [hat, willCount, ClockDue]) (by simp [hat, willRead])
      · rename_i hno
        rw [not_ne_iff] at hno
        exact interruptWork_setPc (by simp [hat, stepsLeft]) (by simp [hat, willTick, TickDue, hno])
          (by simp [hat, willCount, ClockDue]) (by simp [hat, willRead])
  | schedule status =>
      simp only [dispatchStep, hat]
      exact interruptWork_step rfl (by simp [hat, stepsLeft])
        (lineWork_le (by simp [willTick, TickDue])) (lineWork_le (by simp [hat, willCount, ClockDue]))
        (by simp [hat, willRead])
  | clearTick status =>
      simp only [dispatchStep, hat]
      exact interruptWork_step rfl (by simp [hat, stepsLeft])
        ((lineWork_clear _).trans_le (Nat.zero_le _))
        (lineWork_le (by simp [hat, willCount, ClockDue])) (by simp [hat, willRead])
  | testClock status =>
      simp only [dispatchStep, hat]
      split
      · exact interruptWork_setPc (by simp [hat, stepsLeft]) (by simp [hat, willTick, TickDue])
          (by simp [hat, willCount, ClockDue]) (by simp [hat, willRead])
      · rename_i hno
        rw [not_ne_iff] at hno
        exact interruptWork_setPc (by simp [hat, stepsLeft]) (by simp [hat, willTick, TickDue])
          (by simp [hat, willCount, ClockDue, hno]) (by simp [hat, willRead])
  | count =>
      simp only [dispatchStep, hat]
      exact interruptWork_step rfl (by simp [hat, stepsLeft])
        (lineWork_le (by simp [hat, willTick, TickDue])) (lineWork_le (by simp [willCount, ClockDue]))
        (by simp [hat, willRead])
  | clearClock =>
      simp only [dispatchStep, hat]
      exact interruptWork_step rfl (by simp [hat, stepsLeft])
        (lineWork_le (by simp [hat, willTick, TickDue]))
        ((lineWork_clear _).trans_le (Nat.zero_le _)) (by simp [hat, willRead])

/-- A raised line pays for the interrupt. -/
theorem interruptWork_enter (hpc : s.pc = .idle) (hraised : s.picStatus ≠ 0) :
    interruptWork { s with pc := .readStatus } < interruptWork s := by
  have hnone : lineWork s.timer1.raised false + lineWork s.timer3.raised false +
      lineWork s.cardRaised false = 0 → s.picStatus = 0 := by
    intro hzero
    refine (lineBits_eq_zero _ _ _).mpr ?_
    revert hzero
    cases s.timer1.raised <;> cases s.timer3.raised <;> cases s.cardRaised <;> decide
  have hcost : ∀ raised, lineWork raised false = 0 ∨ lineWork raised false = 20 := by decide
  have htick := hcost s.timer1.raised
  have hcount := hcost s.timer3.raised
  have hread := hcost s.cardRaised
  show 19 + handlerWork s.card + lineWork s.timer1.raised true + lineWork s.timer3.raised true +
    lineWork s.cardRaised true < _
  have hsome : ¬ lineWork s.timer1.raised false + lineWork s.timer3.raised false +
      lineWork s.cardRaised false = 0 := fun hzero => hraised (hnone hzero)
  have hwork : interruptWork s = handlerWork s.card + lineWork s.timer1.raised false +
      lineWork s.timer3.raised false + lineWork s.cardRaised false := by
    simp [interruptWork, hpc, stepsLeft, willTick, willCount, willRead, TickDue, ClockDue]
  simp only [lineWork_seenTo]
  omega

theorem interruptWork_less (h : DispatchInv buffers sched clock s) {a : InterruptAction}
    (ha : InterruptWork s a) : interruptWork (interruptStep s a) < interruptWork s := by
  cases a with
  | interrupt =>
      have hentered : s.pc = .idle ∧ s.picStatus ≠ 0 := ha
      simp only [interruptStep, if_pos hentered]
      exact interruptWork_enter hentered.1 hentered.2
  | handler => exact interruptWork_handler h ha
  | _ => exact ha.elim

/-- **Nothing to do means that all is served.** -/
theorem settled_of_stuck (h : DispatchInv buffers sched clock s)
    (hstuck : ∀ a, ¬ InterruptWork s a) : Settled sched clock s := by
  have hpc : s.pc = .idle := by
    by_contra hbusy
    exact hstuck .handler hbusy
  have hzero : s.picStatus = 0 := by
    by_contra hraised
    exact hstuck .interrupt ⟨hpc, hraised⟩
  obtain ⟨-, htick, hcount⟩ := (lineBits_eq_zero _ _ _).mp hzero
  obtain ⟨ticks, millis, hsched, hclock, hticks, hmillis⟩ := h.accounted
  have hticks' : s.timer1.expired - s.timer1.merged = ticks := by
    unfold TimerLine.Accounts at hticks
    simp only [htick, Bool.false_and, Bool.toNat_false] at hticks
    omega
  have hmillis' : s.timer3.expired - s.timer3.merged = millis := by
    unfold TimerLine.Accounts at hmillis
    simp only [hcount, Bool.false_and, Bool.toNat_false] at hmillis
    omega
  refine ⟨hpc, hzero, by rw [hticks', hsched], by rw [hmillis', hclock], ?_⟩
  by_contra hwaits
  exact h.announced hpc (Or.inr (Or.inr hwaits)) hzero

end Progress

/-! ### Runs -/

theorem dispatchInv_run (buffers : RxBuffers) (lengths : RxIndex → HalfWord) (mem : Mem)
    (intCause intMask ctrl : Word) (sched : State) (clock : DoubleWord)
    (actions : List InterruptAction) :
    EveryState interruptStep (DispatchInv buffers sched clock)
      (enabledInterrupts (startE1000 buffers lengths mem intCause intMask ctrl) sched clock)
      actions :=
  everyState_of_invariant (fun s a h _ => dispatchInv_step s a h)
    (dispatchInv_initial (e1000Inv_initial buffers lengths mem intCause intMask ctrl) rfl sched
      clock)
    (everyStep_true _ _)

/-- **Every interrupt is accounted for**, whenever the timers expire, frames arrive and
other causes are raised. -/
theorem interrupts_accounted (buffers : RxBuffers) (lengths : RxIndex → HalfWord) (mem : Mem)
    (intCause intMask ctrl : Word) (sched : State) (clock : DoubleWord)
    (actions : List InterruptAction) :
    EveryState interruptStep (fun s => Accounted sched clock s ∧ Announced s)
      (enabledInterrupts (startE1000 buffers lengths mem intCause intMask ctrl) sched clock)
      actions :=
  (dispatchInv_run buffers lengths mem intCause intMask ctrl sched clock actions).imp
    fun _ h => ⟨h.accounted, h.announced⟩

/-- **The handlers end.**  Once the devices are silent, whatever has happened before, the
processor can take `interruptWork` steps at most; when it can take none, everything has
been served; and it gets there. -/
theorem interrupts_settle (buffers : RxBuffers) (lengths : RxIndex → HalfWord) (mem : Mem)
    (intCause intMask ctrl : Word) (sched : State) (clock : DoubleWord)
    (actions : List InterruptAction) :
    let s := run interruptStep
      (enabledInterrupts (startE1000 buffers lengths mem intCause intMask ctrl) sched clock) actions
    (∀ work, EveryStep interruptStep InterruptWork s work →
      work.length ≤ interruptWork s ∧
      ((∀ a, ¬ InterruptWork (run interruptStep s work) a) →
        Settled sched clock (run interruptStep s work))) ∧
    ∃ work, EveryStep interruptStep InterruptWork s work ∧
      Settled sched clock (run interruptStep s work) := by
  intro s
  have hs : DispatchInv buffers sched clock s := everyState_iff_reached.mp
    (dispatchInv_run buffers lengths mem intCause intMask ctrl sched clock actions) actions
    (List.prefix_refl _)
  have hkeep : ∀ s a, DispatchInv buffers sched clock s → InterruptWork s a →
      DispatchInv buffers sched clock (interruptStep s a) := fun s a h _ => dispatchInv_step s a h
  have hless : ∀ s a, DispatchInv buffers sched clock s → InterruptWork s a →
      interruptWork (interruptStep s a) < interruptWork s := fun _ _ h ha => interruptWork_less h ha
  have hrun : ∀ work, EveryStep interruptStep InterruptWork s work →
      DispatchInv buffers sched clock (run interruptStep s work) := fun work hwork =>
    everyState_iff_reached.mp (everyState_of_invariant hkeep hs hwork) work (List.prefix_refl _)
  constructor
  · intro work hwork
    have hlength := length_le_of_decreasing interruptWork hkeep hless hs hwork
    exact ⟨by omega, settled_of_stuck (hrun work hwork)⟩
  · obtain ⟨work, hwork, hstuck⟩ := exists_maximal_run interruptWork hkeep hless hs
    exact ⟨work, hwork, settled_of_stuck (hrun work hwork) hstuck⟩

end Dispatch
end Ninjastorms
