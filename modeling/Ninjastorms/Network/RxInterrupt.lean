import Ninjastorms.Network.RxRing

/-!
# The interrupt of the network card

`e1000_irq_handler` of `kernel/network/e1000.c` around the loop of
`receive_packet`.  The cause register is shared with the card: the card sets
`RXT0` in the step in which it marks a descriptor done, and may set any other
bits at any time; a read returns the register and clears it.

The handler clears the causes before it drains the ring, and the card does not
wait for it.  `Handled` says that a done descriptor at `rx_cur` is announced,
either still in the register or in the causes that the handler has read and will
act upon.

That the interrupt does deliver the frame is said twice: `handlerUntil` bounds the
steps until what has been stored is passed on, whatever the card does meanwhile, and
`handlerWork` those until the handler ends, once the card is silent.
-/

namespace Ninjastorms
namespace Network

open Lib.CircularBuffer Lib.ByteMemory Lib.Runs

/-- `LSC`. -/
def LSC : Word := 1 <<< 2

/-- `RXT0`. -/
def RXT0 : Word := 1 <<< 7

/-- `ECTRL_SLU`. -/
def ECTRL_SLU : Word := 0x40

/-- Where the processor is in `e1000_irq_handler`; `idle` is anywhere outside of
it.  The branch for `RXDMT0` is empty. -/
inductive IrqPc where
  | idle
  | writeMask
  | readCause
  | testLsc (cause : Word)
  | readCtrl (cause : Word)
  | writeCtrl (cause flags : Word)
  | testRxt0 (cause : Word)
  | receiving
  | leave

/-- The receive ring and the registers of the card that the handler uses. -/
structure E1000 where
  ring : RxRing
  intCause : Word
  intMask : Word
  ctrl : Word
  irq : IrqPc

/-- The card stores a frame or raises other causes; the processor enters the
handler, or makes a step of it. -/
inductive E1000Action where
  | store (bytes : List Byte) (status : Byte)
  | raise (causes : Word)
  | interrupt
  | handler

/-- The state at the end of `start_e1000`; the registers that it does not set
hold any values. -/
def startE1000 (buffers : RxBuffers) (lengths : RxIndex → HalfWord) (mem : Mem)
    (intCause intMask ctrl : Word) : E1000 where
  ring := initReceiveDescriptors buffers lengths mem
  intCause := intCause
  intMask := intMask ||| 0x1F2D4
  ctrl := ctrl
  irq := .idle

/-- The card: with the done bit of a descriptor it sets `RXT0`. -/
def storeFrame (s : E1000) (bytes : List Byte) (status : Byte) : E1000 :=
  if s.ring.head ≠ s.ring.tail ∧ bytes.length ≤ MAX_PACKET_SIZE then
    { s with
      ring := deviceStep s.ring bytes status
      intCause := s.intCause ||| RXT0 }
  else
    s

/-- One step of `e1000_irq_handler`.  A write to the mask register enables the
causes that are written. -/
def handlerStep (s : E1000) : E1000 :=
  match s.irq with
  | .idle => s
  | .writeMask => { s with intMask := s.intMask ||| 0x1, irq := .readCause }
  | .readCause => { s with intCause := 0, irq := .testLsc s.intCause }
  | .testLsc cause =>
      if cause &&& LSC ≠ 0 then { s with irq := .readCtrl cause }
      else { s with irq := .testRxt0 cause }
  | .readCtrl cause => { s with irq := .writeCtrl cause s.ctrl }
  | .writeCtrl cause flags => { s with ctrl := flags ||| ECTRL_SLU, irq := .testRxt0 cause }
  | .testRxt0 cause =>
      if cause &&& RXT0 ≠ 0 then { s with irq := .receiving } else { s with irq := .leave }
  | .receiving =>
      match (driverStep true s.ring).pc with
      | .entry => { s with ring := driverStep true s.ring, irq := .leave }
      | _ => { s with ring := driverStep true s.ring }
  | .leave => { s with irq := .idle }

def e1000Step (s : E1000) : E1000Action → E1000
  | .store bytes status => storeFrame s bytes status
  | .raise causes => { s with intCause := s.intCause ||| causes }
  | .interrupt =>
      match s.irq with
      | .idle => { s with irq := .writeMask }
      | _ => s
  | .handler => handlerStep s

/-- The packet that a step of the card or of the handler gives to `insert_packet`. -/
def handedOver (s : E1000) (a : E1000Action) : Option Packet :=
  match a, s.irq with
  | .handler, .receiving => s.ring.passesOn
  | _, _ => none

/-! ### The steps that are left -/

/-- The frames that were stored and have not been passed on. -/
def RxRing.pending (s : RxRing) : List Packet :=
  contents s.frame (firstPending s) s.head

def pendingWork (s : RxRing) : Nat :=
  (s.pending.map price).sum

def loopWork (s : RxRing) : Nat :=
  stepsFrom (pendingWork s) s.pc

/-- A raised cause may bring the processor into the handler once more. -/
def causeWork (s : E1000) : Nat :=
  if s.intCause = 0 then 0 else 10

/-- The steps of the handler; it has not read the causes yet in the first two. -/
def handlerWork (s : E1000) : Nat :=
  match s.irq with
  | .idle => causeWork s + pendingWork s.ring
  | .writeMask => pendingWork s.ring + 9
  | .readCause => pendingWork s.ring + 8
  | .testLsc _ => causeWork s + pendingWork s.ring + 7
  | .readCtrl _ => causeWork s + pendingWork s.ring + 6
  | .writeCtrl _ _ => causeWork s + pendingWork s.ring + 5
  | .testRxt0 _ => causeWork s + pendingWork s.ring + 4
  | .receiving => causeWork s + loopWork s.ring + 1
  | .leave => causeWork s + pendingWork s.ring + 1

/-! ### What is promised -/

/-- The card asks for an interrupt because of received frames. -/
def ReceivePending (s : E1000) : Prop :=
  s.intCause &&& RXT0 ≠ 0

/-- Outside of the handler, the descriptor at `rx_cur` is not done or `RXT0` is
pending; and no frame waits without `RXT0` pending. -/
def NoStall (s : E1000) : Prop :=
  s.irq = .idle →
    (¬ Done (s.ring.rxDescs s.ring.rxCur) ∨ ReceivePending s) ∧
    (s.ring.passed ≠ s.ring.stored → ReceivePending s)

instance (irq : IrqPc) : Decidable (irq = .idle) :=
  match irq with
  | .idle => isTrue rfl
  | .writeMask | .readCause | .receiving | .leave => isFalse nofun
  | .testLsc _ | .readCtrl _ | .writeCtrl _ _ | .testRxt0 _ => isFalse nofun

/-- The processor serves the card: it takes an interrupt that the card asks for, by a cause
that is enabled, or makes a step of the handler. -/
def Serves (s : E1000) : E1000Action → Prop
  | .interrupt => s.irq = .idle ∧ s.intCause &&& s.intMask ≠ 0
  | .handler => s.irq ≠ .idle
  | _ => False

instance (s : E1000) : (a : E1000Action) → Decidable (Serves s a)
  | .interrupt => inferInstanceAs (Decidable (s.irq = .idle ∧ s.intCause &&& s.intMask ≠ 0))
  | .handler => inferInstanceAs (Decidable (s.irq ≠ .idle))
  | .store _ _ | .raise _ => inferInstanceAs (Decidable False)

/-- All that has been stored by now is passed on before the processor has made so many
steps for the card, whatever the card does meanwhile. -/
def DeliversAll (s : E1000) : Prop :=
  ∀ actions, drainSteps + 12 ≤ countSteps e1000Step Serves s actions →
    s.ring.stored <+: (run e1000Step s actions).ring.passed

/-- Outside of the handler, with nothing left on the card. -/
def CardServed (s : E1000) : Prop :=
  s.irq = .idle ∧ s.ring.passed = s.ring.stored

/-- While the card is silent, the processor can make `handlerWork` steps for it at most;
when it can make none, the handler has ended and everything has been passed on; and it
gets there. -/
def HandlerEnds (s : E1000) : Prop :=
  (∀ work, EveryStep e1000Step Serves s work →
    work.length ≤ handlerWork s ∧
    ((∀ a, ¬ Serves (run e1000Step s work) a) → CardServed (run e1000Step s work))) ∧
  ∃ work, EveryStep e1000Step Serves s work ∧ CardServed (run e1000Step s work)

/-! ### The invariant -/

/-- The handler has read `RXT0` and has not finished draining the ring. -/
def WillDrain : IrqPc → Prop
  | .testLsc cause | .readCtrl cause | .writeCtrl cause _ | .testRxt0 cause => cause &&& RXT0 ≠ 0
  | .receiving => True
  | _ => False

/-- A done descriptor at `rx_cur` is announced. -/
def Handled (s : E1000) : Prop :=
  Done (s.ring.rxDescs s.ring.rxCur) → ReceivePending s ∨ WillDrain s.irq

/-- The driver is in the loop only while the handler is, and `RXT0` is enabled. -/
structure E1000Inv (buffers : RxBuffers) (s : E1000) : Prop where
  ring : RxInv buffers s.ring
  outside : s.irq ≠ .receiving → s.ring.pc = .entry
  handled : Handled s
  enabled : s.intMask &&& RXT0 ≠ 0

variable {buffers : RxBuffers} {s : E1000}

theorem rxt0_iff (reg : Word) : reg &&& RXT0 ≠ 0 ↔ reg.getLsbD 7 = true := by
  have htwo : RXT0 = BitVec.twoPow 32 7 := by decide
  rw [htwo, BitVec.and_twoPow]
  cases reg.getLsbD 7 <;> decide

/-- Setting further bits does not hide `RXT0`. -/
theorem rxt0_or {reg : Word} (bits : Word) (h : reg &&& RXT0 ≠ 0) : (reg ||| bits) &&& RXT0 ≠ 0 := by
  rw [rxt0_iff] at *
  rw [BitVec.getLsbD_or, h, Bool.true_or]

theorem rxt0_set (reg : Word) : (reg ||| RXT0) &&& RXT0 ≠ 0 := by
  rw [rxt0_iff, BitVec.getLsbD_or]
  exact Bool.or_true _

/-! ### The card -/

theorem e1000Inv_store (h : E1000Inv buffers s) (bytes : List Byte) (status : Byte) :
    E1000Inv buffers (storeFrame s bytes status) := by
  unfold storeFrame
  split
  · refine ⟨rxInv_device h.ring bytes status, fun hirq => ?_, fun _ => Or.inl (rxt0_set _),
      h.enabled⟩
    show (deviceStep s.ring bytes status).pc = .entry
    rcases deviceStep_cases s.ring bytes status with heq | ⟨-, -, heq⟩
    · rw [heq]
      exact h.outside hirq
    · rw [heq]
      exact h.outside hirq
  · exact h

theorem e1000Inv_raise (h : E1000Inv buffers s) (causes : Word) :
    E1000Inv buffers { s with intCause := s.intCause ||| causes } :=
  ⟨h.ring, h.outside, fun hdone => (h.handled hdone).imp_left (rxt0_or causes), h.enabled⟩

/-! ### The handler -/

/-- A step outside of the loop that keeps what has been announced. -/
theorem E1000Inv.setIrq (h : E1000Inv buffers s) (irq : IrqPc) (houtside : s.irq ≠ .receiving)
    (hwill : WillDrain s.irq → WillDrain irq) : E1000Inv buffers { s with irq := irq } :=
  ⟨h.ring, fun _ => h.outside houtside, fun hdone => (h.handled hdone).imp_right hwill, h.enabled⟩

/-- The causes are cleared, but the handler has read them. -/
theorem e1000Inv_readCause (h : E1000Inv buffers s) (hirq : s.irq = .readCause) :
    E1000Inv buffers { s with intCause := 0, irq := .testLsc s.intCause } := by
  refine ⟨h.ring, fun _ => h.outside (by simp [hirq]), fun hdone => ?_, h.enabled⟩
  right
  rcases h.handled hdone with hpending | hwill
  · exact hpending
  · rw [hirq] at hwill
    exact hwill.elim

/-- One step of the loop.  When it ends, the descriptor at `rx_cur` is not done. -/
theorem e1000Inv_receiving (h : E1000Inv buffers s) (hirq : s.irq = .receiving) :
    E1000Inv buffers (handlerStep s) := by
  have hring : RxInv buffers (driverStep true s.ring) := rxInv_driver h.ring
  unfold handlerStep
  rw [hirq]
  simp only
  split
  · rename_i hentry
    refine ⟨hring, fun _ => hentry, fun hdone => ?_, h.enabled⟩
    -- only the test of the loop condition leads out of the loop
    exfalso
    revert hentry hdone
    unfold driverStep
    cases s.ring.pc with
    | test =>
        simp only
        split
        · intro hentry
          exact RxPc.noConfusion hentry
        · rename_i hstatus
          intro _ hdone
          exact hstatus hdone
    | insert buf len copied =>
        simp only
        split
        · intro hentry
          exact RxPc.noConfusion hentry
        · intro hentry
          exact RxPc.noConfusion hentry
    | _ =>
        intro hentry
        exact RxPc.noConfusion hentry
  · exact ⟨hring, fun hirq' => absurd rfl hirq', fun _ => Or.inr trivial, h.enabled⟩

theorem e1000Inv_handler (h : E1000Inv buffers s) : E1000Inv buffers (handlerStep s) := by
  cases hirq : s.irq with
  | receiving => exact e1000Inv_receiving h hirq
  | readCause =>
      unfold handlerStep
      rw [hirq]
      exact e1000Inv_readCause h hirq
  | idle =>
      unfold handlerStep
      rw [hirq]
      exact h
  | writeMask =>
      unfold handlerStep
      rw [hirq]
      obtain ⟨hring, houtside, hhandled, henabled⟩ := h.setIrq .readCause (by simp [hirq])
        (by simp [hirq, WillDrain])
      exact ⟨hring, houtside, hhandled, rxt0_or _ henabled⟩
  | testLsc cause =>
      unfold handlerStep
      rw [hirq]
      simp only
      split
      · exact h.setIrq _ (by simp [hirq]) (by simp [hirq, WillDrain])
      · exact h.setIrq _ (by simp [hirq]) (by simp [hirq, WillDrain])
  | readCtrl cause =>
      unfold handlerStep
      rw [hirq]
      exact h.setIrq _ (by simp [hirq]) (by simp [hirq, WillDrain])
  | writeCtrl cause flags =>
      unfold handlerStep
      rw [hirq]
      obtain ⟨hring, houtside, hhandled, henabled⟩ := h.setIrq (.testRxt0 cause)
        (by simp [hirq]) (by simp [hirq, WillDrain])
      exact ⟨hring, houtside, hhandled, henabled⟩
  | testRxt0 cause =>
      unfold handlerStep
      rw [hirq]
      simp only
      split
      · refine ⟨h.ring, fun _ => h.outside (by simp [hirq]), fun _ => Or.inr trivial, h.enabled⟩
      · rename_i hno
        refine h.setIrq _ (by simp [hirq]) fun hwill => ?_
        rw [hirq] at hwill
        exact absurd hwill hno
  | leave =>
      unfold handlerStep
      rw [hirq]
      exact h.setIrq _ (by simp [hirq]) (by simp [hirq, WillDrain])

theorem e1000Inv_step (a : E1000Action) (h : E1000Inv buffers s) :
    E1000Inv buffers (e1000Step s a) := by
  cases a with
  | store bytes status => exact e1000Inv_store h bytes status
  | raise causes => exact e1000Inv_raise h causes
  | interrupt =>
      unfold e1000Step
      simp only
      split
      · rename_i hirq
        exact h.setIrq _ (by simp [hirq]) (by simp [hirq, WillDrain])
      · exact h
  | handler => exact e1000Inv_handler h

/-! ### What is stored and what is passed on -/

/-- The frame that an action stores. -/
def storedBy (s : E1000) : E1000Action → Option Packet
  | .store bytes _ =>
      if s.ring.head ≠ s.ring.tail ∧ bytes.length ≤ MAX_PACKET_SIZE then
        some ⟨BitVec.ofNat 16 bytes.length, bytes⟩
      else none
  | _ => none

theorem logs_handlerStep (s : E1000) :
    (handlerStep s).ring.passed = s.ring.passed ++ (handedOver s .handler).toList ∧
    (handlerStep s).ring.stored = s.ring.stored := by
  obtain ⟨hpassed, hstored⟩ := passed_driverStep true s.ring
  unfold handlerStep handedOver
  cases s.irq with
  | receiving =>
      simp only
      split
      · exact ⟨hpassed, hstored⟩
      · exact ⟨hpassed, hstored⟩
  | testLsc cause =>
      simp only
      split <;> simp
  | testRxt0 cause =>
      simp only
      split <;> simp
  | _ => simp

/-- The logs of the card after a step. -/
theorem logs_e1000Step (s : E1000) (a : E1000Action) :
    (e1000Step s a).ring.passed = s.ring.passed ++ (handedOver s a).toList ∧
    (e1000Step s a).ring.stored = s.ring.stored ++ (storedBy s a).toList := by
  cases a with
  | store bytes status =>
      simp only [e1000Step, storeFrame, storedBy, handedOver, deviceStep]
      split <;> simp
  | raise causes => simp [e1000Step, storedBy, handedOver]
  | interrupt =>
      simp only [e1000Step, storedBy, handedOver]
      split <;> simp
  | handler =>
      simp only [storedBy, Option.toList_none, List.append_nil]
      exact logs_handlerStep s

/-! ### The loop, with the card silent -/

section Loop

variable {ring : RxRing}

theorem pending_driverStep (h : RxInv buffers ring) :
    ring.pending = ring.passesOn.toList ++ (driverStep true ring).pending := by
  obtain ⟨hpassed, hstored⟩ := passed_driverStep true ring
  have hnext : RxInv buffers (driverStep true ring) := rxInv_driver h
  have hafter := hnext.order
  rw [hstored, hpassed, h.order, List.append_assoc] at hafter
  exact List.append_cancel_left hafter

theorem pendingWork_driverStep (h : RxInv buffers ring) :
    pendingWork ring =
      (ring.passesOn.toList.map price).sum + pendingWork (driverStep true ring) := by
  rw [pendingWork, pending_driverStep h, List.map_append, List.sum_append, ← pendingWork]

/-- The frame that the loop is at has not been paid for. -/
theorem price_le_pendingWork (h : RxInv buffers ring) (hbusy : AtDone ring.pc)
    (hpassed : PassedOn ring.pc = false) : price (ring.frame (next ring.tail)) ≤ pendingWork ring := by
  have hpending : ring.pending = ring.frame (next ring.tail) ::
      contents ring.frame (next (next ring.tail)) ring.head := by
    have horder := contents_pending h (h.busy hbusy) hpassed
    rw [h.order] at horder
    exact List.append_cancel_left horder
  rw [pendingWork, hpending, List.map_cons, List.sum_cons]
  exact Nat.le_add_right _ _

/-- A step within the loop is paid for, also with the work that it makes for the
network task. -/
theorem loopWork_driverStep (h : RxInv buffers ring) (hstay : (driverStep true ring).pc ≠ .entry) :
    loopWork (driverStep true ring) + 5 * ring.passesOn.toList.length < loopWork ring :=
  stepsFrom_driverStep h hstay (pendingWork_driverStep h) (price_le_pendingWork h)

/-- The step that leaves the loop. -/
theorem loopWork_leave (h : RxInv buffers ring) (hleave : (driverStep true ring).pc = .entry) :
    ring.passesOn = none ∧ pendingWork (driverStep true ring) + 1 = loopWork ring := by
  have hwork := pendingWork_driverStep h
  cases hpc : ring.pc with
  | test =>
      have hnone : ring.passesOn = none := by simp [RxRing.passesOn, hpc]
      rw [hnone] at hwork
      rw [loopWork, hpc, hwork]
      refine ⟨hnone, ?_⟩
      simp [stepsFrom]
  | insert buf len copied =>
      unfold driverStep at hleave
      rw [hpc] at hleave
      simp only at hleave
      split at hleave
      · exact RxPc.noConfusion hleave
      · exact RxPc.noConfusion hleave
  | _ => simp [driverStep, hpc] at hleave

end Loop

/-! ### The handler, with the card silent -/

/-- A step of the handler is paid for. -/
theorem handlerWork_handlerStep (h : E1000Inv buffers s) (hirq : s.irq ≠ .idle) :
    handlerWork (handlerStep s) + 5 * (handedOver s .handler).toList.length < handlerWork s := by
  cases hpc : s.irq with
  | idle => exact absurd hpc hirq
  | receiving =>
      have hnone : handedOver s .handler = s.ring.passesOn := by simp [handedOver, hpc]
      rw [hnone]
      by_cases hleave : (driverStep true s.ring).pc = .entry
      · obtain ⟨hpasses, hwork⟩ := loopWork_leave h.ring hleave
        have hnext : handlerStep s = { s with ring := driverStep true s.ring, irq := .leave } := by
          simp [handlerStep, hpc, hleave]
        rw [hpasses, hnext]
        simp only [handlerWork, hpc, causeWork, Option.toList_none, List.length_nil]
        omega
      · have hwork := loopWork_driverStep h.ring hleave
        have hnext : handlerStep s = { s with ring := driverStep true s.ring } := by
          unfold handlerStep
          rw [hpc]
          -- `hleave` selects the second branch
          simp only
        rw [hnext]
        simp only [handlerWork, hpc, causeWork]
        omega
  | testLsc cause =>
      simp only [handlerStep, handedOver, hpc]
      split <;> simp [handlerWork, hpc, causeWork]
  | testRxt0 cause =>
      have hentry : s.ring.pc = .entry := h.outside (by simp [hpc])
      simp only [handlerStep, handedOver, hpc]
      split
      · simp [handlerWork, hpc, causeWork, loopWork, hentry, stepsFrom]
        omega
      · simp [handlerWork, hpc, causeWork]
  | _ => simp [handlerStep, handedOver, hpc, handlerWork, causeWork]

/-- A raised cause pays for the interrupt. -/
theorem handlerWork_serves (h : E1000Inv buffers s) {a : E1000Action} (ha : Serves s a) :
    handlerWork (e1000Step s a) < handlerWork s := by
  cases a with
  | interrupt =>
      obtain ⟨hirq, hasked⟩ := ha
      have hraised : s.intCause ≠ 0 := by
        intro hzero
        rw [hzero] at hasked
        exact hasked BitVec.zero_and
      simp only [e1000Step, hirq, handlerWork, causeWork, if_neg hraised]
      omega
  | handler =>
      have hwork := handlerWork_handlerStep h ha
      rw [e1000Step]
      omega
  | store bytes status => exact ha.elim
  | raise causes => exact ha.elim

/-- Outside of the loop, a frame that waits is at `rx_cur`. -/
theorem E1000Inv.done_cur (h : E1000Inv buffers s) (hirq : s.irq ≠ .receiving)
    (hwaits : s.ring.passed ≠ s.ring.stored) : Done (s.ring.rxDescs s.ring.rxCur) := by
  obtain ⟨hdone, -, hstored⟩ := h.ring.inSync.2 (Or.inl (h.outside hirq))
  have hne : s.ring.rxCur ≠ s.ring.head := by
    intro hempty
    rw [hempty, contents_self, List.append_nil] at hstored
    exact hwaits hstored.symm
  rw [hdone, interval_next_left hne]
  exact List.mem_cons_self

/-- A frame that waits is announced, unless the handler has read the announcement. -/
theorem E1000Inv.pending_of_not_willDrain (h : E1000Inv buffers s) (hwill : ¬ WillDrain s.irq)
    (hwaits : s.ring.passed ≠ s.ring.stored) : ReceivePending s := by
  have hirq : s.irq ≠ .receiving := by
    intro hirq
    rw [hirq] at hwill
    exact hwill trivial
  exact (h.handled (h.done_cur hirq hwaits)).resolve_right hwill

/-- A frame that waits outside of the handler is announced. -/
theorem E1000Inv.pending (h : E1000Inv buffers s) (hirq : s.irq = .idle)
    (hwaits : s.ring.passed ≠ s.ring.stored) : ReceivePending s :=
  h.pending_of_not_willDrain (by rw [hirq]; exact id) hwaits

/-- The announcement is an enabled cause, so that the card asks for an interrupt. -/
theorem E1000Inv.asks (h : E1000Inv buffers s) (hirq : s.irq = .idle)
    (hwaits : s.ring.passed ≠ s.ring.stored) : s.intCause &&& s.intMask ≠ 0 := by
  have hpending := (rxt0_iff _).mp (h.pending hirq hwaits)
  have henabled := (rxt0_iff _).mp h.enabled
  intro hzero
  have hbit : (s.intCause &&& s.intMask).getLsbD 7 = false := by
    rw [hzero]
    rfl
  rw [BitVec.getLsbD_and, hpending, henabled] at hbit
  exact absurd hbit (by decide)

/-- Nothing to do means that the card is served. -/
theorem E1000Inv.cardServed (h : E1000Inv buffers s) (hstuck : ∀ a, ¬ Serves s a) :
    CardServed s := by
  have hirq : s.irq = .idle := by
    by_contra hbusy
    exact hstuck .handler hbusy
  refine ⟨hirq, ?_⟩
  by_contra hwaits
  exact hstuck .interrupt ⟨hirq, h.asks hirq hwaits⟩

theorem E1000Inv.handlerEnds (h : E1000Inv buffers s) : HandlerEnds s := by
  have hkeep : ∀ s a, E1000Inv buffers s → Serves s a → E1000Inv buffers (e1000Step s a) :=
    fun s a h _ => e1000Inv_step a h
  have hless : ∀ s a, E1000Inv buffers s → Serves s a →
      handlerWork (e1000Step s a) < handlerWork s := fun s a h ha => handlerWork_serves h ha
  have hrun : ∀ work, EveryStep e1000Step Serves s work →
      E1000Inv buffers (run e1000Step s work) := fun work hwork =>
    everyState_iff_reached.mp (everyState_of_invariant hkeep h hwork) work (List.prefix_refl _)
  constructor
  · intro work hwork
    have hlength := length_le_of_decreasing handlerWork hkeep hless h hwork
    exact ⟨by omega, (hrun work hwork).cardServed⟩
  · obtain ⟨work, hwork, hstuck⟩ := exists_maximal_run handlerWork hkeep hless h
    exact ⟨work, hwork, (hrun work hwork).cardServed hstuck⟩

/-! ### The handler, whatever the card does -/

/-- The steps before the loop, if the handler reads `RXT0`; otherwise it takes another run. -/
def stepsToLoop : IrqPc → Nat
  | .receiving => 0
  | .testRxt0 cause => if cause &&& RXT0 ≠ 0 then 1 else 9
  | .writeCtrl cause _ => if cause &&& RXT0 ≠ 0 then 2 else 10
  | .readCtrl cause => if cause &&& RXT0 ≠ 0 then 3 else 11
  | .testLsc cause => if cause &&& RXT0 ≠ 0 then 4 else 12
  | .readCause => 5
  | .writeMask => 6
  | .idle => 7
  | .leave => 8

/-- The steps until the first `n` frames have been passed on, at most. -/
def handlerUntil (n : Nat) (s : E1000) : Nat :=
  loopUntil n s.ring + stepsToLoop s.irq

section Delivery

variable {n : Nat}

theorem handlerUntil_lt (h : E1000Inv buffers s) : handlerUntil n s < drainSteps + 12 := by
  have hloop : loopUntil n s.ring < drainSteps := loopUntil_lt h.ring
  have hsteps : stepsToLoop s.irq ≤ 12 := by
    cases s.irq <;> simp only [stepsToLoop] <;> (try split) <;> omega
  rw [handlerUntil]
  omega

/-- A step that only moves the processor. -/
theorem handlerUntil_setIrq {s' : E1000} (hring : s'.ring = s.ring)
    (hless : stepsToLoop s'.irq < stepsToLoop s.irq) : handlerUntil n s' < handlerUntil n s := by
  rw [handlerUntil, handlerUntil, hring]
  exact Nat.add_lt_add_left hless _

/-- **Every step of the handler counts**, as long as one of the frames is left. -/
theorem handlerUntil_handlerStep (h : E1000Inv buffers s) (hn : n ≤ s.ring.stored.length)
    (hmore : s.ring.passed.length < n) (hirq : s.irq ≠ .idle) :
    handlerUntil n (handlerStep s) < handlerUntil n s := by
  have hwaits : s.ring.passed ≠ s.ring.stored := by
    intro hall
    rw [hall] at hmore
    omega
  cases hpc : s.irq with
  | idle => exact absurd hpc hirq
  | writeMask =>
      exact handlerUntil_setIrq (by simp [handlerStep, hpc])
        (by simp [handlerStep, hpc, stepsToLoop])
  | readCause =>
      -- the frame has been announced, so that the handler reads `RXT0`
      have hpending : s.intCause &&& RXT0 ≠ 0 :=
        h.pending_of_not_willDrain (by rw [hpc]; exact id) hwaits
      exact handlerUntil_setIrq (by simp [handlerStep, hpc])
        (by simp only [handlerStep, hpc, stepsToLoop, if_pos hpending]; omega)
  | testLsc cause =>
      refine handlerUntil_setIrq ?_ ?_
      · simp only [handlerStep, hpc]
        split <;> rfl
      · simp only [handlerStep, hpc]
        split <;> simp only [stepsToLoop] <;> split <;> omega
  | readCtrl cause =>
      refine handlerUntil_setIrq (by simp [handlerStep, hpc]) ?_
      simp only [handlerStep, hpc, stepsToLoop]
      split <;> omega
  | writeCtrl cause flags =>
      refine handlerUntil_setIrq (by simp [handlerStep, hpc]) ?_
      simp only [handlerStep, hpc, stepsToLoop]
      split <;> omega
  | testRxt0 cause =>
      by_cases hread : cause &&& RXT0 ≠ 0
      · exact handlerUntil_setIrq (by simp only [handlerStep, hpc, if_pos hread])
          (by simp only [handlerStep, hpc, stepsToLoop, if_pos hread]; omega)
      · exact handlerUntil_setIrq (by simp only [handlerStep, hpc, if_neg hread])
          (by simp only [handlerStep, hpc, stepsToLoop, if_neg hread]; omega)
  | receiving =>
      have hless := loopUntil_less h.ring hn hmore
      have hnext : handlerStep s = { s with ring := driverStep true s.ring } := by
        have hstay := driverStep_stays h.ring hn hmore
        unfold handlerStep
        rw [hpc]
        simp only
      rw [hnext, handlerUntil, handlerUntil]
      exact Nat.add_lt_add_right hless _
  | leave =>
      exact handlerUntil_setIrq (by simp [handlerStep, hpc])
        (by simp [handlerStep, hpc, stepsToLoop])

/-- **Every step that serves the card counts.** -/
theorem handlerUntil_serves (h : E1000Inv buffers s) (hn : n ≤ s.ring.stored.length)
    (hmore : s.ring.passed.length < n) {a : E1000Action} (ha : Serves s a) :
    handlerUntil n (e1000Step s a) < handlerUntil n s := by
  cases a with
  | interrupt =>
      have hirq : s.irq = .idle := ha.1
      exact handlerUntil_setIrq (by simp [e1000Step, hirq])
        (by simp [e1000Step, hirq, stepsToLoop])
  | handler => exact handlerUntil_handlerStep h hn hmore ha
  | store bytes status => exact ha.elim
  | raise causes => exact ha.elim

/-- No other step sets the processor back. -/
theorem handlerUntil_other (hn : n ≤ s.ring.stored.length) {a : E1000Action}
    (ha : ¬ Serves s a) : handlerUntil n (e1000Step s a) ≤ handlerUntil n s := by
  cases a with
  | interrupt =>
      simp only [e1000Step]
      split
      · rename_i hirq
        simp only [handlerUntil, hirq, stepsToLoop]
        omega
      · exact Nat.le_refl _
  | handler =>
      have hirq : s.irq = .idle := not_not.mp ha
      simp only [e1000Step, handlerStep, hirq]
      exact Nat.le_refl _
  | store bytes status =>
      simp only [e1000Step, storeFrame]
      split
      · simp only [handlerUntil, loopUntil_deviceStep hn]
        exact Nat.le_refl _
      · exact Nat.le_refl _
  | raise causes => exact Nat.le_refl _

/-- **What is stored is delivered.** -/
theorem E1000Inv.deliversAll (h : E1000Inv buffers s) : DeliversAll s := by
  intro actions henough
  refine run_worksOff (E1000Inv buffers) Serves (fun s => s.ring.stored) (fun s => s.ring.passed)
    handlerUntil (fun _ a h _ => e1000Inv_step a h) (fun _ h => h.ring.inSync.1)
    (fun s a _ _ => ?_) (fun s a _ _ => ?_)
    (fun _ _ _ h _ ha hyet hn => handlerUntil_serves h hn hyet ha)
    (fun _ _ _ _ _ ha _ hn => handlerUntil_other hn ha) h (everyStep_true s actions)
    ((handlerUntil_lt h).trans_le henough)
  · rw [(logs_e1000Step s a).2]
    exact List.prefix_append _ _
  · rw [(logs_e1000Step s a).1, List.length_append]
    exact Nat.le_add_right _ _

end Delivery

/-! ### Runs -/

theorem E1000Inv.noStall (h : E1000Inv buffers s) : NoStall s := by
  intro hirq
  refine ⟨?_, h.pending hirq⟩
  by_cases hdone : Done (s.ring.rxDescs s.ring.rxCur)
  · right
    rcases h.handled hdone with hpending | hwill
    · exact hpending
    · rw [hirq] at hwill
      exact hwill.elim
  · exact Or.inl hdone

theorem e1000Inv_initial (buffers : RxBuffers) (lengths : RxIndex → HalfWord) (mem : Mem)
    (intCause intMask ctrl : Word) :
    E1000Inv buffers (startE1000 buffers lengths mem intCause intMask ctrl) where
  ring := rxInv_initial buffers lengths mem
  outside := fun _ => rfl
  handled := fun hdone => absurd hdone (by simp [Done, startE1000, initReceiveDescriptors])
  enabled := by
    rw [rxt0_iff]
    simp [startE1000]

theorem e1000Inv_run (buffers : RxBuffers) (lengths : RxIndex → HalfWord) (mem : Mem)
    (intCause intMask ctrl : Word) (actions : List E1000Action) :
    EveryState e1000Step (E1000Inv buffers)
      (startE1000 buffers lengths mem intCause intMask ctrl) actions :=
  everyState_of_invariant (fun _ a h _ => e1000Inv_step a h)
    (e1000Inv_initial buffers lengths mem intCause intMask ctrl)
    (everyStep_true _ _)

/-- **No stalled reception.**  At whatever moments frames arrive, and other
causes are raised, no received frame is left behind without `RXT0` pending; the card asks
for an interrupt by this cause, and the handler passes the frame on and ends. -/
theorem e1000_noStall (buffers : RxBuffers) (lengths : RxIndex → HalfWord) (mem : Mem)
    (intCause intMask ctrl : Word) (actions : List E1000Action) :
    EveryState e1000Step
      (fun s => NoStall s ∧ s.intMask &&& RXT0 ≠ 0 ∧ DeliversAll s ∧ HandlerEnds s)
      (startE1000 buffers lengths mem intCause intMask ctrl) actions :=
  (e1000Inv_run buffers lengths mem intCause intMask ctrl actions).imp fun _ h =>
    ⟨h.noStall, h.enabled, h.deliversAll, h.handlerEnds⟩

end Network
end Ninjastorms
