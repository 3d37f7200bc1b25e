import Ninjastorms.Lib.Runs
import Ninjastorms.Network.EthernetSend

/-!
# The transmit ring of the network card

`e1000_send_packet` in `kernel/network/e1000.c`, one statement a step, against the
card.  The driver fills a descriptor, publishes the tail and waits for the status;
the card fetches the descriptor at its head, reads the frame one byte a step,
writes the status back and moves its head.  Other parts of the kernel may store
to memory in between, but not to the frame that is being sent.

`EthernetSend` takes the two together as one step (`e1000SendPacketAt`).
`send_refines_atomic` says that this is what comes of them, and `send_returns` that
the loop ends.
-/

namespace Ninjastorms
namespace Network

open Lib.ByteMemory Lib.Runs

/-- The ring is not empty. -/
local instance txIndex_neZero : NeZero E1000_NUM_TX_DESC := ⟨by decide⟩

/-- Where the driver is in `e1000_send_packet`; `idle` is anywhere outside of it. -/
inductive TxPc where
  | idle
  | entry (pData : Word) (pLen : HalfWord)
  | setAddr (curr : TxIndex) (pData : Word) (pLen : HalfWord)
  | setLength (curr : TxIndex) (pLen : HalfWord)
  | setCmd (curr : TxIndex)
  | clearStatus (curr : TxIndex)
  | advance (curr : TxIndex)
  | writeTail (curr : TxIndex)
  | wait (curr : TxIndex)
deriving DecidableEq

/-- What the card is doing: it reads the frame of a descriptor, `left` bytes of it
to go; it writes the status back; it moves its head. -/
inductive TxCard where
  | idle
  | read (desc : TxDesc) (left : Nat)
  | writeBack (desc : TxDesc)
  | moveHead

/-- A call of `e1000_send_packet`, and the memory at that moment. -/
structure SendCall where
  mem : Mem
  pData : Word
  pLen : HalfWord

/-- The ring, its memory, the driver and the card.  `fifo` has the bytes of the frame
that is being read, `transmitted` lists the frames that have been sent, `calls` the
calls so far and `returned` their results. -/
structure TxRing where
  txDescs : TxIndex → TxDesc
  mem : Mem
  head : TxIndex
  tail : TxIndex
  txCur : TxIndex
  pc : TxPc
  card : TxCard
  fifo : Frame
  transmitted : List Frame
  calls : List SendCall
  returned : List Word

/-- A call, a step of the driver or the card, or a store by somebody else. -/
inductive TxAction where
  | call (pData : Word) (pLen : HalfWord)
  | driver
  | card
  | store (address : Word) (value : Byte)

/-- The state that `init_transmit_descriptors` sets up. -/
def initTransmitDescriptors (txDescs : TxIndex → TxDesc) (mem : Mem) : TxRing where
  txDescs := txDescs
  mem := mem
  head := 0
  tail := 0
  txCur := 0
  pc := .idle
  card := .idle
  fifo := []
  transmitted := []
  calls := []
  returned := []

/-- An assignment to fields of a descriptor. -/
def TxRing.setDesc (s : TxRing) (i : TxIndex) (f : TxDesc → TxDesc) : TxRing :=
  { s with txDescs := Function.update s.txDescs i (f (s.txDescs i)) }

/-- One step of `e1000_send_packet`. -/
def senderStep (host : Host) (s : TxRing) : TxRing :=
  match s.pc with
  | .idle => s
  | .entry pData pLen =>
      if !host.available then { s with pc := .idle, returned := s.returned ++ [-1] }
      else { s with pc := .setAddr s.txCur pData pLen }
  | .setAddr curr pData pLen =>
      { s.setDesc curr fun d => { d with addr := pData.setWidth 64 } with
        pc := .setLength curr pLen }
  | .setLength curr pLen =>
      { s.setDesc curr fun d => { d with length := pLen } with pc := .setCmd curr }
  | .setCmd curr =>
      { s.setDesc curr fun d => { d with cmd := CMD_EOP ||| CMD_IFCS ||| CMD_RS } with
        pc := .clearStatus curr }
  | .clearStatus curr =>
      { s.setDesc curr fun d => { d with status := 0 } with pc := .advance curr }
  | .advance curr => { s with txCur := s.txCur + 1, pc := .writeTail curr }
  | .writeTail curr => { s with tail := s.txCur, pc := .wait curr }
  | .wait curr =>
      if (s.txDescs curr).status = 0 then s
      else { s with pc := .idle, returned := s.returned ++ [0] }

/-- One step of the card.  It sends what it has read at the end of a packet, and
reports the status where it is asked to. -/
def cardStep (s : TxRing) : TxRing :=
  match s.card with
  | .idle =>
      if s.head = s.tail then s
      else { s with card := .read (s.txDescs s.head) (s.txDescs s.head).length.toNat }
  | .read desc 0 =>
      if desc.cmd &&& CMD_EOP ≠ 0 then
        { s with card := .writeBack desc, fifo := [], transmitted := s.transmitted ++ [s.fifo] }
      else { s with card := .writeBack desc }
  | .read desc (left + 1) =>
      let k := desc.length.toNat - (left + 1)
      { s with
        card := .read desc left
        fifo := s.fifo ++ [s.mem (desc.addr.setWidth 32 + BitVec.ofNat 32 k)] }
  | .writeBack desc =>
      if desc.cmd &&& CMD_RS ≠ 0 then
        { s.setDesc s.head fun d => { d with status := d.status ||| TSTA_DD } with
          card := .moveHead }
      else { s with card := .moveHead }
  | .moveHead => { s with head := s.head + 1, card := .idle }

def txStep (host : Host) (s : TxRing) : TxAction → TxRing
  | .call pData pLen =>
      match s.pc with
      | .idle => { s with pc := .entry pData pLen, calls := s.calls ++ [⟨s.mem, pData, pLen⟩] }
      | _ => s
  | .driver => senderStep host s
  | .card => cardStep s
  | .store address value => { s with mem := Function.update s.mem address value }

/-! ### What is promised -/

/-- The frame that is handed over. -/
def SendCall.frame (c : SendCall) : Frame :=
  (List.range c.pLen.toNat).map fun k => c.mem (c.pData + BitVec.ofNat 32 k)

/-- Nobody stores to the frame of a call that has not returned. -/
def FrameUntouched (s : TxRing) : TxAction → Prop
  | .store address _ => ∀ c ∈ s.calls.getLast?, s.pc = .idle ∨
      ¬ offset c.pData address < c.pLen.toNat
  | _ => True

instance (s : TxRing) : (a : TxAction) → Decidable (FrameUntouched s a)
  | .store address _ => inferInstanceAs (Decidable (∀ c ∈ s.calls.getLast?, s.pc = .idle ∨
      ¬ offset c.pData address < c.pLen.toNat))
  | .call _ _ | .driver | .card => inferInstanceAs (Decidable True)

/-- The ring as `EthernetSend` sees it, and the results. -/
def TxRing.view (s : TxRing) : Transmitter × List Word :=
  (⟨s.txDescs, s.txCur, s.transmitted⟩, s.returned)

/-- A call as one step. -/
def sendAtomically (host : Host) (nic : Transmitter × List Word) (c : SendCall) :
    Transmitter × List Word :=
  ((e1000SendPacketAt host c.mem c.pData c.pLen nic.1).2,
    nic.2 ++ [(e1000SendPacketAt host c.mem c.pData c.pLen nic.1).1])

/-- The ring after some calls, each of them as one step. -/
def sentBy (host : Host) (txDescs : TxIndex → TxDesc) (calls : List SendCall) :
    Transmitter × List Word :=
  run (sendAtomically host) (⟨txDescs, 0, []⟩, []) calls

/-- The frames of the calls are sent in order and once, that of the last one before it
returns; when no call is under way the ring is as if each had been one step. -/
def SendsInOrder (host : Host) (txDescs : TxIndex → TxDesc) (s : TxRing) : Prop :=
  (sentBy host txDescs s.calls.dropLast).1.transmitted <+: s.transmitted ∧
  s.transmitted <+: (sentBy host txDescs s.calls).1.transmitted ∧
  (s.pc = .idle → s.view = sentBy host txDescs s.calls)

/-! ### The invariant -/

/-- The descriptor that a call announces. -/
def SendCall.desc (c : SendCall) : TxDesc :=
  ⟨c.pData.setWidth 64, c.pLen, CMD_EOP ||| CMD_IFCS ||| CMD_RS, 0⟩

/-- As much of the descriptor as the driver has written. -/
def descSoFar (c : SendCall) (old : TxDesc) : TxPc → TxDesc
  | .idle | .entry _ _ | .setAddr _ _ _ => old
  | .setLength _ _ => { old with addr := c.desc.addr }
  | .setCmd _ => { old with addr := c.desc.addr, length := c.desc.length }
  | .clearStatus _ => { c.desc with status := old.status }
  | .advance _ | .writeTail _ | .wait _ => c.desc

/-- The local variables agree with the call; `i` is the descriptor it gets. -/
def SendLocals (c : SendCall) (i : TxIndex) : TxPc → Prop
  | .idle => False
  | .entry pData pLen => pData = c.pData ∧ pLen = c.pLen
  | .setAddr curr pData pLen => curr = i ∧ pData = c.pData ∧ pLen = c.pLen
  | .setLength curr pLen => curr = i ∧ pLen = c.pLen
  | .setCmd curr | .clearStatus curr | .advance curr | .writeTail curr | .wait curr => curr = i

/-- The driver has moved on, but not yet published the tail. -/
def Unpublished : TxPc → Bool
  | .writeTail _ => true
  | _ => false

/-- The card has done everything before the descriptor `i`, apart from moving its head. -/
structure CardBefore (s : TxRing) (i : TxIndex) : Prop where
  fifo : s.fifo = []
  head : (s.card = .idle ∧ s.head = i) ∨ (s.card = .moveHead ∧ s.head + 1 = i)

/-- The bytes of the frame are still there. -/
def SendCall.Intact (c : SendCall) (mem : Mem) : Prop :=
  ∀ k < c.pLen.toNat, mem (c.pData + BitVec.ofNat 32 k) = c.mem (c.pData + BitVec.ofNat 32 k)

/-- The call `c` has not published its descriptor; `nic` is the ring before it. -/
structure Preparing (host : Host) (nic : Transmitter × List Word) (c : SendCall) (s : TxRing) :
    Prop where
  notWaiting : ∀ curr, s.pc ≠ .wait curr
  available : host.available = true ∨ s.pc = .entry c.pData c.pLen
  card : CardBefore s nic.1.txCur
  tail : s.tail = nic.1.txCur
  locals : SendLocals c nic.1.txCur s.pc
  descs : s.txDescs = Function.update nic.1.txDescs nic.1.txCur
    (descSoFar c (nic.1.txDescs nic.1.txCur) s.pc)
  cur : s.txCur = if Unpublished s.pc then nic.1.txCur + 1 else nic.1.txCur
  transmitted : s.transmitted = nic.1.transmitted
  returned : s.returned = nic.2

/-- What the card has done of the descriptor that the call `c` waits for. -/
inductive PacketInRing (nic : Transmitter) (c : SendCall) (s : TxRing) : Prop where
  | before (card : CardBefore s nic.txCur)
      (descs : s.txDescs = Function.update nic.txDescs nic.txCur c.desc)
      (transmitted : s.transmitted = nic.transmitted)
  | reading (left : Nat) (card : s.card = .read c.desc left) (head : s.head = nic.txCur)
      (hleft : left ≤ c.pLen.toNat) (fifo : s.fifo = c.frame.take (c.pLen.toNat - left))
      (descs : s.txDescs = Function.update nic.txDescs nic.txCur c.desc)
      (transmitted : s.transmitted = nic.transmitted)
  | writingBack (card : s.card = .writeBack c.desc) (head : s.head = nic.txCur)
      (fifo : s.fifo = [])
      (descs : s.txDescs = Function.update nic.txDescs nic.txCur c.desc)
      (transmitted : s.transmitted = nic.transmitted ++ [c.frame])
  | sent (card : CardBefore s (nic.txCur + 1))
      (descs : s.txDescs = Function.update nic.txDescs nic.txCur { c.desc with status := TSTA_DD })
      (transmitted : s.transmitted = nic.transmitted ++ [c.frame])

/-- The call `c` waits for the card. -/
structure Waiting (host : Host) (nic : Transmitter × List Word) (c : SendCall) (s : TxRing) :
    Prop where
  available : host.available = true
  pc : s.pc = .wait nic.1.txCur
  cur : s.txCur = nic.1.txCur + 1
  tail : s.tail = nic.1.txCur + 1
  returned : s.returned = nic.2
  sending : PacketInRing nic.1 c s

inductive TxInv (host : Host) (txDescs : TxIndex → TxDesc) (s : TxRing) : Prop where
  | idle (pc : s.pc = .idle) (card : CardBefore s s.txCur) (tail : s.tail = s.txCur)
      (view : s.view = sentBy host txDescs s.calls)
  | preparing (before : List SendCall) (c : SendCall) (calls : s.calls = before ++ [c])
      (intact : c.Intact s.mem) (h : Preparing host (sentBy host txDescs before) c s)
  | waiting (before : List SendCall) (c : SendCall) (calls : s.calls = before ++ [c])
      (intact : c.Intact s.mem) (h : Waiting host (sentBy host txDescs before) c s)

/-! ### A call as one step -/

@[simp] theorem length_frame (c : SendCall) : c.frame.length = c.pLen.toNat := by
  simp [SendCall.frame]

theorem sendAtomically_of_available {host : Host} (havail : host.available = true)
    (nic : Transmitter × List Word) (c : SendCall) :
    sendAtomically host nic c =
      (⟨Function.update nic.1.txDescs nic.1.txCur { c.desc with status := TSTA_DD },
        nic.1.txCur + 1, nic.1.transmitted ++ [c.frame]⟩, nic.2 ++ [0]) := by
  have haddr : ((c.pData.setWidth 64).setWidth 32 : Word) = c.pData :=
    BitVec.setWidth_setWidth_of_le c.pData (by decide)
  simp only [sendAtomically, e1000SendPacketAt, havail, Bool.not_true, Bool.false_eq_true, if_false,
    transmit, Function.update_self, Function.update_idem, haddr]
  rfl

theorem sendAtomically_of_not_available {host : Host} (havail : host.available = false)
    (nic : Transmitter × List Word) (c : SendCall) :
    sendAtomically host nic c = (nic.1, nic.2 ++ [-1]) := by
  simp only [sendAtomically, e1000SendPacketAt, havail, Bool.not_false, if_true]

theorem sentBy_append (host : Host) (txDescs : TxIndex → TxDesc) (before : List SendCall)
    (c : SendCall) :
    sentBy host txDescs (before ++ [c]) = sendAtomically host (sentBy host txDescs before) c := by
  simp [sentBy, run]

/-! ### A step of the card -/

section Step

variable {host : Host} {txDescs : TxIndex → TxDesc} {s : TxRing} {i : TxIndex} {c : SendCall}
  {nic : Transmitter × List Word}

/-- With nothing to do, the card at most moves its head. -/
theorem cardStep_before (h : CardBefore s i) (htail : s.tail = i) :
    cardStep s = { s with head := i, card := .idle } := by
  rcases h.head with ⟨hcard, hhead⟩ | ⟨hcard, hhead⟩
  · have hidle : s.head = s.tail := hhead.trans htail.symm
    simp only [cardStep, hcard, if_pos hidle]
    rw [← hcard, ← hhead]
  · simp only [cardStep, hcard, hhead]

theorem cardBefore_step (h : CardBefore s i) (htail : s.tail = i) : CardBefore (cardStep s) i := by
  rw [cardStep_before h htail]
  exact ⟨h.fifo, Or.inl ⟨rfl, rfl⟩⟩

/-- One more byte of the frame. -/
theorem take_frame_succ (c : SendCall) {left : Nat} (hleft : left + 1 ≤ c.pLen.toNat) :
    c.frame.take (c.pLen.toNat - left) = c.frame.take (c.pLen.toNat - (left + 1)) ++
      [c.mem (c.pData + BitVec.ofNat 32 (c.pLen.toNat - (left + 1)))] := by
  have hlt : c.pLen.toNat - (left + 1) < c.frame.length := by
    rw [length_frame]
    omega
  have hsucc : c.pLen.toNat - left = c.pLen.toNat - (left + 1) + 1 := by omega
  have hbyte : c.frame[c.pLen.toNat - (left + 1)] =
      c.mem (c.pData + BitVec.ofNat 32 (c.pLen.toNat - (left + 1))) := by
    simp only [SendCall.frame, List.getElem_map, List.getElem_range]
  rw [hsucc, ← List.take_append_getElem hlt, hbyte]

/-- The card reads one byte, or sends the frame. -/
theorem sending_read {left : Nat} (hcard : s.card = .read c.desc left)
    (hhead : s.head = nic.1.txCur) (hleft : left ≤ c.pLen.toNat)
    (hfifo : s.fifo = c.frame.take (c.pLen.toNat - left))
    (hdescs : s.txDescs = Function.update nic.1.txDescs nic.1.txCur c.desc)
    (htransmitted : s.transmitted = nic.1.transmitted) (hintact : c.Intact s.mem) :
    PacketInRing nic.1 c (cardStep s) := by
  cases left with
  | zero =>
      have hlast : c.desc.cmd &&& CMD_EOP ≠ 0 := by
        show (CMD_EOP ||| CMD_IFCS ||| CMD_RS) &&& CMD_EOP ≠ 0
        decide
      have hframe : s.fifo = c.frame := by
        rw [hfifo, Nat.sub_zero, ← length_frame, List.take_length]
      simp only [cardStep, hcard, if_pos hlast, hframe]
      exact .writingBack rfl hhead rfl hdescs (congrArg (· ++ [c.frame]) htransmitted)
  | succ left =>
      have haddr : (c.desc.addr.setWidth 32 : Word) = c.pData :=
        BitVec.setWidth_setWidth_of_le c.pData (by decide)
      have hbyte := hintact (c.pLen.toNat - (left + 1)) (by omega)
      simp only [cardStep, hcard, haddr]
      refine .reading left rfl hhead (by omega) ?_ hdescs htransmitted
      rw [take_frame_succ c hleft, ← hfifo, ← hbyte]
      rfl

theorem packetInRing_card (h : PacketInRing nic.1 c s) (htail : s.tail = nic.1.txCur + 1)
    (hintact : c.Intact s.mem) : PacketInRing nic.1 c (cardStep s) := by
  cases h with
  | before hbefore hdescs htransmitted =>
      rcases hbefore.head with ⟨hcard, hhead⟩ | ⟨hcard, hhead⟩
      · have hne : ¬ s.head = s.tail := by
          rw [hhead, htail]
          exact fun heq => absurd (left_eq_add.mp heq) (by decide)
        have hdesc : s.txDescs s.head = c.desc := by
          rw [hhead, hdescs, Function.update_self]
        simp only [cardStep, hcard, if_neg hne, hdesc]
        refine .reading c.pLen.toNat rfl hhead (Nat.le_refl _) ?_ hdescs htransmitted
        rw [Nat.sub_self, List.take_zero]
        exact hbefore.fifo
      · simp only [cardStep, hcard]
        exact .before ⟨hbefore.fifo, Or.inl ⟨rfl, hhead⟩⟩ hdescs htransmitted
  | reading left hcard hhead hleft hfifo hdescs htransmitted =>
      exact sending_read hcard hhead hleft hfifo hdescs htransmitted hintact
  | writingBack hcard hhead hfifo hdescs htransmitted =>
      have hreport : c.desc.cmd &&& CMD_RS ≠ 0 := by
        show (CMD_EOP ||| CMD_IFCS ||| CMD_RS) &&& CMD_RS ≠ 0
        decide
      have hstatus : c.desc.status ||| TSTA_DD = TSTA_DD := by
        show (0 : Byte) ||| TSTA_DD = TSTA_DD
        decide
      simp only [cardStep, hcard, if_pos hreport]
      refine .sent ⟨hfifo, Or.inr ⟨rfl, congrArg (· + 1) hhead⟩⟩ ?_ htransmitted
      simp only [TxRing.setDesc]
      rw [hhead, hdescs, Function.update_idem, Function.update_self, hstatus]
  | sent hbefore hdescs htransmitted =>
      have hstep := cardStep_before hbefore htail
      refine .sent (cardBefore_step hbefore htail) ?_ ?_
      · rw [hstep]
        exact hdescs
      · rw [hstep]
        exact htransmitted

/-- What the card leaves alone in any step. -/
theorem cardStep_keeps (s : TxRing) :
    (cardStep s).pc = s.pc ∧ (cardStep s).mem = s.mem ∧ (cardStep s).txCur = s.txCur ∧
    (cardStep s).tail = s.tail ∧ (cardStep s).calls = s.calls ∧
    (cardStep s).returned = s.returned := by
  unfold cardStep
  split
  · split <;> exact ⟨rfl, rfl, rfl, rfl, rfl, rfl⟩
  · split <;> exact ⟨rfl, rfl, rfl, rfl, rfl, rfl⟩
  · exact ⟨rfl, rfl, rfl, rfl, rfl, rfl⟩
  · split <;> exact ⟨rfl, rfl, rfl, rfl, rfl, rfl⟩
  · exact ⟨rfl, rfl, rfl, rfl, rfl, rfl⟩

theorem txInv_card (h : TxInv host txDescs s) : TxInv host txDescs (cardStep s) := by
  cases h with
  | idle hpc hcard htail hview =>
      rw [cardStep_before hcard htail]
      exact .idle hpc ⟨hcard.fifo, Or.inl ⟨rfl, rfl⟩⟩ htail hview
  | preparing before c hcalls hintact h =>
      rw [cardStep_before h.card h.tail]
      exact .preparing before c hcalls hintact
        { h with card := ⟨h.card.fifo, Or.inl ⟨rfl, rfl⟩⟩ }
  | waiting before c hcalls hintact h =>
      have hsending := packetInRing_card h.sending h.tail hintact
      obtain ⟨hpc, hmem, hcur, htail, hcallsEq, hreturned⟩ := cardStep_keeps s
      refine .waiting before c (hcallsEq.trans hcalls) (by rw [hmem]; exact hintact)
        ⟨h.available, hpc.trans h.pc, hcur.trans h.cur, htail.trans h.tail,
          hreturned.trans h.returned, hsending⟩

/-! ### A step of the driver -/

/-- An assignment to a field of the descriptor. -/
theorem Preparing.setDesc (h : Preparing host nic c s) (havail : host.available = true)
    {f : TxDesc → TxDesc} {pc : TxPc}
    (hnot : ∀ curr, pc ≠ .wait curr) (hlocals : SendLocals c nic.1.txCur pc)
    (hdesc : descSoFar c (nic.1.txDescs nic.1.txCur) pc =
      f (descSoFar c (nic.1.txDescs nic.1.txCur) s.pc))
    (hcur : Unpublished pc = Unpublished s.pc) :
    Preparing host nic c { s.setDesc nic.1.txCur f with pc := pc } where
  notWaiting := hnot
  available := Or.inl havail
  card := ⟨h.card.fifo, h.card.head⟩
  tail := h.tail
  locals := hlocals
  descs := by
    simp only [TxRing.setDesc]
    rw [h.descs, Function.update_idem, Function.update_self, hdesc]
  cur := by
    simp only [hcur]
    exact h.cur
  transmitted := h.transmitted
  returned := h.returned

/-- The tail is published. -/
theorem Preparing.publish (h : Preparing host nic c s) (havail : host.available = true)
    {curr : TxIndex} (hpc : s.pc = .writeTail curr) :
    Waiting host nic c { s with tail := s.txCur, pc := .wait curr } := by
  have hlocals := h.locals
  have hcur := h.cur
  have hdescs := h.descs
  simp only [hpc, SendLocals] at hlocals
  simp only [hpc, Unpublished, if_true] at hcur
  simp only [hpc, descSoFar] at hdescs
  subst hlocals
  exact ⟨havail, rfl, hcur, hcur, h.returned,
    .before ⟨h.card.fifo, h.card.head⟩ hdescs h.transmitted⟩

/-- The card is not there: the call returns at once. -/
theorem Preparing.giveUp (h : Preparing host nic c s) (havail : host.available = false)
    {pData : Word} {pLen : HalfWord} (hpc : s.pc = .entry pData pLen) :
    let s' : TxRing := { s with pc := .idle, returned := s.returned ++ [-1] }
    CardBefore s' s'.txCur ∧ s'.tail = s'.txCur ∧ s'.view = sendAtomically host nic c := by
  have hcur := h.cur
  have hdescs := h.descs
  simp only [hpc, Unpublished, Bool.false_eq_true, if_false] at hcur
  simp only [hpc, descSoFar, Function.update_eq_self] at hdescs
  refine ⟨⟨h.card.fifo, ?_⟩, h.tail.trans hcur.symm, ?_⟩
  · rw [hcur]
    exact h.card.head
  · rw [sendAtomically_of_not_available havail]
    simp only [TxRing.view, hdescs, hcur, h.transmitted, h.returned]

theorem txInv_preparing {before : List SendCall} (hcalls : s.calls = before ++ [c])
    (hintact : c.Intact s.mem) (h : Preparing host (sentBy host txDescs before) c s) :
    TxInv host txDescs (senderStep host s) := by
  have hlocals := h.locals
  have havail : (∀ pData pLen, s.pc ≠ .entry pData pLen) → host.available = true := fun hnot =>
    h.available.resolve_right (hnot c.pData c.pLen)
  unfold senderStep
  cases hpc : s.pc with
  | idle =>
      rw [hpc] at hlocals
      exact hlocals.elim
  | entry pData pLen =>
      simp only [hpc, SendLocals] at hlocals
      cases hthere : host.available with
      | false =>
          obtain ⟨hcard, htail, hview⟩ := h.giveUp hthere hpc
          refine .idle rfl hcard htail (hview.trans ?_)
          rw [← sentBy_append, ← hcalls]
          rfl
      | true =>
          have hcur := h.cur
          have hdescs := h.descs
          simp only [hpc, Unpublished, Bool.false_eq_true, if_false] at hcur
          simp only [hpc, descSoFar] at hdescs
          exact .preparing before c hcalls hintact ⟨by simp, Or.inl hthere,
            ⟨h.card.fifo, h.card.head⟩, h.tail, ⟨hcur, hlocals⟩, hdescs, hcur, h.transmitted,
            h.returned⟩
  | setAddr curr pData pLen =>
      simp only [hpc, SendLocals] at hlocals
      obtain ⟨rfl, rfl, rfl⟩ := hlocals
      exact .preparing before c hcalls hintact (h.setDesc (havail (by simp [hpc])) (by simp)
        ⟨rfl, rfl⟩ (by rw [hpc]; rfl) (by rw [hpc]; rfl))
  | setLength curr pLen =>
      simp only [hpc, SendLocals] at hlocals
      obtain ⟨rfl, rfl⟩ := hlocals
      exact .preparing before c hcalls hintact (h.setDesc (havail (by simp [hpc])) (by simp)
        rfl (by rw [hpc]; rfl) (by rw [hpc]; rfl))
  | setCmd curr =>
      simp only [hpc, SendLocals] at hlocals
      subst hlocals
      exact .preparing before c hcalls hintact (h.setDesc (havail (by simp [hpc])) (by simp)
        rfl (by rw [hpc]; rfl) (by rw [hpc]; rfl))
  | clearStatus curr =>
      simp only [hpc, SendLocals] at hlocals
      subst hlocals
      exact .preparing before c hcalls hintact (h.setDesc (havail (by simp [hpc])) (by simp)
        rfl (by rw [hpc]; rfl) (by rw [hpc]; rfl))
  | advance curr =>
      have hcur := h.cur
      have hdescs := h.descs
      simp only [hpc, SendLocals] at hlocals
      simp only [hpc, Unpublished, Bool.false_eq_true, if_false] at hcur
      simp only [hpc, descSoFar] at hdescs
      exact .preparing before c hcalls hintact ⟨by simp, Or.inl (havail (by simp [hpc])),
        ⟨h.card.fifo, h.card.head⟩, h.tail, hlocals, hdescs, congrArg (· + 1) hcur,
        h.transmitted, h.returned⟩
  | writeTail curr =>
      exact .waiting before c hcalls hintact (h.publish (havail (by simp [hpc])) hpc)
  | wait curr => exact absurd hpc (h.notWaiting curr)

/-- The status is not zero before the card has sent the frame. -/
theorem Waiting.returns (h : Waiting host nic c s)
    (hstatus : ¬ (s.txDescs nic.1.txCur).status = 0) :
    CardBefore s (nic.1.txCur + 1) ∧
    ({ s with returned := s.returned ++ [0] } : TxRing).view = sendAtomically host nic c := by
  have hzero : s.txDescs = Function.update nic.1.txDescs nic.1.txCur c.desc →
      (s.txDescs nic.1.txCur).status = 0 := fun hdescs => by
    rw [hdescs, Function.update_self]
    rfl
  cases h.sending with
  | before hcard hdescs => exact absurd (hzero hdescs) hstatus
  | reading left hcard hhead hleft hfifo hdescs => exact absurd (hzero hdescs) hstatus
  | writingBack hcard hhead hfifo hdescs => exact absurd (hzero hdescs) hstatus
  | sent hcard hdescs htransmitted =>
      refine ⟨hcard, ?_⟩
      rw [sendAtomically_of_available h.available]
      simp only [TxRing.view, hdescs, h.cur, htransmitted, h.returned]

theorem txInv_driver (h : TxInv host txDescs s) : TxInv host txDescs (senderStep host s) := by
  cases h with
  | idle hpc hcard htail hview =>
      simp only [senderStep, hpc]
      exact .idle hpc hcard htail hview
  | preparing before c hcalls hintact h => exact txInv_preparing hcalls hintact h
  | waiting before c hcalls hintact h =>
      simp only [senderStep, h.pc]
      split
      · exact .waiting before c hcalls hintact h
      · rename_i hstatus
        obtain ⟨hcard, hview⟩ := h.returns hstatus
        rw [← sentBy_append, ← hcalls] at hview
        refine .idle rfl ⟨hcard.fifo, ?_⟩ (h.tail.trans h.cur.symm) hview
        rw [h.cur]
        exact hcard.head

/-! ### A call, and a store by somebody else -/

theorem txInv_call (h : TxInv host txDescs s) (pData : Word) (pLen : HalfWord) :
    TxInv host txDescs (txStep host s (.call pData pLen)) := by
  cases hpc : s.pc with
  | idle =>
      cases h with
      | idle _ hcard htail hview =>
          simp only [txStep, hpc]
          have hnic : (sentBy host txDescs s.calls) = s.view := hview.symm
          refine .preparing s.calls ⟨s.mem, pData, pLen⟩ rfl (fun k _ => rfl) ?_
          rw [hnic]
          exact ⟨by simp, Or.inr rfl, ⟨hcard.fifo, hcard.head⟩, htail, ⟨rfl, rfl⟩,
            (Function.update_eq_self _ _).symm, rfl, rfl, rfl⟩
      | preparing before c hcalls hintact h =>
          have hlocals := h.locals
          rw [hpc] at hlocals
          exact hlocals.elim
      | waiting before c hcalls hintact h => exact absurd (hpc.symm.trans h.pc) (by simp)
  | _ =>
      simp only [txStep, hpc]
      exact h

/-- A store that is not into the frame. -/
theorem intact_store {mem : Mem} {address : Word} (value : Byte) (hintact : c.Intact mem)
    (hout : ¬ offset c.pData address < c.pLen.toNat) :
    c.Intact (Function.update mem address value) := by
  intro k hk
  have hlen : c.pLen.toNat < 2 ^ 16 := c.pLen.isLt
  have hne : c.pData + BitVec.ofNat 32 k ≠ address := by
    rintro rfl
    rw [offset_add_ofNat _ (by omega)] at hout
    exact hout hk
  rw [Function.update_of_ne hne]
  exact hintact k hk

theorem txInv_store (h : TxInv host txDescs s) {address : Word} {value : Byte}
    (hok : FrameUntouched s (.store address value)) :
    TxInv host txDescs (txStep host s (.store address value)) := by
  cases h with
  | idle hpc hcard htail hview =>
      exact .idle hpc ⟨hcard.fifo, hcard.head⟩ htail hview
  | preparing before c hcalls hintact h =>
      have hout := (hok c (by rw [hcalls, List.getLast?_concat]; rfl)).resolve_left fun hpc => by
        have hlocals := h.locals
        rw [hpc] at hlocals
        exact hlocals
      exact .preparing before c hcalls (intact_store value hintact hout)
        ⟨h.notWaiting, h.available, ⟨h.card.fifo, h.card.head⟩, h.tail, h.locals, h.descs, h.cur,
          h.transmitted, h.returned⟩
  | waiting before c hcalls hintact h =>
      have hout := (hok c (by rw [hcalls, List.getLast?_concat]; rfl)).resolve_left fun hpc =>
        absurd (hpc.symm.trans h.pc) (by simp)
      refine .waiting before c hcalls (intact_store value hintact hout)
        ⟨h.available, h.pc, h.cur, h.tail, h.returned, ?_⟩
      cases h.sending with
      | before hcard => exact .before ⟨hcard.fifo, hcard.head⟩ ‹_› ‹_›
      | reading left => exact .reading left ‹_› ‹_› ‹_› ‹_› ‹_› ‹_›
      | writingBack => exact .writingBack ‹_› ‹_› ‹_› ‹_› ‹_›
      | sent hcard => exact .sent ⟨hcard.fifo, hcard.head⟩ ‹_› ‹_›

theorem txInv_step (s : TxRing) (a : TxAction) (h : TxInv host txDescs s)
    (hok : FrameUntouched s a) : TxInv host txDescs (txStep host s a) := by
  cases a with
  | call pData pLen => exact txInv_call h pData pLen
  | driver => exact txInv_driver h
  | card => exact txInv_card h
  | store address value => exact txInv_store h hok

theorem txInv_initial (host : Host) (txDescs : TxIndex → TxDesc) (mem : Mem) :
    TxInv host txDescs (initTransmitDescriptors txDescs mem) :=
  .idle rfl ⟨rfl, Or.inl ⟨rfl, rfl⟩⟩ rfl rfl

/-- The frames of a call more. -/
theorem transmitted_sentBy (host : Host) (txDescs : TxIndex → TxDesc) (before : List SendCall)
    (c : SendCall) :
    (sentBy host txDescs before).1.transmitted <+:
      (sentBy host txDescs (before ++ [c])).1.transmitted := by
  rw [sentBy_append]
  cases havail : host.available with
  | false =>
      rw [sendAtomically_of_not_available havail]
  | true =>
      rw [sendAtomically_of_available havail]
      exact List.prefix_append _ _

theorem TxInv.sendsInOrder (h : TxInv host txDescs s) : SendsInOrder host txDescs s := by
  have hsplit : ∀ before c, s.calls = before ++ [c] → s.calls.dropLast = before := by
    intro before c hcalls
    rw [hcalls, List.dropLast_concat]
  cases h with
  | idle hpc hcard htail hview =>
      have htransmitted : s.transmitted = (sentBy host txDescs s.calls).1.transmitted :=
        congrArg (fun v => v.1.transmitted) hview
      refine ⟨?_, ?_, fun _ => hview⟩
      · rw [htransmitted]
        cases hcalls : s.calls using List.reverseRecOn with
        | nil => exact List.prefix_refl _
        | append_singleton before c =>
            rw [List.dropLast_concat]
            exact transmitted_sentBy host txDescs before c
      · rw [htransmitted]
  | preparing before c hcalls hintact h =>
      refine ⟨?_, ?_, fun hpc => ?_⟩
      · rw [hsplit before c hcalls, h.transmitted]
      · rw [hcalls, h.transmitted]
        exact transmitted_sentBy host txDescs before c
      · have hlocals := h.locals
        rw [hpc] at hlocals
        exact hlocals.elim
  | waiting before c hcalls hintact h =>
      have hafter : (sentBy host txDescs s.calls).1.transmitted =
          (sentBy host txDescs before).1.transmitted ++ [c.frame] := by
        rw [hcalls, sentBy_append, sendAtomically_of_available h.available]
      have hcases : s.transmitted = (sentBy host txDescs before).1.transmitted ∨
          s.transmitted = (sentBy host txDescs before).1.transmitted ++ [c.frame] := by
        cases h.sending with
        | before _ _ htransmitted => exact Or.inl htransmitted
        | reading _ _ _ _ _ _ htransmitted => exact Or.inl htransmitted
        | writingBack _ _ _ _ htransmitted => exact Or.inr htransmitted
        | sent _ _ htransmitted => exact Or.inr htransmitted
      refine ⟨?_, ?_, fun hpc => absurd (hpc.symm.trans h.pc) (by simp)⟩
      · rw [hsplit before c hcalls]
        rcases hcases with heq | heq
        · rw [heq]
        · rw [heq]
          exact List.prefix_append _ _
      · rw [hafter]
        rcases hcases with heq | heq
        · rw [heq]
          exact List.prefix_append _ _
        · rw [heq]

end Step

/-! ### Progress -/

/-- The statements that are left of a call; the loop counts as one. -/
def sendLeft : TxPc → Nat
  | .idle => 0
  | .entry _ _ => 8
  | .setAddr _ _ _ => 7
  | .setLength _ _ => 6
  | .setCmd _ => 5
  | .clearStatus _ => 4
  | .advance _ => 3
  | .writeTail _ => 2
  | .wait _ => 1

/-- What the card has to do for a frame. -/
def frameWork (len : HalfWord) : Nat :=
  len.toNat + 4

/-- What the card will have to do for the call that has not published its descriptor. -/
def unpublishedWork (s : TxRing) : Nat :=
  match s.pc with
  | .idle | .wait _ => 0
  | _ => (s.calls.getLast?.map fun c => frameWork c.pLen).getD 0

/-- What the card has to do from the descriptor `i` on. -/
def workFrom (s : TxRing) (i : TxIndex) : Nat :=
  if i = s.tail then 0 else frameWork (s.txDescs i).length

def cardWork (s : TxRing) : Nat :=
  match s.card with
  | .idle => workFrom s s.head
  | .read _ left => left + 3
  | .writeBack _ => 2
  | .moveHead => workFrom s (s.head + 1) + 1

/-- The steps that are left until the call returns and the card is idle. -/
def txWork (s : TxRing) : Nat :=
  sendLeft s.pc + unpublishedWork s + cardWork s

/-- The driver is in a call, and has not to wait; the card has something to do. -/
def TxEnabled (s : TxRing) : TxAction → Prop
  | .driver => s.pc ≠ .idle ∧ ∀ curr, s.pc = .wait curr → (s.txDescs curr).status ≠ 0
  | .card => ¬ (s.card = .idle ∧ s.head = s.tail)
  | .call _ _ | .store _ _ => False

/-- No call is under way, the card is idle, and everything has been sent. -/
def AllSent (host : Host) (txDescs : TxIndex → TxDesc) (s : TxRing) : Prop :=
  s.pc = .idle ∧ s.card = .idle ∧ s.view = sentBy host txDescs s.calls

section Progress

variable {host : Host} {txDescs : TxIndex → TxDesc} {s : TxRing} {i : TxIndex} {c : SendCall}
  {nic : Transmitter × List Word}

/-- What is left to a card that has nothing but its head to move. -/
def headWork : TxCard → Nat
  | .moveHead => 1
  | _ => 0

theorem cardWork_before (h : CardBefore s i) (htail : s.tail = i) :
    cardWork s = headWork s.card := by
  rcases h.head with ⟨hcard, hhead⟩ | ⟨hcard, hhead⟩
  · simp only [cardWork, hcard, workFrom, hhead, htail, if_true, headWork]
  · simp only [cardWork, hcard, workFrom, hhead, htail, if_true, headWork]

theorem cardWork_cardStep_before (h : CardBefore s i) (htail : s.tail = i)
    (ha : TxEnabled s .card) : cardWork (cardStep s) < cardWork s := by
  rcases h.head with ⟨hcard, hhead⟩ | ⟨hcard, hhead⟩
  · exact absurd ⟨hcard, hhead.trans htail.symm⟩ ha
  · rw [cardWork_before h htail, cardWork_before (cardBefore_step h htail)
      (by rw [cardStep_before h htail]; exact htail), cardStep_before h htail, hcard]
    exact Nat.one_pos

/-- Every step of the card is paid for. -/
theorem cardWork_packetInRing (h : PacketInRing nic.1 c s) (htail : s.tail = nic.1.txCur + 1)
    (ha : TxEnabled s .card) : cardWork (cardStep s) < cardWork s := by
  cases h with
  | before hbefore hdescs htransmitted =>
      rcases hbefore.head with ⟨hcard, hhead⟩ | ⟨hcard, hhead⟩
      · have hne : ¬ s.head = s.tail := fun heq => ha ⟨hcard, heq⟩
        simp only [cardStep, hcard, if_neg hne, cardWork, workFrom, frameWork]
        omega
      · simp only [cardStep, hcard, cardWork]
        exact Nat.lt_succ_self _
  | reading left hcard hhead hleft hfifo hdescs htransmitted =>
      cases left with
      | zero =>
          simp only [cardStep, hcard]
          split <;> simp only [cardWork, hcard] <;> omega
      | succ left =>
          simp only [cardStep, hcard, cardWork]
          omega
  | writingBack hcard hhead hfifo hdescs htransmitted =>
      have hlast : s.head + 1 = s.tail := by rw [hhead, htail]
      simp only [cardStep, hcard]
      split <;> simp only [cardWork, hcard, workFrom, TxRing.setDesc, hlast, if_true] <;> omega
  | sent hbefore hdescs htransmitted => exact cardWork_cardStep_before hbefore htail ha

/-- The tail is published: the card has a frame to send. -/
theorem cardWork_announced (h : CardBefore s i) (htail : s.tail = i + 1) :
    cardWork s = headWork s.card + frameWork (s.txDescs i).length := by
  have hne : ¬ i = s.tail := by
    rw [htail]
    exact fun heq => absurd (left_eq_add.mp heq) (by decide)
  rcases h.head with ⟨hcard, hhead⟩ | ⟨hcard, hhead⟩
  · simp only [cardWork, hcard, workFrom, hhead, if_neg hne, headWork]
    omega
  · simp only [cardWork, hcard, workFrom, hhead, if_neg hne, headWork]
    omega

theorem txWork_card (h : TxInv host txDescs s) (ha : TxEnabled s .card) :
    txWork (cardStep s) < txWork s := by
  obtain ⟨hpc, -, -, -, hcalls, -⟩ := cardStep_keeps s
  have hcard : cardWork (cardStep s) < cardWork s := by
    cases h with
    | idle _ hcard htail => exact cardWork_cardStep_before hcard htail ha
    | preparing _ _ _ _ h => exact cardWork_cardStep_before h.card h.tail ha
    | waiting _ _ _ _ h => exact cardWork_packetInRing h.sending h.tail ha
  have hunpublished : unpublishedWork (cardStep s) = unpublishedWork s := by
    simp only [unpublishedWork, hpc, hcalls]
  simp only [txWork, hpc, hunpublished]
  omega

/-- A statement that does not publish the descriptor. -/
theorem txWork_statement (h : Preparing host nic c s) {s' : TxRing} (hcard : s'.card = s.card)
    (hhead : s'.head = s.head) (hfifo : s'.fifo = s.fifo) (htail : s'.tail = s.tail)
    (hleft : sendLeft s'.pc + unpublishedWork s' < sendLeft s.pc + unpublishedWork s) :
    txWork s' < txWork s := by
  have hbefore : CardBefore s' nic.1.txCur := by
    refine ⟨hfifo.trans h.card.fifo, ?_⟩
    rw [hcard, hhead]
    exact h.card.head
  have hwork := cardWork_before h.card h.tail
  have hwork' := cardWork_before hbefore (htail.trans h.tail)
  rw [hcard] at hwork'
  simp only [txWork]
  omega

theorem txWork_preparing {before : List SendCall} (hcalls : s.calls = before ++ [c])
    (h : Preparing host nic c s) : txWork (senderStep host s) < txWork s := by
  have hlast : s.calls.getLast? = some c := by rw [hcalls, List.getLast?_concat]
  unfold senderStep
  cases hpc : s.pc with
  | idle =>
      have hlocals := h.locals
      rw [hpc] at hlocals
      exact hlocals.elim
  | entry pData pLen =>
      cases host.available with
      | false => exact txWork_statement h rfl rfl rfl rfl (by simp [hpc, sendLeft, unpublishedWork])
      | true => exact txWork_statement h rfl rfl rfl rfl (by simp [hpc, sendLeft, unpublishedWork])
  | writeTail curr =>
      -- what was to come is now the card's
      have hcur := h.cur
      have hdescs := h.descs
      simp only [hpc, Unpublished, if_true] at hcur
      simp only [hpc, descSoFar] at hdescs
      have hlength : (s.txDescs nic.1.txCur).length = c.pLen := by
        rw [hdescs, Function.update_self]
        rfl
      have hannounced := cardWork_announced (s := { s with tail := s.txCur, pc := .wait curr })
        ⟨h.card.fifo, h.card.head⟩ hcur
      have hwork := cardWork_before h.card h.tail
      simp only [hlength] at hannounced
      simp only [txWork, hannounced, hwork, hpc, sendLeft, unpublishedWork, hlast, Option.map_some,
        Option.getD_some]
      omega
  | wait curr => exact absurd hpc (h.notWaiting curr)
  | _ =>
      refine txWork_statement h rfl rfl rfl rfl ?_
      simp [hpc, sendLeft, unpublishedWork, TxRing.setDesc]

theorem txWork_driver (h : TxInv host txDescs s) (ha : TxEnabled s .driver) :
    txWork (senderStep host s) < txWork s := by
  obtain ⟨hbusy, hstatus⟩ := ha
  cases h with
  | idle hpc => exact absurd hpc hbusy
  | preparing before c hcalls _ h => exact txWork_preparing hcalls h
  | waiting before c hcalls _ h =>
      have hpc := h.pc
      simp only [senderStep, hpc, if_neg (hstatus _ hpc)]
      simp only [txWork, hpc, sendLeft, unpublishedWork, cardWork, workFrom]
      omega

/-- **Every step is paid for.** -/
theorem txWork_step {a : TxAction} (h : TxInv host txDescs s) (ha : TxEnabled s a) :
    txWork (txStep host s a) < txWork s := by
  cases a with
  | driver => exact txWork_driver h ha
  | card => exact txWork_card h ha
  | call pData pLen => exact ha.elim
  | store address value => exact ha.elim

/-- **Nothing to do means that all is sent.** -/
theorem allSent_of_stuck (h : TxInv host txDescs s) (hstuck : ∀ a, ¬ TxEnabled s a) :
    AllSent host txDescs s := by
  have hrest : s.card = .idle ∧ s.head = s.tail := by
    by_contra hbusy
    exact hstuck .card hbusy
  cases h with
  | idle hpc hcard htail hview => exact ⟨hpc, hrest.1, hview⟩
  | preparing before c hcalls hintact h =>
      refine absurd ⟨fun hpc => ?_, fun curr hpc => absurd hpc (h.notWaiting curr)⟩ (hstuck .driver)
      have hlocals := h.locals
      rw [hpc] at hlocals
      exact hlocals
  | waiting before c hcalls hintact h =>
      -- the descriptor of the call is behind the head, so its status is set
      have hhead := hrest.2.trans h.tail
      have hpast : s.head ≠ (sentBy host txDescs before).1.txCur := by
        rw [hhead]
        exact fun heq => absurd (add_eq_left.mp heq) (by decide)
      cases h.sending with
      | before hcard =>
          rcases hcard.head with ⟨-, hat⟩ | ⟨hmove, -⟩
          · exact absurd hat hpast
          · exact absurd (hrest.1.symm.trans hmove) (by simp)
      | reading left hcard => exact absurd (hrest.1.symm.trans hcard) (by simp)
      | writingBack hcard => exact absurd (hrest.1.symm.trans hcard) (by simp)
      | sent hcard hdescs =>
          refine absurd ⟨by simp [h.pc], fun curr hpc => ?_⟩ (hstuck .driver)
          obtain rfl : (sentBy host txDescs before).1.txCur = curr := by
            simpa using h.pc.symm.trans hpc
          rw [hdescs, Function.update_self]
          show TSTA_DD ≠ 0
          decide

/-- Work is on the calls that are there. -/
theorem calls_work {work : List TxAction} (hwork : EveryStep (txStep host) TxEnabled s work) :
    (run (txStep host) s work).calls = s.calls := by
  have hkeep : ∀ s' a, s'.calls = s.calls → TxEnabled s' a → (txStep host s' a).calls = s.calls := by
    intro s' a hcalls ha
    cases a with
    | driver =>
        refine Eq.trans ?_ hcalls
        show (senderStep host s').calls = s'.calls
        unfold senderStep
        split <;> (try split) <;> rfl
    | card => exact (cardStep_keeps s').2.2.2.2.1.trans hcalls
    | call pData pLen => exact ha.elim
    | store address value => exact ha.elim
  exact everyState_iff_reached.mp (everyState_of_invariant hkeep rfl hwork) work (List.prefix_refl _)

end Progress

/-! ### Runs -/

/-- **`e1000_send_packet` is one step for everybody else.**  However its statements,
the steps of the card and the stores of others are interleaved, the frames are sent
as if each call were one step. -/
theorem send_refines_atomic (host : Host) (txDescs : TxIndex → TxDesc) (mem : Mem)
    (actions : List TxAction)
    (hok : EveryStep (txStep host) FrameUntouched (initTransmitDescriptors txDescs mem) actions) :
    EveryState (txStep host) (SendsInOrder host txDescs) (initTransmitDescriptors txDescs mem)
      actions :=
  (everyState_of_invariant txInv_step (txInv_initial host txDescs mem) hok).imp
    fun _ h => h.sendsInOrder

/-- A frame of two bytes, a store beside it, and the next call before the card has
moved its head. -/
def someSends : List TxAction :=
  .call 0x1000 2 :: List.replicate 7 .driver ++ [.card, .store 0x1002 9, .card, .driver, .card, .card,
    .card, .driver, .store 0x1000 5, .call 0x1002 1, .driver, .driver, .card, .driver]

theorem someSends_refine_atomic :
    EveryState (txStep ⟨false, 0, 0, fun _ => 0, true⟩)
      (SendsInOrder ⟨false, 0, 0, fun _ => 0, true⟩ fun _ => ⟨0, 0, 0, 0⟩)
      (initTransmitDescriptors (fun _ => ⟨0, 0, 0, 0⟩) fun _ => 0) someSends :=
  send_refines_atomic ⟨false, 0, 0, fun _ => 0, true⟩ (fun _ => ⟨0, 0, 0, 0⟩) (fun _ => 0) someSends
    (by decide +kernel)

/-- **`e1000_send_packet` returns.**  Whatever has happened before, the driver and the card
can take `txWork` steps at most without another call; when they can take none, all
calls have returned and their frames have been sent; and they get there. -/
theorem send_returns (host : Host) (txDescs : TxIndex → TxDesc) (mem : Mem)
    (actions : List TxAction)
    (hok : EveryStep (txStep host) FrameUntouched (initTransmitDescriptors txDescs mem) actions) :
    let s := run (txStep host) (initTransmitDescriptors txDescs mem) actions
    (∀ work, EveryStep (txStep host) TxEnabled s work →
      work.length ≤ txWork s ∧ (run (txStep host) s work).calls = s.calls ∧
      ((∀ a, ¬ TxEnabled (run (txStep host) s work) a) →
        AllSent host txDescs (run (txStep host) s work))) ∧
    ∃ work, EveryStep (txStep host) TxEnabled s work ∧
      AllSent host txDescs (run (txStep host) s work) := by
  intro s
  have hs : TxInv host txDescs s := everyState_iff_reached.mp
    (everyState_of_invariant txInv_step (txInv_initial host txDescs mem) hok) actions
    (List.prefix_refl _)
  have hkeep : ∀ s a, TxInv host txDescs s → TxEnabled s a → TxInv host txDescs (txStep host s a) := by
    intro s a h ha
    refine txInv_step s a h ?_
    cases a with
    | store address value => exact ha.elim
    | _ => trivial
  have hless : ∀ s a, TxInv host txDescs s → TxEnabled s a → txWork (txStep host s a) < txWork s :=
    fun s a h ha => txWork_step h ha
  have hrun : ∀ work, EveryStep (txStep host) TxEnabled s work →
      TxInv host txDescs (run (txStep host) s work) := fun work hwork =>
    everyState_iff_reached.mp (everyState_of_invariant hkeep hs hwork) work (List.prefix_refl _)
  constructor
  · intro work hwork
    have hlength := length_le_of_decreasing txWork hkeep hless hs hwork
    exact ⟨by omega, calls_work hwork, allSent_of_stuck (hrun work hwork)⟩
  · obtain ⟨work, hwork, hstuck⟩ := exists_maximal_run txWork hkeep hless hs
    exact ⟨work, hwork, allSent_of_stuck (hrun work hwork) hstuck⟩

/-- The same calls, and then nothing but work. -/
theorem someSends_return :
    let host : Host := ⟨false, 0, 0, fun _ => 0, true⟩
    let s := run (txStep host) (initTransmitDescriptors (fun _ => ⟨0, 0, 0, 0⟩) fun _ => 0) someSends
    (∀ work, EveryStep (txStep host) TxEnabled s work →
      work.length ≤ txWork s ∧ (run (txStep host) s work).calls = s.calls ∧
      ((∀ a, ¬ TxEnabled (run (txStep host) s work) a) →
        AllSent host (fun _ => ⟨0, 0, 0, 0⟩) (run (txStep host) s work))) ∧
    ∃ work, EveryStep (txStep host) TxEnabled s work ∧
      AllSent host (fun _ => ⟨0, 0, 0, 0⟩) (run (txStep host) s work) :=
  send_returns ⟨false, 0, 0, fun _ => 0, true⟩ (fun _ => ⟨0, 0, 0, 0⟩) (fun _ => 0) someSends
    (by decide +kernel)

end Network
end Ninjastorms
