import Mathlib.Algebra.Order.BigOperators.Group.List
import Ninjastorms.Lib.ByteMemory
import Ninjastorms.Network.PacketQueue

/-!
# The receive ring of the network card

The loop of `receive_packet` in `kernel/network/e1000.c` against the card.  The
two share 32 descriptors and their buffers in memory, and two registers: the
card advances `head`, the driver publishes `tail`.

The driver makes small steps (`RxPc`); `insert_packet` copies one byte a step.
Between any two of them the card may store a frame.  All facts about the ring
are stated from the descriptor `next tail`, which is the one the loop is at
until it has written the tail: the descriptors from there up to `head` are the
done ones, apart from the first one once its status is cleared.

`loopUntil` bounds the steps of the loop until the first `n` frames have been passed
on.  It is paid out of the length of these frames (`price`), and the card, which only
appends to them, does not bring it up.
-/

namespace Ninjastorms
namespace Network

open Lib.CircularBuffer Lib.ByteMemory Lib.Runs

/-- `E1000_NUM_RX_DESC`. -/
abbrev E1000_NUM_RX_DESC : Nat := 32

/-- An index into `rx_descs`. -/
abbrev RxIndex := Fin E1000_NUM_RX_DESC

/-- `e1000_rx_desc_t`, the fields that the driver reads. -/
structure RxDesc where
  addr : DoubleWord
  length : HalfWord
  status : Byte

/-- The addresses that `malloc` has returned for the buffers: they do not overlap. -/
structure RxBuffers where
  addr : RxIndex → Word
  apart : ∀ i j, i ≠ j → Separate (addr i) MAX_PACKET_SIZE (addr j) MAX_PACKET_SIZE

/-- The buffers that 32 requests of this size get in a fresh heap. -/
def freshHeapBuffers : RxBuffers where
  addr i := BitVec.ofNat 32 (0x5000010 + 8224 * i.val)
  apart := by
    have hval : ∀ i : RxIndex, (BitVec.ofNat 32 (0x5000010 + 8224 * i.val)).toNat =
        0x5000010 + 8224 * i.val := by
      intro i
      have hi : i.val < 32 := i.isLt
      rw [BitVec.toNat_ofNat]
      exact Nat.mod_eq_of_lt (by omega)
    have hsize : MAX_PACKET_SIZE = 8192 := rfl
    have hnum : E1000_NUM_RX_DESC = 32 := rfl
    intro i j hne
    have hi := i.isLt
    have hj := j.isLt
    rcases Nat.lt_or_gt_of_ne fun heq => hne (Fin.ext heq) with hlt | hgt
    · exact separate_of_toNat_le (by rw [hval, hval]; omega) (by rw [hval]; omega)
    · exact (separate_of_toNat_le (by rw [hval, hval]; omega) (by rw [hval]; omega)).symm

instance : Inhabited RxBuffers := ⟨freshHeapBuffers⟩

/-- Where the driver is in `receive_packet`; `entry` is anywhere outside of it. -/
inductive RxPc where
  | entry
  | test
  | readBuf
  | readLength (buf : Word)
  | insert (buf : Word) (len : HalfWord) (copied : List Byte)
  | clearStatus
  | oldCur
  | advance (old : RxIndex)
  | writeTail (old : RxIndex)

/-- The ring, its memory, and the driver.  `stored` lists the frames that the
card has stored, `passed` the packets given to `insert_packet`. -/
structure RxRing where
  rxDescs : RxIndex → RxDesc
  mem : Mem
  head : RxIndex
  tail : RxIndex
  rxCur : RxIndex
  pc : RxPc
  stored : List Packet
  passed : List Packet

/-- The card stores a frame, or the driver makes a step. -/
inductive RxAction where
  | device (bytes : List Byte) (status : Byte)
  | driver

/-- The state that `init_receive_descriptors` sets up. -/
def initReceiveDescriptors (buffers : RxBuffers) (lengths : RxIndex → HalfWord) (mem : Mem) :
    RxRing where
  rxDescs := fun i => ⟨(buffers.addr i).setWidth 64, lengths i, 0⟩
  mem := mem
  head := 0
  tail := 31
  rxCur := 0
  pc := .entry
  stored := []
  passed := []

/-- The address of the buffer of a descriptor, as the driver computes it. -/
def RxRing.buf (s : RxRing) (i : RxIndex) : Word :=
  (s.rxDescs i).addr.setWidth 32

/-- The card: while `head` is not `tail` it may store a frame that fits into the
buffer of descriptor `head`, and then it sets the done bit and advances. -/
def deviceStep (s : RxRing) (bytes : List Byte) (status : Byte) : RxRing :=
  if s.head ≠ s.tail ∧ bytes.length ≤ MAX_PACKET_SIZE then
    { s with
      mem := writeBytes s.mem (s.buf s.head) bytes.length fun k => bytes.getD k 0
      rxDescs := Function.update s.rxDescs s.head
        { s.rxDescs s.head with
          length := BitVec.ofNat 16 bytes.length
          status := status ||| 1 }
      head := next s.head
      stored := s.stored ++ [⟨BitVec.ofNat 16 bytes.length, bytes⟩] }
  else
    s

/-- One step of `receive_packet`.  `available` is `e1000_is_available`. -/
def driverStep (available : Bool) (s : RxRing) : RxRing :=
  match s.pc with
  | .entry => if available then { s with pc := .test } else s
  | .test =>
      if (s.rxDescs s.rxCur).status &&& 0x1 ≠ 0 then { s with pc := .readBuf }
      else { s with pc := .entry }
  | .readBuf => { s with pc := .readLength (s.buf s.rxCur) }
  | .readLength buf => { s with pc := .insert buf (s.rxDescs s.rxCur).length [] }
  | .insert buf len copied =>
      if copied.length < len.toNat then
        { s with pc := .insert buf len (copied ++ [s.mem (buf + BitVec.ofNat 32 copied.length)]) }
      else
        { s with pc := .clearStatus, passed := s.passed ++ [⟨len, copied⟩] }
  | .clearStatus =>
      { s with
        rxDescs := Function.update s.rxDescs s.rxCur { s.rxDescs s.rxCur with status := 0 }
        pc := .oldCur }
  | .oldCur => { s with pc := .advance s.rxCur }
  | .advance old => { s with rxCur := next s.rxCur, pc := .writeTail old }
  | .writeTail old => { s with tail := old, pc := .test }

def rxStep (available : Bool) (s : RxRing) : RxAction → RxRing
  | .device bytes status => deviceStep s bytes status
  | .driver => driverStep available s

/-! ### What is promised -/

/-- The done bit of a descriptor. -/
def Done (desc : RxDesc) : Prop :=
  desc.status &&& 0x1 ≠ 0

/-- The frame that a done descriptor announces. -/
def RxRing.frame (s : RxRing) (i : RxIndex) : Packet where
  length := (s.rxDescs i).length
  bytes := (List.range (s.rxDescs i).length.toNat).map fun k => s.mem (s.buf i + BitVec.ofNat 32 k)

/-- The driver is at the head of the loop, or outside of it. -/
def AtBoundary (pc : RxPc) : Prop :=
  pc = .entry ∨ pc = .test

/-- What has been passed on is a beginning of what was stored; at the head of
the loop the done descriptors are those from `rx_cur` up to `head`, they hold
the rest of what was stored, and the tail is the index before `rx_cur`. -/
def RingInSync (s : RxRing) : Prop :=
  s.passed <+: s.stored ∧ (AtBoundary s.pc →
    (∀ i, Done (s.rxDescs i) ↔ i ∈ interval s.rxCur s.head) ∧
    next s.tail = s.rxCur ∧
    s.stored = s.passed ++ contents s.frame s.rxCur s.head)

/-- The card changes no done descriptor and no byte of its buffer. -/
def KeepsDone (available : Bool) (s : RxRing) (a : RxAction) : Prop :=
  ∀ bytes status, a = .device bytes status → ∀ i, Done (s.rxDescs i) →
    (rxStep available s a).rxDescs i = s.rxDescs i ∧
    ∀ k < MAX_PACKET_SIZE, (rxStep available s a).mem (s.buf i + BitVec.ofNat 32 k) =
      s.mem (s.buf i + BitVec.ofNat 32 k)

def RxAction.isDriver : RxAction → Bool
  | .driver => true
  | _ => false

/-- The number of steps of the driver among the actions. -/
def driverSteps (actions : List RxAction) : Nat :=
  actions.countP RxAction.isDriver

/-- The steps that the loop needs for a ring that is full of the longest frames. -/
def drainSteps : Nat :=
  31 * (MAX_PACKET_SIZE + 13) + 6

/-- The driver passes on all that has been stored by now within `drainSteps` steps,
whatever the card stores meanwhile. -/
def Drains (s : RxRing) : Prop :=
  ∀ actions, drainSteps ≤ driverSteps actions → s.stored <+: (run (rxStep true) s actions).passed

/-! ### The invariant -/

/-- The status of the descriptor that the loop is at has been cleared. -/
def Cleared : RxPc → Bool
  | .oldCur | .advance _ | .writeTail _ => true
  | _ => false

/-- The packet that the loop is at has been passed on. -/
def PassedOn : RxPc → Bool
  | .clearStatus | .oldCur | .advance _ | .writeTail _ => true
  | _ => false

/-- The loop is at a descriptor that it has found done. -/
def AtDone : RxPc → Bool
  | .entry | .test => false
  | _ => true

/-- The local variables agree with the descriptor `i` that the loop is at. -/
def LocalsAgree (s : RxRing) (i : RxIndex) : RxPc → Prop
  | .readLength buf => buf = s.buf i
  | .insert buf len copied => buf = s.buf i ∧ len = (s.rxDescs i).length ∧
      copied.length ≤ len.toNat ∧
      copied = (List.range copied.length).map fun k => s.mem (s.buf i + BitVec.ofNat 32 k)
  | .advance old | .writeTail old => old = i
  | _ => True

/-- The index from which on the descriptors are done. -/
def firstDone (s : RxRing) : RxIndex :=
  if Cleared s.pc then next (next s.tail) else next s.tail

/-- The index from which on the packets have not been passed on. -/
def firstPending (s : RxRing) : RxIndex :=
  if PassedOn s.pc then next (next s.tail) else next s.tail

/-- The value of `rx_cur`: it runs ahead of the tail before the tail is written. -/
def loopIndex (s : RxRing) : RxPc → RxIndex
  | .writeTail _ => next (next s.tail)
  | _ => next s.tail

structure RxInv (buffers : RxBuffers) (s : RxRing) : Prop where
  addr : ∀ i, s.buf i = buffers.addr i
  done : ∀ i, Done (s.rxDescs i) ↔ i ∈ interval (firstDone s) s.head
  order : s.stored = s.passed ++ contents s.frame (firstPending s) s.head
  fits : ∀ p ∈ s.stored, p.length.toNat ≤ MAX_PACKET_SIZE
  cur : s.rxCur = loopIndex s s.pc
  busy : AtDone s.pc → next s.tail ≠ s.head
  locals : LocalsAgree s (next s.tail) s.pc

section Step

variable {buffers : RxBuffers} {s : RxRing} {available : Bool}

theorem RxInv.inSync (h : RxInv buffers s) : RingInSync s := by
  refine ⟨⟨_, h.order.symm⟩, fun hpc => ?_⟩
  have hphase : Cleared s.pc = false ∧ PassedOn s.pc = false ∧
      loopIndex s s.pc = next s.tail := by
    rcases hpc with hpc | hpc
    · rw [hpc]
      exact ⟨rfl, rfl, rfl⟩
    · rw [hpc]
      exact ⟨rfl, rfl, rfl⟩
  obtain ⟨hcleared, hpassed, hloop⟩ := hphase
  have hdone := h.done
  have horder := h.order
  simp only [firstDone, hcleared, Bool.false_eq_true, if_false] at hdone
  simp only [firstPending, hpassed, Bool.false_eq_true, if_false] at horder
  rw [h.cur, hloop]
  exact ⟨hdone, rfl, horder⟩

/-! ### A step of the card -/

theorem done_set (desc : RxDesc) (length : HalfWord) (status : Byte) :
    Done { desc with length := length, status := status ||| 1 } := by
  have hbit : ((status ||| 1) &&& 0x1 : Byte).getLsbD 0 = true := by simp
  intro hzero
  rw [show ((status ||| 1) &&& 0x1 : Byte) = 0 from hzero] at hbit
  simp at hbit

/-- What the card can do. -/
theorem deviceStep_cases (s : RxRing) (bytes : List Byte) (status : Byte) :
    deviceStep s bytes status = s ∨
    (s.head ≠ s.tail ∧ bytes.length ≤ MAX_PACKET_SIZE ∧ deviceStep s bytes status =
      { s with
        mem := writeBytes s.mem (s.buf s.head) bytes.length fun k => bytes.getD k 0
        rxDescs := Function.update s.rxDescs s.head
          { s.rxDescs s.head with
            length := BitVec.ofNat 16 bytes.length
            status := status ||| 1 }
        head := next s.head
        stored := s.stored ++ [⟨BitVec.ofNat 16 bytes.length, bytes⟩] }) := by
  by_cases hroom : s.head ≠ s.tail ∧ bytes.length ≤ MAX_PACKET_SIZE
  · exact Or.inr ⟨hroom.1, hroom.2, if_pos hroom⟩
  · exact Or.inl (if_neg hroom)

/-- The card leaves every descriptor but `head` alone, and its buffer. -/
theorem deviceStep_other (haddr : ∀ i, s.buf i = buffers.addr i) (bytes : List Byte)
    (status : Byte) {i : RxIndex} (hi : i ≠ s.head) :
    (deviceStep s bytes status).rxDescs i = s.rxDescs i ∧
    ∀ k < MAX_PACKET_SIZE, (deviceStep s bytes status).mem (s.buf i + BitVec.ofNat 32 k) =
      s.mem (s.buf i + BitVec.ofNat 32 k) := by
  rcases deviceStep_cases s bytes status with heq | ⟨-, hfit, heq⟩
  · rw [heq]
    exact ⟨rfl, fun _ _ => rfl⟩
  · have hsize : MAX_PACKET_SIZE = 8192 := rfl
    have hapart : Separate (s.buf i) MAX_PACKET_SIZE (s.buf s.head) bytes.length := by
      rw [haddr, haddr]
      exact (buffers.apart _ _ hi).mono (Nat.le_refl _) hfit
    have hmem : (deviceStep s bytes status).mem =
        writeBytes s.mem (s.buf s.head) bytes.length fun k => bytes.getD k 0 := by rw [heq]
    constructor
    · rw [heq]
      exact Function.update_of_ne hi _ _
    · intro k hk
      rw [hmem, writeBytes_outside]
      refine fun hin => hapart _ ⟨?_, hin⟩
      rw [offset_add_ofNat _ (by omega)]
      exact hk

/-- A frame that fits stays what it is when the card stores another one. -/
theorem frame_deviceStep_other (haddr : ∀ i, s.buf i = buffers.addr i) (bytes : List Byte)
    (status : Byte) {i : RxIndex} (hi : i ≠ s.head)
    (hfits : (s.frame i).length.toNat ≤ MAX_PACKET_SIZE) :
    (deviceStep s bytes status).frame i = s.frame i := by
  obtain ⟨hdesc, hmem⟩ := deviceStep_other haddr bytes status hi
  have hbuf : (deviceStep s bytes status).buf i = s.buf i := by rw [RxRing.buf, RxRing.buf, hdesc]
  rw [RxRing.frame, RxRing.frame, hdesc, hbuf]
  refine congrArg (Packet.mk _) (List.map_congr_left fun k hk => hmem k ?_)
  have hlt : k < (s.rxDescs i).length.toNat := List.mem_range.mp hk
  have hle : (s.rxDescs i).length.toNat ≤ MAX_PACKET_SIZE := hfits
  omega

theorem buf_deviceStep (s : RxRing) (bytes : List Byte) (status : Byte) (i : RxIndex) :
    (deviceStep s bytes status).buf i = s.buf i := by
  rcases deviceStep_cases s bytes status with heq | ⟨-, -, heq⟩
  · rw [heq]
  · rw [heq]
    simp only [RxRing.buf]
    by_cases hi : i = s.head
    · subst hi
      rw [Function.update_self]
    · rw [Function.update_of_ne hi]

/-- The frame that has just been stored. -/
theorem frame_deviceStep_head {bytes : List Byte} {status : Byte}
    (hroom : s.head ≠ s.tail) (hfit : bytes.length ≤ MAX_PACKET_SIZE) :
    (deviceStep s bytes status).frame s.head = ⟨BitVec.ofNat 16 bytes.length, bytes⟩ := by
  have hsize : MAX_PACKET_SIZE = 8192 := rfl
  have hlen : (BitVec.ofNat 16 bytes.length).toNat = bytes.length := by
    rw [BitVec.toNat_ofNat]
    exact Nat.mod_eq_of_lt (by omega)
  have hmem : ∀ k < bytes.length,
      (deviceStep s bytes status).mem (s.buf s.head + BitVec.ofNat 32 k) = bytes.getD k 0 := by
    intro k hk
    simp only [deviceStep, if_pos (And.intro hroom hfit)]
    rw [writeBytes_at hk (by omega)]
  have hdesc : ((deviceStep s bytes status).rxDescs s.head).length =
      BitVec.ofNat 16 bytes.length := by
    simp only [deviceStep, if_pos (And.intro hroom hfit), Function.update_self]
  rw [RxRing.frame, hdesc, hlen, buf_deviceStep]
  refine congrArg (Packet.mk _) ?_
  refine List.ext_getElem (by simp) fun k hk hk' => ?_
  rw [List.getElem_map, List.getElem_range, hmem k hk', List.getD_eq_getElem?_getD,
    List.getElem?_eq_getElem hk', Option.getD_some]

/-- The card does not run into the descriptors that are still done. -/
theorem RxInv.next_head_ne (h : RxInv buffers s) (hroom : s.head ≠ s.tail) :
    next s.head ≠ firstDone s ∧ next s.head ≠ firstPending s := by
  have htail : next s.head ≠ next s.tail := fun heq => hroom (next_injective heq)
  have hcur : AtDone s.pc → next s.head ≠ next (next s.tail) := fun hbusy heq =>
    h.busy hbusy (next_injective heq).symm
  unfold firstDone firstPending
  cases hpc : s.pc <;>
    simp only [hpc, AtDone, Cleared, PassedOn, if_true, Bool.false_eq_true, if_false,
      forall_const] at hcur ⊢ <;>
    first
      | exact ⟨htail, htail⟩
      | exact ⟨htail, hcur⟩
      | exact ⟨hcur, hcur⟩

theorem RxInv.fits_frame (h : RxInv buffers s) {i : RxIndex}
    (hi : i ∈ interval (firstPending s) s.head) :
    (s.frame i).length.toNat ≤ MAX_PACKET_SIZE := by
  apply h.fits
  rw [h.order]
  exact List.mem_append_right _ (List.mem_map_of_mem hi)

/-- What the driver has read so far stays what memory says. -/
theorem RxInv.locals_deviceStep (h : RxInv buffers s) (bytes : List Byte) (status : Byte) :
    LocalsAgree (deviceStep s bytes status) (next s.tail) s.pc := by
  have hlocals := h.locals
  cases hpc : s.pc with
  | insert buf len copied =>
      -- the descriptor that is being copied is done, so the card is elsewhere
      simp only [hpc, LocalsAgree] at hlocals ⊢
      obtain ⟨hbuf, hlen, hle, hcopied⟩ := hlocals
      have hne : next s.tail ≠ s.head := h.busy (by rw [hpc]; rfl)
      have hin : next s.tail ∈ interval (firstPending s) s.head := by
        simp only [firstPending, hpc, PassedOn, Bool.false_eq_true, if_false]
        rw [interval_next_left hne]
        exact List.mem_cons_self
      have hsize : (s.rxDescs (next s.tail)).length.toNat ≤ MAX_PACKET_SIZE :=
        h.fits_frame hin
      obtain ⟨hdesc, hmem⟩ := deviceStep_other h.addr bytes status hne
      rw [buf_deviceStep, hdesc]
      refine ⟨hbuf, hlen, hle, hcopied.trans (List.map_congr_left fun k hk => ?_)⟩
      have hlt := List.mem_range.mp hk
      exact (hmem k (by rw [hlen] at hle; omega)).symm
  | readLength buf =>
      simp only [hpc, LocalsAgree] at hlocals ⊢
      rw [buf_deviceStep]
      exact hlocals
  | advance old => simpa only [hpc, LocalsAgree] using hlocals
  | writeTail old => simpa only [hpc, LocalsAgree] using hlocals
  | _ => trivial

/-- The card appends a frame behind the done descriptors. -/
theorem rxInv_device (h : RxInv buffers s) (bytes : List Byte) (status : Byte) :
    RxInv buffers (deviceStep s bytes status) := by
  rcases deviceStep_cases s bytes status with heq | ⟨hroom, hfit, heq⟩
  · rw [heq]
    exact h
  · obtain ⟨hdone, hpending⟩ := h.next_head_ne hroom
    have hpc : (deviceStep s bytes status).pc = s.pc := by rw [heq]
    have htail : (deviceStep s bytes status).tail = s.tail := by rw [heq]
    have hcur : (deviceStep s bytes status).rxCur = s.rxCur := by rw [heq]
    have hhead : (deviceStep s bytes status).head = next s.head := by rw [heq]
    have hstored : (deviceStep s bytes status).stored =
        s.stored ++ [⟨BitVec.ofNat 16 bytes.length, bytes⟩] := by rw [heq]
    have hpassed : (deviceStep s bytes status).passed = s.passed := by rw [heq]
    have hfirst : firstDone (deviceStep s bytes status) = firstDone s ∧
        firstPending (deviceStep s bytes status) = firstPending s := by
      simp only [firstDone, firstPending, hpc, htail, and_self]
    constructor
    · intro i
      rw [buf_deviceStep, h.addr]
    · intro i
      rw [hfirst.1, hhead, interval_next_right hdone, List.mem_append, List.mem_singleton]
      by_cases hi : i = s.head
      · -- the descriptor of the new frame gets the done bit
        subst hi
        rw [heq]
        simp only [Function.update_self, or_true, iff_true]
        exact done_set _ _ _
      · rw [(deviceStep_other h.addr bytes status hi).1, h.done]
        simp only [hi, or_false]
    · rw [hstored, hpassed, hfirst.2, hhead, contents_write s.frame hpending,
        frame_deviceStep_head hroom hfit, h.order, List.append_assoc]
      intro i hi
      exact frame_deviceStep_other h.addr bytes status
        (ne_of_mem_of_not_mem hi (stop_notMem_interval _ _)) (h.fits_frame hi)
    · rw [hstored]
      intro p hp
      rcases List.mem_append.mp hp with hold | hnew
      · exact h.fits p hold
      · rw [List.mem_singleton.mp hnew]
        refine (Nat.le_trans ?_ hfit)
        rw [BitVec.toNat_ofNat]
        exact Nat.mod_le _ _
    · rw [hcur, hpc, h.cur]
      cases s.pc <;> simp only [loopIndex, htail]
    · rw [hpc, htail, hhead]
      intro _ hnext
      exact hroom (next_injective hnext).symm
    · rw [hpc, htail]
      exact h.locals_deviceStep bytes status

theorem keepsDone_step (h : RxInv buffers s) (a : RxAction) : KeepsDone available s a := by
  rintro bytes status rfl i hi
  have hne : i ≠ s.head := by
    rintro rfl
    exact stop_notMem_interval _ _ ((h.done _).mp hi)
  exact deviceStep_other h.addr bytes status hne

/-! ### A step of the driver -/

/-- A step that only moves the program counter within a phase of the loop. -/
theorem RxInv.setPc (h : RxInv buffers s) {pc : RxPc} (hcleared : Cleared pc = Cleared s.pc)
    (hpassed : PassedOn pc = PassedOn s.pc)
    (hcur : s.rxCur = loopIndex s pc)
    (hbusy : AtDone pc → next s.tail ≠ s.head) (hlocals : LocalsAgree s (next s.tail) pc) :
    RxInv buffers { s with pc := pc } where
  addr := h.addr
  done := by simpa only [firstDone, hcleared] using h.done
  order := by
    have horder := h.order
    simp only [firstPending, hpassed] at horder ⊢
    exact horder
  fits := h.fits
  cur := by cases pc <;> exact hcur
  busy := hbusy
  locals := by cases pc <;> exact hlocals

theorem contents_pending (h : RxInv buffers s) (hbusy : next s.tail ≠ s.head)
    (hpassed : PassedOn s.pc = false) :
    s.stored = s.passed ++ s.frame (next s.tail) ::
      contents s.frame (next (next s.tail)) s.head := by
  have horder := h.order
  simp only [firstPending, hpassed, Bool.false_eq_true, if_false] at horder
  rwa [contents_take hbusy] at horder

/-- The copy is complete: the packet is passed on. -/
theorem rxInv_passOn (h : RxInv buffers s) {buf : Word} {len : HalfWord} {copied : List Byte}
    (hpc : s.pc = .insert buf len copied) (hfull : ¬ copied.length < len.toNat) :
    RxInv buffers { s with pc := .clearStatus, passed := s.passed ++ [⟨len, copied⟩] } := by
  have hbusy : next s.tail ≠ s.head := h.busy (by rw [hpc]; rfl)
  have hlocals := h.locals
  have hdone := h.done
  have hcur := h.cur
  simp only [hpc, LocalsAgree, loopIndex] at hlocals hcur
  simp only [firstDone, hpc, Cleared] at hdone
  obtain ⟨-, hlen, hle, hcopied⟩ := hlocals
  have hframe : s.frame (next s.tail) = ⟨len, copied⟩ := by
    rw [RxRing.frame, ← hlen, show len.toNat = copied.length by omega, ← hcopied]
  refine ⟨h.addr, hdone, ?_, h.fits, hcur, fun _ => hbusy, trivial⟩
  have horder := contents_pending h hbusy (by rw [hpc]; rfl)
  rw [hframe] at horder
  simp only [firstPending, PassedOn, if_true, List.append_assoc, List.singleton_append]
  exact horder

/-- The status of the descriptor is cleared, and it is not done any more. -/
theorem rxInv_clear (h : RxInv buffers s) (hpc : s.pc = .clearStatus) :
    RxInv buffers { s with
      rxDescs := Function.update s.rxDescs s.rxCur { s.rxDescs s.rxCur with status := 0 }
      pc := .oldCur } := by
  have hbusy : next s.tail ≠ s.head := h.busy (by rw [hpc]; rfl)
  have hcur := h.cur
  have hdone := h.done
  have horder := h.order
  simp only [hpc, loopIndex] at hcur
  simp only [firstDone, hpc, Cleared, Bool.false_eq_true, if_false] at hdone
  simp only [firstPending, hpc, PassedOn, if_true] at horder
  have hsplit := interval_next_left hbusy
  have hnotin : next s.tail ∉ interval (next (next s.tail)) s.head := by
    have hnodup := nodup_interval (next s.tail) s.head
    rw [hsplit] at hnodup
    exact (List.nodup_cons.mp hnodup).1
  rw [hcur]
  refine ⟨fun i => ?_, fun i => ?_, ?_, h.fits, rfl, fun _ => hbusy, trivial⟩
  · rw [← h.addr i]
    simp only [RxRing.buf]
    by_cases hi : i = next s.tail
    · subst hi
      rw [Function.update_self]
    · rw [Function.update_of_ne hi]
  · simp only [firstDone, Cleared, if_true]
    by_cases hi : i = next s.tail
    · subst hi
      rw [Function.update_self]
      simp [Done, hnotin]
    · rw [Function.update_of_ne hi, hdone, hsplit, List.mem_cons]
      simp only [hi, false_or]
  · -- the cleared descriptor is not among the pending ones
    simp only [firstPending, PassedOn, if_true]
    rw [horder]
    refine congrArg (s.passed ++ ·) (contents_congr fun i hi => ?_)
    have hne : i ≠ next s.tail := ne_of_mem_of_not_mem hi hnotin
    simp only [RxRing.frame, RxRing.buf, Function.update_of_ne hne]

/-- The tail is published: the loop is at the next descriptor. -/
theorem rxInv_writeTail (h : RxInv buffers s) {old : RxIndex} (hpc : s.pc = .writeTail old) :
    RxInv buffers { s with tail := old, pc := .test } := by
  have hcur := h.cur
  have hdone := h.done
  have horder := h.order
  have hlocals := h.locals
  simp only [hpc, LocalsAgree, loopIndex] at hcur hlocals
  simp only [firstDone, hpc, Cleared, if_true] at hdone
  simp only [firstPending, hpc, PassedOn, if_true] at horder
  subst hlocals
  exact ⟨h.addr, hdone, horder, h.fits, hcur, by simp [AtDone], trivial⟩

theorem rxInv_driver (h : RxInv buffers s) : RxInv buffers (driverStep available s) := by
  have hcur := h.cur
  have hlocals := h.locals
  have hbusy := h.busy
  unfold driverStep
  cases hpc : s.pc with
  | entry =>
      simp only [hpc, loopIndex] at hcur
      simp only
      split
      · exact h.setPc (by rw [hpc]; rfl) (by rw [hpc]; rfl) hcur (by simp [AtDone]) trivial
      · exact h
  | test =>
      simp only [hpc, loopIndex] at hcur
      simp only
      split
      · rename_i hstatus
        refine h.setPc (by rw [hpc]; rfl) (by rw [hpc]; rfl) hcur (fun _ hempty => ?_) trivial
        -- a done descriptor lies between `rx_cur` and `head`
        have hin := (h.done s.rxCur).mp hstatus
        simp [firstDone, hpc, Cleared, hcur, hempty] at hin
      · exact h.setPc (by rw [hpc]; rfl) (by rw [hpc]; rfl) hcur (by simp [AtDone]) trivial
  | readBuf =>
      simp only [hpc, loopIndex] at hcur hbusy
      exact h.setPc (by rw [hpc]; rfl) (by rw [hpc]; rfl) hcur (fun _ => hbusy rfl)
        (congrArg s.buf hcur)
  | readLength buf =>
      simp only [hpc, LocalsAgree, loopIndex] at hcur hbusy hlocals
      refine h.setPc (by rw [hpc]; rfl) (by rw [hpc]; rfl) hcur (fun _ => hbusy rfl) ?_
      exact ⟨hlocals, by rw [hcur], Nat.zero_le _, rfl⟩
  | insert buf len copied =>
      simp only [hpc, LocalsAgree, loopIndex] at hcur hbusy hlocals
      simp only
      split
      · -- one more byte of the frame
        rename_i hmore
        obtain ⟨hbuf, hlen, hle, hcopied⟩ := hlocals
        refine h.setPc (by rw [hpc]; rfl) (by rw [hpc]; rfl) hcur (fun _ => hbusy rfl) ?_
        refine ⟨hbuf, hlen, by rw [List.length_append]; exact hmore, ?_⟩
        rw [List.length_append, List.length_singleton, List.range_succ, List.map_append, ← hcopied,
          hbuf]
        rfl
      · rename_i hfull
        exact rxInv_passOn h hpc hfull
  | clearStatus => exact rxInv_clear h hpc
  | oldCur =>
      simp only [hpc, loopIndex] at hcur hbusy
      exact h.setPc (by rw [hpc]; rfl) (by rw [hpc]; rfl) hcur (fun _ => hbusy rfl) hcur
  | advance old =>
      simp only [hpc, LocalsAgree, loopIndex] at hcur hbusy hlocals
      have hdone := h.done
      have horder := h.order
      simp only [firstDone, hpc, Cleared] at hdone
      simp only [firstPending, hpc, PassedOn] at horder
      exact ⟨h.addr, hdone, horder, h.fits, congrArg next hcur, fun _ => hbusy rfl, hlocals⟩
  | writeTail old => exact rxInv_writeTail h hpc

end Step

/-! ### How long the loop takes -/

/-- The packet whose copy is complete, so that the next step gives it to `insert_packet`. -/
def RxRing.passesOn (s : RxRing) : Option Packet :=
  match s.pc with
  | .insert _ len copied => if copied.length < len.toNat then none else some ⟨len, copied⟩
  | _ => none

theorem passed_driverStep (available : Bool) (s : RxRing) :
    (driverStep available s).passed = s.passed ++ s.passesOn.toList ∧
    (driverStep available s).stored = s.stored := by
  unfold driverStep RxRing.passesOn
  cases s.pc with
  | entry => cases available <;> simp
  | test =>
      simp only
      split <;> simp
  | insert buf len copied =>
      simp only
      split <;> simp
  | _ => simp

/-- A frame on the card: the steps of the loop, and five of the network task. -/
def price (p : Packet) : Nat :=
  p.length.toNat + 13

/-- The steps up to the end of the loop of `receive_packet`, when the frames on
the card are worth `work`. -/
def stepsFrom (work : Nat) : RxPc → Nat
  | .entry => work + 2
  | .test => work + 1
  | .readBuf => work
  | .readLength _ => work - 1
  | .insert _ _ copied => work - 2 - copied.length
  | .clearStatus => work + 5
  | .oldCur => work + 4
  | .advance _ => work + 3
  | .writeTail _ => work + 2

/-- The first `n` frames that were stored, as far as they have not been passed on. -/
def RxRing.awaited (n : Nat) (s : RxRing) : List Packet :=
  (s.stored.take n).drop s.passed.length

/-- The steps until the first `n` frames have been passed on, at most. -/
def loopUntil (n : Nat) (s : RxRing) : Nat :=
  stepsFrom ((s.awaited n).map price).sum s.pc

section Progress

variable {buffers : RxBuffers} {s : RxRing} {n : Nat}

/-- Every step of the loop is paid for, also the work that it makes for the network
task, if the frames on the card are worth `work` before it and `work'` after it. -/
theorem stepsFrom_driverStep (h : RxInv buffers s) (hstay : (driverStep true s).pc ≠ .entry)
    {work work' : Nat} (hwork : work = (s.passesOn.toList.map price).sum + work')
    (hpay : AtDone s.pc → PassedOn s.pc = false → price (s.frame (next s.tail)) ≤ work) :
    stepsFrom work' (driverStep true s).pc + 5 * s.passesOn.toList.length <
      stepsFrom work s.pc := by
  -- apart from the step that ends a copy, nothing is passed on
  have hkept : ∀ pc, (driverStep true s).pc = pc → s.passesOn = none →
      stepsFrom work pc < stepsFrom work s.pc →
      stepsFrom work' (driverStep true s).pc + 5 * s.passesOn.toList.length <
        stepsFrom work s.pc := by
    intro pc hnext hnone hless
    rw [hnone] at hwork ⊢
    have hsame : work = work' := by simpa using hwork
    rw [hnext, ← hsame]
    exact hless
  cases hpc : s.pc with
  | entry =>
      rw [hpc] at hkept
      exact hkept .test (by simp [driverStep, hpc]) (by simp [RxRing.passesOn, hpc])
        (by simp only [stepsFrom]; omega)
  | test =>
      rw [hpc] at hkept
      have hnext : (driverStep true s).pc = .readBuf := by
        unfold driverStep at hstay ⊢
        rw [hpc] at hstay ⊢
        simp only at hstay ⊢
        split at hstay
        · rename_i hdone
          rw [if_pos hdone]
        · exact absurd rfl hstay
      exact hkept .readBuf hnext (by simp [RxRing.passesOn, hpc]) (by simp only [stepsFrom]; omega)
  | readBuf =>
      have hpay := hpay (by rw [hpc]; rfl) (by rw [hpc]; rfl)
      rw [hpc] at hkept
      rw [price] at hpay
      exact hkept (.readLength (s.buf s.rxCur)) (by simp [driverStep, hpc])
        (by simp [RxRing.passesOn, hpc]) (by simp only [stepsFrom]; omega)
  | readLength buf =>
      have hpay := hpay (by rw [hpc]; rfl) (by rw [hpc]; rfl)
      rw [hpc] at hkept
      rw [price] at hpay
      exact hkept (.insert buf (s.rxDescs s.rxCur).length []) (by simp [driverStep, hpc])
        (by simp [RxRing.passesOn, hpc]) (by simp only [stepsFrom, List.length_nil]; omega)
  | insert buf len copied =>
      have hpay := hpay (by rw [hpc]; rfl) (by rw [hpc]; rfl)
      have hlocals := h.locals
      rw [hpc] at hlocals hkept
      obtain ⟨-, hlen, hle, -⟩ := hlocals
      rw [price, RxRing.frame, ← hlen] at hpay
      simp only at hpay
      by_cases hmore : copied.length < len.toNat
      · exact hkept (.insert buf len (copied ++ [s.mem (buf + BitVec.ofNat 32 copied.length)]))
          (by simp [driverStep, hpc, hmore]) (by simp [RxRing.passesOn, hpc, hmore])
          (by simp only [stepsFrom, List.length_append, List.length_singleton]; omega)
      · -- the price of the frame pays for the rest of the loop and for the task
        have hpassed : s.passesOn = some ⟨len, copied⟩ := by simp [RxRing.passesOn, hpc, hmore]
        have hnext : (driverStep true s).pc = .clearStatus := by simp [driverStep, hpc, hmore]
        rw [hpassed] at hwork ⊢
        simp only [Option.toList_some, List.map_cons, List.map_nil, List.sum_cons, List.sum_nil,
          price, List.length_singleton] at hwork ⊢
        rw [hnext]
        simp only [stepsFrom]
        omega
  | clearStatus =>
      rw [hpc] at hkept
      exact hkept .oldCur (by simp [driverStep, hpc]) (by simp [RxRing.passesOn, hpc])
        (by simp only [stepsFrom]; omega)
  | oldCur =>
      rw [hpc] at hkept
      exact hkept (.advance s.rxCur) (by simp [driverStep, hpc]) (by simp [RxRing.passesOn, hpc])
        (by simp only [stepsFrom]; omega)
  | advance old =>
      rw [hpc] at hkept
      exact hkept (.writeTail old) (by simp [driverStep, hpc]) (by simp [RxRing.passesOn, hpc])
        (by simp only [stepsFrom]; omega)
  | writeTail old =>
      rw [hpc] at hkept
      exact hkept .test (by simp [driverStep, hpc]) (by simp [RxRing.passesOn, hpc])
        (by simp only [stepsFrom]; omega)

/-- The memory of the ring is not looked at. -/
theorem loopUntil_congr {s' : RxRing} (hpc : s'.pc = s.pc) (hstored : s'.stored = s.stored)
    (hpassed : s'.passed = s.passed) : loopUntil n s' = loopUntil n s := by
  rw [loopUntil, loopUntil, RxRing.awaited, RxRing.awaited, hpc, hstored, hpassed]

/-- While a frame is awaited, it is the one that comes next. -/
theorem awaited_cons {p : Packet} {rest : List Packet} (hstored : s.stored = s.passed ++ p :: rest)
    (hn : s.passed.length < n) : ∃ others, s.awaited n = p :: others := by
  obtain ⟨more, rfl⟩ := Nat.exists_eq_add_of_lt hn
  refine ⟨rest.take more, ?_⟩
  rw [RxRing.awaited, hstored, Nat.add_assoc, List.take_length_add_append, List.drop_left,
    List.take_succ_cons]

/-- What is passed on was awaited. -/
theorem awaited_driverStep (h : RxInv buffers s) (hn : s.passed.length < n) :
    s.awaited n = s.passesOn.toList ++ (driverStep true s).awaited n := by
  obtain ⟨hpassed, hstored⟩ := passed_driverStep true s
  have hnext : RxInv buffers (driverStep true s) := rxInv_driver h
  have hafter := hnext.order
  rw [hstored, hpassed] at hafter
  rw [RxRing.awaited, RxRing.awaited, hstored, hpassed]
  cases hpasses : s.passesOn with
  | none => simp
  | some p =>
      rw [hpasses, Option.toList_some, List.append_assoc, List.singleton_append] at hafter
      obtain ⟨others, hcons⟩ := awaited_cons hafter hn
      rw [RxRing.awaited] at hcons
      rw [Option.toList_some, List.length_append, List.length_singleton, ← List.drop_drop, hcons]
      rfl

/-- While a frame is awaited, the loop does not end. -/
theorem driverStep_stays (h : RxInv buffers s) (hn : n ≤ s.stored.length)
    (hmore : s.passed.length < n) : (driverStep true s).pc ≠ .entry := by
  unfold driverStep
  cases hpc : s.pc with
  | test =>
      obtain ⟨hdone, -, hstored⟩ := h.inSync.2 (Or.inr hpc)
      have hne : s.rxCur ≠ s.head := by
        intro hempty
        rw [hempty, contents_self, List.append_nil] at hstored
        rw [hstored] at hn
        omega
      have hcur : (s.rxDescs s.rxCur).status &&& 0x1 ≠ 0 := by
        refine (hdone s.rxCur).mpr ?_
        rw [interval_next_left hne]
        exact List.mem_cons_self
      simp only [if_pos hcur]
      exact nofun
  | insert buf len copied =>
      simp only
      split <;> exact nofun
  | _ => exact nofun

/-- **Every step of the driver counts**, as long as one of the frames is left. -/
theorem loopUntil_less (h : RxInv buffers s) (hn : n ≤ s.stored.length)
    (hmore : s.passed.length < n) : loopUntil n (driverStep true s) < loopUntil n s := by
  have hwork := congrArg (fun frames => (frames.map price).sum) (awaited_driverStep h hmore)
  simp only [List.map_append, List.sum_append] at hwork
  have hpay : AtDone s.pc → PassedOn s.pc = false →
      price (s.frame (next s.tail)) ≤ ((s.awaited n).map price).sum := by
    intro hbusy hnot
    obtain ⟨others, hcons⟩ := awaited_cons (contents_pending h (h.busy hbusy) hnot) hmore
    rw [hcons, List.map_cons, List.sum_cons]
    exact Nat.le_add_right _ _
  exact (Nat.le_add_right _ _).trans_lt
    (stepsFrom_driverStep h (driverStep_stays h hn hmore) hwork hpay)

/-- The card takes nothing back. -/
theorem stored_deviceStep (s : RxRing) (bytes : List Byte) (status : Byte) :
    s.stored <+: (deviceStep s bytes status).stored := by
  rcases deviceStep_cases s bytes status with heq | ⟨-, -, heq⟩
  · rw [heq]
  · rw [heq]
    exact List.prefix_append _ _

/-- Another frame does not keep those waiting that have been stored. -/
theorem loopUntil_deviceStep (hn : n ≤ s.stored.length) (bytes : List Byte) (status : Byte) :
    loopUntil n (deviceStep s bytes status) = loopUntil n s := by
  rcases deviceStep_cases s bytes status with heq | ⟨-, -, heq⟩
  · rw [heq]
  · rw [heq]
    simp only [loopUntil, RxRing.awaited, List.take_append_of_le_length hn]

/-- The ring is never more than full. -/
theorem loopUntil_lt (h : RxInv buffers s) : loopUntil n s < drainSteps := by
  have hlength : (s.awaited n).length ≤ 31 := by
    have hpending := congrArg List.length h.order
    have hlt := ahead_lt (firstPending s) s.head
    have hnum : E1000_NUM_RX_DESC = 32 := rfl
    rw [List.length_append, length_contents] at hpending
    rw [RxRing.awaited, List.length_drop, List.length_take]
    omega
  have hprice : ∀ work ∈ (s.awaited n).map price, work ≤ MAX_PACKET_SIZE + 13 := by
    intro work hmem
    obtain ⟨p, hp, rfl⟩ := List.mem_map.mp hmem
    exact Nat.add_le_add_right (h.fits p (List.mem_of_mem_take (List.mem_of_mem_drop hp))) 13
  have hsum := List.sum_le_card_nsmul _ _ hprice
  rw [List.length_map, Nat.nsmul_eq_mul] at hsum
  have hmax : (s.awaited n).length * (MAX_PACKET_SIZE + 13) ≤ 31 * (MAX_PACKET_SIZE + 13) :=
    Nat.mul_le_mul_right _ hlength
  have hsteps : ∀ work pc, stepsFrom work pc ≤ work + 5 := by
    intro work pc
    cases pc <;> simp only [stepsFrom] <;> omega
  have hpc := hsteps ((s.awaited n).map price).sum s.pc
  rw [loopUntil, drainSteps]
  omega

end Progress

/-! ### Runs -/

theorem rxInv_initial (buffers : RxBuffers) (lengths : RxIndex → HalfWord) (mem : Mem) :
    RxInv buffers (initReceiveDescriptors buffers lengths mem) where
  addr := by
    intro i
    simp [RxRing.buf, initReceiveDescriptors]
  done := by
    intro i
    simp [Done, initReceiveDescriptors, firstDone, Cleared, next]
  order := by simp [initReceiveDescriptors, firstPending, PassedOn, next]
  fits := by simp [initReceiveDescriptors]
  cur := by
    show (0 : RxIndex) = next 31
    decide
  busy := by simp [initReceiveDescriptors, AtDone]
  locals := trivial

theorem rxInv_step {buffers : RxBuffers} {available : Bool} (s : RxRing) (a : RxAction)
    (h : RxInv buffers s) : RxInv buffers (rxStep available s a) := by
  cases a with
  | device bytes status => exact rxInv_device h bytes status
  | driver => exact rxInv_driver h

/-- What a step of the ring stores is appended. -/
theorem stored_rxStep (available : Bool) (s : RxRing) (a : RxAction) :
    s.stored <+: (rxStep available s a).stored := by
  cases a with
  | device bytes status => exact stored_deviceStep s bytes status
  | driver => rw [rxStep, (passed_driverStep available s).2]

/-- Nothing that has been passed on is taken back. -/
theorem passed_rxStep (available : Bool) (s : RxRing) (a : RxAction) :
    s.passed.length ≤ (rxStep available s a).passed.length := by
  cases a with
  | device bytes status =>
      rw [rxStep]
      rcases deviceStep_cases s bytes status with heq | ⟨-, -, heq⟩ <;> rw [heq]
  | driver =>
      rw [rxStep, (passed_driverStep available s).1, List.length_append]
      exact Nat.le_add_right _ _

/-- The loop gets through the frames that have been stored. -/
theorem RxInv.drains {buffers : RxBuffers} {s : RxRing} (h : RxInv buffers s) : Drains s := by
  intro actions henough
  refine run_worksOff (RxInv buffers) (fun _ a => a.isDriver = true) RxRing.stored RxRing.passed
    loopUntil (fun s a h _ => rxInv_step s a h) (fun s h => h.inSync.1)
    (fun s a _ _ => stored_rxStep true s a) (fun s a _ _ => passed_rxStep true s a) ?_ ?_ h
    (everyStep_true s actions) ?_
  · intro n s a h _ hown hyet hn
    cases a with
    | device bytes status => exact absurd hown Bool.false_ne_true
    | driver => exact loopUntil_less h hn hyet
  · intro n s a _ _ hother _ hn
    cases a with
    | device bytes status => exact (loopUntil_deviceStep hn bytes status).le
    | driver => exact absurd rfl hother
  · rw [countSteps_eq_countP]
    exact (loopUntil_lt h).trans_le henough

/-- **The receive ring.**  At whatever moments the card stores its frames, the
driver passes on every frame once, in order and as it was stored, and the card
does not touch a done descriptor or its buffer.  The loop of a driver whose card is
available does get through the frames. -/
theorem rxRing_in_sync (buffers : RxBuffers) (lengths : RxIndex → HalfWord) (mem : Mem)
    (available : Bool) (actions : List RxAction) :
    EveryState (rxStep available) RingInSync (initReceiveDescriptors buffers lengths mem) actions ∧
    EveryStep (rxStep available) (KeepsDone available)
      (initReceiveDescriptors buffers lengths mem) actions ∧
    EveryState (rxStep available) Drains (initReceiveDescriptors buffers lengths mem) actions := by
  have hok : EveryStep (rxStep available) (fun _ _ => True)
      (initReceiveDescriptors buffers lengths mem) actions := everyStep_true _ actions
  have hinit := rxInv_initial buffers lengths mem
  have hinv : EveryState (rxStep available) (RxInv buffers)
      (initReceiveDescriptors buffers lengths mem) actions :=
    everyState_of_invariant (fun s a h _ => rxInv_step s a h) hinit hok
  refine ⟨hinv.imp fun _ h => h.inSync, ?_, hinv.imp fun _ h => h.drains⟩
  exact everyStep_of_invariant (fun s a h _ => rxInv_step s a h)
    (fun _ a h _ => keepsDone_step h a) hinit hok

end Network
end Ninjastorms
