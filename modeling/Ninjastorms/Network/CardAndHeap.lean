import Ninjastorms.Network.E1000Init

/-!
# The card and the heap

After `e1000_init` the card stores frames into blocks of the heap, and the
descriptors are part of another one, while the program goes on to call `malloc`
and `free` and to write into blocks of its own.  `CardAndHeap` is one memory with
all of them at work, in any order: the card and the driver read the descriptors
and the buffers from where `init_receive_descriptors` has put them.

`card_and_heap_coexist` says that they do not disturb each other.  What the card
writes stays inside the blocks of the driver (`rxStep_writes`, `storeDescs_outside`),
so that the allocator keeps its promise; the allocator writes outside of live blocks,
so that the ring stays in sync (`rxInv_setMem`), and the driver gets through the frames
(`Sound.drains`).
-/

namespace Ninjastorms
namespace Network
namespace E1000Init

open Libc Lib.CircularBuffer Lib.ByteMemory Lib.Runs Pci

/-! ### The two together -/

/-- Byte `k` of a descriptor; the fields that are never written keep what was there. -/
def descByte (desc : RxDesc) (k : Nat) (old : Byte) : Byte :=
  if k < 8 then byteAt desc.addr k
  else if k < 10 then byteAt desc.length (k - 8)
  else if k = 12 then desc.status
  else old

/-- The descriptors are written to the struct. -/
def storeDescs (mem : Mem) (e1000 : Word) (rxDescs : RxIndex → RxDesc) : Mem :=
  writeBytes mem (e1000 + BitVec.ofNat 32 0) 512 fun k =>
    descByte (rxDescs (toIndex (BitVec.ofNat 32 (k / 16)))) (k % 16)
      (mem (e1000 + BitVec.ofNat 32 k))

/-- The heap and its live blocks; the registers of the card and the state of the
driver.  The descriptors and the memory of `ring` are those of the heap (`view`). -/
structure CardAndHeap where
  client : Client
  ring : RxRing

/-- The ring as the card and the driver find it in memory. -/
def CardAndHeap.view (e1000 : Word) (s : CardAndHeap) : RxRing :=
  { s.ring with rxDescs := rxDescAt s.client.heap.mem e1000, mem := s.client.heap.mem }

/-- A step of the card or the driver, or a call of the program. -/
inductive SharedAction where
  | ring (a : RxAction)
  | call (call : Call)

def sharedStep (head : ListHead) (e1000 : Word) (available : Bool) (s : CardAndHeap) :
    SharedAction → CardAndHeap
  | .ring a =>
      let ring := rxStep available (s.view e1000) a
      let mem := storeDescs ring.mem e1000 ring.rxDescs
      { client := { s.client with heap := { s.client.heap with mem := mem } }, ring := ring }
  | .call call => { s with client := step head s.client call }

/-- The block of a buffer. -/
def rxBlock (buffers : RxBuffers) (i : RxIndex) : Block :=
  ⟨buffers.addr i, BitVec.ofNat 32 (MAX_PACKET_SIZE + sizeofRxDesc)⟩

/-- The blocks of the driver. -/
def driverBlocks (e1000 : Word) (buffers : RxBuffers) : List Block :=
  deviceBlock e1000 :: (List.finRange E1000_NUM_RX_DESC).map (rxBlock buffers)

/-- The call neither releases the block nor writes into it. -/
def LeavesAlone (b : Block) : Call → Prop
  | .malloc _ => True
  | .free ptr => ptr ≠ b.ptr
  | .store address _ => ¬ InArea b address

/-- The program keeps to the rules of the allocator, and to its own blocks. -/
def SharedOk (e1000 : Word) (buffers : RxBuffers) (s : CardAndHeap) : SharedAction → Prop
  | .ring _ => True
  | .call call => Allowed s.client call ∧ ∀ b ∈ driverBlocks e1000 buffers, LeavesAlone b call

/-- A step of the card or the driver changes no block of the program, and a call of
the program changes no block of the driver. -/
def Undisturbed (head : ListHead) (e1000 : Word) (buffers : RxBuffers) (available : Bool)
    (s : CardAndHeap) (a : SharedAction) : Prop :=
  let mem' := (sharedStep head e1000 available s a).client.heap.mem
  match a with
  | .ring _ => ∀ b ∈ s.client.live, b ∉ driverBlocks e1000 buffers →
      ∀ x, InArea b x → mem' x = s.client.heap.mem x
  | .call _ => ∀ b ∈ driverBlocks e1000 buffers, ∀ x, InArea b x → mem' x = s.client.heap.mem x

def SharedAction.isDriver : SharedAction → Bool
  | .ring .driver => true
  | _ => false

/-- With the card available, the driver passes on all that has been stored by now within
`drainSteps` steps, whatever the card stores and the program does meanwhile. -/
def DrainsShared (head : ListHead) (e1000 : Word) (buffers : RxBuffers) (s : CardAndHeap) : Prop :=
  ∀ actions, EveryStep (sharedStep head e1000 true) (SharedOk e1000 buffers) s actions →
    drainSteps ≤ actions.countP SharedAction.isDriver →
    s.ring.stored <+: (run (sharedStep head e1000 true) s actions).ring.passed

/-- Whatever the card, the driver and the program do: the allocator keeps its promise,
every frame that the card stores is passed on once, in order and as it was stored, and
no block is disturbed. -/
def Coexist (head : ListHead) (e1000 : Word) (buffers : RxBuffers) (s : CardAndHeap) : Prop :=
  ∀ available actions,
    EveryStep (sharedStep head e1000 available) (SharedOk e1000 buffers) s actions →
    EveryState (sharedStep head e1000 available)
      (fun s => Safe head s.client ∧ RingInSync (s.view e1000) ∧
        DrainsShared head e1000 buffers s) s actions ∧
    EveryStep (sharedStep head e1000 available) (Undisturbed head e1000 buffers available) s actions

/-! ### Descriptors in memory -/

theorem toIndex_div (i : RxIndex) {k : Nat} (hk : k < 16) :
    toIndex (BitVec.ofNat 32 ((16 * i.val + k) / 16)) = i := by
  have hi : i.val < 32 := i.isLt
  have hdiv : (16 * i.val + k) / 16 = i.val := by omega
  apply Fin.ext
  show (BitVec.ofNat 32 ((16 * i.val + k) / 16)).toNat % 32 = i.val
  rw [hdiv, BitVec.toNat_ofNat]
  omega

/-- The descriptors are written into the struct. -/
theorem storeDescs_outside (m : Mem) (e1000 : Word) (rxDescs : RxIndex → RxDesc) {x : Word}
    (hx : ¬ InArea (deviceBlock e1000) x) : storeDescs m e1000 rxDescs x = m x := by
  refine writeBytes_outside fun hlt => hx ?_
  have hoff := (offset_add_lt_iff e1000 x (by omega)).mp hlt
  have hsize : (deviceBlock e1000).size.toNat = 664 := rfl
  show offset e1000 x < _
  omega

/-- A byte of a descriptor that has been stored. -/
theorem storeDescs_at (m : Mem) (e1000 : Word) (rxDescs : RxIndex → RxDesc) (i : RxIndex) {k : Nat}
    (hk : k < 16) :
    storeDescs m e1000 rxDescs (rxDescAddress e1000 i + BitVec.ofNat 32 k) =
      descByte (rxDescs i) k (m (rxDescAddress e1000 i + BitVec.ofNat 32 k)) := by
  have hi : i.val < 32 := i.isLt
  have hmod : (16 * i.val + k) % 16 = k := by omega
  rw [storeDescs, rxDescAddress_add, writeBytes_offset _ _ _ (by omega) (by omega),
    if_pos (by omega), Nat.sub_zero, toIndex_div i hk, hmod]

/-- What has been stored is read back. -/
theorem rxDescAt_storeDescs (m : Mem) (e1000 : Word) (rxDescs : RxIndex → RxDesc) :
    rxDescAt (storeDescs m e1000 rxDescs) e1000 = rxDescs := by
  funext i
  have haddr : readLE (storeDescs m e1000 rxDescs) (rxDescAddress e1000 i) 8 =
      (rxDescs i).addr := by
    apply eq_of_byteAt (m := 8)
    intro k hk
    rw [byteAt_readLE _ _ hk, storeDescs_at _ _ _ _ (by omega), descByte, if_pos hk]
  have hlength : readLE (storeDescs m e1000 rxDescs) (rxDescAddress e1000 i + 8) 2 =
      (rxDescs i).length := by
    apply eq_of_byteAt (m := 2)
    intro k hk
    have hsum : rxDescAddress e1000 i + 8 + BitVec.ofNat 32 k =
        rxDescAddress e1000 i + BitVec.ofNat 32 (8 + k) := by
      rw [BitVec.ofNat_add, ← BitVec.add_assoc]
      rfl
    rw [byteAt_readLE _ _ hk, hsum, storeDescs_at _ _ _ _ (by omega), descByte,
      if_neg (by omega), if_pos (by omega), Nat.add_sub_cancel_left]
  have hstatus : storeDescs m e1000 rxDescs (rxDescAddress e1000 i + 12) = (rxDescs i).status :=
    storeDescs_at m e1000 rxDescs i (by decide : 12 < 16)
  rw [rxDescAt, haddr, hlength, hstatus]

/-! ### Another memory under the ring -/

section Ring

variable {buffers : RxBuffers} {r : RxRing}

/-- The ring stays in sync when the bytes of its buffers stay what they are. -/
theorem rxInv_setMem (h : RxInv buffers r) {mem : Mem}
    (hsame : ∀ i, ∀ k < MAX_PACKET_SIZE, mem (buffers.addr i + BitVec.ofNat 32 k) =
      r.mem (buffers.addr i + BitVec.ofNat 32 k)) :
    RxInv buffers { r with mem := mem } := by
  have hbytes : ∀ i n, n ≤ MAX_PACKET_SIZE →
      ((List.range n).map fun k => r.mem (r.buf i + BitVec.ofNat 32 k)) =
        (List.range n).map fun k => mem (r.buf i + BitVec.ofNat 32 k) := by
    intro i n hn
    refine List.map_congr_left fun k hk => ?_
    have hlt := List.mem_range.mp hk
    rw [h.addr i]
    exact (hsame i k (by omega)).symm
  refine ⟨h.addr, h.done, ?_, h.fits, h.cur, h.busy, ?_⟩
  · have hframes : ∀ i ∈ interval (firstPending r) r.head,
        r.frame i = RxRing.frame { r with mem := mem } i := fun i hi =>
      congrArg (Packet.mk _) (hbytes i _ (h.fits_frame hi))
    exact h.order.trans (congrArg (r.passed ++ ·) (contents_congr hframes))
  · have hlocals := h.locals
    show LocalsAgree { r with mem := mem } (next r.tail) r.pc
    cases hpc : r.pc with
    | insert buf len copied =>
        -- the copy has not come further than the frame, which fits
        simp only [hpc, LocalsAgree] at hlocals ⊢
        obtain ⟨hbuf, hlen, hle, hcopied⟩ := hlocals
        have hbusy : next r.tail ≠ r.head := h.busy (by rw [hpc]; rfl)
        have hin : next r.tail ∈ interval (firstPending r) r.head := by
          simp only [firstPending, hpc, PassedOn, Bool.false_eq_true, if_false]
          rw [interval_next_left hbusy]
          exact List.mem_cons_self
        have hfits : (r.rxDescs (next r.tail)).length.toNat ≤ MAX_PACKET_SIZE := h.fits_frame hin
        rw [hlen] at hle
        exact ⟨hbuf, hlen, by rw [hlen]; exact hle, hcopied.trans (hbytes _ _ (by omega))⟩
    | _ =>
        rw [hpc] at hlocals
        exact hlocals

/-- The driver only reads the buffers. -/
@[simp] theorem mem_driverStep (available : Bool) (r : RxRing) :
    (driverStep available r).mem = r.mem := by
  unfold driverStep
  split <;> (try split) <;> rfl

/-- A step of the card or the driver writes into one buffer at most. -/
theorem rxStep_writes (h : RxInv buffers r) (available : Bool) (a : RxAction) :
    ∃ i, ∀ x, ¬ InArea (rxBlock buffers i) x → (rxStep available r a).mem x = r.mem x := by
  cases a with
  | driver => exact ⟨0, fun x _ => congrFun (mem_driverStep available r) x⟩
  | device bytes status =>
      refine ⟨r.head, fun x hx => ?_⟩
      rcases deviceStep_cases r bytes status with heq | ⟨-, hfit, heq⟩
      · exact congrArg (fun r => r.mem x) heq
      · have hmem : (deviceStep r bytes status).mem =
            writeBytes r.mem (r.buf r.head) bytes.length fun k => bytes.getD k 0 := by rw [heq]
        refine (congrFun hmem x).trans (writeBytes_outside fun hin => hx ?_)
        rw [h.addr] at hin
        have hsize : MAX_PACKET_SIZE = 8192 := rfl
        have hblock : (rxBlock buffers r.head).size.toNat = 8208 := rfl
        show offset (buffers.addr r.head) x < _
        omega

end Ring

/-! ### One step of the two -/

/-- The driver owns its blocks, and both sides are in order. -/
structure Sound (head : ListHead) (e1000 : Word) (buffers : RxBuffers) (s : CardAndHeap) :
    Prop where
  heap : Inv head s.client
  owned : ∀ b ∈ driverBlocks e1000 buffers, b ∈ s.client.live
  ring : RxInv buffers (s.view e1000)

section Sound

variable {head : ListHead} {e1000 : Word} {buffers : RxBuffers} {available : Bool}
  {s : CardAndHeap}

theorem device_mem_driverBlocks (e1000 : Word) (buffers : RxBuffers) :
    deviceBlock e1000 ∈ driverBlocks e1000 buffers :=
  List.mem_cons_self

theorem rxBlock_mem_driverBlocks (e1000 : Word) (buffers : RxBuffers) (i : RxIndex) :
    rxBlock buffers i ∈ driverBlocks e1000 buffers :=
  List.mem_cons_of_mem _ (List.mem_map_of_mem (List.mem_finRange i))

/-- Their sizes are different. -/
theorem rxBlock_ne_device (e1000 : Word) (buffers : RxBuffers) (i : RxIndex) :
    rxBlock buffers i ≠ deviceBlock e1000 := by
  intro heq
  have hsize := congrArg Block.size heq
  revert hsize
  show (8208 : Word) ≠ 664
  decide

theorem inArea_rxBlock (buffers : RxBuffers) (i : RxIndex) {k : Nat} (hk : k < MAX_PACKET_SIZE) :
    InArea (rxBlock buffers i) (buffers.addr i + BitVec.ofNat 32 k) := by
  have hsize : MAX_PACKET_SIZE = 8192 := rfl
  have hblock : (rxBlock buffers i).size.toNat = 8208 := rfl
  show offset (buffers.addr i) _ < _
  rw [offset_add_ofNat _ (by omega)]
  omega

theorem inArea_rxDesc (e1000 : Word) (i : RxIndex) {k : Nat} (hk : k < 16) :
    InArea (deviceBlock e1000) (rxDescAddress e1000 i + BitVec.ofNat 32 k) := by
  have hi : i.val < 32 := i.isLt
  have hblock : (deviceBlock e1000).size.toNat = 664 := rfl
  show offset e1000 _ < _
  rw [rxDescAddress_add, offset_add_ofNat _ (by omega)]
  omega

/-- Different live blocks of which one is the driver's have no byte in common. -/
theorem Sound.separate (h : Sound head e1000 buffers s) {b d : Block} (hb : b ∈ s.client.live)
    (hd : d ∈ driverBlocks e1000 buffers) (hne : b ≠ d) {x : Word} (hx : InArea b x) :
    ¬ InArea d x := by
  obtain ⟨free, blocks, hshape⟩ := h.heap
  exact fun hin => hshape.separate_live hb (h.owned d hd) hne x ⟨hx, hin⟩

/-- What a step of the card or the driver does to memory: it writes into a buffer,
and into the struct. -/
theorem Sound.ring_writes (h : Sound head e1000 buffers s) (a : RxAction) :
    ∃ i, ∀ x, ¬ InArea (rxBlock buffers i) x → ¬ InArea (deviceBlock e1000) x →
      (sharedStep head e1000 available s (.ring a)).client.heap.mem x = s.client.heap.mem x := by
  obtain ⟨i, hbuffer⟩ := rxStep_writes h.ring available a
  exact ⟨i, fun x hx hdevice => (storeDescs_outside _ e1000 _ hdevice).trans (hbuffer x hx)⟩

theorem Sound.undisturbed_ring (h : Sound head e1000 buffers s) (a : RxAction) :
    Undisturbed head e1000 buffers available s (.ring a) := by
  intro b hb hnot x hx
  have hne : ∀ d ∈ driverBlocks e1000 buffers, b ≠ d := fun d hd heq => hnot (heq ▸ hd)
  obtain ⟨i, hwrites⟩ := h.ring_writes a
  have hbuffer := rxBlock_mem_driverBlocks e1000 buffers i
  have hdevice := device_mem_driverBlocks e1000 buffers
  exact hwrites x (h.separate hb hbuffer (hne _ hbuffer) hx)
    (h.separate hb hdevice (hne _ hdevice) hx)

/-- **A step of the card or the driver.** -/
theorem Sound.ringStep (h : Sound head e1000 buffers s) (a : RxAction) :
    Sound head e1000 buffers (sharedStep head e1000 available s (.ring a)) := by
  have hring : RxInv buffers (rxStep available (s.view e1000) a) := rxInv_step _ a h.ring
  obtain ⟨i, hbuffer⟩ := rxStep_writes h.ring available a
  refine ⟨?_, h.owned, ?_⟩
  · obtain ⟨free, blocks, hshape⟩ := h.heap
    obtain ⟨free', blocks', hshape'⟩ := inv_write hshape
      (h.owned _ (rxBlock_mem_driverBlocks e1000 buffers i)) hbuffer
    exact inv_write hshape' (h.owned _ (device_mem_driverBlocks e1000 buffers))
      fun x hx => storeDescs_outside _ e1000 _ hx
  · -- the struct holds the new descriptors, and is none of the buffers
    show RxInv buffers { rxStep available (s.view e1000) a with
      rxDescs := rxDescAt (storeDescs _ e1000 _) e1000
      mem := storeDescs _ e1000 _ }
    rw [rxDescAt_storeDescs]
    exact rxInv_setMem hring fun j k hk => storeDescs_outside _ e1000 _
      (h.separate (h.owned _ (rxBlock_mem_driverBlocks e1000 buffers j))
        (device_mem_driverBlocks e1000 buffers) (rxBlock_ne_device e1000 buffers j)
        (inArea_rxBlock buffers j hk))

/-- The bytes of the driver's blocks after a call of the program. -/
theorem Sound.undisturbed_call (h : Sound head e1000 buffers s) {call : Call}
    (hok : SharedOk e1000 buffers s (.call call)) :
    Undisturbed head e1000 buffers available s (.call call) := by
  intro b hb x hx
  have hnot : storedAt x call = none := by
    cases call with
    | store address value =>
        refine if_neg fun heq => hok.2 b hb ?_
        rw [heq]
        exact hx
    | malloc size => rfl
    | free ptr => rfl
  have hbyte := area_step h.heap hok.1 (h.owned b hb) hx
  rw [hnot] at hbyte
  exact hbyte

/-- **A call of the program.** -/
theorem Sound.callStep (h : Sound head e1000 buffers s) {call : Call}
    (hok : SharedOk e1000 buffers s (.call call)) :
    Sound head e1000 buffers (sharedStep head e1000 available s (.call call)) := by
  have hsame : Undisturbed head e1000 buffers available s (.call call) := h.undisturbed_call hok
  refine ⟨inv_step s.client call h.heap hok.1, fun b hb => ?_, ?_⟩
  · refine live_step call (h.owned b hb) ?_
    have hleaves := hok.2 b hb
    cases call with
    | free ptr => exact hleaves
    | malloc size => trivial
    | store address value => trivial
  · have hdescs : rxDescAt (step head s.client call).heap.mem e1000 =
        rxDescAt s.client.heap.mem e1000 := by
      funext i
      exact rxDescAt_congr fun k hk =>
        hsame _ (device_mem_driverBlocks e1000 buffers) _ (inArea_rxDesc e1000 i hk)
    show RxInv buffers { s.ring with
      rxDescs := rxDescAt (step head s.client call).heap.mem e1000
      mem := (step head s.client call).heap.mem }
    rw [hdescs]
    exact rxInv_setMem h.ring fun i k hk =>
      hsame _ (rxBlock_mem_driverBlocks e1000 buffers i) _ (inArea_rxBlock buffers i hk)

theorem Sound.step (h : Sound head e1000 buffers s) {a : SharedAction}
    (hok : SharedOk e1000 buffers s a) :
    Sound head e1000 buffers (sharedStep head e1000 available s a) := by
  cases a with
  | ring a => exact h.ringStep a
  | call call => exact h.callStep hok

theorem Sound.undisturbed (h : Sound head e1000 buffers s) {a : SharedAction}
    (hok : SharedOk e1000 buffers s a) : Undisturbed head e1000 buffers available s a := by
  cases a with
  | ring a => exact h.undisturbed_ring a
  | call call => exact h.undisturbed_call hok

/-- What the driver goes by does not depend on the way in which the descriptors are kept. -/
theorem loopUntil_ringStep (n : Nat) (a : RxAction) :
    loopUntil n ((sharedStep head e1000 available s (.ring a)).view e1000) =
      loopUntil n (rxStep available (s.view e1000) a) :=
  loopUntil_congr rfl rfl rfl

theorem loopUntil_callStep (n : Nat) (call : Call) :
    loopUntil n ((sharedStep head e1000 available s (.call call)).view e1000) =
      loopUntil n (s.view e1000) :=
  loopUntil_congr rfl rfl rfl

/-- The driver gets through the frames. -/
theorem Sound.drains (h : Sound head e1000 buffers s) : DrainsShared head e1000 buffers s := by
  intro actions hok henough
  refine run_worksOff (Sound head e1000 buffers) (fun _ a => a.isDriver = true)
    (fun s => s.ring.stored) (fun s => s.ring.passed) (fun n s => loopUntil n (s.view e1000))
    (fun _ _ h hok => h.step hok) (fun _ h => h.ring.inSync.1) ?_ ?_ ?_ ?_ h hok ?_
  · intro s a _ _
    cases a with
    | ring a => exact stored_rxStep true (s.view e1000) a
    | call call => exact List.prefix_refl _
  · intro s a _ _
    cases a with
    | ring a => exact passed_rxStep true (s.view e1000) a
    | call call => exact Nat.le_refl _
  · intro n s a h _ hown hyet hn
    cases a with
    | ring a =>
        cases a with
        | device bytes status => exact absurd hown Bool.false_ne_true
        | driver =>
            rw [loopUntil_ringStep]
            exact loopUntil_less h.ring hn hyet
    | call call => exact absurd hown Bool.false_ne_true
  · intro n s a _ _ hother _ hn
    cases a with
    | ring a =>
        cases a with
        | device bytes status =>
            have hsame := loopUntil_deviceStep (s := s.view e1000) hn bytes status
            rw [loopUntil_ringStep]
            exact hsame.le
        | driver => exact absurd rfl hother
    | call call => exact (loopUntil_callStep n call).le
  · rw [countSteps_eq_countP]
    exact (loopUntil_lt h.ring).trans_le henough

/-- From a sound state on. -/
theorem Sound.coexist (h : Sound head e1000 buffers s) : Coexist head e1000 buffers s := by
  intro available actions hok
  have hkeep : ∀ s a, Sound head e1000 buffers s → SharedOk e1000 buffers s a →
      Sound head e1000 buffers (sharedStep head e1000 available s a) := fun _ _ h hok => h.step hok
  constructor
  · refine (everyState_of_invariant hkeep h hok).imp fun s hs => ?_
    obtain ⟨free, blocks, hshape⟩ := hs.heap
    exact ⟨hshape.safe, hs.ring.inSync, hs.drains⟩
  · exact everyStep_of_invariant hkeep (fun _ _ h hok => h.undisturbed hok) h hok

end Sound

/-! ### After `e1000_init` -/

/-- The blocks of before are none of the driver's. -/
theorem Prepared.old_notMem {head : ListHead} {c₀ c : Client} {e1000 : Word}
    (h : Prepared head c₀ e1000 none (List.finRange E1000_NUM_RX_DESC) c) {b : Block}
    (hb : b ∈ c₀.live) :
    b ∉ deviceBlock e1000 :: (List.finRange E1000_NUM_RX_DESC).map
      (bufferBlock c.heap.mem e1000) := by
  obtain ⟨free, blocks, hshape⟩ := h.inv
  have hnodup : c.live.Nodup := List.Nodup.of_map _ (List.nodup_append.mp hshape.nodup).2.1
  rw [h.live, Option.toList_none, List.nil_append, List.append_cons] at hnodup
  intro hmem
  have hfirst : b ∈ ((List.finRange E1000_NUM_RX_DESC).map
      (bufferBlock c.heap.mem e1000)).reverse ++ [deviceBlock e1000] := by
    rw [List.mem_append, List.mem_reverse, List.mem_singleton]
    exact (List.mem_cons.mp hmem).symm
  exact (List.nodup_append.mp hnodup).2.2 b hfirst b hb rfl

/-- The state that `e1000_init` leaves is sound. -/
theorem Ready.sound {head : ListHead} {c₀ : Client} {live : List Block} {s : Kernel}
    (h : Ready head c₀ s.e1000 (List.finRange E1000_NUM_RX_DESC) live s) (hring : RingSet s) :
    ∃ buffers, (∀ b ∈ c₀.live, b ∈ live ∧ b ∉ driverBlocks s.e1000 buffers) ∧
      Sound head s.e1000 buffers ⟨⟨s.heap, live, false⟩, ringOf s⟩ := by
  obtain ⟨buffers, lengths, heq, hblocks⟩ := h.ringOf_eq hring
  have hdriver : driverBlocks s.e1000 buffers = deviceBlock s.e1000 ::
      (List.finRange E1000_NUM_RX_DESC).map (bufferBlock s.heap.mem s.e1000) :=
    congrArg (deviceBlock s.e1000 :: ·) (List.map_congr_left fun i _ => (hblocks i).symm)
  refine ⟨buffers, fun b hb => ⟨h.heap.old_mem hb, ?_⟩, h.heap.inv, fun b hb => ?_, ?_⟩
  · rw [hdriver]
    exact h.heap.old_notMem hb
  · rw [hdriver] at hb
    rcases List.mem_cons.mp hb with rfl | hbuffer
    · exact h.heap.device_mem
    · obtain ⟨i, -, rfl⟩ := List.mem_map.mp hbuffer
      exact h.heap.buffer_mem i
  · show RxInv buffers (ringOf s)
    rw [heq]
    exact rxInv_initial buffers lengths s.heap.mem

/-- **The card and the program do not disturb each other** after `e1000_init`, whatever
they do and in whatever order, if the program keeps to the rules of the allocator. -/
theorem card_and_heap_coexist (head : ListHead) (mem : Mem) (calls : List Call)
    (hcalls : EveryStep (step head) Allowed (initialClient head mem) calls) (host : Host)
    (hw : Latch) (pciDevices : Word) (devices : PciIndex → PciDevice) (card : CardReads)
    (s : Kernel) (hheap : s.heap = (run (step head) (initialClient head mem) calls).heap)
    (hroom : s.heap.currentHeapAddress.toNat + 263856 ≤ HEAP_START.toNat + HEAP_SIZE.toNat)
    (hcard : (pciGetDevice devices INTEL_VEND E1000_DEV).isSome) :
    ∃ s' buffers live, e1000Init head host hw pciDevices devices card s = some s' ∧
      (∀ b ∈ (run (step head) (initialClient head mem) calls).live,
        b ∈ live ∧ b ∉ driverBlocks s'.e1000 buffers) ∧
      Coexist head s'.e1000 buffers ⟨⟨s'.heap, live, false⟩, ringOf s'⟩ := by
  rw [hheap] at hroom
  obtain ⟨s', live, hinit, hready, hring⟩ :=
    e1000Init_spec (inv_run hcalls) hheap hroom hcard host hw pciDevices card
  obtain ⟨buffers, hold, hsound⟩ := hready.sound hring
  exact ⟨s', buffers, live, hinit, hold, hsound.coexist⟩

/-- A kernel that has called `malloc` before, and the card in the slot 12. -/
theorem freshKernel_coexist :
    let head : ListHead := ⟨0x8000, by decide⟩
    let c := run (step head) (initialClient head fun _ => 0) [.malloc 100]
    let s : Kernel := ⟨c.heap, fun _ => 0, 0, []⟩
    let devices : PciIndex → PciDevice :=
      fun i => if i.val = 1 then ⟨0x42006000, 0, 0, 12, 0x8086, 0x100E⟩ else noPciDevices i
    ∃ s' buffers live, e1000Init head ⟨false, 0, 0, fun _ => 0, true⟩ (fun _ _ v => v) 0x20000
        devices ⟨fun _ => 0x10, 0, 0, 0⟩ s = some s' ∧
      (∀ b ∈ c.live, b ∈ live ∧ b ∉ driverBlocks s'.e1000 buffers) ∧
      Coexist head s'.e1000 buffers ⟨⟨s'.heap, live, false⟩, ringOf s'⟩ :=
  card_and_heap_coexist ⟨0x8000, by decide⟩ (fun _ => 0) [.malloc 100] (by decide +kernel)
    ⟨false, 0, 0, fun _ => 0, true⟩ (fun _ _ v => v) 0x20000
    (fun i => if i.val = 1 then ⟨0x42006000, 0, 0, 12, 0x8086, 0x100E⟩ else noPciDevices i)
    ⟨fun _ => 0x10, 0, 0, 0⟩ ⟨_, fun _ => 0, 0, []⟩ rfl (by decide +kernel) (by decide +kernel)

end E1000Init
end Network
end Ninjastorms
