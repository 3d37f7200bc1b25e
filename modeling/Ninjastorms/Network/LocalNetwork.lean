import Ninjastorms.Lib.MessageNetwork
import Ninjastorms.Network.ArpExchange
import Ninjastorms.Network.ArpFreshness
import Ninjastorms.Network.EthernetFraming

/-!
# Address resolution in a local network

Any number of machines that run this stack, each with its own byte order, clock and
table.  A machine looks up addresses, asks for them, and sends data to whom it
likes; what the machines have sent may arrive anywhere, late, out of order, more than
once or not at all.  The network carries frames of `MINIMUM_FRAME` to
`MAX_PACKET_SIZE` bytes.

`network_agrees` says that whatever happens, nobody ever resolves an address to the
card of a machine that has another one.
-/

namespace Ninjastorms
namespace Network

open Libc Lib.Runs Lib.MessageNetwork

/-! ### The network -/

/-- What a machine does by itself. -/
inductive OwnAction where
  | lookup (ip : Word)
  | getMac (ip : Word) (left : Leftover)
  | sendData (destMac : MacAddress) (payload : Bytes) (lenPayload : Word) (block : Bytes)
  | tick (clock : DoubleWord)

/-- What lies in memory when a frame arrives: behind the frame in its slot, and where
the reply is built. -/
structure Arrival where
  behind : Bytes
  left : Leftover

/-- The least length of an Ethernet frame, without its checksum. -/
def MINIMUM_FRAME : Nat := 60

/-- The network carries the frame. -/
def Carried (frame : Frame) : Prop :=
  MINIMUM_FRAME ≤ frame.length ∧ frame.length ≤ MAX_PACKET_SIZE

instance (frame : Frame) : Decidable (Carried frame) :=
  inferInstanceAs (Decidable (_ ∧ _))

/-- The frame in its slot. -/
def arrivedPacket (behind : Bytes) (frame : Frame) : RawPacket where
  length := BitVec.ofNat 16 frame.length
  data := fun k => frame.getD k (behind k)

/-- A machine with this stack; `ipv4_send` sends data of the type `TYPE_IPv4`. -/
def machine (host : Host) : Party Cache OwnAction Arrival Frame where
  act c
    | .lookup ip => (cacheStep host c (.lookup ip), [])
    | .getMac ip left =>
        (cacheStep host c (.getMac ip left), (arpTableGetMac host c.clock left ip c.arpTable).2.2)
    | .sendData destMac payload lenPayload block =>
        (c, ethernetSend host destMac TYPE_IPv4 payload lenPayload block)
    | .tick clock => (cacheStep host c (.tick clock), [])
  receive c arrival frame :=
    if Carried frame then
      let (arpTable, sent) := startPduEncapsulation host c.clock arrival.left
        (arrivedPacket arrival.behind frame) c.arpTable
      ({ c with arpTable := arpTable }, sent)
    else (c, [])

variable {ι : Type*}

abbrev LocalNetwork (ι : Type*) := World ι Cache Frame

abbrev NetworkEvent (ι : Type*) := Event ι OwnAction Arrival

abbrev networkStep [DecidableEq ι] (hosts : ι → Host) : LocalNetwork ι → NetworkEvent ι →
    LocalNetwork ι :=
  Lib.MessageNetwork.step fun i => machine (hosts i)

/-- All machines have called `routing_init`, each at its own time. -/
def startNetwork (clocks : ι → DoubleWord) : LocalNetwork ι where
  states := fun i => initialCache (clocks i)
  sent := []

/-! ### What is promised -/

/-- What the machine `i` finds for an address. -/
def resolved (net : LocalNetwork ι) (i : ι) (ip : Word) : MacAddress :=
  (arpTableLookup (net.states i).clock ip (net.states i).arpTable).1

/-- Every address that is found is that of a card, of a machine with this IP address. -/
def Agrees (hosts : ι → Host) (net : LocalNetwork ι) : Prop :=
  ∀ i ip, resolved net i ip ≠ NULL_MAC →
    ∃ j, (hosts j).ownIpv4Addr = ip ∧ IsAddressOf (hosts j) (hosts i) (resolved net i ip)

/-! ### Truth -/

/-- The addresses are those of a machine, the hardware address as it is transmitted. -/
def NamesMachine (hosts : ι → Host) (ip : Word) (mac : MacAddress) : Prop :=
  ∃ j, (hosts j).ownIpv4Addr = ip ∧ mac = hardwareAddress (hosts j)

/-- The bytes from the payload on. -/
def payloadOf (b : Bytes) : Bytes := fun k => b (sizeofEthernetFrame + k)

/-- An ARP message in a frame that the network carries names its sender. -/
def Truthful (hosts : ι → Host) (frame : Frame) : Prop :=
  Carried frame → ∀ b, slice b 0 frame.length = frame → netHalf b 12 = TYPE_ARP →
    HoldsMessage (payloadOf b) →
    NamesMachine hosts (messageAt (payloadOf b)).senderIp (messageAt (payloadOf b)).senderMac

/-- An entry names a machine, unless its hardware address is empty. -/
def TruthfulEntry (hosts : ι → Host) (host : Host) (entry : ArpTableEntry) : Prop :=
  entry.mac ≠ NULL_MAC → NamesMachine hosts entry.ip (htonMac host entry.mac)

def TruthfulCache (hosts : ι → Host) (i : ι) (c : Cache) : Prop :=
  ∃ arpTable, c.arpTable = some arpTable ∧ ∀ k, TruthfulEntry hosts (hosts i) (arpTable k)

variable {hosts : ι → Host}

/-! ### Frames -/

/-- What arrives is what was sent. -/
theorem slice_arrivedPacket (behind : Bytes) (frame : Frame) :
    slice (arrivedPacket behind frame).data 0 frame.length = frame := by
  apply List.ext_getElem
  · rw [length_slice]
  · intro k _ hk
    simp [slice, arrivedPacket, hk]

theorem delivers_arrivedPacket {frame : Frame} (h : Carried frame) (behind : Bytes) :
    Delivers frame (arrivedPacket behind frame) := by
  have hshort : frame.length < 2 ^ 16 := h.2.trans_lt (by decide)
  exact ⟨by rw [arrivedPacket, BitVec.toNat_ofNat, Nat.mod_eq_of_lt hshort],
    slice_arrivedPacket behind frame⟩

/-- A machine without a card sends nothing. -/
theorem ethernetSend_unavailable {host : Host} (h : host.available = false) (destMac : MacAddress)
    (ethType : HalfWord) (payload : Bytes) (lenPayload : Word) (block : Bytes) :
    ethernetSend host destMac ethType payload lenPayload block = [] := by
  rw [ethernetSend, e1000SendPacket, h]
  rfl

theorem carried_frameWire (destMac srcMac : MacAddress) (msg : ArpMessage) :
    Carried (frameWire destMac srcMac msg) := by
  have hlen : (frameWire destMac srcMac msg).length = 60 := rfl
  rw [Carried, hlen]
  decide

/-- A message of a machine about itself. -/
theorem truthful_frameWire {destMac srcMac : MacAddress} {msg : ArpMessage}
    (h : NamesMachine hosts msg.senderIp msg.senderMac) :
    Truthful hosts (frameWire destMac srcMac msg) := by
  intro _ b hb _ _
  have hmsg : messageAt (payloadOf b) = msg := (reads_frameWire hb).2.2
  rw [hmsg]
  exact h

/-- The type of a frame stands in its first bytes, however short it has been cut. -/
theorem netHalf_ethernetSend {host : Host} (hknows : KnowsByteOrder host) {destMac : MacAddress}
    {ethType : HalfWord} {payload block : Bytes} {lenPayload : Word} {frame : Frame}
    (hsent : frame ∈ ethernetSend host destMac ethType payload lenPayload block)
    (hlen : 14 ≤ frame.length) {b : Bytes} (hb : slice b 0 frame.length = frame) :
    netHalf b 12 = ethType := by
  unfold ethernetSend e1000SendPacket at hsent
  split at hsent
  · obtain rfl := List.mem_singleton.mp hsent
    rw [List.length_map, List.length_range] at hlen hb
    have hbytes : ∀ k, k < 14 → b k =
        fillFrame host destMac ethType payload lenPayload block k := by
      intro k hk
      have hbyte := List.map_inj_left.mp hb k (List.mem_range.mpr (hk.trans_le hlen))
      rwa [Nat.zero_add] at hbyte
    rw [← slice_eq_halfWire]
    have hslice : slice b 12 2 =
        slice (fillFrame host destMac ethType payload lenPayload block) 12 2 :=
      slice_congr fun k hk => hbytes (12 + k) (by omega)
    rw [hslice, fillFrame_eq]
    simp (disch := omega) only [slice_memcpy, slice_memcpy_of_disjoint, Nat.sub_self,
      slice_htons hknows]
  · exact absurd hsent (by simp)

/-- Data is no ARP message. -/
theorem truthful_data {host : Host} (hknows : KnowsByteOrder host) {destMac : MacAddress}
    {payload block : Bytes} {lenPayload : Word} :
    ∀ frame ∈ ethernetSend host destMac TYPE_IPv4 payload lenPayload block,
      Truthful hosts frame := by
  intro frame hsent hcarried b hb htype
  have hlen : 14 ≤ frame.length := le_trans (by decide) hcarried.1
  rw [netHalf_ethernetSend hknows hsent hlen hb] at htype
  exact absurd htype (by decide)

/-- A machine asks about others, but tells about itself. -/
theorem truthful_request (i : ι) (hknows : KnowsByteOrder (hosts i)) (left : Leftover) (ip : Word) :
    ∀ frame ∈ arpSendRequest (hosts i) left ip, Truthful hosts frame := by
  intro frame hsent
  cases havail : (hosts i).available with
  | true =>
      rw [arpSendRequest_eq hknows havail] at hsent
      obtain rfl := List.mem_singleton.mp hsent
      exact truthful_frameWire ⟨i, rfl, rfl⟩
  | false =>
      rw [arpSendRequest, ethernetSend_unavailable havail] at hsent
      exact absurd hsent (by simp)

theorem truthful_answer (i : ι) (hknows : KnowsByteOrder (hosts i)) (clock : DoubleWord)
    (left : Leftover) (frame : EthernetFrame) (arpTable : Option ArpTable) :
    ∀ sent ∈ (arpReceive (hosts i) clock left frame arpTable).2, Truthful hosts sent := by
  intro sent hsent
  cases havail : (hosts i).available with
  | true =>
      rw [arpReceive_sent hknows havail] at hsent
      split at hsent
      · obtain rfl := List.mem_singleton.mp hsent
        exact truthful_frameWire ⟨i, rfl, rfl⟩
      · exact absurd hsent (by simp)
  | false =>
      by_cases hsup : Supported (hosts i) (arpFrameAt (hosts i) frame.payload)
      · rw [arpReceive_sent_of_supported hsup, arpHandleRequest, ethernetSend_unavailable havail,
          ite_self] at hsent
        exact absurd hsent (by simp)
      · rw [arpReceive_of_unsupported hsup] at hsent
        exact absurd hsent (by simp)

/-! ### One machine -/

theorem receive_carried {frame : Frame} (h : Carried frame) (host : Host) (c : Cache)
    (arrival : Arrival) :
    (machine host).receive c arrival frame =
      ({ c with arpTable := (startPduEncapsulation host c.clock arrival.left
          (arrivedPacket arrival.behind frame) c.arpTable).1 },
        (startPduEncapsulation host c.clock arrival.left
          (arrivedPacket arrival.behind frame) c.arpTable).2) := by
  simp only [machine, if_pos h]

theorem receive_dropped {frame : Frame} (h : ¬ Carried frame) (host : Host) (c : Cache)
    (arrival : Arrival) : (machine host).receive c arrival frame = (c, []) := by
  simp only [machine, if_neg h]

theorem payload_ethernetFrameAt (host : Host) (b : Bytes) :
    (ethernetFrameAt host b).payload = payloadOf b := rfl

/-- The type alone decides about a frame. -/
theorem startPdu_eq {host : Host} (hknows : KnowsByteOrder host) (clock : DoubleWord)
    (left : Leftover) (p : RawPacket) (arpTable : Option ArpTable) :
    startPduEncapsulation host clock left p arpTable =
      if netHalf p.data 12 = TYPE_ARP then
        arpReceive host clock left (ethernetFrameAt host p.data) arpTable
      else (arpTable, []) := by
  have htype : ntohs host (ethernetFrameAt host p.data).etherType = netHalf p.data 12 :=
    ntohs_loadHalf hknows p.data 12
  rw [startPduEncapsulation, htype]

section Truth

variable {i : ι} {clock : DoubleWord} {ip : Word} {arpTable : ArpTable}

theorem TruthfulEntry.touch {host : Host} {entry : ArpTableEntry} (h : TruthfulEntry hosts host entry)
    (clock : DoubleWord) (ip : Word) : TruthfulEntry hosts host (touch clock ip entry) := by
  rcases touch_cases clock ip entry with ⟨-, htouch⟩ | ⟨-, htouch⟩ | ⟨-, -, htouch⟩
  · rw [htouch]
    exact fun hmac => absurd rfl hmac
  · rw [htouch]
    exact h
  · rw [htouch]
    exact h

/-- A lookup leaves entries that have been there. -/
theorem truthful_touch (h : ∀ k, TruthfulEntry hosts (hosts i) (arpTable k)) (clock : DoubleWord)
    (ip : Word) : TruthfulCache hosts i ⟨some fun k => touch clock ip (arpTable k), clock⟩ :=
  ⟨_, rfl, fun k => (h k).touch clock ip⟩

/-- What a truthful message leaves in the table. -/
theorem truthful_arpReceive (hknows : KnowsByteOrder (hosts i)) {frame : EthernetFrame}
    (hframe : HoldsMessage frame.payload →
      NamesMachine hosts (messageAt frame.payload).senderIp (messageAt frame.payload).senderMac)
    (h : ∀ k, TruthfulEntry hosts (hosts i) (arpTable k)) (clock : DoubleWord) (left : Leftover) :
    TruthfulCache hosts i ⟨(arpReceive (hosts i) clock left frame (some arpTable)).1, clock⟩ := by
  by_cases hsup : Supported (hosts i) (arpFrameAt (hosts i) frame.payload)
  · have hnames := hframe ((supported_iff hknows _).mp hsup)
    have hsender := sender_arpFrameAt hknows frame.payload
    -- an entry for the sender is truthful, wherever it goes
    have hwrite : ∀ k m, TruthfulEntry hosts (hosts i) (Function.update
        (fun k => touch clock (sender (hosts i) (arpFrameAt (hosts i) frame.payload)).1 (arpTable k))
        k ⟨(sender (hosts i) (arpFrameAt (hosts i) frame.payload)).1,
          (sender (hosts i) (arpFrameAt (hosts i) frame.payload)).2, clockSeconds clock⟩ m) := by
      intro k m
      by_cases hm : m = k
      · subst hm
        rw [Function.update_self, hsender]
        intro _
        rw [htonMac_ntohMac]
        exact hnames
      · rw [Function.update_of_ne hm]
        exact (h m).touch _ _
    rcases arpReceive_cases hsup clock left arpTable with
      ⟨k, -, -, htable⟩ | ⟨-, ⟨-, htable⟩ | ⟨-, htable⟩⟩
    · exact ⟨_, htable, hwrite k⟩
    · exact ⟨_, htable, fun k => (h k).touch _ _⟩
    · exact ⟨_, htable, hwrite _⟩
  · rw [arpReceive_of_unsupported hsup]
    exact ⟨arpTable, rfl, h⟩

/-- Whatever a machine sends by itself is truthful. -/
theorem truthful_act (hknows : KnowsByteOrder (hosts i)) (c : Cache) (a : OwnAction) :
    ∀ frame ∈ ((machine (hosts i)).act c a).2, Truthful hosts frame := by
  intro frame hsent
  cases a with
  | lookup ip => exact absurd hsent (by simp [machine])
  | tick clock => exact absurd hsent (by simp [machine])
  | sendData destMac payload lenPayload block => exact truthful_data hknows frame hsent
  | getMac ip left =>
      simp only [machine] at hsent
      cases htable : c.arpTable with
      | none =>
          rw [htable] at hsent
          exact absurd hsent (by simp [arpTableGetMac])
      | some arpTable =>
          simp only [htable, arpTableGetMac] at hsent
          split at hsent
          · exact truthful_request i hknows left ip frame hsent
          · exact absurd hsent (by simp)

/-- So is whatever it answers. -/
theorem truthful_receive (hknows : KnowsByteOrder (hosts i)) (c : Cache) (arrival : Arrival)
    (frame : Frame) : ∀ sent ∈ ((machine (hosts i)).receive c arrival frame).2,
      Truthful hosts sent := by
  intro sent hsent
  by_cases hcarried : Carried frame
  · rw [receive_carried hcarried, startPdu_eq hknows] at hsent
    split at hsent
    · exact truthful_answer i hknows c.clock arrival.left _ c.arpTable sent hsent
    · exact absurd hsent (by simp)
  · rw [receive_dropped hcarried] at hsent
    exact absurd hsent (by simp)

/-- A message that arrives is truthful. -/
theorem names_of_truthful {frame : Frame} (hframe : Truthful hosts frame) (hcarried : Carried frame)
    (host : Host) {behind : Bytes} (htype : netHalf (arrivedPacket behind frame).data 12 = TYPE_ARP) :
    let ethFrame := ethernetFrameAt host (arrivedPacket behind frame).data
    HoldsMessage ethFrame.payload →
      NamesMachine hosts (messageAt ethFrame.payload).senderIp
        (messageAt ethFrame.payload).senderMac := by
  intro ethFrame
  rw [payload_ethernetFrameAt]
  exact hframe hcarried _ (slice_arrivedPacket behind frame) htype

/-- **A machine spreads the truth.** -/
theorem truthful_machine (hknows : ∀ i, KnowsByteOrder (hosts i)) :
    Keeps (fun i => machine (hosts i)) (fun _ _ => True) (TruthfulCache hosts) (Truthful hosts) where
  act := by
    rintro i ⟨_, clock⟩ a ⟨arpTable, rfl, h⟩ -
    refine ⟨?_, truthful_act (hknows i) _ a⟩
    cases a with
    | lookup ip =>
        simp only [machine, cacheStep, arpTableLookup_table]
        exact truthful_touch h clock ip
    | getMac ip left =>
        simp only [machine, cacheStep, arpTableGetMac_table]
        exact truthful_touch h clock ip
    | sendData destMac payload lenPayload block => exact ⟨arpTable, rfl, h⟩
    | tick later =>
        simp only [machine, cacheStep]
        split
        · exact ⟨arpTable, rfl, h⟩
        · exact ⟨arpTable, rfl, h⟩
  receive := by
    intro i c arrival frame h hframe
    refine ⟨?_, truthful_receive (hknows i) c arrival frame⟩
    by_cases hcarried : Carried frame
    · rw [receive_carried hcarried, startPdu_eq (hknows i)]
      obtain ⟨arpTable, hsome, hentries⟩ := h
      by_cases htype : netHalf (arrivedPacket arrival.behind frame).data 12 = TYPE_ARP
      · have hnames := names_of_truthful hframe hcarried (hosts i) htype
        rw [if_pos htype, hsome]
        generalize ethernetFrameAt (hosts i) (arrivedPacket arrival.behind frame).data = ethFrame
          at hnames ⊢
        exact truthful_arpReceive (hknows i) hnames hentries c.clock arrival.left
      · rw [if_neg htype]
        exact ⟨arpTable, hsome, hentries⟩
    · rw [receive_dropped hcarried]
      exact h

end Truth

/-! ### Agreement -/

/-- What a truthful table finds. -/
theorem agrees_of_truthful {net : LocalNetwork ι} (h : ∀ i, TruthfulCache hosts i (net.states i)) :
    Agrees hosts net := by
  intro i ip hfound
  obtain ⟨arpTable, htable, hentries⟩ := h i
  unfold resolved at hfound ⊢
  rw [htable] at hfound ⊢
  rcases arpTableLookup_mac (net.states i).clock ip arpTable with ⟨-, hnone⟩ | ⟨k, hhit, -, hmac⟩
  · exact absurd hnone hfound
  · rw [hmac] at hfound ⊢
    obtain ⟨j, hip, hmac'⟩ := hentries k hfound
    exact ⟨j, hip.trans hhit.2, isAddressOf_of_transmitted hmac'⟩

theorem sound_start (clocks : ι → DoubleWord) :
    Sound (TruthfulCache hosts) (Truthful hosts) (startNetwork clocks) :=
  ⟨fun _ => ⟨_, rfl, fun _ hmac => absurd rfl hmac⟩, fun _ hm => absurd hm (by simp [startNetwork])⟩

/-- **Agreement.**  In every state of every run, an address that a machine finds is that
of a card, of a machine with this IP address. -/
theorem network_agrees [DecidableEq ι] (hosts : ι → Host) (hknows : ∀ i, KnowsByteOrder (hosts i))
    (clocks : ι → DoubleWord) (events : List (NetworkEvent ι)) :
    EveryState (networkStep hosts) (Agrees hosts) (startNetwork clocks) events := by
  have hpermitted : ∀ e ∈ events, EventOk (fun (_ : ι) (_ : OwnAction) => True) e := fun e _ => by
    cases e <;> trivial
  have hsound := everyState_of_parties (truthful_machine hknows) (sound_start clocks) hpermitted
  exact hsound.imp fun net h => agrees_of_truthful h.1

/-- Two machines of different byte orders. -/
def twoMachines : Fin 2 → Host := ![versatileHost, bigEndianHost]

theorem twoMachines_know : ∀ i, KnowsByteOrder (twoMachines i) :=
  Fin.forall_fin_two.mpr ⟨rfl, rfl⟩

/-- The question of the first one reaches both of them, that of the second one is lost, and
the answer arrives twice. -/
theorem twoMachines_agree :
    let memory : Leftover := ⟨fun _ => 0, fun _ => 0⟩
    let arrival : Arrival := ⟨fun _ => 0xFF, memory⟩
    EveryState (networkStep twoMachines) (Agrees twoMachines) (startNetwork ![1000, 2000])
      [.act 0 (.getMac bigEndianHost.ownIpv4Addr memory), .act 1 (.getMac OWN_IPV4_ADDR memory),
        .deliver 0 0 arrival, .deliver 1 0 arrival, .deliver 0 2 arrival, .act 0 (.tick 9000),
        .deliver 0 2 arrival, .act 0 (.lookup bigEndianHost.ownIpv4Addr)] :=
  network_agrees twoMachines twoMachines_know ![1000, 2000] _

end Network
end Ninjastorms
