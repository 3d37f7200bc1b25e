import Ninjastorms.Network.LocalNetwork
import Mathlib.Data.Fintype.Option

/-!
# Resolved addresses stay resolved

A local network of at most as many machines as a table has entries, each with an
address of its own.  There a new sender always finds a free entry, as long as
nobody looks for the address 0 and no clock stands at second 0: an entry is only
lost by its age.

`question_resolves` follows a question through such a network.  Who has asked and been
answered finds the address from then on, for as long as an entry lives, and so does
the machine that has answered, whatever else happens in between and behind.
-/

namespace Ninjastorms
namespace Network

open Libc Lib.Runs Lib.MessageNetwork

variable {ι : Type*} {hosts : ι → Host}

/-! ### The conditions -/

/-- The machines know their byte order, have addresses of their own, and are few. -/
structure WellAddressed [Fintype ι] (hosts : ι → Host) : Prop where
  knows : ∀ i, KnowsByteOrder (hosts i)
  nonzero : ∀ i, (hosts i).ownIpv4Addr ≠ 0
  distinct : ∀ i j, (hosts i).ownIpv4Addr = (hosts j).ownIpv4Addr → i = j
  few : Fintype.card ι ≤ MAX_ARP_TABLE_ENTRIES

/-- Nobody looks for the address 0. -/
def SeeksAddress : OwnAction → Prop
  | .lookup ip | .getMac ip _ => ip ≠ 0
  | _ => True

instance : DecidablePred SeeksAddress
  | .lookup _ | .getMac _ _ => inferInstanceAs (Decidable (_ ≠ _))
  | .sendData _ _ _ _ | .tick _ => isTrue trivial

/-! ### The invariant -/

/-- The entries are free, or of different machines. -/
structure TidyTable (hosts : ι → Host) (host : Host) (clock : DoubleWord) (arpTable : ArpTable) :
    Prop where
  started : clockSeconds clock ≠ 0
  past : UsedBefore clock arpTable
  distinct : DistinctIps arpTable
  entries : ∀ k, arpTable k = ARP_NULL_ENTRY ∨ ((arpTable k).entryTime ≠ 0 ∧
    NamesMachine hosts (arpTable k).ip (htonMac host (arpTable k).mac))

def TidyCache (hosts : ι → Host) (i : ι) (c : Cache) : Prop :=
  ∃ arpTable, c.arpTable = some arpTable ∧ TidyTable hosts (hosts i) c.clock arpTable

/-- An entry for the address that was used in the second `since`, or later. -/
def Remembers (ip : Word) (since : Nat) (arpTable : ArpTable) : Prop :=
  ∃ k, (arpTable k).ip = ip ∧ since ≤ (arpTable k).entryTime.toNat

/-- Such an entry still lives. -/
def Within (since : Nat) (clock : DoubleWord) : Prop :=
  (clockSeconds clock).toNat ≤ since + MAX_ARP_TABLE_AGE.toNat

/-- The cache remembers the address as long as such an entry lives. -/
def RemembersWithin (ip : Word) (since : Nat) (c : Cache) : Prop :=
  Within since c.clock → ∃ arpTable, c.arpTable = some arpTable ∧ Remembers ip since arpTable

variable {host : Host} {clock : DoubleWord} {ip : Word} {arpTable : ArpTable} {since : Nat}

/-! ### A scan -/

theorem TidyTable.touch (h : TidyTable hosts host clock arpTable) (hip : ip ≠ 0) :
    TidyTable hosts host clock fun k => touch clock ip (arpTable k) where
  started := h.started
  past := h.past.touch ip
  distinct := h.distinct.touch clock ip
  entries := by
    intro k
    rcases touch_cases clock ip (arpTable k) with ⟨-, htouch⟩ | ⟨hhit, htouch⟩ | ⟨-, -, htouch⟩
    · exact Or.inl htouch
    · -- a free entry is none for the address looked for
      have hused : arpTable k ≠ ARP_NULL_ENTRY := fun hfree => hip (by rw [← hhit.2, hfree]; rfl)
      right
      rw [htouch]
      exact ⟨h.started, ((h.entries k).resolve_left hused).2⟩
    · rw [htouch]
      exact h.entries k

theorem not_expired_of_within (hpast : UsedBefore clock arpTable) (hwithin : Within since clock)
    {k : Slot} (hk : since ≤ (arpTable k).entryTime.toNat) : ¬ Expired clock (arpTable k) := by
  rintro ⟨-, hage⟩
  rw [gt_iff_lt, BitVec.lt_def, BitVec.toNat_sub_of_le (hpast k)] at hage
  unfold Within at hwithin
  omega

/-- A scan for any address forgets no entry that lives. -/
theorem touch_of_within (hpast : UsedBefore clock arpTable) (hwithin : Within since clock) {k : Slot}
    (hk : since ≤ (arpTable k).entryTime.toNat) (seek : Word) :
    (touch clock seek (arpTable k)).ip = (arpTable k).ip ∧
      since ≤ (touch clock seek (arpTable k)).entryTime.toNat := by
  have hage := not_expired_of_within hpast hwithin hk
  have hnow := BitVec.le_def.mp (hpast k)
  rcases touch_cases clock seek (arpTable k) with ⟨hold, -⟩ | ⟨-, htouch⟩ | ⟨-, -, htouch⟩
  · exact absurd hold hage
  · rw [htouch]
    exact ⟨rfl, hk.trans hnow⟩
  · rw [htouch]
    exact ⟨rfl, hk⟩

theorem Remembers.touch (h : Remembers ip since arpTable) (hpast : UsedBefore clock arpTable)
    (hwithin : Within since clock) (seek : Word) :
    Remembers ip since fun k => touch clock seek (arpTable k) := by
  obtain ⟨k, hip, hk⟩ := h
  obtain ⟨hkept, hlater⟩ := touch_of_within hpast hwithin hk seek
  exact ⟨k, hkept.trans hip, hlater⟩

/-! ### A new entry -/

/-- **There is room** for a machine that is not in the table. -/
theorem exists_free [Fintype ι] (haddr : WellAddressed hosts)
    (h : TidyTable hosts host clock arpTable) (j : ι)
    (hnone : ∀ k, (arpTable k).ip ≠ (hosts j).ownIpv4Addr) : ∃ k, arpTable k = ARP_NULL_ENTRY := by
  by_contra hfull
  rw [not_exists] at hfull
  have hnamed : ∀ k, ∃ m, (hosts m).ownIpv4Addr = (arpTable k).ip := by
    intro k
    obtain ⟨-, m, hm, -⟩ := (h.entries k).resolve_left (hfull k)
    exact ⟨m, hm⟩
  choose named hip using hnamed
  -- the machines in the table are different ones, and different from `j`
  have hinj : Function.Injective fun o : Option Slot => o.elim j named := by
    have hne : ∀ k, named k ≠ j := fun k hk => hnone k (by rw [← hip k, hk])
    rintro (_ | k) (_ | m) heq
    · rfl
    · exact absurd heq.symm (hne m)
    · exact absurd heq (hne k)
    · have hsame : (arpTable k).ip = (arpTable m).ip := by
        rw [← hip k, ← hip m]
        exact congrArg (fun m => (hosts m).ownIpv4Addr) heq
      by_contra hkm
      have hzero := h.distinct k m (fun hk => hkm (by rw [hk])) hsame
      exact haddr.nonzero (named k) ((hip k).trans hzero)
  have hcard := Fintype.card_le_of_injective _ hinj
  rw [Fintype.card_option, Fintype.card_fin] at hcard
  have hfew := haddr.few
  omega

/-- The slot for a new entry is a free one. -/
theorem slot_free [Fintype ι] (haddr : WellAddressed hosts)
    (h : TidyTable hosts host clock arpTable) (j : ι)
    (hnone : ∀ k, (arpTable k).ip ≠ (hosts j).ownIpv4Addr) :
    arpTable (arpTableSlot arpTable (List.finRange 10) 0) = ARP_NULL_ENTRY := by
  obtain ⟨k, hk⟩ := exists_free haddr h j hnone
  have hle := (arpTableSlot_spec arpTable k).1
  rw [hk] at hle
  have hzero : (arpTable (arpTableSlot arpTable (List.finRange 10) 0)).entryTime = 0 :=
    BitVec.eq_of_toNat_eq (Nat.le_zero.mp hle)
  rcases h.entries (arpTableSlot arpTable (List.finRange 10) 0) with hfree | ⟨hused, -⟩
  · exact hfree
  · exact absurd hzero hused

/-- An entry for a machine, in a slot that held it or that was free. -/
theorem TidyTable.write (h : TidyTable hosts host clock arpTable) {k : Slot} {mac : MacAddress}
    (hdistinct : DistinctIps (Function.update arpTable k ⟨ip, mac, clockSeconds clock⟩))
    (hnames : NamesMachine hosts ip (htonMac host mac)) :
    TidyTable hosts host clock (Function.update arpTable k ⟨ip, mac, clockSeconds clock⟩) where
  started := h.started
  past := h.past.write k ip mac
  distinct := hdistinct
  entries := by
    intro m
    by_cases hm : m = k
    · subst hm
      rw [Function.update_self]
      exact Or.inr ⟨h.started, hnames⟩
    · rw [Function.update_of_ne hm]
      exact h.entries m

theorem Remembers.write (h : Remembers ip since arpTable) (hpast : UsedBefore clock arpTable)
    {k : Slot} {seek : Word} (hk : (arpTable k).ip = ip → ip = seek) (mac : MacAddress) :
    Remembers ip since (Function.update arpTable k ⟨seek, mac, clockSeconds clock⟩) := by
  obtain ⟨m, hip, hm⟩ := h
  by_cases hmk : m = k
  · subst hmk
    refine ⟨m, ?_, ?_⟩
    · rw [Function.update_self]
      exact (hk hip).symm
    · rw [Function.update_self]
      exact hm.trans (BitVec.le_def.mp (hpast m))
  · refine ⟨m, ?_, ?_⟩
    · rw [Function.update_of_ne hmk]
      exact hip
    · rw [Function.update_of_ne hmk]
      exact hm

/-- The message names a machine, if it is one. -/
abbrev Names (hosts : ι → Host) (frame : EthernetFrame) : Prop :=
  HoldsMessage frame.payload →
    NamesMachine hosts (messageAt frame.payload).senderIp (messageAt frame.payload).senderMac

section Receive

variable [Fintype ι] {i : ι} {frame : EthernetFrame}

/-- **A message arrives.**  The table stays tidy, and forgets nobody whose entry lives. -/
theorem tidy_arpReceive (haddr : WellAddressed hosts) (hframe : Names hosts frame)
    (h : TidyTable hosts (hosts i) clock arpTable) (left : Leftover) :
    ∃ arpTable', (arpReceive (hosts i) clock left frame (some arpTable)).1 = some arpTable' ∧
      TidyTable hosts (hosts i) clock arpTable' ∧
      ∀ ip since, ip ≠ 0 → Within since clock → Remembers ip since arpTable →
        Remembers ip since arpTable' := by
  by_cases hsup : Supported (hosts i) (arpFrameAt (hosts i) frame.payload)
  · have hcases := arpReceive_cases hsup clock left arpTable
    have hnames := hframe ((supported_iff (haddr.knows i) _).mp hsup)
    rw [sender_arpFrameAt (haddr.knows i)] at hcases
    obtain ⟨j, hj, hmac⟩ := hnames
    simp only [← hj, hmac] at hcases
    have hscan := h.touch (haddr.nonzero j)
    have hnamed : NamesMachine hosts (hosts j).ownIpv4Addr
        (htonMac (hosts i) (ntohMac (hosts i) (hardwareAddress (hosts j)))) := by
      rw [htonMac_ntohMac]
      exact ⟨j, rfl, rfl⟩
    rcases hcases with ⟨k, hhit, -, htable⟩ | ⟨hnone, ⟨-, htable⟩ | ⟨-, htable⟩⟩
    · -- the entry of the sender is renewed
      refine ⟨_, htable, hscan.write (hscan.distinct.refresh hhit _) hnamed, ?_⟩
      intro ip since _ hwithin hold
      refine (hold.touch h.past hwithin _).write hscan.past (fun hk => ?_) _
      rw [touch_of_hit hhit, hhit.2] at hk
      exact hk.symm
    · refine ⟨_, htable, hscan, ?_⟩
      intro ip since _ hwithin hold
      exact hold.touch h.past hwithin _
    · -- there is a free entry for the sender
      have hfree := slot_free haddr hscan j fun k hk =>
        haddr.nonzero j (ip_touch_ne (hnone k) hk)
      refine ⟨_, htable, hscan.write (hscan.distinct.add hnone _ _) hnamed, ?_⟩
      intro ip since hip hwithin hold
      refine (hold.touch h.past hwithin _).write hscan.past (fun hk => ?_) _
      rw [hfree] at hk
      exact absurd hk.symm hip
  · rw [arpReceive_of_unsupported hsup]
    exact ⟨arpTable, rfl, h, fun _ _ _ _ hold => hold⟩

/-- **Learning.**  A message for this machine leaves its sender in the table. -/
theorem remembers_arpReceive (haddr : WellAddressed hosts) (hholds : HoldsMessage frame.payload)
    (htarget : (messageAt frame.payload).targetIp = (hosts i).ownIpv4Addr) (clock : DoubleWord)
    (left : Leftover) (arpTable : ArpTable) :
    ∃ arpTable', (arpReceive (hosts i) clock left frame (some arpTable)).1 = some arpTable' ∧
      Remembers (messageAt frame.payload).senderIp (clockSeconds clock).toNat arpTable' := by
  have hsup := (supported_iff (haddr.knows i) frame.payload).mpr hholds
  have hdest : ntohl (hosts i) (arpFrameAt (hosts i) frame.payload).destIpAddress =
      (hosts i).ownIpv4Addr := (ntohl_loadWord (haddr.knows i) _ _).trans htarget
  have hcases := arpReceive_cases hsup clock left arpTable
  rw [sender_arpFrameAt (haddr.knows i)] at hcases
  rcases hcases with ⟨k, -, -, htable⟩ | ⟨-, ⟨hother, -⟩ | ⟨-, htable⟩⟩
  · exact ⟨_, htable, k, by rw [Function.update_self], by rw [Function.update_self]⟩
  · exact absurd hdest hother
  · exact ⟨_, htable, _, by rw [Function.update_self], by rw [Function.update_self]⟩

end Receive

/-! ### One machine -/

section Machine

variable {i : ι} {c : Cache}

theorem TidyCache.scan (h : TidyTable hosts (hosts i) clock arpTable) (hip : ip ≠ 0) :
    TidyCache hosts i ⟨some fun k => touch clock ip (arpTable k), clock⟩ :=
  ⟨_, rfl, h.touch hip⟩

/-- **A machine keeps its table tidy.** -/
theorem tidy_machine [Fintype ι] (haddr : WellAddressed hosts) :
    Keeps (fun i => machine (hosts i)) (fun _ => SeeksAddress) (TidyCache hosts)
      (Truthful hosts) where
  act := by
    rintro i ⟨_, clock⟩ a ⟨arpTable, rfl, h⟩ ha
    refine ⟨?_, truthful_act (haddr.knows i) _ a⟩
    cases a with
    | lookup ip =>
        simp only [machine, cacheStep, arpTableLookup_table]
        exact TidyCache.scan h ha
    | getMac ip left =>
        simp only [machine, cacheStep, arpTableGetMac_table]
        exact TidyCache.scan h ha
    | sendData destMac payload lenPayload block => exact ⟨arpTable, rfl, h⟩
    | tick later =>
        simp only [machine, cacheStep]
        split
        · rename_i hforward
          have hmono := clockSeconds_mono hforward
          refine ⟨arpTable, rfl, fun hzero => h.started ?_, fun k => BitVec.le_trans (h.past k) hmono,
            h.distinct, h.entries⟩
          show clockSeconds clock = 0
          rw [show clockSeconds later = 0 from hzero] at hmono
          exact BitVec.eq_of_toNat_eq (Nat.le_zero.mp (BitVec.le_def.mp hmono))
        · exact ⟨arpTable, rfl, h⟩
  receive := by
    intro i c arrival frame h hframe
    refine ⟨?_, truthful_receive (haddr.knows i) c arrival frame⟩
    by_cases hcarried : Carried frame
    · rw [receive_carried hcarried, startPdu_eq (haddr.knows i)]
      obtain ⟨arpTable, hsome, htidy⟩ := h
      by_cases htype : netHalf (arrivedPacket arrival.behind frame).data 12 = TYPE_ARP
      · have hnames := names_of_truthful hframe hcarried (hosts i) htype
        rw [if_pos htype, hsome]
        obtain ⟨arpTable', htable, htidy', -⟩ := tidy_arpReceive haddr hnames htidy arrival.left
        exact ⟨arpTable', htable, htidy'⟩
      · rw [if_neg htype]
        exact ⟨arpTable, hsome, htidy⟩
    · rw [receive_dropped hcarried]
      exact h

/-- A scan of a cache that remembers. -/
theorem RemembersWithin.scan (h : RemembersWithin ip since ⟨some arpTable, clock⟩)
    (hpast : UsedBefore clock arpTable) (seek : Word) :
    RemembersWithin ip since ⟨some fun k => touch clock seek (arpTable k), clock⟩ := by
  intro hwithin
  obtain ⟨_, hsome, hold⟩ := h hwithin
  obtain rfl := Option.some.inj hsome
  exact ⟨_, rfl, hold.touch hpast hwithin seek⟩

/-- What a machine does by itself costs no entry. -/
theorem remembers_act (a : OwnAction) (htidy : TidyCache hosts i c)
    (h : RemembersWithin ip since c) : RemembersWithin ip since ((machine (hosts i)).act c a).1 := by
  obtain ⟨_, clock⟩ := c
  obtain ⟨arpTable, rfl, ht⟩ := htidy
  cases a with
  | lookup seek =>
      simp only [machine, cacheStep, arpTableLookup_table]
      exact h.scan ht.past seek
  | getMac seek left =>
      simp only [machine, cacheStep, arpTableGetMac_table]
      exact h.scan ht.past seek
  | sendData destMac payload lenPayload block => exact h
  | tick later =>
      simp only [machine, cacheStep]
      split
      · rename_i hforward
        intro hwithin
        have hmono := BitVec.le_def.mp (clockSeconds_mono hforward)
        exact h (le_trans hmono hwithin)
      · exact h

/-- Nor does a message that arrives. -/
theorem remembers_receive [Fintype ι] (haddr : WellAddressed hosts) (hip : ip ≠ 0) (arrival : Arrival)
    {frame : Frame} (hframe : Truthful hosts frame) (htidy : TidyCache hosts i c)
    (h : RemembersWithin ip since c) :
    RemembersWithin ip since ((machine (hosts i)).receive c arrival frame).1 := by
  by_cases hcarried : Carried frame
  · rw [receive_carried hcarried, startPdu_eq (haddr.knows i)]
    by_cases htype : netHalf (arrivedPacket arrival.behind frame).data 12 = TYPE_ARP
    · obtain ⟨arpTable, hsome, ht⟩ := htidy
      have hnames := names_of_truthful hframe hcarried (hosts i) htype
      rw [if_pos htype, hsome]
      intro hwithin
      obtain ⟨_, hsome', hold⟩ := h hwithin
      obtain rfl := Option.some.inj (hsome.symm.trans hsome')
      obtain ⟨arpTable', htable, -, hkeeps⟩ := tidy_arpReceive haddr hnames ht arrival.left
      exact ⟨arpTable', htable, hkeeps ip since hip hwithin hold⟩
    · rw [if_neg htype]
      exact h
  · rw [receive_dropped hcarried]
    exact h

/-- A message reaches `arp_receive`. -/
theorem receive_frameWire (hknows : KnowsByteOrder host) (c : Cache) (arrival : Arrival)
    (destMac srcMac : MacAddress) (msg : ArpMessage) :
    ∃ ethFrame : EthernetFrame, HoldsMessage ethFrame.payload ∧ messageAt ethFrame.payload = msg ∧
      (machine host).receive c arrival (frameWire destMac srcMac msg) =
        ({ c with arpTable := (arpReceive host c.clock arrival.left ethFrame c.arpTable).1 },
          (arpReceive host c.clock arrival.left ethFrame c.arpTable).2) := by
  have hcarried := carried_frameWire destMac srcMac msg
  obtain ⟨ethFrame, hholds, hmsg, hstart⟩ := startPdu_of_delivered hknows
    (delivers_arrivedPacket hcarried arrival.behind) c.clock arrival.left c.arpTable
  exact ⟨ethFrame, hholds, hmsg, by rw [receive_carried hcarried, hstart]⟩

theorem clock_receive (host : Host) (c : Cache) (arrival : Arrival) (frame : Frame) :
    ((machine host).receive c arrival frame).1.clock = c.clock := by
  by_cases hcarried : Carried frame
  · rw [receive_carried hcarried]
  · rw [receive_dropped hcarried]

/-- **Hearing.**  Whoever is told something remembers who has told it. -/
theorem remembers_sender [Fintype ι] (haddr : WellAddressed hosts) (htidy : TidyCache hosts i c)
    (arrival : Arrival) (destMac srcMac : MacAddress) {msg : ArpMessage}
    (htarget : msg.targetIp = (hosts i).ownIpv4Addr) :
    RemembersWithin msg.senderIp (clockSeconds c.clock).toNat
      ((machine (hosts i)).receive c arrival (frameWire destMac srcMac msg)).1 := by
  obtain ⟨ethFrame, hholds, rfl, hreceive⟩ :=
    receive_frameWire (haddr.knows i) c arrival destMac srcMac msg
  obtain ⟨arpTable, hsome, -⟩ := htidy
  obtain ⟨arpTable', htable, hold⟩ :=
    remembers_arpReceive haddr hholds htarget c.clock arrival.left arpTable
  rw [hreceive, hsome]
  exact fun _ => ⟨arpTable', htable, hold⟩

/-- **Answering.** -/
theorem answers_request (hknows : KnowsByteOrder host) (havail : host.available = true) (c : Cache)
    (arrival : Arrival) (destMac srcMac : MacAddress) {msg : ArpMessage}
    (htarget : msg.targetIp = host.ownIpv4Addr) (hop : msg.opcode = ARP_REQUEST) :
    ((machine host).receive c arrival (frameWire destMac srcMac msg)).2 = [replyFrame host msg] := by
  obtain ⟨ethFrame, hholds, rfl, hreceive⟩ := receive_frameWire hknows c arrival destMac srcMac msg
  rw [hreceive, arpReceive_sent hknows havail, if_pos ⟨hholds, htarget, hop⟩]

/-- **Finding.**  A machine that remembers another one finds its address. -/
theorem resolved_of_remembers [Fintype ι] (haddr : WellAddressed hosts) {net : LocalNetwork ι}
    {j : ι} (htidy : TidyCache hosts i (net.states i))
    (h : RemembersWithin (hosts j).ownIpv4Addr since (net.states i))
    (hwithin : Within since (net.states i).clock) :
    IsAddressOf (hosts j) (hosts i) (resolved net i (hosts j).ownIpv4Addr) := by
  obtain ⟨arpTable, hsome, ht⟩ := htidy
  obtain ⟨_, hsome', k, hip, hk⟩ := h hwithin
  obtain rfl := Option.some.inj (hsome.symm.trans hsome')
  have hhit : Hit (net.states i).clock (hosts j).ownIpv4Addr (arpTable k) :=
    ⟨not_expired_of_within ht.past hwithin hk, hip⟩
  unfold resolved
  rw [hsome]
  rcases arpTableLookup_mac (net.states i).clock (hosts j).ownIpv4Addr arpTable with
    ⟨hnone, -⟩ | ⟨m, hm, -, hmac⟩
  · exact absurd hhit (hnone k)
  · rw [hmac]
    -- the entry that is found is that of `j`
    have hused : arpTable m ≠ ARP_NULL_ENTRY := fun hfree =>
      haddr.nonzero j (by rw [← hm.2, hfree]; rfl)
    obtain ⟨-, owner, howner, hcard⟩ := (ht.entries m).resolve_left hused
    obtain rfl := haddr.distinct owner j (howner.trans hm.2)
    exact isAddressOf_of_transmitted hcard

end Machine

/-! ### The exchange in the network -/

section Start

variable {net : LocalNetwork ι} {i : ι}

theorem tidy_startNetwork {clocks : ι → DoubleWord} (hlate : ∀ i, clockSeconds (clocks i) ≠ 0) :
    Sound (TidyCache hosts) (Truthful hosts) (startNetwork clocks) :=
  ⟨fun i => ⟨_, rfl, hlate i, fun _ => BitVec.le_def.mpr (Nat.zero_le _), fun _ _ _ _ => rfl,
    fun _ => Or.inl rfl⟩, fun _ hm => absurd hm (by simp [startNetwork])⟩

/-- The question for an address. -/
def question (host : Host) (ip : Word) : Frame :=
  frameWire (htonMac host BROADCAST_MAC) (hardwareAddress host)
    (builtMessage host ARP_REQUEST NULL_MAC ip)

/-- It is sent if the address is not known. -/
theorem asks (hknows : KnowsByteOrder (hosts i)) (havail : (hosts i).available = true)
    (htidy : TidyCache hosts i (net.states i)) (hunknown : resolved net i ip = NULL_MAC)
    (left : Leftover) :
    ((machine (hosts i)).act (net.states i) (.getMac ip left)).2 = [question (hosts i) ip] := by
  obtain ⟨arpTable, hsome, -⟩ := htidy
  unfold resolved at hunknown
  rw [hsome] at hunknown
  have hequal : macAddressEqual NULL_MAC
      (arpTableLookup (net.states i).clock ip (some arpTable)).1 = true := by
    rw [macAddressEqual_iff, hunknown]
  simp only [machine, hsome, arpTableGetMac, hequal, if_true]
  exact arpSendRequest_eq hknows havail left ip

end Start

section Exchange

variable [Fintype ι] [DecidableEq ι] {net : LocalNetwork ι} {i j : ι}

theorem within_of_withinAge {later : DoubleWord} (h : WithinAge clock later) :
    Within (clockSeconds clock).toNat later := by
  have hmono := clockSeconds_mono h.1
  have hage := BitVec.le_def.mp h.2
  rw [BitVec.toNat_sub_of_le hmono] at hage
  unfold Within
  omega

/-- Nothing that happens makes a machine forget whom it remembers. -/
theorem remembers_run (haddr : WellAddressed hosts)
    (h : Sound (TidyCache hosts) (Truthful hosts) net)
    (hold : RemembersWithin (hosts j).ownIpv4Addr since (net.states i))
    {events : List (NetworkEvent ι)}
    (hseek : ∀ e ∈ events, EventOk (fun _ => SeeksAddress) e) :
    RemembersWithin (hosts j).ownIpv4Addr since ((run (networkStep hosts) net events).states i) :=
  party_run (tidy_machine haddr) (fun _ a htidy _ hc => remembers_act a htidy hc)
    (fun _ arrival _ htidy hframe hc =>
      remembers_receive haddr (haddr.nonzero j) arrival hframe htidy hc) h hold hseek

/-- A message that is delivered to the machine that it is for. -/
theorem remembers_delivered (haddr : WellAddressed hosts) (htidy : TidyCache hosts j (net.states j))
    {k : Nat} {destMac srcMac : MacAddress} {msg : ArpMessage}
    (hsent : net.sent[k]? = some (frameWire destMac srcMac msg))
    (htarget : msg.targetIp = (hosts j).ownIpv4Addr) (arrival : Arrival) :
    let heard := networkStep hosts net (.deliver j k arrival)
    RemembersWithin msg.senderIp (clockSeconds (heard.states j).clock).toNat (heard.states j) := by
  intro heard
  have hstate : heard.states j =
      ((machine (hosts j)).receive (net.states j) arrival (frameWire destMac srcMac msg)).1 := by
    rw [show heard = _ from step_deliver hsent j arrival, put_states_self]
  rw [hstate, clock_receive]
  exact remembers_sender haddr htidy arrival destMac srcMac htarget

/-- **A question is answered, and the answer lasts.**  The machine `i` asks for the address
of `j`; its question reaches `j`, and the answer reaches `i`.  Whatever else happens
before, in between and behind, each finds the other one for as long as an entry lives. -/
theorem question_resolves (hosts : ι → Host) (haddr : WellAddressed hosts) (i j : ι)
    (havailI : (hosts i).available = true) (havailJ : (hosts j).available = true)
    (clocks : ι → DoubleWord) (hlate : ∀ i, clockSeconds (clocks i) ≠ 0)
    (before between back after : List (NetworkEvent ι))
    (hseek : ∀ e ∈ before ++ between ++ back ++ after, EventOk (fun _ => SeeksAddress) e)
    (left : Leftover) (arrivalJ arrivalI : Arrival) :
    let asking := run (networkStep hosts) (startNetwork clocks) before
    let asked := networkStep hosts asking (.act i (.getMac (hosts j).ownIpv4Addr left))
    let reached := run (networkStep hosts) asked between
    let heard := networkStep hosts reached (.deliver j asking.sent.length arrivalJ)
    let returning := run (networkStep hosts) heard back
    let answered := networkStep hosts returning (.deliver i reached.sent.length arrivalI)
    let later := run (networkStep hosts) answered after
    resolved asking i (hosts j).ownIpv4Addr = NULL_MAC →
    (WithinAge (answered.states i).clock (later.states i).clock →
      IsAddressOf (hosts j) (hosts i) (resolved later i (hosts j).ownIpv4Addr)) ∧
    (WithinAge (heard.states j).clock (later.states j).clock →
      IsAddressOf (hosts i) (hosts j) (resolved later j (hosts i).ownIpv4Addr)) := by
  intro asking asked reached heard returning answered later hunknown
  have hkeeps := tidy_machine haddr
  simp only [List.mem_append, or_imp, forall_and] at hseek
  obtain ⟨⟨⟨hseekBefore, hseekBetween⟩, hseekBack⟩, hseekAfter⟩ := hseek
  have hasking : Sound (TidyCache hosts) (Truthful hosts) asking :=
    sound_run hkeeps (tidy_startNetwork hlate) hseekBefore
  have hasked : Sound (TidyCache hosts) (Truthful hosts) asked :=
    hkeeps.step hasking (haddr.nonzero j)
  have hreached : Sound (TidyCache hosts) (Truthful hosts) reached :=
    sound_run hkeeps hasked hseekBetween
  have hheard : Sound (TidyCache hosts) (Truthful hosts) heard := hkeeps.step hreached trivial
  have hreturning : Sound (TidyCache hosts) (Truthful hosts) returning :=
    sound_run hkeeps hheard hseekBack
  have hanswered : Sound (TidyCache hosts) (Truthful hosts) answered :=
    hkeeps.step hreturning trivial
  have hlater : Sound (TidyCache hosts) (Truthful hosts) later :=
    sound_run hkeeps hanswered hseekAfter
  -- the question keeps its number until it reaches `j`
  have hquestion : asked.sent[asking.sent.length]? = some (question (hosts i) (hosts j).ownIpv4Addr) :=
    sent_of_act (asks (haddr.knows i) havailI (hasking.1 i) hunknown left)
  have hqueued : reached.sent[asking.sent.length]? =
      some (question (hosts i) (hosts j).ownIpv4Addr) := getElem?_sent_run hquestion between
  have hheardFrom : RemembersWithin (hosts i).ownIpv4Addr
      (clockSeconds (heard.states j).clock).toNat (heard.states j) :=
    remembers_delivered haddr (hreached.1 j) hqueued rfl arrivalJ
  -- so does the answer until it reaches `i`
  let answer : Frame := replyFrame (hosts j)
    (builtMessage (hosts i) ARP_REQUEST NULL_MAC (hosts j).ownIpv4Addr)
  have hanswer : heard.sent[reached.sent.length]? = some answer :=
    sent_of_receive hqueued (answers_request (haddr.knows j) havailJ _ arrivalJ _ _ rfl rfl)
  have hreturned : returning.sent[reached.sent.length]? = some answer :=
    getElem?_sent_run hanswer back
  have hanswerFrom : RemembersWithin (hosts j).ownIpv4Addr
      (clockSeconds (answered.states i).clock).toNat (answered.states i) :=
    remembers_delivered haddr (hreturning.1 i) hreturned rfl arrivalI
  constructor
  · intro hage
    exact resolved_of_remembers haddr (hlater.1 i)
      (remembers_run haddr hanswered hanswerFrom hseekAfter) (within_of_withinAge hage)
  · intro hage
    have hkept : RemembersWithin (hosts i).ownIpv4Addr
        (clockSeconds (heard.states j).clock).toNat (later.states j) := by
      have hthrough := remembers_run haddr hheard hheardFrom hseekBack
      have hone : ∀ e ∈ [Event.deliver i reached.sent.length arrivalI],
          EventOk (fun _ : ι => SeeksAddress) e := by simp [EventOk]
      have hdelivered : RemembersWithin (hosts i).ownIpv4Addr
          (clockSeconds (heard.states j).clock).toNat (answered.states j) :=
        remembers_run haddr hreturning hthrough hone
      exact remembers_run haddr hanswered hdelivered hseekAfter
    exact resolved_of_remembers haddr (hlater.1 j) hkept (within_of_withinAge hage)

end Exchange

theorem twoMachines_wellAddressed : WellAddressed twoMachines where
  knows := twoMachines_know
  nonzero := by decide
  distinct := by decide
  few := by decide

/-- The second one sends data, and the clocks move on while the frames are on their way;
300 seconds later both find each other. -/
theorem twoMachines_resolve :
    let memory : Leftover := ⟨fun _ => 0, fun _ => 0⟩
    let arrival : Arrival := ⟨fun _ => 0xFF, memory⟩
    let data : NetworkEvent (Fin 2) := .act 1 (.sendData versatileHost.mac (fun _ => 8) 4 fun _ => 0)
    let asking := run (networkStep twoMachines) (startNetwork ![1000, 2000]) [data]
    let asked := networkStep twoMachines asking
      (.act 0 (.getMac bigEndianHost.ownIpv4Addr memory))
    let reached := run (networkStep twoMachines) asked [.deliver 0 0 arrival, .act 1 (.tick 2500)]
    let heard := networkStep twoMachines reached (.deliver 1 asking.sent.length arrival)
    let returning := run (networkStep twoMachines) heard [.act 0 (.tick 3000), data]
    let answered := networkStep twoMachines returning (.deliver 0 reached.sent.length arrival)
    let later := run (networkStep twoMachines) answered
      [.act 0 (.tick 303000), .act 1 (.tick 302500)]
    IsAddressOf bigEndianHost versatileHost (resolved later 0 bigEndianHost.ownIpv4Addr) ∧
      IsAddressOf versatileHost bigEndianHost (resolved later 1 versatileHost.ownIpv4Addr) := by
  intro memory arrival data asking asked reached heard returning answered later
  have hlate : ∀ i, clockSeconds ((![1000, 2000] : Fin 2 → DoubleWord) i) ≠ 0 := by decide
  have hboth := question_resolves twoMachines twoMachines_wellAddressed 0 1 rfl rfl ![1000, 2000]
    hlate [data] [.deliver 0 0 arrival, .act 1 (.tick 2500)] [.act 0 (.tick 3000), data]
    [.act 0 (.tick 303000), .act 1 (.tick 302500)] (by simp [data, EventOk, SeeksAddress]) memory
    arrival arrival (by decide +kernel)
  exact ⟨hboth.1 ⟨by decide +kernel, by decide +kernel⟩,
    hboth.2 ⟨by decide +kernel, by decide +kernel⟩⟩

end Network
end Ninjastorms
