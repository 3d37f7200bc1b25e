import Ninjastorms.Network.ArpFreshness

/-!
# How long an entry of the ARP table can be used

An entry is an IP address together with a hardware address.  `lastUse` is its
history: the second in which it was last learned or updated by `arp_receive`, or
returned by a lookup.  `AgesOut` says that a lookup only returns an address that
was used within the last `MAX_ARP_TABLE_AGE` seconds.

The table itself keeps the second of the last use in `entry_time`, where 0 also
marks a free slot, so that an entry which was learned in second 0 never expires.
`arpCache_agesOut_iff` says that the lookups of these entries are the only ones
that go wrong.
-/

namespace Ninjastorms
namespace Network

open Lib.Runs Lib.TableScan

/-! ### The history -/

/-- The address that is looked up. -/
def lookedUp : Action → Option Word
  | .lookup ip => some ip
  | .getMac ip _ => some ip
  | _ => none

/-- The frame updates the entry of its sender, or adds one. -/
def Learns (host : Host) (c : Cache) (frame : EthernetFrame) : Prop :=
  let arpFrame := arpFrameAt host frame.payload
  Supported host arpFrame ∧
    ((arpTableUpdate c.clock (sender host arpFrame).2 (sender host arpFrame).1 c.arpTable).1 = true ∨
      ntohl host arpFrame.destIpAddress = host.ownIpv4Addr)

instance (host : Host) (c : Cache) (frame : EthernetFrame) : Decidable (Learns host c frame) :=
  inferInstanceAs (Decidable (_ ∧ _))

/-- The entry that the operation learns, updates or returns.  A lookup that finds
nothing returns `NULL_MAC`. -/
def usedEntry (host : Host) (c : Cache) : Action → Option (Word × MacAddress)
  | .receive frame _ =>
      if Learns host c frame then some (sender host (arpFrameAt host frame.payload)) else none
  | .lookup ip => some (ip, (arpTableLookup c.clock ip c.arpTable).1)
  | .getMac ip left => some (ip, (arpTableGetMac host c.clock left ip c.arpTable).1)
  | .tick _ => none

/-- The second in which an entry was last used. -/
abbrev LastUse := Word × MacAddress → Option DoubleWord

/-- One more use.  There is no entry with the address `NULL_MAC`. -/
def recordUse (now : DoubleWord) (lastUse : LastUse) : Option (Word × MacAddress) → LastUse
  | some entry => if entry.2 = NULL_MAC then lastUse else Function.update lastUse entry (some now)
  | none => lastUse

/-- The cache together with its history. -/
structure AgingCache where
  cache : Cache
  lastUse : LastUse

def agingStep (host : Host) (s : AgingCache) (act : Action) : AgingCache where
  cache := cacheStep host s.cache act
  lastUse := recordUse (clockSeconds s.cache.clock) s.lastUse (usedEntry host s.cache act)

def initialAging (clock : DoubleWord) : AgingCache where
  cache := initialCache clock
  lastUse := fun _ => none

/-- A lookup returns no entry that was last used too long ago. -/
def AgesOut (s : AgingCache) (act : Action) : Prop :=
  ∀ ip, lookedUp act = some ip →
    (arpTableLookup s.cache.clock ip s.cache.arpTable).1 ≠ NULL_MAC →
    ∃ second, s.lastUse (ip, (arpTableLookup s.cache.clock ip s.cache.arpTable).1) = some second ∧
      (clockSeconds s.cache.clock).toNat ≤ second.toNat + MAX_ARP_TABLE_AGE.toNat

/-- The lookup of an address whose entry has been used in second 0 only, after
it should have expired. -/
def LooksUpFirstSecond (c : Cache) (act : Action) : Prop :=
  ∃ ip, lookedUp act = some ip ∧ MAX_ARP_TABLE_AGE.toNat < (clockSeconds c.clock).toNat ∧
    ∃ i, (c.entry i).ip = ip ∧ (c.entry i).mac ≠ NULL_MAC ∧ (c.entry i).entryTime = 0

/-! ### The invariant -/

variable {host : Host} {clock : DoubleWord} {ip : Word} {lastUse : LastUse} {arpTable : ArpTable}

/-- The entries and their history.  In second 0 only slot 0 is ever written,
except that the address 0 goes to the last slot. -/
structure AgingInv (clock : DoubleWord) (lastUse : LastUse) (arpTable : ArpTable) : Prop where
  distinct : DistinctIps arpTable
  past : UsedBefore clock arpTable
  usedPast : ∀ entry second, lastUse entry = some second → second ≤ clockSeconds clock
  usedLe : ∀ i, (arpTable i).mac ≠ NULL_MAC → ∀ second,
    lastUse ((arpTable i).ip, (arpTable i).mac) = some second → second ≤ (arpTable i).entryTime
  used : ∀ i, (arpTable i).mac ≠ NULL_MAC →
    lastUse ((arpTable i).ip, (arpTable i).mac) = some (arpTable i).entryTime ∨
      Superseded arpTable i
  firstSecond : clockSeconds clock = 0 → ∀ i, i ≠ 0 → (arpTable i).ip = 0
  timeless : ∀ i, (arpTable i).ip = 0 → (arpTable i).mac ≠ NULL_MAC →
    (arpTable i).entryTime = 0 → i = Fin.last 9

theorem not_expired_of_timeless {entry : ArpTableEntry} (h : entry.entryTime = 0) :
    ¬ Expired clock entry := fun hage => hage.1 h

/-- In second 0 nothing has been used later. -/
theorem UsedBefore.timeless (h : UsedBefore clock arpTable) (hsec : clockSeconds clock = 0)
    (i : Slot) : (arpTable i).entryTime = 0 := by
  have hle := h i
  rw [hsec] at hle
  exact BitVec.le_zero_iff.mp hle

theorem recordUse_le {now : DoubleWord} {used : Option (Word × MacAddress)}
    (h : ∀ entry second, lastUse entry = some second → second ≤ now)
    (entry : Word × MacAddress) (second : DoubleWord)
    (hsecond : recordUse now lastUse used entry = some second) : second ≤ now := by
  unfold recordUse at hsecond
  cases used with
  | none => exact h entry second hsecond
  | some entry' =>
      simp only at hsecond
      split at hsecond
      · exact h entry second hsecond
      · by_cases hentry : entry = entry'
        · rw [hentry, Function.update_self] at hsecond
          rw [Option.some.inj hsecond]
          exact BitVec.le_refl _
        · rw [Function.update_of_ne hentry] at hsecond
          exact h entry second hsecond

/-- The history of another address does not change. -/
theorem recordUse_of_ne {now : DoubleWord} {mac : MacAddress} {entry : Word × MacAddress}
    (h : entry.1 ≠ ip) : recordUse now lastUse (some (ip, mac)) entry = lastUse entry := by
  unfold recordUse
  simp only
  split
  · rfl
  · exact Function.update_of_ne (fun heq => h (congrArg Prod.fst heq)) _ _

theorem recordUse_self {now : DoubleWord} {mac : MacAddress} (h : mac ≠ NULL_MAC) :
    recordUse now lastUse (some (ip, mac)) (ip, mac) = some now := by
  unfold recordUse
  simp only [if_neg h, Function.update_self]

/-- What still holds an address after a scan has not expired. -/
theorem touch_of_mac_ne {entry : ArpTableEntry} (h : (touch clock ip entry).mac ≠ NULL_MAC) :
    (Hit clock ip entry ∧
      touch clock ip entry = { entry with entryTime := clockSeconds clock }) ∨
    (¬ Expired clock entry ∧ entry.ip ≠ ip ∧ touch clock ip entry = entry) := by
  rcases touch_cases clock ip entry with ⟨-, htouch⟩ | hhit | hother
  · rw [htouch] at h
    exact absurd rfl h
  · exact Or.inl hhit
  · exact Or.inr hother

/-! ### What a scan does to the invariant -/

/-- In second 0, a scan leaves the slots behind the first one without an address. -/
theorem AgingInv.ip_touched (h : AgingInv clock lastUse arpTable) (hsec : clockSeconds clock = 0)
    {i : Slot} (hi : i ≠ 0) : (touch clock ip (arpTable i)).ip = 0 := by
  rcases ip_touch clock ip (arpTable i) with hip | hip
  · exact hip
  · exact hip.trans (h.firstSecond hsec i hi)

/-- An entry for another address keeps its place in the history. -/
theorem AgingInv.used_other (h : AgingInv clock lastUse arpTable) {i k : Slot}
    (hage : ¬ Expired clock (arpTable i)) (hne : (arpTable i).ip ≠ ip)
    (hmac : (arpTable i).mac ≠ NULL_MAC) (mac : MacAddress)
    (hk : ∀ j, i < j → (arpTable j).ip ≠ ip → (arpTable j).entryTime = (arpTable i).entryTime →
      j ≠ k) :
    let t := Function.update (fun i => touch clock ip (arpTable i)) k ⟨ip, mac, clockSeconds clock⟩
    lastUse ((arpTable i).ip, (arpTable i).mac) = some (arpTable i).entryTime ∨
      ∃ j, i < j ∧ (t j).ip = (arpTable i).ip ∧ (t j).entryTime = (arpTable i).entryTime := by
  intro t
  rcases h.used i hmac with hused | ⟨j, hij, hip, htime⟩
  · exact Or.inl hused
  · right
    have hjne : (arpTable j).ip ≠ ip := fun heq => hne (hip.symm.trans heq)
    refine ⟨j, hij, ?_⟩
    simp only [t, Function.update_of_ne (hk j hij hjne htime),
      touch_of_other (not_expired_of_eq htime hage) hjne]
    exact ⟨hip, htime⟩

/-- An operation that finds its address. -/
theorem AgingInv.found (h : AgingInv clock lastUse arpTable) {k : Slot}
    (hhit : Hit clock ip (arpTable k)) (hlast : ∀ j, k < j → ¬ Hit clock ip (arpTable j))
    (mac : MacAddress) :
    AgingInv clock (recordUse (clockSeconds clock) lastUse (some (ip, mac)))
      (Function.update (fun i => touch clock ip (arpTable i)) k ⟨ip, mac, clockSeconds clock⟩) where
  distinct := (h.distinct.touch clock ip).refresh hhit mac
  past := (h.past.touch ip).write k ip mac
  usedPast := recordUse_le h.usedPast
  usedLe := by
    intro i hmac second hsecond
    by_cases hik : i = k
    · rw [hik, Function.update_self] at hsecond ⊢
      exact recordUse_le h.usedPast _ second hsecond
    · rw [Function.update_of_ne hik] at hmac hsecond ⊢
      rcases touch_of_mac_ne hmac with ⟨-, htouch⟩ | ⟨-, hne, htouch⟩
      · rw [htouch] at hsecond ⊢
        exact recordUse_le h.usedPast _ second hsecond
      · rw [htouch] at hmac hsecond ⊢
        rw [recordUse_of_ne hne] at hsecond
        exact h.usedLe i hmac second hsecond
  used := by
    intro i hmac
    by_cases hik : i = k
    · left
      rw [hik, Function.update_self] at hmac ⊢
      exact recordUse_self hmac
    · rw [Function.update_of_ne hik] at hmac
      rcases touch_of_mac_ne hmac with ⟨hi, htouch⟩ | ⟨hage, hne, htouch⟩
      · -- an earlier hit, refreshed in the same second as the last one
        right
        have hlt : i < k := lt_of_le_of_ne (not_lt.mp fun hki => hlast i hki hi) hik
        refine ⟨k, hlt, ?_⟩
        rw [Function.update_self, Function.update_of_ne hik, htouch]
        exact ⟨hi.2.symm, rfl⟩
      · rw [htouch] at hmac
        have hother := h.used_other hage hne hmac mac
          (fun j _ hjne _ hjk => hjne (hjk ▸ hhit.2))
        rw [Superseded, Function.update_of_ne hik, htouch, recordUse_of_ne hne]
        exact hother
  firstSecond := by
    intro hsec i hi
    by_cases hik : i = k
    · rw [hik, Function.update_self]
      exact hhit.2.symm.trans (h.firstSecond hsec k (hik ▸ hi))
    · rw [Function.update_of_ne hik]
      exact h.ip_touched hsec hi
  timeless := by
    intro i hip hmac htime
    by_cases hik : i = k
    · -- in second 0 the last slot holds the address 0 as well
      rw [hik, Function.update_self] at hip htime
      by_contra hne
      have hlt : k < Fin.last 9 := lt_of_le_of_ne (Fin.le_last k) (hik ▸ hne)
      refine hlast _ hlt ⟨not_expired_of_timeless (h.past.timeless htime _), ?_⟩
      exact (h.firstSecond htime _ (by decide)).trans hip.symm
    · rw [Function.update_of_ne hik] at hip hmac htime
      rcases touch_of_mac_ne hmac with ⟨-, htouch⟩ | ⟨-, -, htouch⟩
      · rw [htouch] at hip hmac htime
        exact h.timeless i hip hmac (h.past.timeless htime i)
      · rw [htouch] at hip hmac htime
        exact h.timeless i hip hmac htime

/-- A scan without a hit leaves what still holds an address as it is. -/
theorem touch_of_no_hit {entry : ArpTableEntry} (hnone : ¬ Hit clock ip entry)
    (h : (touch clock ip entry).mac ≠ NULL_MAC) :
    ¬ Expired clock entry ∧ entry.ip ≠ ip ∧ touch clock ip entry = entry := by
  rcases touch_of_mac_ne h with ⟨hhit, -⟩ | hother
  · exact absurd hhit hnone
  · exact hother

/-- An operation that does not find its address, and learns nothing. -/
theorem AgingInv.missed (h : AgingInv clock lastUse arpTable)
    (hnone : ∀ i, ¬ Hit clock ip (arpTable i)) :
    AgingInv clock lastUse fun i => touch clock ip (arpTable i) where
  distinct := h.distinct.touch clock ip
  past := h.past.touch ip
  usedPast := h.usedPast
  usedLe := by
    intro i hmac
    obtain ⟨-, -, htouch⟩ := touch_of_no_hit (hnone i) hmac
    rw [htouch] at hmac ⊢
    exact h.usedLe i hmac
  used := by
    intro i hmac
    obtain ⟨hage, -, htouch⟩ := touch_of_no_hit (hnone i) hmac
    rw [htouch] at hmac ⊢
    rcases h.used i hmac with hused | hsup
    · exact Or.inl hused
    · exact Or.inr (hsup.touch hage)
  firstSecond hsec i hi := h.ip_touched hsec hi
  timeless := by
    intro i hip hmac htime
    obtain ⟨-, -, htouch⟩ := touch_of_no_hit (hnone i) hmac
    rw [htouch] at hip hmac htime
    exact h.timeless i hip hmac htime

/-- An operation that learns a new entry. -/
theorem AgingInv.learned (h : AgingInv clock lastUse arpTable)
    (hnone : ∀ i, ¬ Hit clock ip (arpTable i)) (mac : MacAddress) :
    let touched : ArpTable := fun i => touch clock ip (arpTable i)
    AgingInv clock (recordUse (clockSeconds clock) lastUse (some (ip, mac)))
      (Function.update touched (arpTableSlot touched (List.finRange 10) 0)
        ⟨ip, mac, clockSeconds clock⟩) := by
  intro touched
  have hmissed : AgingInv clock lastUse touched := h.missed hnone
  -- what keeps its address holds another one than the new entry
  have hne : ∀ i, (touched i).mac ≠ NULL_MAC → (touched i).ip ≠ ip := by
    intro i hmac
    obtain ⟨-, hne, htouch⟩ := touch_of_no_hit (hnone i) hmac
    show (touch clock ip (arpTable i)).ip ≠ ip
    rw [htouch]
    exact hne
  have hslot := arpTableSlot_spec touched
  generalize arpTableSlot touched (List.finRange 10) 0 = k at hslot ⊢
  constructor
  · exact hmissed.distinct.add hnone k mac
  · exact hmissed.past.write k ip mac
  · exact recordUse_le h.usedPast
  · intro i hmac second hsecond
    by_cases hik : i = k
    · rw [hik, Function.update_self] at hsecond ⊢
      exact recordUse_le h.usedPast _ second hsecond
    · rw [Function.update_of_ne hik] at hmac hsecond ⊢
      rw [recordUse_of_ne (hne i hmac)] at hsecond
      exact hmissed.usedLe i hmac second hsecond
  · intro i hmac
    by_cases hik : i = k
    · left
      rw [hik, Function.update_self] at hmac ⊢
      exact recordUse_self hmac
    · rw [Superseded, Function.update_of_ne hik] at *
      rw [recordUse_of_ne (hne i hmac)]
      rcases hmissed.used i hmac with hused | ⟨j, hij, hip, htime⟩
      · exact Or.inl hused
      · -- of two slots used in the same second the earlier one is evicted
        right
        have hjk : j ≠ k := by
          rintro rfl
          have hlt := (hslot i).2 hij
          rw [htime] at hlt
          exact absurd hlt (lt_irrefl _)
        refine ⟨j, hij, ?_⟩
        rw [Function.update_of_ne hjk]
        exact ⟨hip, htime⟩
  · intro hsec i hi
    have hk : k = 0 := by
      by_contra hk
      have hlt := (hslot 0).2 (Fin.pos_of_ne_zero hk)
      rw [hmissed.past.timeless hsec, hmissed.past.timeless hsec] at hlt
      exact absurd hlt (lt_irrefl _)
    rw [Function.update_of_ne (hk ▸ hi)]
    exact hmissed.firstSecond hsec i hi
  · intro i hip hmac htime
    by_cases hik : i = k
    · -- in second 0 the address 0 is found in the last slot
      rw [hik, Function.update_self] at hip htime
      refine absurd ⟨not_expired_of_timeless (h.past.timeless htime _), ?_⟩ (hnone (Fin.last 9))
      exact (h.firstSecond htime _ (by decide)).trans hip.symm
    · rw [Function.update_of_ne hik] at hip hmac htime
      exact hmissed.timeless i hip hmac htime

/-! ### One operation -/

theorem arpTableUpdate_iff (clock : DoubleWord) (mac : MacAddress) (ip : Word)
    (arpTable : ArpTable) :
    (arpTableUpdate clock mac ip (some arpTable)).1 = true ↔ ∃ i, Hit clock ip (arpTable i) := by
  rw [arpTableUpdate, arpTableFind_some]
  rcases lastHit_cases (Hit clock ip) arpTable with ⟨hres, hnone⟩ | ⟨i, hres, hhit, -⟩
  · rw [hres]
    refine ⟨fun h => absurd h Bool.false_ne_true, ?_⟩
    rintro ⟨i, hi⟩
    exact absurd hi (hnone i)
  · rw [hres]
    exact ⟨fun _ => ⟨i, hhit⟩, fun _ => rfl⟩

/-- A lookup that finds an entry writes nothing new into it. -/
theorem touch_eq_update {k : Slot} (hhit : Hit clock ip (arpTable k)) :
    (fun i => touch clock ip (arpTable i)) =
      Function.update (fun i => touch clock ip (arpTable i)) k
        ⟨ip, (arpTable k).mac, clockSeconds clock⟩ := by
  funext i
  by_cases hik : i = k
  · rw [hik, Function.update_self, touch_of_hit hhit, ← hhit.2]
  · rw [Function.update_of_ne hik]

/-- `arp_table_get_mac` returns what a lookup returns. -/
theorem arpTableGetMac_mac (host : Host) (clock : DoubleWord) (left : Leftover) (ip : Word)
    (arpTable : ArpTable) :
    (arpTableGetMac host clock left ip (some arpTable)).1 =
      (arpTableLookup clock ip (some arpTable)).1 := by
  unfold arpTableGetMac
  by_cases hmac : macAddressEqual NULL_MAC (arpTableLookup clock ip (some arpTable)).1 = true
  · simp only [hmac, if_true]
    exact (macAddressEqual_iff _ _).mp hmac
  · simp only [hmac, Bool.false_eq_true, if_false]

/-- A lookup keeps the invariant and records what it returns. -/
theorem AgingInv.lookup (h : AgingInv clock lastUse arpTable) (ip : Word) :
    AgingInv clock (recordUse (clockSeconds clock) lastUse
        (some (ip, (arpTableLookup clock ip (some arpTable)).1)))
      fun i => touch clock ip (arpTable i) := by
  rcases arpTableLookup_mac clock ip arpTable with ⟨hnone, hnull⟩ | ⟨k, hhit, hlast, hmac⟩
  · rw [hnull]
    exact h.missed hnone
  · rw [hmac, touch_eq_update hhit]
    exact h.found hhit hlast _

/-- A frame keeps the invariant and records what the table has learnt from it. -/
theorem AgingInv.receive {c : Cache} (hsome : c.arpTable = some arpTable)
    (h : AgingInv c.clock lastUse arpTable) (host : Host) (frame : EthernetFrame) (left : Leftover) :
    ∃ t, (arpReceive host c.clock left frame (some arpTable)).1 = some t ∧
      AgingInv c.clock (recordUse (clockSeconds c.clock) lastUse
        (usedEntry host c (.receive frame left))) t := by
  by_cases hsup : Supported host (arpFrameAt host frame.payload)
  · have hcases := arpReceive_cases hsup c.clock left arpTable
    have hupdate := arpTableUpdate_iff c.clock (sender host (arpFrameAt host frame.payload)).2
      (sender host (arpFrameAt host frame.payload)).1 arpTable
    rw [← hsome] at hupdate
    rcases hcases with ⟨k, hhit, hlast, htable⟩ | ⟨hnone, ⟨hother, htable⟩ | ⟨hown, htable⟩⟩
    · have hlearns : Learns host c frame := ⟨hsup, Or.inl (hupdate.mpr ⟨k, hhit⟩)⟩
      rw [usedEntry, if_pos hlearns]
      exact ⟨_, htable, h.found hhit hlast _⟩
    · have hlearns : ¬ Learns host c frame := by
        rintro ⟨-, hmerge | hown⟩
        · obtain ⟨i, hi⟩ := hupdate.mp hmerge
          exact hnone i hi
        · exact hother hown
      rw [usedEntry, if_neg hlearns]
      exact ⟨_, htable, h.missed hnone⟩
    · have hlearns : Learns host c frame := ⟨hsup, Or.inr hown⟩
      rw [usedEntry, if_pos hlearns]
      exact ⟨_, htable, h.learned hnone _⟩
  · have hlearns : ¬ Learns host c frame := fun hlearns => hsup hlearns.1
    rw [usedEntry, if_neg hlearns, arpReceive_of_unsupported hsup]
    exact ⟨arpTable, rfl, h⟩

theorem AgingInv.tick (h : AgingInv clock lastUse arpTable) {later : DoubleWord}
    (hlater : clock ≤ later) : AgingInv later lastUse arpTable where
  distinct := h.distinct
  past := fun i => BitVec.le_trans (h.past i) (clockSeconds_mono hlater)
  usedPast := fun entry second hsecond =>
    BitVec.le_trans (h.usedPast entry second hsecond) (clockSeconds_mono hlater)
  usedLe := h.usedLe
  used := h.used
  firstSecond := by
    intro hsec
    have hle := clockSeconds_mono hlater
    rw [hsec] at hle
    exact h.firstSecond (BitVec.le_zero_iff.mp hle)
  timeless := h.timeless

def AgingCache.Inv (s : AgingCache) : Prop :=
  ∃ arpTable, s.cache.arpTable = some arpTable ∧ AgingInv s.cache.clock s.lastUse arpTable

theorem agingInv_step (host : Host) {s : AgingCache} (act : Action) (h : s.Inv) :
    (agingStep host s act).Inv := by
  obtain ⟨arpTable, hsome, hinv⟩ := h
  cases act with
  | receive frame left =>
      obtain ⟨t, htable, ht⟩ := hinv.receive hsome host frame left
      refine ⟨t, ?_, ht⟩
      simp only [agingStep, cacheStep, hsome, htable]
  | lookup ip =>
      refine ⟨fun i => touch s.cache.clock ip (arpTable i), ?_, ?_⟩
      · simp only [agingStep, cacheStep, hsome, arpTableLookup_table]
      · simp only [agingStep, cacheStep, hsome, usedEntry]
        exact hinv.lookup ip
  | getMac ip left =>
      refine ⟨fun i => touch s.cache.clock ip (arpTable i), ?_, ?_⟩
      · simp only [agingStep, cacheStep, hsome, arpTableGetMac_table]
      · simp only [agingStep, cacheStep, hsome, usedEntry, arpTableGetMac_mac]
        exact hinv.lookup ip
  | tick clock =>
      refine ⟨arpTable, ?_, ?_⟩
      · simp only [agingStep, cacheStep]
        split
        · exact hsome
        · exact hsome
      · simp only [agingStep, cacheStep, usedEntry, recordUse]
        split
        · rename_i hforward
          exact hinv.tick hforward
        · exact hinv

/-! ### Runs -/

/-- An unexpired entry that has been in use after second 0 is young enough. -/
theorem young_of_not_expired {entry : ArpTableEntry} (hage : ¬ Expired clock entry)
    (hpast : entry.entryTime ≤ clockSeconds clock)
    (htime : entry.entryTime = 0 → (clockSeconds clock).toNat ≤ MAX_ARP_TABLE_AGE.toNat) :
    (clockSeconds clock).toNat ≤ entry.entryTime.toNat + MAX_ARP_TABLE_AGE.toNat := by
  by_cases hzero : entry.entryTime = 0
  · exact (htime hzero).trans (Nat.le_add_left _ _)
  · have hle := BitVec.not_lt.mp fun hlt => hage ⟨hzero, hlt⟩
    rw [BitVec.le_def, BitVec.toNat_sub_of_le hpast] at hle
    omega

/-- A lookup answers with an entry that is too old exactly if it asks for one
that has not been used since second 0. -/
theorem agesOut_iff {s : AgingCache} (act : Action) (h : s.Inv) :
    AgesOut s act ↔ ¬ LooksUpFirstSecond s.cache act := by
  obtain ⟨arpTable, hsome, hinv⟩ := h
  unfold AgesOut LooksUpFirstSecond
  simp only [hsome, Cache.entry]
  constructor
  · rintro hages ⟨ip, hasked, hlate, i, hip, hmac, htime⟩
    have hhit : Hit s.cache.clock ip (arpTable i) := ⟨not_expired_of_timeless htime, hip⟩
    rcases arpTableLookup_mac s.cache.clock ip arpTable with ⟨hnone, -⟩ | ⟨k, hk, hlast, hres⟩
    · exact hnone i hhit
    · -- the entry is the last hit: another one would hold the address 0, too
      have hki : k = i := by
        by_contra hne
        have hzero := hinv.distinct i k (Ne.symm hne) (hip.trans hk.2.symm)
        have hi := hinv.timeless i hzero hmac htime
        exact hlast i (lt_of_le_of_ne (hi ▸ Fin.le_last k) hne) hhit
      subst hki
      obtain ⟨second, hused, hyoung⟩ := hages ip hasked (hres ▸ hmac)
      rw [hres, ← hip] at hused
      have hle := hinv.usedLe k hmac second hused
      rw [htime] at hle
      have hzero : second = 0 := BitVec.le_zero_iff.mp hle
      rw [hzero] at hyoung
      exact absurd hyoung (by simpa using hlate)
  · intro hno ip hasked hmac
    rcases arpTableLookup_mac s.cache.clock ip arpTable with ⟨-, hnull⟩ | ⟨k, hk, hlast, hres⟩
    · exact absurd hnull hmac
    · rw [hres] at hmac ⊢
      have hyoung := young_of_not_expired hk.1 (hinv.past k) fun htime =>
        not_lt.mp fun hlate => hno ⟨ip, hasked, hlate, k, hk.2, hmac, htime⟩
      rcases hinv.used k hmac with hused | ⟨j, hkj, hipj, htimej⟩
      · exact ⟨_, hk.2 ▸ hused, hyoung⟩
      · exact absurd ⟨not_expired_of_eq htimej hk.1, hipj.trans hk.2⟩ (hlast j hkj)

theorem agingInv_initial (clock : DoubleWord) : (initialAging clock).Inv :=
  ⟨fun _ => ARP_NULL_ENTRY, rfl,
    { distinct := fun _ _ _ _ => rfl
      past := fun _ => BitVec.le_def.mpr (Nat.zero_le _)
      usedPast := fun _ _ h => absurd h (by simp [initialAging])
      usedLe := fun _ h => absurd rfl h
      used := fun _ h => absurd rfl h
      firstSecond := fun _ _ _ => rfl
      timeless := fun _ _ h => absurd rfl h }⟩

/-- **Aging.**  Lookups return no entry that is too old exactly as long as none
asks, after `MAX_ARP_TABLE_AGE`, for an address that was used in second 0 only. -/
theorem arpCache_agesOut_iff (host : Host) (clock : DoubleWord) (acts : List Action) :
    EveryStep (agingStep host) AgesOut (initialAging clock) acts ↔
      EveryStep (agingStep host) (fun s act => ¬ LooksUpFirstSecond s.cache act)
        (initialAging clock) acts :=
  everyStep_iff_everyStep (fun _ act h _ => agingInv_step host act h)
    (fun _ act h => agesOut_iff act h) (agingInv_initial clock)

/-- The machine 10.0.2.2 has answered in second 0.  400 seconds later its address
is still found. -/
theorem firstSecond_not_agesOut :
    ¬ EveryStep (agingStep versatileHost) AgesOut (initialAging 0)
      [.receive (reply 1) ⟨fun _ => 0, fun _ => 0⟩, .tick 400000, .lookup 0x0A000202] := by
  rintro ⟨-, -, hages, -⟩
  obtain ⟨second, hused, hyoung⟩ := hages 0x0A000202 rfl (by decide +kernel)
  have hzero : second = 0 := by
    have hlast : (agingStep versatileHost (agingStep versatileHost (initialAging 0)
        (.receive (reply 1) ⟨fun _ => 0, fun _ => 0⟩)) (.tick 400000)).lastUse
        (0x0A000202, (arpTableLookup 400000 0x0A000202 (agingStep versatileHost (agingStep
          versatileHost (initialAging 0) (.receive (reply 1) ⟨fun _ => 0, fun _ => 0⟩))
          (.tick 400000)).cache.arpTable).1) = some 0 := by decide +kernel
    exact Option.some.inj (hused.symm.trans hlast)
  rw [hzero] at hyoung
  exact absurd hyoung (by decide +kernel)

end Network
end Ninjastorms
