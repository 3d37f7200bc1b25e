import Ninjastorms.Network.ArpAging

/-!
# Which entry makes room for a new sender

`lastUse` is the history of a slot: the second in which the entry in it was
learned, updated or last looked for, and nothing if no frame has ever been
learned into the slot, or its entry has expired since.  An entry is `Live` while
that is not more than `MAX_ARP_TABLE_AGE` seconds ago.

`EvictsOnlyWhatItMust` says that a new sender takes a slot without a live entry
if there is one, and otherwise the slot of the live entry used longest ago.  The
table goes by `entry_time` alone, which is 0 in a live entry that was learned in
second 0, and is not 0 in a free slot once the address 0 has been looked for.
`arpCache_evicts_iff` says that this order of the times decides.
-/

namespace Ninjastorms
namespace Network

open Lib.Runs Lib.TableScan

/-! ### The history -/

/-- The second of the last use of the entry in a slot. -/
abbrev SlotUse := Slot → Option DoubleWord

/-- What a scan for `ip` does to the history: expired entries are forgotten, and
entries for the address are used. -/
def scanUse (clock : DoubleWord) (ip : Word) (entry : ArpTableEntry) (second : Option DoubleWord) :
    Option DoubleWord :=
  if Expired clock entry then none
  else if entry.ip = ip then second.map fun _ => clockSeconds clock
  else second

/-- The slot into which a frame is learned. -/
def learnedSlot (host : Host) (c : Cache) (frame : EthernetFrame) : Option Slot :=
  let arpFrame := arpFrameAt host frame.payload
  if Supported host arpFrame then
    match arpTableFind c.clock (sender host arpFrame).1 c.arpTable with
    | (some position, _) => some position
    | (none, some arpTable) =>
        if ntohl host arpFrame.destIpAddress = host.ownIpv4Addr then
          some (arpTableSlot arpTable (List.finRange MAX_ARP_TABLE_ENTRIES) ⟨0, zero_lt_maxEntries⟩)
        else none
    | (none, none) => none
  else none

/-- The cache together with the history of its slots. -/
structure LearningCache where
  cache : Cache
  lastUse : SlotUse

/-- The history after an operation. -/
def learnUse (host : Host) (s : LearningCache) (act : Action) : SlotUse :=
  let scanned : SlotUse := match asked host act with
    | some ip => fun i => scanUse s.cache.clock ip (s.cache.entry i) (s.lastUse i)
    | none => s.lastUse
  match act with
  | .receive frame _ =>
      match learnedSlot host s.cache frame with
      | some k => Function.update scanned k (some (clockSeconds s.cache.clock))
      | none => scanned
  | _ => scanned

def learningStep (host : Host) (s : LearningCache) (act : Action) : LearningCache where
  cache := cacheStep host s.cache act
  lastUse := learnUse host s act

def initialLearning (clock : DoubleWord) : LearningCache where
  cache := initialCache clock
  lastUse := fun _ => none

/-! ### The property -/

/-- The slot holds a learned entry that has not expired. -/
def Live (s : LearningCache) (i : Slot) : Prop :=
  ∃ second, s.lastUse i = some second ∧
    (clockSeconds s.cache.clock).toNat ≤ second.toNat + MAX_ARP_TABLE_AGE.toNat

/-- The frame makes `arp_receive` call `arp_table_add_entry`. -/
def Adds (host : Host) (c : Cache) (frame : EthernetFrame) : Prop :=
  let arpFrame := arpFrameAt host frame.payload
  Supported host arpFrame ∧ ntohl host arpFrame.destIpAddress = host.ownIpv4Addr ∧
    (arpTableUpdate c.clock (sender host arpFrame).2 (sender host arpFrame).1 c.arpTable).1 = false

instance (host : Host) (c : Cache) (frame : EthernetFrame) : Decidable (Adds host c frame) :=
  inferInstanceAs (Decidable (_ ∧ _))

/-- The entry in slot `k` was last used when that in slot `i` was, or before. -/
def UsedNoLaterThan (s : LearningCache) (k i : Slot) : Prop :=
  ∃ first second, s.lastUse k = some first ∧ s.lastUse i = some second ∧ first ≤ second

/-- A new sender costs no live entry while there is a slot without one, and
otherwise one that was used longest ago; afterwards it is in the table. -/
def EvictsOnlyWhatItMust (host : Host) (s : LearningCache) (act : Action) : Prop :=
  ∀ frame left, act = .receive frame left → Adds host s.cache frame →
    ((∃ i, ¬ Live s i) → ∀ i, Live s i →
      (learningStep host s act).cache.entry i = s.cache.entry i) ∧
    ((∀ i, Live s i) → ∃ k, (∀ i, UsedNoLaterThan s k i) ∧
      (learningStep host s act).cache.entry k ≠ s.cache.entry k ∧
      ∀ i, i ≠ k → (learningStep host s act).cache.entry i = s.cache.entry i) ∧
    ∃ k, (learningStep host s act).cache.entry k =
      ⟨(sender host (arpFrameAt host frame.payload)).1,
        (sender host (arpFrameAt host frame.payload)).2, clockSeconds s.cache.clock⟩

/-- The time of an entry once it has been expired; a free slot has the time 0. -/
def scannedTime (clock : DoubleWord) (entry : ArpTableEntry) : DoubleWord :=
  if Expired clock entry then 0 else entry.entryTime

/-- Slot `f` has the smaller time, or the same and the smaller index. -/
def ComesBefore (c : Cache) (f i : Slot) : Prop :=
  scannedTime c.clock (c.entry f) < scannedTime c.clock (c.entry i) ∨
    (scannedTime c.clock (c.entry f) = scannedTime c.clock (c.entry i) ∧ f < i)

/-- If there are slots without a live entry, one of them comes before all live
entries in the order of the times. -/
def FreeSlotFirst (s : LearningCache) : Prop :=
  (∃ i, ¬ Live s i) → ∃ f, ¬ Live s f ∧ ∀ i, Live s i → ComesBefore s.cache f i

/-- The frame meets a table in which the order of the times is right. -/
def AddsInOrder (host : Host) (s : LearningCache) (act : Action) : Prop :=
  ∀ frame left, act = .receive frame left → Adds host s.cache frame → FreeSlotFirst s

/-! ### The invariant -/

variable {host : Host} {clock : DoubleWord} {ip : Word} {arpTable : ArpTable}

/-- The time of a learned entry is the second of its last use. -/
structure LearningInv (clock : DoubleWord) (lastUse : SlotUse) (arpTable : ArpTable) : Prop where
  past : UsedBefore clock arpTable
  used : ∀ i second, lastUse i = some second → (arpTable i).entryTime = second

variable {lastUse : SlotUse}

theorem LearningInv.scan (h : LearningInv clock lastUse arpTable) (ip : Word) :
    LearningInv clock (fun i => scanUse clock ip (arpTable i) (lastUse i))
      fun i => touch clock ip (arpTable i) where
  past := h.past.touch ip
  used := by
    intro i second hsecond
    unfold scanUse at hsecond
    rcases touch_cases clock ip (arpTable i) with ⟨hage, -⟩ | ⟨hhit, htouch⟩ | ⟨hage, hne, htouch⟩
    · rw [if_pos hage] at hsecond
      exact absurd hsecond (by simp)
    · rw [if_neg hhit.1, if_pos hhit.2, Option.map_eq_some_iff] at hsecond
      obtain ⟨-, -, hnow⟩ := hsecond
      show (touch clock ip (arpTable i)).entryTime = second
      rw [htouch, ← hnow]
    · rw [if_neg hage, if_neg hne] at hsecond
      show (touch clock ip (arpTable i)).entryTime = second
      rw [htouch]
      exact h.used i second hsecond

theorem LearningInv.learn (h : LearningInv clock lastUse arpTable) (k : Slot) (ip : Word)
    (mac : MacAddress) :
    LearningInv clock (Function.update lastUse k (some (clockSeconds clock)))
      (Function.update arpTable k ⟨ip, mac, clockSeconds clock⟩) where
  past := h.past.write k ip mac
  used := by
    intro i second hsecond
    by_cases hik : i = k
    · rw [hik, Function.update_self] at hsecond ⊢
      exact Option.some.inj hsecond
    · rw [Function.update_of_ne hik] at hsecond ⊢
      exact h.used i second hsecond

/-! ### One operation -/

/-- The slots into which a supported frame is learned. -/
theorem learnedSlot_cases {c : Cache} (hsome : c.arpTable = some arpTable) {frame : EthernetFrame}
    (hsup : Supported host (arpFrameAt host frame.payload)) :
    let ip := (sender host (arpFrameAt host frame.payload)).1
    (∃ i, Hit c.clock ip (arpTable i) ∧ (∀ j, i < j → ¬ Hit c.clock ip (arpTable j)) ∧
      learnedSlot host c frame = some i) ∨
    ((∀ i, ¬ Hit c.clock ip (arpTable i)) ∧ learnedSlot host c frame =
      if ntohl host (arpFrameAt host frame.payload).destIpAddress = host.ownIpv4Addr then
        some (arpTableSlot (fun i => touch c.clock ip (arpTable i)) (List.finRange 10) 0)
      else none) := by
  intro ip
  rcases lastHit_cases (Hit c.clock ip) arpTable with ⟨hres, hnone⟩ | ⟨i, hres, hhit, hlast⟩
  · right
    refine ⟨hnone, ?_⟩
    unfold learnedSlot
    simp only [if_pos hsup, hsome, arpTableFind_some, ip, hres] at *
    rfl
  · left
    refine ⟨i, hhit, hlast, ?_⟩
    unfold learnedSlot
    simp only [if_pos hsup, hsome, arpTableFind_some, ip, hres] at *

def LearningCache.Inv (s : LearningCache) : Prop :=
  ∃ arpTable, s.cache.arpTable = some arpTable ∧ LearningInv s.cache.clock s.lastUse arpTable

theorem learningInv_step (host : Host) {s : LearningCache} (act : Action) (h : s.Inv) :
    (learningStep host s act).Inv := by
  obtain ⟨arpTable, hsome, hinv⟩ := h
  cases act with
  | receive frame left =>
      by_cases hsup : Supported host (arpFrameAt host frame.payload)
      · have hscan := hinv.scan (sender host (arpFrameAt host frame.payload)).1
        simp only [LearningCache.Inv, learningStep, learnUse, cacheStep, asked, if_pos hsup, hsome,
          Cache.entry]
        rcases arpReceive_cases hsup s.cache.clock left arpTable with
            ⟨k, hhit, hlast, htable⟩ | ⟨hnone, ⟨hother, htable⟩ | ⟨hown, htable⟩⟩ <;>
          rcases learnedSlot_cases hsome hsup with ⟨i, hi, hilast, hslot⟩ | ⟨hno, hslot⟩
        · have hik : i = k := le_antisymm (not_lt.mp fun hki => hlast i hki hi)
            (not_lt.mp fun hik => hilast k hik hhit)
          rw [hslot, hik]
          exact ⟨_, htable, hscan.learn k _ _⟩
        · exact absurd hhit (hno k)
        · exact absurd hi (hnone i)
        · rw [hslot, if_neg hother]
          exact ⟨_, htable, hscan⟩
        · exact absurd hi (hnone i)
        · rw [hslot, if_pos hown]
          exact ⟨_, htable, hscan.learn _ _ _⟩
      · have hslot : learnedSlot host s.cache frame = none := by
          unfold learnedSlot
          exact if_neg hsup
        simp only [LearningCache.Inv, learningStep, learnUse, cacheStep, asked, if_neg hsup, hslot,
          arpReceive_of_unsupported hsup]
        exact ⟨arpTable, hsome, hinv⟩
  | lookup ip =>
      simp only [LearningCache.Inv, learningStep, learnUse, cacheStep, asked, hsome, Cache.entry,
        arpTableLookup_table]
      exact ⟨_, rfl, hinv.scan ip⟩
  | getMac ip left =>
      simp only [LearningCache.Inv, learningStep, learnUse, cacheStep, asked, hsome, Cache.entry,
        arpTableGetMac_table]
      exact ⟨_, rfl, hinv.scan ip⟩
  | tick clock =>
      simp only [LearningCache.Inv, learningStep, learnUse, cacheStep, asked]
      split
      · rename_i hforward
        exact ⟨arpTable, hsome, fun i => BitVec.le_trans (hinv.past i) (clockSeconds_mono hforward),
          hinv.used⟩
      · exact ⟨arpTable, hsome, hinv⟩

/-- A live entry has not expired. -/
theorem LearningInv.not_expired {s : LearningCache} (h : LearningInv s.cache.clock s.lastUse arpTable)
    {i : Slot} (hlive : Live s i) : ¬ Expired s.cache.clock (arpTable i) := by
  obtain ⟨second, hsecond, hyoung⟩ := hlive
  have htime := h.used i second hsecond
  have hpast := h.past i
  rintro ⟨-, hage⟩
  rw [htime] at hage hpast
  rw [gt_iff_lt, BitVec.lt_def, BitVec.toNat_sub_of_le hpast] at hage
  omega

/-- What an added entry does to the table. -/
theorem entry_of_adds {c : Cache} (hsome : c.arpTable = some arpTable) {frame : EthernetFrame}
    (hadds : Adds host c frame) (left : Leftover) :
    let ip := (sender host (arpFrameAt host frame.payload)).1
    let touched : ArpTable := fun i => touch c.clock ip (arpTable i)
    (∀ i, ¬ Hit c.clock ip (arpTable i)) ∧
      (cacheStep host c (.receive frame left)).entry =
        Function.update touched (arpTableSlot touched (List.finRange 10) 0)
          ⟨ip, (sender host (arpFrameAt host frame.payload)).2, clockSeconds c.clock⟩ := by
  intro ip touched
  obtain ⟨hsup, hown, hmiss⟩ := hadds
  rw [hsome] at hmiss
  have hnone : ∀ i, ¬ Hit c.clock ip (arpTable i) := fun i hi =>
    Bool.false_ne_true (hmiss.symm.trans ((arpTableUpdate_iff _ _ _ _).mpr ⟨i, hi⟩))
  refine ⟨hnone, ?_⟩
  rcases arpReceive_cases hsup c.clock left arpTable with
    ⟨k, hhit, -⟩ | ⟨-, ⟨hother, -⟩ | ⟨-, htable⟩⟩
  · exact absurd hhit (hnone k)
  · exact absurd hown hother
  · funext i
    simp only [cacheStep, hsome, Cache.entry, htable]
    rfl

/-- Without a hit a scan only expires. -/
theorem entryTime_touch {entry : ArpTableEntry} (h : ¬ Hit clock ip entry) :
    (touch clock ip entry).entryTime = scannedTime clock entry := by
  unfold scannedTime
  rcases touch_cases clock ip entry with ⟨hage, htouch⟩ | ⟨hhit, -⟩ | ⟨hage, -, htouch⟩
  · rw [htouch, if_pos hage]
    rfl
  · exact absurd hhit h
  · rw [htouch, if_neg hage]

/-- The slot of the new entry comes before all others. -/
theorem arpTableSlot_comesBefore {c : Cache} (hsome : c.arpTable = some arpTable)
    (hnone : ∀ i, ¬ Hit c.clock ip (arpTable i)) {i : Slot}
    (hi : i ≠ arpTableSlot (fun i => touch c.clock ip (arpTable i)) (List.finRange 10) 0) :
    ComesBefore c (arpTableSlot (fun i => touch c.clock ip (arpTable i)) (List.finRange 10) 0) i := by
  obtain ⟨hle, hlt⟩ := arpTableSlot_spec (fun i => touch c.clock ip (arpTable i)) i
  simp only [entryTime_touch (hnone _)] at hle hlt
  simp only [ComesBefore, Cache.entry, hsome]
  rcases lt_or_eq_of_le hle with hless | heq
  · exact Or.inl (BitVec.lt_def.mpr hless)
  · right
    refine ⟨BitVec.eq_of_toNat_eq heq, lt_of_le_of_ne (not_lt.mp fun hik => ?_) (Ne.symm hi)⟩
    exact absurd heq (hlt hik).ne

/-- **An added entry.**  It takes the slot that comes before all others, which are
only scanned for the sender. -/
theorem added_entry {c : Cache} (hsome : c.arpTable = some arpTable) {frame : EthernetFrame}
    (hadds : Adds host c frame) (left : Leftover) :
    let ip := (sender host (arpFrameAt host frame.payload)).1
    (∀ i, ¬ Hit c.clock ip (arpTable i)) ∧
    ∃ k, (∀ i, i ≠ k → ComesBefore c k i) ∧
      (cacheStep host c (.receive frame left)).entry k =
        ⟨ip, (sender host (arpFrameAt host frame.payload)).2, clockSeconds c.clock⟩ ∧
      ∀ i, i ≠ k → (cacheStep host c (.receive frame left)).entry i =
        touch c.clock ip (arpTable i) := by
  intro ip
  obtain ⟨hnone, hafter⟩ := entry_of_adds hsome hadds left
  refine ⟨hnone, _, fun i hi => arpTableSlot_comesBefore hsome hnone hi, ?_, fun i hi => ?_⟩
  · rw [hafter, Function.update_self]
  · rw [hafter, Function.update_of_ne hi]

/-- A live entry is for another address than one that is not found, and the scan for
that address leaves it as it is. -/
theorem LearningInv.live_of_no_hit {s : LearningCache}
    (h : LearningInv s.cache.clock s.lastUse arpTable) {i : Slot}
    (hnone : ¬ Hit s.cache.clock ip (arpTable i)) (hlive : Live s i) :
    (arpTable i).ip ≠ ip ∧ touch s.cache.clock ip (arpTable i) = arpTable i := by
  have hage := h.not_expired hlive
  have hne : (arpTable i).ip ≠ ip := fun hip => hnone ⟨hage, hip⟩
  exact ⟨hne, touch_of_other hage hne⟩

/-- The time of a live entry is that of its last use, also for the order of the slots. -/
theorem LearningInv.scannedTime_of_live {s : LearningCache}
    (h : LearningInv s.cache.clock s.lastUse arpTable) {i : Slot} (hlive : Live s i) :
    s.lastUse i = some (scannedTime s.cache.clock (arpTable i)) := by
  rw [scannedTime, if_neg (h.not_expired hlive)]
  obtain ⟨second, hsecond, -⟩ := hlive
  rw [hsecond, h.used i second hsecond]

theorem ComesBefore.asymm {c : Cache} {f i : Slot} (h : ComesBefore c f i) : ¬ ComesBefore c i f := by
  unfold ComesBefore at *
  rw [BitVec.lt_def] at *
  rintro (hlt | ⟨heq, hlt⟩)
  · rcases h with hlt' | ⟨heq', -⟩
    · omega
    · rw [heq'] at hlt
      exact absurd hlt (lt_irrefl _)
  · rcases h with hlt' | ⟨-, hlt'⟩
    · rw [heq] at hlt'
      exact absurd hlt' (lt_irrefl _)
    · exact absurd hlt (lt_asymm hlt')

/-- **One new sender.**  It takes the place of no live entry without need exactly
if the order of the times is right. -/
theorem evicts_iff {s : LearningCache} (act : Action) (h : s.Inv) :
    EvictsOnlyWhatItMust host s act ↔ AddsInOrder host s act := by
  obtain ⟨arpTable, hsome, hinv⟩ := h
  unfold EvictsOnlyWhatItMust AddsInOrder
  refine forall_congr' fun frame => forall_congr' fun left => forall_congr' fun hact =>
    forall_congr' fun hadds => ?_
  subst hact
  obtain ⟨hnone, k, hbefore, hself, hother⟩ := added_entry hsome hadds left
  have hentry : ∀ i, s.cache.entry i = arpTable i := fun i => by simp only [Cache.entry, hsome]
  -- a live entry in another slot is left alone, the one in slot `k` is lost
  have hkept : ∀ i, Live s i → i ≠ k →
      (learningStep host s (.receive frame left)).cache.entry i = s.cache.entry i := by
    intro i hlive hik
    rw [hentry, ← (hinv.live_of_no_hit (hnone i) hlive).2]
    exact hother i hik
  have hlost : Live s k →
      (learningStep host s (.receive frame left)).cache.entry k ≠ s.cache.entry k := by
    intro hlive heq
    rw [hentry] at heq
    exact (hinv.live_of_no_hit (hnone k) hlive).1
      (congrArg ArpTableEntry.ip (heq.symm.trans hself))
  constructor
  · rintro ⟨hfree, -, -⟩ hex
    -- the slot that is taken is one without a live entry, and comes first
    have hk : ¬ Live s k := fun hlive => hlost hlive (hfree hex k hlive)
    refine ⟨k, hk, fun i hlive => hbefore i fun hik => hk ?_⟩
    rw [← hik]
    exact hlive
  · intro horder
    refine ⟨fun hex i hlive => hkept i hlive ?_, fun hall => ⟨k, fun i => ?_, hlost (hall k),
      fun i hik => hkept i (hall i) hik⟩, k, hself⟩
    · rintro rfl
      obtain ⟨f, hf, hfirst⟩ := horder hex
      have hfi : f ≠ i := fun hfi => hf (hfi ▸ hlive)
      exact (hfirst i hlive).asymm (hbefore f hfi)
    · -- among live entries the smallest time is the least recent use
      refine ⟨_, _, hinv.scannedTime_of_live (hall k), hinv.scannedTime_of_live (hall i), ?_⟩
      by_cases hik : i = k
      · rw [hik]
        exact BitVec.le_refl _
      · rcases hbefore i hik with hlt | ⟨heq, -⟩
        · rw [hentry, hentry] at hlt
          exact BitVec.le_of_lt hlt
        · rw [hentry, hentry] at heq
          exact BitVec.le_of_eq heq

/-! ### Runs -/

theorem learningInv_initial (clock : DoubleWord) : (initialLearning clock).Inv :=
  ⟨fun _ => ARP_NULL_ENTRY, rfl, fun _ => BitVec.le_def.mpr (Nat.zero_le _),
    fun _ _ h => absurd h (by simp [initialLearning])⟩

/-- **Eviction.**  New senders cost no live entry without need exactly as long as
each of them meets a table whose times are in the right order. -/
theorem arpCache_evicts_iff (host : Host) (clock : DoubleWord) (acts : List Action) :
    EveryStep (learningStep host) (EvictsOnlyWhatItMust host) (initialLearning clock) acts ↔
      EveryStep (learningStep host) (AddsInOrder host) (initialLearning clock) acts :=
  everyStep_iff_everyStep (fun _ act h _ => learningInv_step host act h)
    (fun _ act h => evicts_iff act h) (learningInv_initial clock)

/-- A request of the machine 10.0.2.3 for the address 10.0.2.10. -/
def otherRequest : EthernetFrame where
  destMac := BROADCAST_MAC
  srcMac := ![0x02, 0, 0, 0, 0, 3]
  etherType := 0x0608
  payload := fun k => [0x00, 0x01, 0x08, 0x00, 6, 4, 0x00, 0x01, 0x02, 0, 0, 0, 0, 3, 10, 0, 2, 3,
    0, 0, 0, 0, 0, 0, 10, 0, 2, 10].getD k 0

/-- Two machines are heard of in second 0.  The second one takes the slot of the
first one, although the other nine slots are free. -/
theorem firstSecond_evicts :
    ¬ EveryStep (learningStep versatileHost) (EvictsOnlyWhatItMust versatileHost)
      (initialLearning 0) [.receive (reply 1) ⟨fun _ => 0, fun _ => 0⟩,
        .receive otherRequest ⟨fun _ => 0, fun _ => 0⟩] := by
  rintro ⟨-, hevicts, -⟩
  obtain ⟨hfree, -, -⟩ := hevicts otherRequest _ rfl (by decide +kernel)
  have hlive : Live (learningStep versatileHost (initialLearning 0)
      (.receive (reply 1) ⟨fun _ => 0, fun _ => 0⟩)) 0 := ⟨0, by decide +kernel, by decide +kernel⟩
  have hother : ¬ Live (learningStep versatileHost (initialLearning 0)
      (.receive (reply 1) ⟨fun _ => 0, fun _ => 0⟩)) 1 := by
    rintro ⟨second, hsecond, -⟩
    have hnone : (learningStep versatileHost (initialLearning 0)
      (.receive (reply 1) ⟨fun _ => 0, fun _ => 0⟩)).lastUse 1 = none := by decide +kernel
    rw [hnone] at hsecond
    exact absurd hsecond (by simp)
  exact absurd (hfree ⟨1, hother⟩ 0 hlive) (by decide +kernel)

end Network
end Ninjastorms
