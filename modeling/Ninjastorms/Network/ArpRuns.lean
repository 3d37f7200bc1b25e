import Ninjastorms.Lib.Runs
import Ninjastorms.Network.Arp
import Mathlib.Data.Finset.Card

/-!
# Uniqueness in the ARP table

A run of the ARP cache is any list of received frames, lookups and clock steps
after a successful `routing_init`.  `UniqueIps` says that no two slots in use
hold the same address, `AtMostOneMore` that a frame brings at most one more slot
into use.

`arp_table_find` also matches free slots, and a free slot holds the address 0.
Looking for the address 0 therefore brings all free slots into use at once.
`ZeroClash` is the situation in which that happens, and `arpCache_unique_iff`
says that it is the only one in which the two properties fail.
-/

namespace Ninjastorms
namespace Network

open Lib.Runs

/-- The variables of `routing.c` and `time.c`. -/
structure Cache where
  arpTable : Option ArpTable
  clock : DoubleWord

inductive Action where
  | receive (frame : EthernetFrame) (left : Leftover)
  | lookup (ip : Word)
  | getMac (ip : Word) (left : Leftover)
  | tick (clock : DoubleWord)

/-- The cache after `routing_init`, at any time. -/
def initialCache (clock : DoubleWord) : Cache where
  arpTable := routingInit true none
  clock := clock

/-- One operation.  The clock only moves forward. -/
def cacheStep (host : Host) (c : Cache) : Action → Cache
  | .receive frame left => { c with arpTable := (arpReceive host c.clock left frame c.arpTable).1 }
  | .lookup ip => { c with arpTable := (arpTableLookup c.clock ip c.arpTable).2 }
  | .getMac ip left => { c with arpTable := (arpTableGetMac host c.clock left ip c.arpTable).2.1 }
  | .tick clock => if c.clock ≤ clock then { c with clock := clock } else c

/-- The address that an operation looks for. -/
def asked (host : Host) : Action → Option Word
  | .receive frame _ =>
      if Supported host (arpFrameAt host frame.payload) then
        some (sender host (arpFrameAt host frame.payload)).1
      else none
  | .lookup ip => some ip
  | .getMac ip _ => some ip
  | .tick _ => none

/-! ### The properties -/

def InUse (entry : ArpTableEntry) : Prop :=
  entry.entryTime ≠ 0

instance (entry : ArpTableEntry) : Decidable (InUse entry) :=
  inferInstanceAs (Decidable (_ ≠ _))

/-- The entry in a slot; there is none before `routing_init`. -/
def Cache.entry (c : Cache) (i : Slot) : ArpTableEntry :=
  match c.arpTable with
  | some arpTable => arpTable i
  | none => ARP_NULL_ENTRY

/-- No two slots in use hold the same address. -/
def UniqueIps (c : Cache) : Prop :=
  ∀ i j, InUse (c.entry i) → InUse (c.entry j) → (c.entry i).ip = (c.entry j).ip → i = j

instance (c : Cache) : Decidable (UniqueIps c) :=
  inferInstanceAs (Decidable (∀ _ _, _ → _ → _ → _))

def usedSlots (c : Cache) : Finset Slot :=
  Finset.univ.filter fun i => InUse (c.entry i)

/-- A received frame brings at most one more slot into use. -/
def AtMostOneMore (host : Host) (c : Cache) (act : Action) : Prop :=
  ∀ frame left, act = .receive frame left →
    (usedSlots (cacheStep host c act)).card ≤ (usedSlots c).card + 1

/-- The operation looks for the address 0 after second 0, and two slots that
have not expired hold it. -/
def ZeroClash (host : Host) (c : Cache) (act : Action) : Prop :=
  asked host act = some 0 ∧ clockSeconds c.clock ≠ 0 ∧
    ∃ i j, i ≠ j ∧ Hit c.clock 0 (c.entry i) ∧ Hit c.clock 0 (c.entry j)

/-! ### The invariant -/

/-- Only the address 0 may occur twice, and only once among the slots in use. -/
structure TableInv (clock : DoubleWord) (arpTable : ArpTable) : Prop where
  distinct : ∀ i j, i ≠ j → (arpTable i).ip = (arpTable j).ip → (arpTable i).ip = 0
  zero : ∀ i j, InUse (arpTable i) → InUse (arpTable j) →
    (arpTable i).ip = 0 → (arpTable j).ip = 0 → i = j
  past : ∀ i, (arpTable i).entryTime ≤ clockSeconds clock

def CacheInv (c : Cache) : Prop :=
  ∃ arpTable, c.arpTable = some arpTable ∧ TableInv c.clock arpTable

theorem CacheInv.uniqueIps {c : Cache} (h : CacheInv c) : UniqueIps c := by
  obtain ⟨arpTable, hsome, hinv⟩ := h
  intro i j hi hj hip
  simp only [Cache.entry, hsome] at hi hj hip
  by_contra hne
  have hzero := hinv.distinct i j hne hip
  exact hne (hinv.zero i j hi hj hzero (hip ▸ hzero))

/-- The addresses and times decide about the invariant. -/
theorem TableInv.congr {clock : DoubleWord} {t t' : ArpTable} (h : TableInv clock t)
    (hip : ∀ i, (t' i).ip = (t i).ip) (htime : ∀ i, (t' i).entryTime = (t i).entryTime) :
    TableInv clock t' where
  distinct := by simpa only [hip] using h.distinct
  zero := by simpa only [InUse, hip, htime] using h.zero
  past := by simpa only [htime] using h.past

/-- What is in use after a scan was in use before, or is a hit. -/
theorem inUse_touch {clock : DoubleWord} {ip : Word} {entry : ArpTableEntry}
    (h : InUse (touch clock ip entry)) :
    (Hit clock ip entry ∧ clockSeconds clock ≠ 0) ∨
      (entry.ip ≠ ip ∧ InUse entry ∧ touch clock ip entry = entry) := by
  rcases touch_cases clock ip entry with ⟨-, htouch⟩ | ⟨hhit, htouch⟩ | ⟨-, hip, htouch⟩
  · rw [htouch] at h
    exact absurd rfl h
  · left
    rw [htouch] at h
    exact ⟨hhit, h⟩
  · right
    rw [htouch] at h
    exact ⟨hip, h, htouch⟩

theorem ip_touch (clock : DoubleWord) (ip : Word) (entry : ArpTableEntry) :
    (touch clock ip entry).ip = 0 ∨ (touch clock ip entry).ip = entry.ip := by
  rcases touch_cases clock ip entry with ⟨-, htouch⟩ | ⟨-, htouch⟩ | ⟨-, -, htouch⟩
  · exact Or.inl (by rw [htouch]; rfl)
  · exact Or.inr (by rw [htouch])
  · exact Or.inr (by rw [htouch])

/-- An entry that is not a hit does not hold the address after the scan, unless
it is the address 0. -/
theorem ip_touch_ne {clock : DoubleWord} {ip : Word} {entry : ArpTableEntry}
    (h : ¬ Hit clock ip entry) (hip : (touch clock ip entry).ip = ip) : ip = 0 := by
  rcases touch_cases clock ip entry with ⟨-, htouch⟩ | ⟨hhit, -⟩ | ⟨-, hne, htouch⟩
  · rw [← hip, htouch]
    rfl
  · exact absurd hhit h
  · rw [htouch] at hip
    exact absurd hip hne

/-- Only the address 0 may occur twice. -/
def DistinctIps (arpTable : ArpTable) : Prop :=
  ∀ i j, i ≠ j → (arpTable i).ip = (arpTable j).ip → (arpTable i).ip = 0

/-- No entry was used later than now. -/
def UsedBefore (clock : DoubleWord) (arpTable : ArpTable) : Prop :=
  ∀ i, (arpTable i).entryTime ≤ clockSeconds clock

theorem DistinctIps.touch {t : ArpTable} (h : DistinctIps t) (clock : DoubleWord) (ip : Word) :
    DistinctIps fun i => touch clock ip (t i) := by
  intro i j hne hip
  rcases ip_touch clock ip (t i) with hi | hi
  · exact hi
  · rcases ip_touch clock ip (t j) with hj | hj
    · exact hip.trans hj
    · rw [hi] at hip ⊢
      exact h i j hne (hip.trans hj)

/-- A new entry for an address without a hit. -/
theorem DistinctIps.add {clock : DoubleWord} {t : ArpTable} {ip : Word}
    (h : DistinctIps fun i => Network.touch clock ip (t i))
    (hnone : ∀ i, ¬ Hit clock ip (t i)) (k : Slot) (mac : MacAddress) :
    DistinctIps (Function.update (fun i => Network.touch clock ip (t i)) k
      ⟨ip, mac, clockSeconds clock⟩) := by
  intro i j hne hip
  by_cases hi : i = k
  · -- another slot with the address of the new entry is an empty one
    subst hi
    rw [Function.update_self, Function.update_of_ne (Ne.symm hne)] at hip
    rw [Function.update_self]
    exact ip_touch_ne (hnone j) hip.symm
  · rw [Function.update_of_ne hi] at hip ⊢
    by_cases hj : j = k
    · subst hj
      rw [Function.update_self] at hip
      rw [hip]
      exact ip_touch_ne (hnone i) hip
    · rw [Function.update_of_ne hj] at hip
      exact h i j hne hip

/-- Writing the address of the sender into a hit changes no IP address. -/
theorem DistinctIps.refresh {clock : DoubleWord} {t : ArpTable} {ip : Word} {k : Slot}
    (h : DistinctIps fun i => Network.touch clock ip (t i)) (hhit : Hit clock ip (t k)) (mac : MacAddress) :
    DistinctIps (Function.update (fun i => Network.touch clock ip (t i)) k
      ⟨ip, mac, clockSeconds clock⟩) := by
  have hip : ∀ i, (Function.update (fun i => Network.touch clock ip (t i)) k
      ⟨ip, mac, clockSeconds clock⟩ i).ip = (Network.touch clock ip (t i)).ip := by
    intro i
    by_cases hik : i = k
    · subst hik
      rw [Function.update_self, touch_of_hit hhit, hhit.2]
    · rw [Function.update_of_ne hik]
  intro i j
  rw [hip i, hip j]
  exact h i j

theorem UsedBefore.touch {clock : DoubleWord} {t : ArpTable} (h : UsedBefore clock t) (ip : Word) :
    UsedBefore clock fun i => touch clock ip (t i) := by
  intro i
  show (Network.touch clock ip (t i)).entryTime ≤ clockSeconds clock
  rcases touch_cases clock ip (t i) with ⟨-, htouch⟩ | ⟨-, htouch⟩ | ⟨-, -, htouch⟩
  · rw [htouch]
    exact BitVec.le_def.mpr (Nat.zero_le _)
  · rw [htouch]
    exact BitVec.le_refl _
  · rw [htouch]
    exact h i

theorem UsedBefore.write {clock : DoubleWord} {t : ArpTable} (h : UsedBefore clock t) (k : Slot)
    (ip : Word) (mac : MacAddress) :
    UsedBefore clock (Function.update t k ⟨ip, mac, clockSeconds clock⟩) := by
  intro i
  by_cases hik : i = k
  · subst hik
    rw [Function.update_self]
    exact BitVec.le_refl _
  · rw [Function.update_of_ne hik]
    exact h i

/-- A scan keeps the invariant if the address 0 has at most one hit. -/
theorem TableInv.touch {clock : DoubleWord} {t : ArpTable} (h : TableInv clock t) {ip : Word}
    (hzero : ip = 0 → clockSeconds clock ≠ 0 →
      ∀ i j, Hit clock 0 (t i) → Hit clock 0 (t j) → i = j) :
    TableInv clock fun i => touch clock ip (t i) where
  distinct := DistinctIps.touch h.distinct clock ip
  zero := by
    intro i j hi hj hipi hipj
    rcases inUse_touch hi with ⟨hhiti, hsec⟩ | ⟨hnei, husedi, hkepti⟩
    · -- slot `i` is a hit, so the address looked for is 0
      have hip : ip = 0 := by simpa only [touch_of_hit hhiti, hhiti.2] using hipi
      subst hip
      rcases inUse_touch hj with ⟨hhitj, -⟩ | ⟨hnej, -, hkeptj⟩
      · exact hzero rfl hsec i j hhiti hhitj
      · rw [hkeptj] at hipj
        exact absurd hipj hnej
    · rw [hkepti] at hipi
      rcases inUse_touch hj with ⟨hhitj, -⟩ | ⟨-, husedj, hkeptj⟩
      · have hip : ip = 0 := by simpa only [touch_of_hit hhitj, hhitj.2] using hipj
        exact absurd (hipi.trans hip.symm) hnei
      · rw [hkeptj] at hipj
        exact h.zero i j husedi husedj hipi hipj
  past := UsedBefore.touch h.past ip

/-- A new entry for an address without a hit keeps the invariant. -/
theorem TableInv.add {clock : DoubleWord} {t : ArpTable} {ip : Word}
    (h : TableInv clock fun i => Network.touch clock ip (t i))
    (hnone : ∀ i, ¬ Hit clock ip (t i)) (k : Slot) (mac : MacAddress) :
    TableInv clock (Function.update (fun i => Network.touch clock ip (t i)) k
      ⟨ip, mac, clockSeconds clock⟩) where
  distinct := DistinctIps.add h.distinct hnone k mac
  zero := by
    -- no other slot in use holds the address of the new entry
    have hother : ∀ j, InUse (Network.touch clock ip (t j)) →
        (Network.touch clock ip (t j)).ip ≠ ip := by
      intro j hj
      rcases inUse_touch hj with ⟨hhit, -⟩ | ⟨hne, -, hkept⟩
      · exact absurd hhit (hnone j)
      · rwa [hkept]
    intro i j hi hj hipi hipj
    by_cases hik : i = k <;> by_cases hjk : j = k
    · rw [hik, hjk]
    · subst hik
      rw [Function.update_self] at hipi
      rw [Function.update_of_ne hjk] at hj hipj
      exact absurd (hipj.trans hipi.symm) (hother j hj)
    · subst hjk
      rw [Function.update_self] at hipj
      rw [Function.update_of_ne hik] at hi hipi
      exact absurd (hipi.trans hipj.symm) (hother i hi)
    · rw [Function.update_of_ne hik] at hi hipi
      rw [Function.update_of_ne hjk] at hj hipj
      exact h.zero i j hi hj hipi hipj
  past := UsedBefore.write h.past k ip mac

/-- Writing the address of the sender into a hit changes no address and no time. -/
theorem TableInv.refresh {clock : DoubleWord} {t : ArpTable} {ip : Word} {k : Slot}
    (h : TableInv clock fun i => Network.touch clock ip (t i)) (hhit : Hit clock ip (t k))
    (mac : MacAddress) :
    TableInv clock (Function.update (fun i => Network.touch clock ip (t i)) k
      ⟨ip, mac, clockSeconds clock⟩) := by
  have hold := touch_of_hit hhit
  refine h.congr (fun i => ?_) (fun i => ?_)
  · by_cases hik : i = k
    · subst hik
      rw [Function.update_self, hold, hhit.2]
    · rw [Function.update_of_ne hik]
  · by_cases hik : i = k
    · subst hik
      rw [Function.update_self, hold]
    · rw [Function.update_of_ne hik]

/-! ### One operation -/

section Step

variable {host : Host} {c : Cache} {arpTable : ArpTable}

/-- Every operation but a clock step touches all entries for the address it
looks for; only a frame writes one entry more. -/
theorem cacheStep_cases (host : Host) (hsome : c.arpTable = some arpTable) (act : Action) :
    (∃ ip, asked host act = some ip ∧
      (cacheStep host c act = { c with arpTable := some fun i => touch c.clock ip (arpTable i) } ∨
      ∃ k mac, cacheStep host c act = ⟨some (Function.update
          (fun i => touch c.clock ip (arpTable i)) k ⟨ip, mac, clockSeconds c.clock⟩), c.clock⟩ ∧
        (Hit c.clock ip (arpTable k) ∨ ∀ i, ¬ Hit c.clock ip (arpTable i)))) ∨
    (asked host act = none ∧ ∃ clock, c.clock ≤ clock ∧
      cacheStep host c act = { c with clock := clock }) := by
  cases act with
  | receive frame left =>
      by_cases hsup : Supported host (arpFrameAt host frame.payload)
      · left
        refine ⟨_, by rw [asked, if_pos hsup], ?_⟩
        simp only [cacheStep, hsome]
        rcases arpReceive_cases hsup c.clock left arpTable with ⟨k, hhit, -, htable⟩ |
          ⟨hnone, ⟨-, htable⟩ | ⟨-, htable⟩⟩
        · exact Or.inr ⟨k, _, by rw [htable], Or.inl hhit⟩
        · exact Or.inl (by rw [htable])
        · exact Or.inr ⟨_, _, by rw [htable], Or.inr hnone⟩
      · right
        refine ⟨by rw [asked, if_neg hsup], c.clock, BitVec.le_refl _, ?_⟩
        simp only [cacheStep, arpReceive_of_unsupported hsup]
  | lookup ip =>
      left
      exact ⟨ip, rfl, Or.inl (by simp only [cacheStep, hsome, arpTableLookup_table])⟩
  | getMac ip left' =>
      left
      exact ⟨ip, rfl, Or.inl (by simp only [cacheStep, hsome, arpTableGetMac_table])⟩
  | tick clock =>
      right
      refine ⟨rfl, ?_⟩
      by_cases hforward : c.clock ≤ clock
      · exact ⟨clock, hforward, by rw [cacheStep, if_pos hforward]⟩
      · exact ⟨c.clock, BitVec.le_refl _, by rw [cacheStep, if_neg hforward]⟩

theorem clockSeconds_mono {clock clock' : DoubleWord} (h : clock ≤ clock') :
    clockSeconds clock ≤ clockSeconds clock' := by
  rw [BitVec.le_def] at *
  simp only [clockSeconds, BitVec.toNat_udiv]
  exact Nat.div_le_div_right h

/-- Without a clash, the address 0 has at most one hit when it is looked for. -/
theorem zero_hits_unique (hsome : c.arpTable = some arpTable) {act : Action} {ip : Word}
    (hasked : asked host act = some ip) (hclash : ¬ ZeroClash host c act) :
    ip = 0 → clockSeconds c.clock ≠ 0 →
      ∀ i j, Hit c.clock 0 (arpTable i) → Hit c.clock 0 (arpTable j) → i = j := by
  rintro rfl hsec i j hi hj
  by_contra hne
  refine hclash ⟨hasked, hsec, i, j, hne, ?_, ?_⟩
  · simpa only [Cache.entry, hsome] using hi
  · simpa only [Cache.entry, hsome] using hj

theorem cacheInv_step (act : Action) (h : CacheInv c) (hclash : ¬ ZeroClash host c act) :
    CacheInv (cacheStep host c act) := by
  obtain ⟨arpTable, hsome, hinv⟩ := h
  rcases cacheStep_cases host hsome act with
    ⟨ip, hasked, hstep | ⟨k, mac, hstep, hhit | hnone⟩⟩ | ⟨-, clock, hforward, hstep⟩
  · rw [hstep]
    exact ⟨_, rfl, hinv.touch (zero_hits_unique hsome hasked hclash)⟩
  · rw [hstep]
    exact ⟨_, rfl, (hinv.touch (zero_hits_unique hsome hasked hclash)).refresh hhit mac⟩
  · rw [hstep]
    exact ⟨_, rfl, (hinv.touch (zero_hits_unique hsome hasked hclash)).add hnone k mac⟩
  · rw [hstep]
    exact ⟨arpTable, hsome, hinv.distinct, hinv.zero,
      fun i => BitVec.le_trans (hinv.past i) (clockSeconds_mono hforward)⟩

/-- A clash leaves two slots in use that hold the address 0. -/
theorem clash_breaks (act : Action) (h : CacheInv c) (hclash : ¬ ¬ ZeroClash host c act) :
    ¬ UniqueIps (cacheStep host c act) := by
  obtain ⟨arpTable, hsome, -⟩ := h
  obtain ⟨hasked, hsec, i, j, hne, hi, hj⟩ := not_not.mp hclash
  simp only [Cache.entry, hsome] at hi hj
  intro hunique
  -- after the operation both slots hold the address 0 and the present second
  have hused : ∀ m, Hit c.clock 0 (arpTable m) →
      ((cacheStep host c act).entry m).ip = 0 ∧
        ((cacheStep host c act).entry m).entryTime = clockSeconds c.clock := by
    intro m hm
    rcases cacheStep_cases host hsome act with
      ⟨ip, hasked', hstep | ⟨k, mac, hstep, -⟩⟩ | ⟨hnone, -⟩
    · obtain rfl : ip = 0 := Option.some.inj (hasked'.symm.trans hasked)
      simp only [hstep, Cache.entry, touch_of_hit hm, hm.2, true_and]
    · obtain rfl : ip = 0 := Option.some.inj (hasked'.symm.trans hasked)
      simp only [hstep, Cache.entry]
      by_cases hmk : m = k
      · subst hmk
        rw [Function.update_self]
        exact ⟨rfl, rfl⟩
      · rw [Function.update_of_ne hmk, touch_of_hit hm]
        exact ⟨hm.2, rfl⟩
    · rw [hasked] at hnone
      exact absurd hnone (by simp)
  refine hne (hunique i j ?_ ?_ ((hused i hi).1.trans (hused j hj).1.symm))
  · rw [InUse, (hused i hi).2]
    exact hsec
  · rw [InUse, (hused j hj).2]
    exact hsec

/-- Without a clash, two hits that come into use by a scan are one. -/
theorem hits_unique (h : TableInv c.clock arpTable) (hsome : c.arpTable = some arpTable)
    {act : Action} {ip : Word} (hasked : asked host act = some ip)
    (hclash : ¬ ZeroClash host c act) (hsec : clockSeconds c.clock ≠ 0) {i j : Slot}
    (hi : Hit c.clock ip (arpTable i)) (hj : Hit c.clock ip (arpTable j)) : i = j := by
  by_contra hne
  have hzero : ip = 0 := hi.2.symm.trans (h.distinct i j hne (hi.2.trans hj.2.symm))
  subst hzero
  exact hne (zero_hits_unique hsome hasked hclash rfl hsec i j hi hj)

/-- Only the entry that is written, or the hit, can come into use. -/
theorem inUse_step (act : Action) (h : CacheInv c) (hclash : ¬ ZeroClash host c act) :
    ∃ k, ∀ m, InUse ((cacheStep host c act).entry m) → m = k ∨ InUse (c.entry m) := by
  obtain ⟨arpTable, hsome, hinv⟩ := h
  simp only [Cache.entry, hsome]
  rcases cacheStep_cases host hsome act with
    ⟨ip, hasked, hstep | ⟨k, mac, hstep, hk⟩⟩ | ⟨-, clock, -, hstep⟩
  · by_cases hex : ∃ k, Hit c.clock ip (arpTable k)
    · obtain ⟨k, hk⟩ := hex
      refine ⟨k, fun m hm => ?_⟩
      simp only [hstep] at hm
      rcases inUse_touch hm with ⟨hhit, hsec⟩ | ⟨-, hused, -⟩
      · exact Or.inl (hits_unique hinv hsome hasked hclash hsec hhit hk)
      · exact Or.inr hused
    · -- nothing comes into use, so any slot will do
      refine ⟨0, fun m hm => ?_⟩
      simp only [hstep] at hm
      rcases inUse_touch hm with ⟨hhit, -⟩ | ⟨-, hused, -⟩
      · exact absurd ⟨m, hhit⟩ hex
      · exact Or.inr hused
  · refine ⟨k, fun m hm => ?_⟩
    simp only [hstep] at hm
    by_cases hmk : m = k
    · exact Or.inl hmk
    · rw [Function.update_of_ne hmk] at hm
      rcases inUse_touch hm with ⟨hhit, hsec⟩ | ⟨-, hused, -⟩
      · rcases hk with hhitk | hnone
        · exact Or.inl (hits_unique hinv hsome hasked hclash hsec hhit hhitk)
        · exact absurd hhit (hnone m)
      · exact Or.inr hused
  · refine ⟨0, fun m hm => ?_⟩
    simp only [hstep, hsome] at hm
    exact Or.inr hm

theorem atMostOneMore_step (act : Action) (h : CacheInv c) (hclash : ¬ ZeroClash host c act) :
    AtMostOneMore host c act := by
  rintro frame left -
  obtain ⟨k, hk⟩ := inUse_step act h hclash
  have hsub : usedSlots (cacheStep host c act) ⊆ insert k (usedSlots c) := by
    intro m hm
    simp only [usedSlots, Finset.mem_filter, Finset.mem_univ, true_and, Finset.mem_insert] at hm ⊢
    exact hk m hm
  exact (Finset.card_le_card hsub).trans (Finset.card_insert_le _ _)

end Step

/-! ### Runs -/

theorem cacheInv_initial (clock : DoubleWord) : CacheInv (initialCache clock) :=
  ⟨fun _ => ARP_NULL_ENTRY, rfl, fun _ _ _ _ => rfl, fun _ _ hi => absurd rfl hi,
    fun _ => BitVec.le_def.mpr (Nat.zero_le _)⟩

/-- **Addresses stay unique exactly as long as no operation meets a clash of the
address 0.** -/
theorem arpCache_unique_iff (host : Host) (clock : DoubleWord) (acts : List Action) :
    (EveryState (cacheStep host) UniqueIps (initialCache clock) acts ∧
      EveryStep (cacheStep host) (AtMostOneMore host) (initialCache clock) acts) ↔
    EveryStep (cacheStep host) (fun c act => ¬ ZeroClash host c act) (initialCache clock) acts := by
  have hinit := cacheInv_initial clock
  have hkeep : ∀ c act, CacheInv c → ¬ ZeroClash host c act → CacheInv (cacheStep host c act) :=
    fun _ => cacheInv_step
  have hstates : EveryState (cacheStep host) UniqueIps (initialCache clock) acts ↔
      EveryStep (cacheStep host) (fun c act => ¬ ZeroClash host c act) (initialCache clock) acts :=
    everyState_iff_everyStep (fun _ => CacheInv.uniqueIps) hkeep (fun _ => clash_breaks) hinit
  constructor
  · rintro ⟨hunique, -⟩
    exact hstates.mp hunique
  · intro hok
    exact ⟨hstates.mpr hok, everyStep_of_invariant hkeep (fun _ act => atMostOneMore_step act)
      hinit hok⟩

/-- An ARP probe: a request of a machine that has no address yet, sender address 0. -/
def probe : EthernetFrame where
  destMac := BROADCAST_MAC
  srcMac := ![0x02, 0, 0, 0, 0, 1]
  etherType := 0x0608
  payload := fun k => [0x00, 0x01, 0x08, 0x00, 6, 4, 0x00, 0x01, 0x02, 0, 0, 0, 0, 1, 0, 0, 0, 0,
    0, 0, 0, 0, 0, 0, 10, 0, 2, 99].getD k 0

/-- A single probe, one second after the start, brings all ten slots into use. -/
theorem probe_not_unique :
    ¬ (EveryState (cacheStep versatileHost) UniqueIps (initialCache 1000)
        [.receive probe ⟨fun _ => 0, fun _ => 0⟩] ∧
      EveryStep (cacheStep versatileHost) (AtMostOneMore versatileHost) (initialCache 1000)
        [.receive probe ⟨fun _ => 0, fun _ => 0⟩]) := by
  rintro ⟨hunique, -⟩
  exact absurd hunique (by decide +kernel)

end Network
end Ninjastorms
