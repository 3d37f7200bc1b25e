import Ninjastorms.Lib.TableScan
import Ninjastorms.Network.Ethernet

/-!
# The ARP table

`kernel/network/routing.c` and the clock of `kernel/time.c`.  The variable
`arp_table` is `none` while it is the null pointer.

`arpTableFind` both expires and refreshes entries while it scans.  What it does
to one entry is `touch`, and `arpTableFind_some` says that it does just that to
every entry and returns the last one that is a hit; `findLoop` and
`arpTableSlot` are looked into nowhere else.
-/

namespace Ninjastorms
namespace Network

open Lib.TableScan

/-- `MAX_ARP_TABLE_ENTRIES`. -/
abbrev MAX_ARP_TABLE_ENTRIES : Nat := 10

theorem zero_lt_maxEntries : 0 < MAX_ARP_TABLE_ENTRIES := by
  decide

/-- `MAX_ARP_TABLE_AGE`, in seconds. -/
def MAX_ARP_TABLE_AGE : DoubleWord := 300

/-- `clock_seconds`, where `clock` counts milliseconds. -/
def clockSeconds (clock : DoubleWord) : DoubleWord :=
  clock / 1000

/-- `arp_table_entry_t`. -/
structure ArpTableEntry where
  ip : Word
  mac : MacAddress
  entryTime : DoubleWord
  deriving DecidableEq

/-- `ARP_NULL_ENTRY`. -/
def ARP_NULL_ENTRY : ArpTableEntry where
  ip := 0
  mac := NULL_MAC
  entryTime := 0

/-- An index into the table. -/
abbrev Slot := Fin MAX_ARP_TABLE_ENTRIES

/-- What `arp_table` points to. -/
abbrev ArpTable := Slot → ArpTableEntry

/-- The entry is in use and has not been used for too long. -/
def Expired (clock : DoubleWord) (entry : ArpTableEntry) : Prop :=
  entry.entryTime ≠ 0 ∧ clockSeconds clock - entry.entryTime > MAX_ARP_TABLE_AGE

instance (clock : DoubleWord) (entry : ArpTableEntry) : Decidable (Expired clock entry) :=
  inferInstanceAs (Decidable (_ ∧ _))

/-- One turn of the loop of `arp_table_find`. -/
def findTurn (clock : DoubleWord) (ip : Word) (acc : Option Slot × ArpTable) (i : Slot) :
    Option Slot × ArpTable :=
  let (res, arpTable) := acc
  let entry := arpTable i
  if Expired clock entry then
    (res, Function.update arpTable i ARP_NULL_ENTRY)
  else if entry.ip = ip then
    (some i, Function.update arpTable i { arpTable i with entryTime := clockSeconds clock })
  else
    (res, arpTable)

/-- The loop of `arp_table_find`. -/
def findLoop (clock : DoubleWord) (ip : Word) (arpTable : ArpTable) : Option Slot × ArpTable :=
  (List.finRange MAX_ARP_TABLE_ENTRIES).foldl (findTurn clock ip) (none, arpTable)

/-- `arp_table_find`: the index, `none` for -1, and the table it leaves. -/
def arpTableFind (clock : DoubleWord) (ip : Word) :
    Option ArpTable → Option Slot × Option ArpTable
  | none => (none, none)
  | some arpTable =>
      let (res, arpTable) := findLoop clock ip arpTable
      (res, some arpTable)

/-- `arp_table_lookup`. -/
def arpTableLookup (clock : DoubleWord) (ip : Word) (arpTable : Option ArpTable) :
    MacAddress × Option ArpTable :=
  match arpTableFind clock ip arpTable with
  | (some position, some arpTable) => ((arpTable position).mac, some arpTable)
  | (_, arpTable) => (NULL_MAC, arpTable)

/-- The loop of `arp_table_add_entry`: it ends at the first free slot. -/
def arpTableSlot (arpTable : ArpTable) : List Slot → Slot → Slot
  | [], slot => slot
  | i :: rest, slot =>
      if (arpTable i).entryTime = 0 then i
      else if (arpTable i).entryTime < (arpTable slot).entryTime then arpTableSlot arpTable rest i
      else arpTableSlot arpTable rest slot

/-- `arp_table_add_entry`. -/
def arpTableAddEntry (clock : DoubleWord) (mac : MacAddress) (ip : Word) :
    Option ArpTable → Option ArpTable
  | none => none
  | some arpTable =>
      let slot := arpTableSlot arpTable (List.finRange MAX_ARP_TABLE_ENTRIES) 0
      some (Function.update arpTable slot ⟨ip, mac, clockSeconds clock⟩)

/-- `arp_table_update`: its result and the table it leaves. -/
def arpTableUpdate (clock : DoubleWord) (mac : MacAddress) (ip : Word)
    (arpTable : Option ArpTable) : Bool × Option ArpTable :=
  match arpTableFind clock ip arpTable with
  | (some position, some arpTable) =>
      (true, some (Function.update arpTable position { arpTable position with mac := mac }))
  | (_, arpTable) => (false, arpTable)

/-- `routing_init`.  `allocated` says whether `malloc` has returned a block. -/
def routingInit (allocated : Bool) : Option ArpTable → Option ArpTable
  | none => if allocated then some fun _ => ARP_NULL_ENTRY else none
  | some arpTable => some arpTable

/-! ### What a scan does -/

/-- The entry counts as a match for `ip`.  Free slots are no exception. -/
def Hit (clock : DoubleWord) (ip : Word) (entry : ArpTableEntry) : Prop :=
  ¬ Expired clock entry ∧ entry.ip = ip

instance (clock : DoubleWord) (ip : Word) (entry : ArpTableEntry) : Decidable (Hit clock ip entry) :=
  inferInstanceAs (Decidable (_ ∧ _))

/-- What `arp_table_find` does to one entry. -/
def touch (clock : DoubleWord) (ip : Word) (entry : ArpTableEntry) : ArpTableEntry :=
  if Expired clock entry then ARP_NULL_ENTRY
  else if entry.ip = ip then { entry with entryTime := clockSeconds clock }
  else entry

theorem touch_of_expired {clock : DoubleWord} {ip : Word} {entry : ArpTableEntry}
    (h : Expired clock entry) : touch clock ip entry = ARP_NULL_ENTRY :=
  if_pos h

theorem touch_of_hit {clock : DoubleWord} {ip : Word} {entry : ArpTableEntry}
    (h : Hit clock ip entry) :
    touch clock ip entry = { entry with entryTime := clockSeconds clock } := by
  rw [touch, if_neg h.1, if_pos h.2]

theorem touch_of_other {clock : DoubleWord} {ip : Word} {entry : ArpTableEntry}
    (hage : ¬ Expired clock entry) (hip : entry.ip ≠ ip) : touch clock ip entry = entry := by
  rw [touch, if_neg hage, if_neg hip]

/-- The three things that can happen to an entry. -/
theorem touch_cases (clock : DoubleWord) (ip : Word) (entry : ArpTableEntry) :
    (Expired clock entry ∧ touch clock ip entry = ARP_NULL_ENTRY) ∨
    (Hit clock ip entry ∧
      touch clock ip entry = { entry with entryTime := clockSeconds clock }) ∨
    (¬ Expired clock entry ∧ entry.ip ≠ ip ∧ touch clock ip entry = entry) := by
  by_cases hage : Expired clock entry
  · exact Or.inl ⟨hage, touch_of_expired hage⟩
  · by_cases hip : entry.ip = ip
    · exact Or.inr (Or.inl ⟨⟨hage, hip⟩, touch_of_hit ⟨hage, hip⟩⟩)
    · exact Or.inr (Or.inr ⟨hage, hip, touch_of_other hage hip⟩)

theorem findTurn_eq_visit (clock : DoubleWord) (ip : Word) :
    findTurn clock ip = visit (Hit clock ip) (touch clock ip) := by
  funext acc i
  obtain ⟨res, arpTable⟩ := acc
  rcases touch_cases clock ip (arpTable i) with ⟨hage, htouch⟩ | ⟨hhit, htouch⟩ |
    ⟨hage, hip, htouch⟩
  · have hno : ¬ Hit clock ip (arpTable i) := fun h => h.1 hage
    simp only [findTurn, visit, if_pos hage, if_neg hno, htouch]
  · simp only [findTurn, visit, if_neg hhit.1, if_pos hhit.2, if_pos hhit, htouch]
  · have hno : ¬ Hit clock ip (arpTable i) := fun h => hip h.2
    simp only [findTurn, visit, if_neg hage, if_neg hip, if_neg hno, htouch,
      Function.update_eq_self]

/-- **`arp_table_find`.**  It touches every entry and returns the last hit. -/
theorem arpTableFind_some (clock : DoubleWord) (ip : Word) (arpTable : ArpTable) :
    arpTableFind clock ip (some arpTable) =
      (lastHit (Hit clock ip) arpTable, some fun i => touch clock ip (arpTable i)) := by
  rw [arpTableFind, findLoop, findTurn_eq_visit, foldl_visit]

theorem arpTableSlot_eq_firstMin (arpTable : ArpTable) (l : List Slot) (slot : Slot) :
    arpTableSlot arpTable l slot =
      firstMin (fun i => (arpTable i).entryTime.toNat) l slot := by
  have hzero : ∀ i, (arpTable i).entryTime = 0 ↔ (arpTable i).entryTime.toNat = ⊥ := fun i =>
    BitVec.toNat_eq.trans Iff.rfl
  induction l generalizing slot with
  | nil => rfl
  | cons i rest ih =>
      simp only [arpTableSlot, firstMin, hzero, BitVec.lt_def, ih]

/-- The slot that `arp_table_add_entry` picks: among the entries used longest
ago (a free slot counts as used at second 0), the one with the smallest index. -/
theorem arpTableSlot_spec (arpTable : ArpTable) (j : Slot) :
    (arpTable (arpTableSlot arpTable (List.finRange 10) 0)).entryTime.toNat ≤
      (arpTable j).entryTime.toNat ∧
    (j < arpTableSlot arpTable (List.finRange 10) 0 →
      (arpTable (arpTableSlot arpTable (List.finRange 10) 0)).entryTime.toNat <
        (arpTable j).entryTime.toNat) := by
  rw [arpTableSlot_eq_firstMin]
  exact firstMin_spec (fun i => (arpTable i).entryTime.toNat) j

end Network
end Ninjastorms
