import Ninjastorms.Network.ArpRuns
import Ninjastorms.Network.EthernetSend

/-!
# Sending to an IP address

`kernel/network/ipv4.c`.  A call of `ipv4_send` is executed statement by
statement, and between any two statements other tasks and interrupt handlers may
change the ARP table in any way and let time pass.  `SendPoint` is where the
call stands; what it has learned, asked and sent is kept beside it.

`finishLookup_eq` says that a lookup which nothing interrupts is
`arpTableLookup`.  The loop of `ipv4_send` tests for the timeout after each
lookup, also after one that has found the address: `ipv4Send_iff` says that this
is the only way in which a call goes wrong.
-/

namespace Ninjastorms
namespace Network

open Lib.Runs

/-- `WAIT_ON_ARP_TIMEOUT`, in seconds. -/
def WAIT_ON_ARP_TIMEOUT : DoubleWord := 5

/-! ### A lookup, statement by statement -/

/-- Where the loop of `arp_table_find` begins. -/
def firstSlot : Slot :=
  ⟨0, zero_lt_maxEntries⟩

/-- Where a call of `arp_table_lookup` stands: the statement that is next, with
the variables of `arp_table_find`. -/
inductive LookupPoint where
  | testTable
  | findTestTable
  | load (res : Option Slot) (i : Slot)
  | testAge (res : Option Slot) (i : Slot) (entry : ArpTableEntry)
  | remove (res : Option Slot) (i : Slot)
  | refresh (i : Slot)
  | found (position : Option Slot)

/-- The head of the loop of `arp_table_find`, behind a turn. -/
def nextTurn (res : Option Slot) (i : Slot) : LookupPoint :=
  if h : i.val + 1 < MAX_ARP_TABLE_ENTRIES then .load res ⟨i.val + 1, h⟩ else .found res

/-- Write to a slot of the table. -/
def Cache.store (c : Cache) (i : Slot) (entry : ArpTableEntry) : Cache :=
  { c with arpTable := c.arpTable.map fun arpTable => Function.update arpTable i entry }

/-- One statement of `arp_table_lookup`: where the call stands then, or the
address that it returns.  The table is not tested again once it was found not to
be null, since it never becomes null. -/
def lookupStep (ip : Word) (c : Cache) : LookupPoint → (LookupPoint ⊕ MacAddress) × Cache
  | .testTable =>
      match c.arpTable with
      | none => (.inr NULL_MAC, c)
      | some _ => (.inl .findTestTable, c)
  | .findTestTable =>
      match c.arpTable with
      | none => (.inl (.found none), c)
      | some _ => (.inl (.load none firstSlot), c)
  | .load res i => (.inl (.testAge res i (c.entry i)), c)
  | .testAge res i entry =>
      if Expired c.clock entry then (.inl (.remove res i), c)
      else if entry.ip = ip then (.inl (.refresh i), c)
      else (.inl (nextTurn res i), c)
  | .remove res i => (.inl (nextTurn res i), c.store i ARP_NULL_ENTRY)
  | .refresh i =>
      (.inl (nextTurn (some i) i),
        c.store i { c.entry i with entryTime := clockSeconds c.clock })
  | .found (some position) => (.inr (c.entry position).mac, c)
  | .found none => (.inr NULL_MAC, c)

/-- A lookup that nothing interrupts, for at most `fuel` statements. -/
def finishLookup (ip : Word) : Nat → Cache → LookupPoint → Option (MacAddress × Cache)
  | 0, _, _ => none
  | fuel + 1, c, point =>
      match lookupStep ip c point with
      | (.inl point, c) => finishLookup ip fuel c point
      | (.inr mac, c) => some (mac, c)

/-- The statements that a lookup still needs at most. -/
def LookupPoint.left : LookupPoint → Nat
  | .testTable => 33
  | .findTestTable => 32
  | .load _ i => 3 * (10 - i.val) + 1
  | .testAge _ i _ => 3 * (10 - i.val)
  | .remove _ i => 3 * (10 - i.val) - 1
  | .refresh i => 3 * (10 - i.val) - 1
  | .found _ => 1

/-! ### A call of `ipv4_send` -/

/-- The arguments of `ipv4_send`. -/
structure Ipv4Call where
  ip : Word
  payload : Word
  len : Word

/-- Where a call of `ipv4_send` stands, with its variables and those of
`arp_table_get_mac`. -/
inductive SendPoint where
  | getMac
  | getMacLookup (point : LookupPoint)
  | testMac (mac : MacAddress)
  | sendRequest
  | setStart (destMac : MacAddress)
  | testLoop (destMac : MacAddress) (start : DoubleWord)
  | lookup (start : DoubleWord) (point : LookupPoint)
  | testTimeout (destMac : MacAddress) (start : DoubleWord)
  | send (destMac : MacAddress)
  | sent
  | returned (ret : Word)

/-- A call, the variables it shares with others, and what it has done so far: the
addresses that `arp_table_lookup` and `arp_table_get_mac` have returned, apart
from `NULL_MAC`; the requests; the calls of `ethernet_send`; and the number of
turns of the loop. -/
structure Sending where
  point : SendPoint
  cache : Cache
  answers : List MacAddress
  requests : List Word
  frames : List EthernetCall
  turns : Nat

/-- `NULL_MAC` is no answer. -/
def recordAnswer (mac : MacAddress) (answers : List MacAddress) : List MacAddress :=
  if mac = NULL_MAC then answers else mac :: answers

/-- The call of `ethernet_send` that the data is handed to. -/
def Ipv4Call.frame (call : Ipv4Call) (destMac : MacAddress) : EthernetCall where
  destMac := destMac
  ethType := TYPE_IPv4
  payload := call.payload
  lenPayload := call.len

/-- One statement of `ipv4_send` and of the functions it calls. -/
def sendStatement (call : Ipv4Call) (s : Sending) : Sending :=
  match s.point with
  | .getMac =>
      match s.cache.arpTable with
      | none => { s with point := .setStart NULL_MAC }
      | some _ => { s with point := .getMacLookup .testTable }
  | .getMacLookup point =>
      match lookupStep call.ip s.cache point with
      | (.inl point, cache) => { s with point := .getMacLookup point, cache := cache }
      | (.inr mac, cache) =>
          { s with point := .testMac mac, cache := cache, answers := recordAnswer mac s.answers }
  | .testMac mac =>
      if macAddressEqual NULL_MAC mac then
        { s with point := .sendRequest }
      else
        { s with point := .setStart mac, answers := recordAnswer mac s.answers }
  | .sendRequest => { s with point := .setStart NULL_MAC, requests := call.ip :: s.requests }
  | .setStart destMac => { s with point := .testLoop destMac (clockSeconds s.cache.clock) }
  | .testLoop destMac start =>
      if macAddressEqual destMac NULL_MAC then
        { s with point := .lookup start .testTable, turns := s.turns + 1 }
      else
        { s with point := .send destMac }
  | .lookup start point =>
      match lookupStep call.ip s.cache point with
      | (.inl point, cache) => { s with point := .lookup start point, cache := cache }
      | (.inr mac, cache) =>
          { s with point := .testTimeout mac start, cache := cache,
                   answers := recordAnswer mac s.answers }
  | .testTimeout destMac start =>
      if clockSeconds s.cache.clock - start > WAIT_ON_ARP_TIMEOUT then
        { s with point := .returned (-1) }
      else
        { s with point := .testLoop destMac start }
  | .send destMac => { s with point := .sent, frames := call.frame destMac :: s.frames }
  | .sent => { s with point := .returned 0 }
  | .returned _ => s

/-- What happens next: a statement of the call, or something outside it.  Others
may write any table, which is then there for good, and the clock moves forward. -/
inductive SendEvent where
  | statement
  | table (arpTable : ArpTable)
  | tick (clock : DoubleWord)

def SendEvent.isStatement : SendEvent → Bool
  | .statement => true
  | _ => false

def sendStep (call : Ipv4Call) (s : Sending) : SendEvent → Sending
  | .statement => sendStatement call s
  | .table arpTable => { s with cache := { s.cache with arpTable := some arpTable } }
  | .tick clock =>
      if s.cache.clock ≤ clock then { s with cache := { s.cache with clock := clock } } else s

/-- A call that has just been made. -/
def newCall (cache : Cache) : Sending where
  point := .getMac
  cache := cache
  answers := []
  requests := []
  frames := []
  turns := 0

/-! ### What is promised -/

/-- The call gives up only when it has no address.  It sends to no other address
than the one that it was given, and asks for it at most once. -/
structure GivesUpRightly (call : Ipv4Call) (s : Sending) : Prop where
  answered : ∀ ret, s.point = .returned ret → ∀ mac ∈ s.answers,
    ret = 0 ∧ s.frames = [call.frame mac]
  unanswered : ∀ ret, s.point = .returned ret → s.answers = [] → ret = -1 ∧ s.frames = []
  notNull : ∀ frame ∈ s.frames, frame.destMac ≠ NULL_MAC
  oneRequest : s.requests.length ≤ 1

/-- The call is in a turn of its loop, and the time to wait is over. -/
def LateTurn (s : Sending) : Prop :=
  ∃ start, ((∃ point, s.point = .lookup start point) ∨ ∃ mac, s.point = .testTimeout mac start) ∧
    clockSeconds s.cache.clock - start > WAIT_ON_ARP_TIMEOUT

/-- The number of statements of the call among the events. -/
def statements (events : List SendEvent) : Nat :=
  events.countP SendEvent.isStatement

/-- The turn in which the time is over is the last one: no other is begun, and
the call returns within 34 statements. -/
def ReturnsInTime (call : Ipv4Call) (s : Sending) : Prop :=
  LateTurn s → ∀ events, (run (sendStep call) s events).turns = s.turns ∧
    (34 ≤ statements events → ∃ ret, (run (sendStep call) s events).point = .returned ret)

/-- When the time is over, no address has just been found. -/
def NotFoundLate (s : Sending) (event : SendEvent) : Prop :=
  ∀ mac start, event = .statement → s.point = .testTimeout mac start →
    clockSeconds s.cache.clock - start > WAIT_ON_ARP_TIMEOUT → mac = NULL_MAC

/-- A call that has an address hands the data over to it, once, and returns 0 within six
statements, unless the address is thrown away (`NotFoundLate`).  Any call goes on: within
40 statements it has returned, or has begun another turn of its loop. -/
structure Completes (call : Ipv4Call) (s : Sending) : Prop where
  handsOver : ∀ mac ∈ s.answers, ∀ events, EveryStep (sendStep call) NotFoundLate s events →
    6 ≤ statements events →
      (run (sendStep call) s events).point = .returned 0 ∧
      (run (sendStep call) s events).frames = [call.frame mac]
  goesOn : ∀ events, 40 ≤ statements events →
    (∃ ret, (run (sendStep call) s events).point = .returned ret) ∨
    s.turns < (run (sendStep call) s events).turns

/-! ### Lookups that nothing interrupts -/

section Lookup

variable {ip : Word} {clock : DoubleWord}

theorem finishLookup_next {fuel : Nat} {c c' : Cache} {point point' : LookupPoint}
    (h : lookupStep ip c point = (.inl point', c')) :
    finishLookup ip (fuel + 1) c point = finishLookup ip fuel c' point' := by
  rw [finishLookup, h]

/-- A turn of the loop takes two statements, or three. -/
theorem finishLookup_turn (ip : Word) (clock : DoubleWord) (arpTable : ArpTable)
    (res : Option Slot) (i : Slot) :
    ∃ used, used ≤ 3 ∧ ∀ fuel,
      finishLookup ip (fuel + used) ⟨some arpTable, clock⟩ (.load res i) =
        finishLookup ip fuel ⟨some (findTurn clock ip (res, arpTable) i).2, clock⟩
          (nextTurn (findTurn clock ip (res, arpTable) i).1 i) := by
  have hload : lookupStep ip ⟨some arpTable, clock⟩ (.load res i) =
      (.inl (.testAge res i (arpTable i)), ⟨some arpTable, clock⟩) := rfl
  by_cases hage : Expired clock (arpTable i)
  · have htest : lookupStep ip ⟨some arpTable, clock⟩ (.testAge res i (arpTable i)) =
        (.inl (.remove res i), ⟨some arpTable, clock⟩) := if_pos hage
    have hturn : findTurn clock ip (res, arpTable) i =
        (res, Function.update arpTable i ARP_NULL_ENTRY) := if_pos hage
    refine ⟨3, Nat.le_refl _, fun fuel => ?_⟩
    rw [finishLookup_next hload, finishLookup_next htest, finishLookup_next rfl, hturn]
    rfl
  by_cases hip : (arpTable i).ip = ip
  · have htest : lookupStep ip ⟨some arpTable, clock⟩ (.testAge res i (arpTable i)) =
        (.inl (.refresh i), ⟨some arpTable, clock⟩) := (if_neg hage).trans (if_pos hip)
    have hturn : findTurn clock ip (res, arpTable) i = (some i,
        Function.update arpTable i { arpTable i with entryTime := clockSeconds clock }) :=
      (if_neg hage).trans (if_pos hip)
    refine ⟨3, Nat.le_refl _, fun fuel => ?_⟩
    rw [finishLookup_next hload, finishLookup_next htest, finishLookup_next rfl, hturn]
    rfl
  · have htest : lookupStep ip ⟨some arpTable, clock⟩ (.testAge res i (arpTable i)) =
        (.inl (nextTurn res i), ⟨some arpTable, clock⟩) := (if_neg hage).trans (if_neg hip)
    have hturn : findTurn clock ip (res, arpTable) i = (res, arpTable) :=
      (if_neg hage).trans (if_neg hip)
    refine ⟨2, by omega, fun fuel => ?_⟩
    rw [finishLookup_next hload, finishLookup_next htest, hturn]

/-- What `arp_table_lookup` makes of the result of the loop. -/
def lookupResult (clock : DoubleWord) (acc : Option Slot × ArpTable) : MacAddress × Cache :=
  (match acc.1 with
    | some position => (acc.2 position).mac
    | none => NULL_MAC,
    ⟨some acc.2, clock⟩)

theorem finishLookup_found (acc : Option Slot × ArpTable) (fuel : Nat) :
    finishLookup ip (fuel + 1) ⟨some acc.2, clock⟩ (.found acc.1) =
      some (lookupResult clock acc) := by
  obtain ⟨position, arpTable⟩ := acc
  cases position with
  | none => rfl
  | some position => rfl

/-- The rest of the loop, by induction on the number of turns behind this one. -/
theorem finishLookup_loop (n : Nat) {fuel : Nat} {arpTable : ArpTable} {res : Option Slot}
    {i : Slot} (hn : i.val + n = 9) (hfuel : 3 * n + 4 ≤ fuel) :
    finishLookup ip fuel ⟨some arpTable, clock⟩ (.load res i) =
      some (lookupResult clock
        (((List.finRange 10).drop i.val).foldl (findTurn clock ip) (res, arpTable))) := by
  induction n generalizing arpTable res i fuel with
  | zero =>
      obtain ⟨used, hused, hturn⟩ := finishLookup_turn ip clock arpTable res i
      obtain ⟨rest, rfl⟩ : ∃ rest, fuel = rest + 1 + used := ⟨fuel - 1 - used, by omega⟩
      have hlast : ¬ i.val + 1 < MAX_ARP_TABLE_ENTRIES := by
        simp only [MAX_ARP_TABLE_ENTRIES]
        omega
      have hdrop : (List.finRange 10).drop i.val = [i] := by
        have hi : i = Fin.last 9 := Fin.ext (by simpa using hn)
        rw [hi]
        rfl
      rw [hturn, nextTurn, dif_neg hlast, finishLookup_found, hdrop, List.foldl_cons,
        List.foldl_nil]
  | succ n ih =>
      obtain ⟨used, hused, hturn⟩ := finishLookup_turn ip clock arpTable res i
      obtain ⟨rest, rfl⟩ : ∃ rest, fuel = rest + used := ⟨fuel - used, by omega⟩
      have hnext : i.val + 1 < MAX_ARP_TABLE_ENTRIES := by
        simp only [MAX_ARP_TABLE_ENTRIES]
        omega
      have hdrop : (List.finRange 10).drop i.val = i :: (List.finRange 10).drop (i.val + 1) := by
        rw [List.drop_eq_getElem_cons (by simp)]
        simp
      rw [hturn, nextTurn, dif_pos hnext, ih (by simp only; omega) (by omega), hdrop,
        List.foldl_cons]

theorem lookupResult_findLoop (arpTable : ArpTable) :
    lookupResult clock (findLoop clock ip arpTable) =
      ((arpTableLookup clock ip (some arpTable)).1,
        ⟨(arpTableLookup clock ip (some arpTable)).2, clock⟩) := by
  unfold arpTableLookup arpTableFind
  simp only
  generalize findLoop clock ip arpTable = acc
  obtain ⟨position, arpTable⟩ := acc
  cases position with
  | none => rfl
  | some position => rfl

/-- **A lookup that nothing interrupts** is `arpTableLookup`. -/
theorem finishLookup_eq (ip : Word) (c : Cache) :
    finishLookup ip 33 c .testTable =
      some ((arpTableLookup c.clock ip c.arpTable).1,
        ⟨(arpTableLookup c.clock ip c.arpTable).2, c.clock⟩) := by
  obtain ⟨table, clock⟩ := c
  cases table with
  | none => rfl
  | some arpTable =>
      rw [finishLookup_next rfl, finishLookup_next rfl, finishLookup_loop 9 rfl (by omega),
        ← lookupResult_findLoop]
      rfl

/-- A lookup does not change the clock. -/
theorem clock_lookupStep (ip : Word) (c : Cache) (point : LookupPoint) :
    (lookupStep ip c point).2.clock = c.clock := by
  cases point with
  | testTable =>
      rw [lookupStep]
      cases c.arpTable <;> rfl
  | findTestTable =>
      rw [lookupStep]
      cases c.arpTable <;> rfl
  | load res i => rfl
  | testAge res i entry =>
      rw [lookupStep]
      split
      · rfl
      · split <;> rfl
  | remove res i => rfl
  | refresh i => rfl
  | found position => cases position <;> rfl

theorem LookupPoint.left_pos (point : LookupPoint) : 1 ≤ point.left := by
  unfold LookupPoint.left
  cases point with
  | remove res i =>
      have hi : i.val < 10 := i.isLt
      simp only
      omega
  | refresh i =>
      have hi : i.val < 10 := i.isLt
      simp only
      omega
  | testAge res i entry =>
      have hi : i.val < 10 := i.isLt
      simp only
      omega
  | _ => simp

theorem LookupPoint.left_le (point : LookupPoint) : point.left ≤ 33 := by
  unfold LookupPoint.left
  split <;> omega

theorem left_nextTurn (res : Option Slot) (i : Slot) :
    (nextTurn res i).left ≤ 3 * (10 - i.val) - 2 := by
  have hi : i.val < 10 := i.isLt
  unfold nextTurn
  split
  · show 3 * (10 - (i.val + 1)) + 1 ≤ 3 * (10 - i.val) - 2
    omega
  · show 1 ≤ 3 * (10 - i.val) - 2
    omega

/-- Every statement brings a lookup closer to its end. -/
theorem left_lookupStep {c c' : Cache} {point point' : LookupPoint}
    (h : lookupStep ip c point = (.inl point', c')) : point'.left ≤ point.left - 1 := by
  cases point with
  | testTable =>
      rw [lookupStep] at h
      cases htable : c.arpTable with
      | none => simp [htable] at h
      | some arpTable =>
          simp only [htable, Prod.mk.injEq, Sum.inl.injEq] at h
          rw [← h.1]
          exact Nat.le_refl _
  | findTestTable =>
      rw [lookupStep] at h
      cases htable : c.arpTable with
      | none =>
          simp only [htable, Prod.mk.injEq, Sum.inl.injEq] at h
          rw [← h.1]
          show 1 ≤ 32 - 1
          omega
      | some arpTable =>
          simp only [htable, Prod.mk.injEq, Sum.inl.injEq] at h
          rw [← h.1]
          exact Nat.le_refl _
  | load res i =>
      simp only [lookupStep, Prod.mk.injEq, Sum.inl.injEq] at h
      rw [← h.1]
      exact Nat.le_refl _
  | testAge res i entry =>
      have hnext := left_nextTurn res i
      rw [lookupStep] at h
      split at h
      · simp only [Prod.mk.injEq, Sum.inl.injEq] at h
        rw [← h.1]
        exact Nat.le_refl _
      · split at h
        · simp only [Prod.mk.injEq, Sum.inl.injEq] at h
          rw [← h.1]
          exact Nat.le_refl _
        · simp only [Prod.mk.injEq, Sum.inl.injEq] at h
          rw [← h.1]
          show (nextTurn res i).left ≤ 3 * (10 - i.val) - 1
          omega
  | remove res i =>
      have hnext := left_nextTurn res i
      simp only [lookupStep, Prod.mk.injEq, Sum.inl.injEq] at h
      rw [← h.1]
      show (nextTurn res i).left ≤ 3 * (10 - i.val) - 1 - 1
      omega
  | refresh i =>
      have hnext := left_nextTurn (some i) i
      simp only [lookupStep, Prod.mk.injEq, Sum.inl.injEq] at h
      rw [← h.1]
      show (nextTurn (some i) i).left ≤ 3 * (10 - i.val) - 1 - 1
      omega
  | found position => cases position <;> simp [lookupStep] at h

end Lookup

/-! ### The invariant -/

/-- What the call has been told: no address but `mac`, and `mac` unless it is
`NULL_MAC`. -/
structure Known (mac : MacAddress) (answers : List MacAddress) : Prop where
  notNull : NULL_MAC ∉ answers
  only : ∀ m ∈ answers, m = mac
  given : mac ≠ NULL_MAC → mac ∈ answers

theorem Known.eq_nil {answers : List MacAddress} (h : Known NULL_MAC answers) : answers = [] := by
  refine List.eq_nil_iff_forall_not_mem.mpr fun m hm => h.notNull ?_
  rw [← h.only m hm]
  exact hm

theorem Known.recordAnswer {mac : MacAddress} {answers : List MacAddress}
    (hnotNull : NULL_MAC ∉ answers) (honly : ∀ m ∈ answers, m = mac) :
    Known mac (recordAnswer mac answers) := by
  unfold Network.recordAnswer
  by_cases hmac : mac = NULL_MAC
  · rw [if_pos hmac]
    exact ⟨hnotNull, honly, fun h => absurd hmac h⟩
  · rw [if_neg hmac]
    refine ⟨?_, ?_, fun _ => List.mem_cons_self⟩
    · rintro (_ | ⟨_, hmem⟩)
      · exact hmac rfl
      · exact hnotNull hmem
    · rintro m (_ | ⟨_, hmem⟩)
      · rfl
      · exact honly m hmem

theorem known_first (mac : MacAddress) : Known mac (Network.recordAnswer mac []) :=
  .recordAnswer (List.not_mem_nil) fun _ hm => absurd hm List.not_mem_nil

theorem known_null : Known NULL_MAC [] :=
  ⟨List.not_mem_nil, fun _ hm => absurd hm List.not_mem_nil, fun h => absurd rfl h⟩

/-- The call has sent nothing yet, and has asked at most once. -/
def Unsent (s : Sending) : Prop :=
  s.frames = [] ∧ s.requests.length ≤ 1

/-- What holds before each statement of the call. -/
def SendInv (call : Ipv4Call) (s : Sending) : Prop :=
  match s.point with
  | .getMac => s.answers = [] ∧ s.requests = [] ∧ Unsent s
  | .getMacLookup _ => s.answers = [] ∧ s.requests = [] ∧ Unsent s
  | .testMac mac => Known mac s.answers ∧ s.requests = [] ∧ Unsent s
  | .sendRequest => s.answers = [] ∧ s.requests = [] ∧ Unsent s
  | .setStart destMac => Known destMac s.answers ∧ Unsent s
  | .testLoop destMac start =>
      Known destMac s.answers ∧ start ≤ clockSeconds s.cache.clock ∧ Unsent s
  | .lookup start _ => s.answers = [] ∧ start ≤ clockSeconds s.cache.clock ∧ Unsent s
  | .testTimeout destMac start =>
      Known destMac s.answers ∧ start ≤ clockSeconds s.cache.clock ∧ Unsent s
  | .send destMac => Known destMac s.answers ∧ destMac ≠ NULL_MAC ∧ Unsent s
  | .sent => ∃ mac, Known mac s.answers ∧ mac ≠ NULL_MAC ∧ s.frames = [call.frame mac] ∧
      s.requests.length ≤ 1
  | .returned ret =>
      (∃ mac, ret = 0 ∧ Known mac s.answers ∧ mac ≠ NULL_MAC ∧ s.frames = [call.frame mac] ∧
        s.requests.length ≤ 1) ∨
      (ret = -1 ∧ s.answers = [] ∧ Unsent s)

section Send

variable {call : Ipv4Call} {s : Sending}

/-- An event is a statement of the call, or it replaces the cache by a later one. -/
theorem sendStep_cases (call : Ipv4Call) (s : Sending) (event : SendEvent) :
    (event = .statement ∧ sendStep call s event = sendStatement call s) ∨
    (event.isStatement = false ∧ ∃ cache, s.cache.clock ≤ cache.clock ∧
      sendStep call s event = { s with cache := cache }) := by
  cases event with
  | statement => exact Or.inl ⟨rfl, rfl⟩
  | table arpTable =>
      exact Or.inr ⟨rfl, { s.cache with arpTable := some arpTable }, BitVec.le_refl _, rfl⟩
  | tick clock =>
      right
      refine ⟨rfl, ?_⟩
      by_cases hforward : s.cache.clock ≤ clock
      · exact ⟨_, hforward, if_pos hforward⟩
      · exact ⟨s.cache, BitVec.le_refl _, if_neg hforward⟩

/-- Others change nothing that the invariant speaks of. -/
theorem SendInv.later {cache : Cache} (h : SendInv call s) (hclock : s.cache.clock ≤ cache.clock) :
    SendInv call { s with cache := cache } := by
  have hsec := clockSeconds_mono hclock
  obtain ⟨point, oldCache, answers, requests, frames, turns⟩ := s
  cases point with
  | testLoop destMac start => exact ⟨h.1, BitVec.le_trans h.2.1 hsec, h.2.2⟩
  | lookup start point => exact ⟨h.1, BitVec.le_trans h.2.1 hsec, h.2.2⟩
  | testTimeout destMac start =>
      exact ⟨h.1, BitVec.le_trans h.2.1 hsec, h.2.2⟩
  | _ => exact h

theorem Unsent.givesUpRightly (h : Unsent s) (hpoint : ∀ ret, s.point ≠ .returned ret) :
    GivesUpRightly call s where
  answered ret hret := absurd hret (hpoint ret)
  unanswered ret hret := absurd hret (hpoint ret)
  notNull frame hframe := by
    rw [h.1] at hframe
    exact absurd hframe List.not_mem_nil
  oneRequest := h.2

/-- A call that has sent its data has sent it to the address it was given. -/
theorem givesUpRightly_of_sent {mac : MacAddress} (hknown : Known mac s.answers)
    (hmac : mac ≠ NULL_MAC) (hframes : s.frames = [call.frame mac])
    (hrequests : s.requests.length ≤ 1) (hret : ∀ ret, s.point = .returned ret → ret = 0) :
    GivesUpRightly call s where
  answered ret hpoint m hm := by
    rw [hknown.only m hm]
    exact ⟨hret ret hpoint, hframes⟩
  unanswered _ _ hnil := by
    have hmem := hknown.given hmac
    rw [hnil] at hmem
    exact absurd hmem List.not_mem_nil
  notNull frame hframe := by
    rw [hframes] at hframe
    rw [List.mem_singleton.mp hframe]
    exact hmac
  oneRequest := hrequests

theorem SendInv.givesUpRightly (h : SendInv call s) : GivesUpRightly call s := by
  obtain ⟨point, cache, answers, requests, frames, turns⟩ := s
  cases point with
  | sent =>
      obtain ⟨mac, hknown, hmac, hframes, hrequests⟩ := h
      exact givesUpRightly_of_sent hknown hmac hframes hrequests fun ret hpoint => by simp at hpoint
  | returned ret =>
      rcases h with ⟨mac, hret, hknown, hmac, hframes, hrequests⟩ | ⟨hret, hanswers, hunsent⟩
      · exact givesUpRightly_of_sent hknown hmac hframes hrequests fun ret' hpoint =>
          (SendPoint.returned.inj hpoint).symm.trans hret
      · refine ⟨fun ret' _ m hm => ?_, fun ret' hpoint _ => ?_, fun frame hframe => ?_, hunsent.2⟩
        · rw [show answers = [] from hanswers] at hm
          exact absurd hm List.not_mem_nil
        · exact ⟨(SendPoint.returned.inj hpoint).symm.trans hret, hunsent.1⟩
        · rw [hunsent.1] at hframe
          exact absurd hframe List.not_mem_nil
  | setStart destMac => exact h.2.givesUpRightly fun ret hpoint => by simp at hpoint
  | _ => exact h.2.2.givesUpRightly fun ret hpoint => by simp at hpoint

/-- One statement keeps the invariant, unless it gives up with an address in hand. -/
theorem SendInv.statement (h : SendInv call s) (hok : NotFoundLate s .statement) :
    SendInv call (sendStatement call s) := by
  obtain ⟨point, cache, answers, requests, frames, turns⟩ := s
  cases point with
  | getMac =>
      obtain ⟨hanswers, hrequests, hunsent⟩ := h
      cases htable : cache.arpTable with
      | none =>
          simp only [sendStatement, htable]
          refine ⟨?_, hunsent⟩
          rw [show answers = [] from hanswers]
          exact known_null
      | some arpTable =>
          simp only [sendStatement, htable]
          exact ⟨hanswers, hrequests, hunsent⟩
  | getMacLookup point =>
      obtain ⟨hanswers, hrequests, hunsent⟩ := h
      rcases hstep : lookupStep call.ip cache point with ⟨point' | mac, cache'⟩
      · simp only [sendStatement, hstep]
        exact ⟨hanswers, hrequests, hunsent⟩
      · simp only [sendStatement, hstep]
        refine ⟨?_, hrequests, hunsent⟩
        rw [show answers = [] from hanswers]
        exact known_first mac
  | testMac mac =>
      obtain ⟨hknown, hrequests, hunsent⟩ := h
      by_cases hmac : mac = NULL_MAC
      · subst hmac
        simp only [sendStatement, macAddressEqual_iff, if_true]
        exact ⟨hknown.eq_nil, hrequests, hunsent⟩
      · simp only [sendStatement, macAddressEqual_iff, if_neg (Ne.symm hmac)]
        exact ⟨.recordAnswer hknown.notNull hknown.only, hunsent⟩
  | sendRequest =>
      obtain ⟨hanswers, hrequests, hunsent⟩ := h
      refine ⟨?_, hunsent.1, ?_⟩
      · show Known NULL_MAC answers
        rw [show answers = [] from hanswers]
        exact known_null
      · show (call.ip :: requests).length ≤ 1
        rw [show requests = [] from hrequests]
        exact Nat.le_refl _
  | setStart destMac => exact ⟨h.1, BitVec.le_refl _, h.2⟩
  | testLoop destMac start =>
      obtain ⟨hknown, hstart, hunsent⟩ := h
      by_cases hmac : destMac = NULL_MAC
      · subst hmac
        simp only [sendStatement, macAddressEqual_iff, if_true]
        exact ⟨hknown.eq_nil, hstart, hunsent⟩
      · simp only [sendStatement, macAddressEqual_iff, if_neg hmac]
        exact ⟨hknown, hmac, hunsent⟩
  | lookup start point =>
      obtain ⟨hanswers, hstart, hunsent⟩ := h
      have hclock := clock_lookupStep call.ip cache point
      rcases hstep : lookupStep call.ip cache point with ⟨point' | mac, cache'⟩
      · simp only [sendStatement, hstep]
        rw [hstep] at hclock
        exact ⟨hanswers, hclock ▸ hstart, hunsent⟩
      · simp only [sendStatement, hstep]
        rw [hstep] at hclock
        refine ⟨?_, hclock ▸ hstart, hunsent⟩
        rw [show answers = [] from hanswers]
        exact known_first mac
  | testTimeout destMac start =>
      obtain ⟨hknown, hstart, hunsent⟩ := h
      by_cases hlate : clockSeconds cache.clock - start > WAIT_ON_ARP_TIMEOUT
      · have hnull := hok destMac start rfl rfl hlate
        subst hnull
        simp only [sendStatement, if_pos hlate]
        exact Or.inr ⟨rfl, hknown.eq_nil, hunsent⟩
      · simp only [sendStatement, if_neg hlate]
        exact ⟨hknown, hstart, hunsent⟩
  | send destMac =>
      obtain ⟨hknown, hmac, hframes, hrequests⟩ := h
      refine ⟨destMac, hknown, hmac, ?_, hrequests⟩
      show call.frame destMac :: frames = [call.frame destMac]
      rw [show frames = [] from hframes]
  | sent =>
      obtain ⟨mac, hsent⟩ := h
      exact Or.inl ⟨mac, rfl, hsent⟩
  | returned ret => exact h

theorem SendInv.step (h : SendInv call s) (event : SendEvent) (hok : NotFoundLate s event) :
    SendInv call (sendStep call s event) := by
  rcases sendStep_cases call s event with ⟨rfl, hstep⟩ | ⟨-, cache, hclock, hstep⟩
  · rw [hstep]
    exact h.statement hok
  · rw [hstep]
    exact h.later hclock

/-- The timeout test throws away an address that has just been found. -/
theorem foundLate_breaks (h : SendInv call s) (event : SendEvent) (hbad : ¬ NotFoundLate s event) :
    ¬ GivesUpRightly call (sendStep call s event) := by
  intro hright
  simp only [NotFoundLate, not_forall] at hbad
  obtain ⟨mac, start, rfl, hpoint, hlate, hmac⟩ := hbad
  obtain ⟨point, cache, answers, requests, frames, turns⟩ := s
  subst hpoint
  have hreturned : sendStep call ⟨.testTimeout mac start, cache, answers, requests, frames, turns⟩
      .statement = ⟨.returned (-1), cache, answers, requests, frames, turns⟩ := if_pos hlate
  rw [hreturned] at hright
  have hret := (hright.answered (-1) rfl mac (h.1.given hmac)).1
  exact absurd hret (by decide)

/-! ### The last turn -/

/-- The statements that a call needs at most, in the last turn of its loop. -/
def SendPoint.left : SendPoint → Nat
  | .lookup _ point => point.left + 1
  | .testTimeout _ _ => 1
  | _ => 0

/-- The call is in the last turn of its loop, number `turns`, or has returned. -/
def LastTurn (turns : Nat) (s : Sending) : Prop :=
  s.turns = turns ∧
    ((∃ ret, s.point = .returned ret) ∨
      ∃ start, ((∃ point, s.point = .lookup start point) ∨
          ∃ mac, s.point = .testTimeout mac start) ∧
        start ≤ clockSeconds s.cache.clock ∧
        clockSeconds s.cache.clock - start > WAIT_ON_ARP_TIMEOUT)

/-- What is over remains over. -/
theorem late_mono {start second later : DoubleWord} (hstart : start ≤ second)
    (hlater : second ≤ later) (hlate : second - start > WAIT_ON_ARP_TIMEOUT) :
    later - start > WAIT_ON_ARP_TIMEOUT := by
  have hle := BitVec.le_trans hstart hlater
  have hmore : second.toNat ≤ later.toNat := hlater
  rw [gt_iff_lt, BitVec.lt_def, BitVec.toNat_sub_of_le hstart] at hlate
  rw [gt_iff_lt, BitVec.lt_def, BitVec.toNat_sub_of_le hle]
  omega

theorem LastTurn.later {turns : Nat} {cache : Cache} (h : LastTurn turns s)
    (hclock : s.cache.clock ≤ cache.clock) : LastTurn turns { s with cache := cache } := by
  have hsec := clockSeconds_mono hclock
  obtain ⟨hturns, hreturned | ⟨start, hpoint, hstart, hlate⟩⟩ := h
  · exact ⟨hturns, Or.inl hreturned⟩
  · exact ⟨hturns, Or.inr ⟨start, hpoint, BitVec.le_trans hstart hsec, late_mono hstart hsec hlate⟩⟩

/-- In the last turn, every statement brings the call closer to its end. -/
theorem LastTurn.statement {turns : Nat} (h : LastTurn turns s) :
    LastTurn turns (sendStatement call s) ∧
      (sendStatement call s).point.left ≤ s.point.left - 1 := by
  obtain ⟨point, cache, answers, requests, frames, turns'⟩ := s
  obtain ⟨hturns, ⟨ret, hret⟩ | ⟨start, ⟨point', hpoint⟩ | ⟨mac, hpoint⟩, hstart, hlate⟩⟩ := h
  · subst hret
    exact ⟨⟨hturns, Or.inl ⟨ret, rfl⟩⟩, Nat.le_refl _⟩
  · subst hpoint
    have hclock := clock_lookupStep call.ip cache point'
    have hpos := point'.left_pos
    rcases hstep : lookupStep call.ip cache point' with ⟨next | mac, cache'⟩
    · rw [hstep] at hclock
      have hleft := left_lookupStep hstep
      simp only [sendStatement, hstep]
      refine ⟨⟨hturns, Or.inr ⟨start, Or.inl ⟨next, rfl⟩, ?_⟩⟩, ?_⟩
      · exact ⟨hclock ▸ hstart, hclock ▸ hlate⟩
      · show next.left + 1 ≤ point'.left + 1 - 1
        omega
    · rw [hstep] at hclock
      simp only [sendStatement, hstep]
      refine ⟨⟨hturns, Or.inr ⟨start, Or.inr ⟨mac, rfl⟩, ?_⟩⟩, ?_⟩
      · exact ⟨hclock ▸ hstart, hclock ▸ hlate⟩
      · show 1 ≤ point'.left + 1 - 1
        omega
  · subst hpoint
    have hreturned : sendStatement call ⟨.testTimeout mac start, cache, answers, requests, frames,
        turns'⟩ = ⟨.returned (-1), cache, answers, requests, frames, turns'⟩ := if_pos hlate
    rw [hreturned]
    exact ⟨⟨hturns, Or.inl ⟨-1, rfl⟩⟩, Nat.le_refl _⟩

theorem point_sendStep (event : SendEvent) (h : event.isStatement = false) :
    (sendStep call s event).point = s.point := by
  rcases sendStep_cases call s event with ⟨rfl, -⟩ | ⟨-, cache, -, hstep⟩
  · exact absurd h.symm Bool.false_ne_true
  · rw [hstep]

theorem LastTurn.step {turns : Nat} (h : LastTurn turns s) (event : SendEvent) :
    LastTurn turns (sendStep call s event) := by
  rcases sendStep_cases call s event with ⟨-, hstep⟩ | ⟨-, cache, hclock, hstep⟩
  · rw [hstep]
    exact h.statement.1
  · rw [hstep]
    exact h.later hclock

theorem LastTurn.left_step {turns : Nat} (h : LastTurn turns s) (event : SendEvent)
    (hown : event.isStatement = true) : (sendStep call s event).point.left ≤ s.point.left - 1 := by
  rcases sendStep_cases call s event with ⟨-, hstep⟩ | ⟨hother, -⟩
  · rw [hstep]
    exact h.statement.2
  · rw [hother] at hown
    exact absurd hown Bool.false_ne_true

/-- **The wait is bounded.**  Once the time is over, no other turn is begun, and at
most 34 statements are left. -/
theorem SendInv.returnsInTime (h : SendInv call s) : ReturnsInTime call s := by
  rintro ⟨start, hpoint, hlate⟩ events
  have hlast : LastTurn s.turns s := by
    refine ⟨rfl, Or.inr ⟨start, hpoint, ?_, hlate⟩⟩
    obtain ⟨point, cache, answers, requests, frames, turns⟩ := s
    rcases hpoint with ⟨point', rfl⟩ | ⟨mac, rfl⟩
    · exact h.2.1
    · exact h.2.1
  have hbound : s.point.left ≤ 34 := by
    rcases hpoint with ⟨point, hpoint⟩ | ⟨mac, hpoint⟩
    · rw [hpoint]
      exact Nat.succ_le_succ point.left_le
    · rw [hpoint]
      exact (by decide : 1 ≤ 34)
  have hkeep : ∀ s' event, LastTurn s.turns s' → True → LastTurn s.turns (sendStep call s' event) :=
    fun _ event hs _ => hs.step event
  obtain ⟨⟨hturns, hend⟩, hleft⟩ := run_measure (LastTurn s.turns)
    (fun _ event => event.isStatement = true) (fun s => s.point.left) hkeep (fun _ event hs _ hown => hs.left_step event hown)
    (fun _ event _ _ hother => le_of_eq (congrArg SendPoint.left
      (point_sendStep event (Bool.not_eq_true _ ▸ hother))))
    hlast (everyStep_true s events)
  rw [countSteps_eq_countP] at hleft
  refine ⟨hturns, fun hcount => ?_⟩
  have hzero : (run (sendStep call) s events).point.left = 0 := by
    rw [statements] at hcount
    omega
  rcases hend with hreturned | ⟨start', ⟨point, hpoint'⟩ | ⟨mac, hpoint'⟩, -⟩
  · exact hreturned
  · rw [hpoint'] at hzero
    exact absurd hzero (Nat.succ_ne_zero _)
  · rw [hpoint'] at hzero
    exact absurd hzero (Nat.succ_ne_zero _)

/-! ### The way to the end of a turn -/

/-- The statements up to the end of the turn that the call is in, at most; those before
the loop count as one. -/
def SendPoint.turnLeft : SendPoint → Nat
  | .getMac => 40
  | .getMacLookup point => point.left + 6
  | .testMac _ => 6
  | .sendRequest => 5
  | .setStart _ => 4
  | .testLoop _ _ => 3
  | .lookup _ point => point.left + 4
  | .testTimeout _ _ => 4
  | .send _ => 2
  | .sent => 1
  | .returned _ => 0

theorem SendPoint.turnLeft_le (point : SendPoint) : point.turnLeft ≤ 40 := by
  cases point with
  | getMacLookup point =>
      have hleft := point.left_le
      simp only [turnLeft]
      omega
  | lookup start point =>
      have hleft := point.left_le
      simp only [turnLeft]
      omega
  | _ => simp [turnLeft]

theorem SendPoint.returned_of_turnLeft {point : SendPoint} (hzero : point.turnLeft = 0) :
    ∃ ret, point = .returned ret := by
  cases point with
  | returned ret => exact ⟨ret, rfl⟩
  | _ => simp [turnLeft] at hzero

/-- Every statement brings the call closer to the end of the turn, or begins another one;
and it begins none with an address in hand. -/
theorem turn_sendStatement (call : Ipv4Call) (s : Sending) :
    ((sendStatement call s).turns = s.turns ∧
      (sendStatement call s).point.turnLeft ≤ s.point.turnLeft - 1) ∨
    ((sendStatement call s).turns = s.turns + 1 ∧ ∃ start, s.point = .testLoop NULL_MAC start) := by
  obtain ⟨point, cache, answers, requests, frames, turns⟩ := s
  cases point with
  | getMac =>
      left
      cases htable : cache.arpTable with
      | none => simp [sendStatement, htable, SendPoint.turnLeft]
      | some arpTable => simp [sendStatement, htable, SendPoint.turnLeft, LookupPoint.left]
  | getMacLookup point =>
      left
      have hpos := point.left_pos
      rcases hstep : lookupStep call.ip cache point with ⟨point' | mac, cache'⟩
      · have hleft := left_lookupStep hstep
        simp only [sendStatement, hstep, SendPoint.turnLeft, true_and]
        omega
      · simp only [sendStatement, hstep, SendPoint.turnLeft, true_and]
        omega
  | testMac mac =>
      left
      simp only [sendStatement]
      split <;> simp [SendPoint.turnLeft]
  | testLoop destMac start =>
      by_cases hmac : destMac = NULL_MAC
      · right
        subst hmac
        simp [sendStatement, macAddressEqual_iff]
      · left
        simp [sendStatement, macAddressEqual_iff, hmac, SendPoint.turnLeft]
  | lookup start point =>
      left
      have hpos := point.left_pos
      rcases hstep : lookupStep call.ip cache point with ⟨point' | mac, cache'⟩
      · have hleft := left_lookupStep hstep
        simp only [sendStatement, hstep, SendPoint.turnLeft, true_and]
        omega
      · simp only [sendStatement, hstep, SendPoint.turnLeft, true_and]
        omega
  | testTimeout destMac start =>
      left
      simp only [sendStatement]
      split <;> simp [SendPoint.turnLeft]
  | _ => simp [sendStatement, SendPoint.turnLeft]

/-- The same for any event. -/
theorem turn_sendStep (call : Ipv4Call) (s : Sending) (event : SendEvent) :
    ((sendStep call s event).turns = s.turns ∧ (sendStep call s event).point.turnLeft ≤
        if event.isStatement then s.point.turnLeft - 1 else s.point.turnLeft) ∨
    ((sendStep call s event).turns = s.turns + 1 ∧ ∃ start, s.point = .testLoop NULL_MAC start) := by
  rcases sendStep_cases call s event with ⟨rfl, hstep⟩ | ⟨hother, cache, -, hstep⟩
  · rw [hstep]
    exact turn_sendStatement call s
  · rw [hstep, hother]
    exact Or.inl ⟨rfl, Nat.le_refl _⟩

/-- **A call goes on.** -/
theorem call_goesOn (call : Ipv4Call) (s : Sending) (events : List SendEvent)
    (henough : 40 ≤ statements events) :
    (∃ ret, (run (sendStep call) s events).point = .returned ret) ∨
    s.turns < (run (sendStep call) s events).turns := by
  -- what is left of this turn; nothing, when another one has begun
  let left : Sending → Nat := fun s' => if s'.turns = s.turns then s'.point.turnLeft else 0
  have hkeep : ∀ s' event, s.turns ≤ s'.turns → True → s.turns ≤ (sendStep call s' event).turns := by
    intro s' event h _
    rcases turn_sendStep call s' event with ⟨hturns, -⟩ | ⟨hturns, -⟩ <;> omega
  have hless : ∀ s' event, s.turns ≤ s'.turns → left (sendStep call s' event) ≤
      if event.isStatement then left s' - 1 else left s' := by
    intro s' event h
    rcases turn_sendStep call s' event with ⟨hturns, hturn⟩ | ⟨hturns, -⟩
    · simp only [left, hturns]
      split
      · exact hturn
      · exact Nat.zero_le _
    · have hnext : (sendStep call s' event).turns ≠ s.turns := by omega
      simp only [left, if_neg hnext]
      exact Nat.zero_le _
  obtain ⟨hturns, hleft⟩ := run_measure (fun s' => s.turns ≤ s'.turns)
    (fun _ event => event.isStatement = true) left hkeep
    (fun s' event h _ hown => by simpa only [if_pos hown] using hless s' event h)
    (fun s' event h _ hother => by simpa only [if_neg hother] using hless s' event h)
    (Nat.le_refl s.turns) (everyStep_true s events)
  have hall : left s ≤ 40 := (if_pos rfl).trans_le s.point.turnLeft_le
  rw [countSteps_eq_countP] at hleft
  rw [statements] at henough
  rcases Nat.lt_or_eq_of_le hturns with hmore | hsame
  · exact Or.inr hmore
  · left
    simp only [left, if_pos hsame.symm, if_true] at hleft hall
    exact SendPoint.returned_of_turnLeft (by omega)

theorem mem_recordAnswer {m : MacAddress} (mac : MacAddress) {answers : List MacAddress}
    (hm : m ∈ answers) : m ∈ recordAnswer mac answers := by
  unfold recordAnswer
  split
  · exact hm
  · exact List.mem_cons_of_mem _ hm

/-- What the call has been told, it knows. -/
theorem answers_sendStatement {mac : MacAddress} (hmac : mac ∈ s.answers) :
    mac ∈ (sendStatement call s).answers := by
  unfold sendStatement
  cases s.point with
  | getMac =>
      simp only
      split <;> exact hmac
  | getMacLookup point =>
      simp only
      split
      · exact hmac
      · exact mem_recordAnswer _ hmac
  | testMac found =>
      simp only
      split
      · exact hmac
      · exact mem_recordAnswer _ hmac
  | testLoop destMac start =>
      simp only
      split <;> exact hmac
  | lookup start point =>
      simp only
      split
      · exact hmac
      · exact mem_recordAnswer _ hmac
  | testTimeout destMac start =>
      simp only
      split <;> exact hmac
  | _ => exact hmac

/-- With an address in hand, no turn is begun and six statements are left at most. -/
theorem SendInv.turnLeft_le (h : SendInv call s) (hanswers : s.answers ≠ []) :
    s.point.turnLeft ≤ 6 ∧ ∀ start, s.point ≠ .testLoop NULL_MAC start := by
  obtain ⟨point, cache, answers, requests, frames, turns⟩ := s
  cases point with
  | getMac => exact absurd h.1 hanswers
  | getMacLookup point => exact absurd h.1 hanswers
  | sendRequest => exact absurd h.1 hanswers
  | lookup start point => exact absurd h.1 hanswers
  | testLoop destMac start =>
      refine ⟨by simp [SendPoint.turnLeft], fun start' hpoint => hanswers ?_⟩
      obtain ⟨rfl, -⟩ := SendPoint.testLoop.inj hpoint
      exact h.1.eq_nil
  | _ => exact ⟨by simp [SendPoint.turnLeft], nofun⟩

/-- **A call that has an address hands the data over.** -/
theorem SendInv.handsOver (h : SendInv call s) {mac : MacAddress} (hmac : mac ∈ s.answers)
    {events : List SendEvent} (hok : EveryStep (sendStep call) NotFoundLate s events)
    (henough : 6 ≤ statements events) :
    (run (sendStep call) s events).point = .returned 0 ∧
    (run (sendStep call) s events).frames = [call.frame mac] := by
  have hkeep : ∀ s' event, SendInv call s' ∧ mac ∈ s'.answers → NotFoundLate s' event →
      SendInv call (sendStep call s' event) ∧ mac ∈ (sendStep call s' event).answers := by
    rintro s' event ⟨h', hmac'⟩ hok
    refine ⟨h'.step event hok, ?_⟩
    rcases sendStep_cases call s' event with ⟨-, hstep⟩ | ⟨-, cache, -, hstep⟩
    · rw [hstep]
      exact answers_sendStatement hmac'
    · rw [hstep]
      exact hmac'
  have hless : ∀ s' event, SendInv call s' ∧ mac ∈ s'.answers →
      (sendStep call s' event).point.turnLeft ≤
        if event.isStatement then s'.point.turnLeft - 1 else s'.point.turnLeft := by
    rintro s' event ⟨h', hmac'⟩
    rcases turn_sendStep call s' event with ⟨-, hless⟩ | ⟨-, start, hpoint⟩
    · exact hless
    · exact absurd hpoint ((h'.turnLeft_le (List.ne_nil_of_mem hmac')).2 start)
  obtain ⟨⟨hinv, hanswer⟩, hleft⟩ := run_measure (fun s' => SendInv call s' ∧ mac ∈ s'.answers)
    (fun _ event => event.isStatement = true) (fun s' => s'.point.turnLeft) hkeep
    (fun s' event h' _ hown => by simpa only [if_pos hown] using hless s' event h')
    (fun s' event h' _ hother => by simpa only [if_neg hother] using hless s' event h')
    ⟨h, hmac⟩ hok
  have hsix := (h.turnLeft_le (List.ne_nil_of_mem hmac)).1
  rw [countSteps_eq_countP] at hleft
  rw [statements] at henough
  have hzero : (run (sendStep call) s events).point.turnLeft = 0 := by omega
  obtain ⟨ret, hret⟩ := SendPoint.returned_of_turnLeft hzero
  obtain ⟨rfl, hframes⟩ := hinv.givesUpRightly.answered ret hret mac hanswer
  exact ⟨hret, hframes⟩

theorem SendInv.completes (h : SendInv call s) : Completes call s where
  handsOver _ hmac _ hok henough := h.handsOver hmac hok henough
  goesOn events henough := call_goesOn call s events henough

end Send

/-- **`ipv4_send`.**  Whatever happens to the table and to the clock between the
statements of a call, it gives up only without an address, and sends what it should if it
has one, as long as no address is found too late; and it never waits for longer than it
should. -/
theorem ipv4Send_iff (call : Ipv4Call) (cache : Cache) (events : List SendEvent) :
    EveryState (sendStep call)
        (fun s => GivesUpRightly call s ∧ ReturnsInTime call s ∧ Completes call s)
        (newCall cache) events ↔
      EveryStep (sendStep call) NotFoundLate (newCall cache) events :=
  everyState_iff_everyStep
    (fun _ h => ⟨SendInv.givesUpRightly h, SendInv.returnsInTime h, SendInv.completes h⟩)
    (fun _ event h hok => SendInv.step h event hok)
    (fun _ event h hbad hright => foundLate_breaks h event hbad hright.1)
    ⟨rfl, rfl, rfl, Nat.zero_le _⟩

/-- A call for an address that is not in the table yet, one second after the start. -/
def gatewayCall : Ipv4Call where
  ip := 0x0A000202
  payload := 0x3FE0000
  len := 100

/-- The hardware address of the gateway. -/
def gatewayMac : MacAddress :=
  ![0x02, 0x02, 0x00, 0x0A, 0x55, 0x52]

/-- The request is sent, the reply comes, and the loop finds it; before the test for
the timeout, another task runs for six seconds. -/
def lateReply : List SendEvent :=
  List.replicate 28 .statement ++
    [.table (Function.update (fun _ => ARP_NULL_ENTRY) firstSlot ⟨0x0A000202, gatewayMac, 1⟩)] ++
    List.replicate 24 .statement ++ [.tick 7000, .statement]

/-- The call returns -1, although a lookup has returned the address. -/
theorem lateReply_given_up :
    ¬ EveryState (sendStep gatewayCall)
      (fun s => GivesUpRightly gatewayCall s ∧ ReturnsInTime gatewayCall s ∧
        Completes gatewayCall s)
      (newCall (initialCache 1000)) lateReply := by
  intro h
  have hright := (everyState_iff_reached.mp h lateReply (List.prefix_refl _)).1
  have hret := (hright.answered (-1) rfl gatewayMac (by decide +kernel)).1
  exact absurd hret (by decide)

end Network
end Ninjastorms
