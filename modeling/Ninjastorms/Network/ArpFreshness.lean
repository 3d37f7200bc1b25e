import Ninjastorms.Network.ArpRuns

/-!
# The ARP table never answers with a superseded address

`lastSender` is the history of a run: for each IP address, the hardware address
in the last frame that `arp_receive` has accepted from it.  The table may still
hold an older one, in a slot of smaller index with the same time of use; such a
slot is `Superseded`, and `Fresh` says that every address in the table is
either the last one heard or superseded.

A superseded slot is never returned: the slot that supersedes it expires and is
refreshed together with it, the scan returns the later one, and of two slots
used at the same time the earlier one is evicted first.
-/

namespace Ninjastorms
namespace Network

open Lib.Runs Lib.TableScan

/-- What an accepted frame tells about its sender. -/
def heard (host : Host) : Action → Option (Word × MacAddress)
  | .receive frame _ =>
      if Supported host (arpFrameAt host frame.payload) then
        some (sender host (arpFrameAt host frame.payload))
      else none
  | _ => none

/-- The last address heard from each sender, after one more operation. -/
def learn (host : Host) (last : Word → Option MacAddress) (act : Action) :
    Word → Option MacAddress :=
  match heard host act with
  | some (ip, mac) => Function.update last ip (some mac)
  | none => last

/-- The last address heard from each sender in a run. -/
def lastSender (host : Host) (acts : List Action) : Word → Option MacAddress :=
  acts.foldl (learn host) fun _ => none

/-- A later slot holds the same IP address and was used at the same time. -/
def Superseded (arpTable : ArpTable) (i : Slot) : Prop :=
  ∃ j, i < j ∧ (arpTable j).ip = (arpTable i).ip ∧
    (arpTable j).entryTime = (arpTable i).entryTime

/-- Every address in the table is the last one heard, or superseded. -/
def Fresh (last : Word → Option MacAddress) (arpTable : ArpTable) : Prop :=
  ∀ i, (arpTable i).mac ≠ NULL_MAC →
    last (arpTable i).ip = some (arpTable i).mac ∨ Superseded arpTable i

variable {host : Host} {clock : DoubleWord} {ip : Word} {last : Word → Option MacAddress}
  {arpTable : ArpTable}

/-- Whether an entry has expired depends on its time only. -/
theorem not_expired_of_eq {entry entry' : ArpTableEntry}
    (htime : entry'.entryTime = entry.entryTime) (h : ¬ Expired clock entry) :
    ¬ Expired clock entry' := by
  rw [Expired, htime]
  exact h

/-- A scan expires and refreshes a slot together with the one that supersedes it. -/
theorem Superseded.touch {i : Slot} (h : Superseded arpTable i)
    (hage : ¬ Expired clock (arpTable i)) :
    Superseded (fun k => touch clock ip (arpTable k)) i := by
  obtain ⟨j, hij, hip, htime⟩ := h
  have hage' : ¬ Expired clock (arpTable j) := not_expired_of_eq htime hage
  refine ⟨j, hij, ?_⟩
  by_cases hhit : (arpTable i).ip = ip
  · simp only [touch_of_hit ⟨hage, hhit⟩, touch_of_hit ⟨hage', hip.trans hhit⟩, and_true]
    exact hip
  · simp only [touch_of_other hage hhit, touch_of_other hage' fun heq => hhit (hip ▸ heq)]
    exact ⟨hip, htime⟩

theorem Fresh.touch (clock : DoubleWord) (ip : Word) (h : Fresh last arpTable) :
    Fresh last fun i => Network.touch clock ip (arpTable i) := by
  intro i hmac
  rcases touch_cases clock ip (arpTable i) with ⟨-, htouch⟩ | ⟨hhit, htouch⟩ | ⟨hage, -, htouch⟩
  · simp only [htouch] at hmac
    exact absurd rfl hmac
  · simp only [htouch] at hmac
    rcases h i hmac with hlast | hsup
    · left
      simp only [htouch]
      exact hlast
    · exact Or.inr (hsup.touch hhit.1)
  · simp only [htouch] at hmac
    rcases h i hmac with hlast | hsup
    · left
      simp only [htouch]
      exact hlast
    · exact Or.inr (hsup.touch hage)

/-- After a scan without a hit nothing but empty entries can hold the address. -/
theorem ip_ne_of_no_hit {i : Slot} (hnone : ¬ Hit clock ip (arpTable i))
    (hmac : (touch clock ip (arpTable i)).mac ≠ NULL_MAC) :
    (touch clock ip (arpTable i)).ip ≠ ip := by
  rcases touch_cases clock ip (arpTable i) with ⟨-, htouch⟩ | ⟨hhit, -⟩ | ⟨-, hne, htouch⟩
  · rw [htouch] at hmac
    exact absurd rfl hmac
  · exact absurd hhit hnone
  · rwa [htouch]

/-- The last hit takes the address of the sender; the other hits are superseded by it. -/
theorem Fresh.refresh (h : Fresh last arpTable) {k : Slot} (hhit : Hit clock ip (arpTable k))
    (hlast : ∀ j, k < j → ¬ Hit clock ip (arpTable j)) (mac : MacAddress) :
    Fresh (Function.update last ip (some mac))
      (Function.update (fun i => Network.touch clock ip (arpTable i)) k
        ⟨ip, mac, clockSeconds clock⟩) := by
  intro i hmac
  by_cases hik : i = k
  · left
    subst hik
    rw [Function.update_self, Function.update_self]
  · rw [Function.update_of_ne hik] at hmac
    by_cases hi : Hit clock ip (arpTable i)
    · -- an earlier hit, refreshed in the same second as the last one
      right
      have hlt : i < k := lt_of_le_of_ne (not_lt.mp fun hki => hlast i hki hi) hik
      refine ⟨k, hlt, ?_⟩
      rw [Function.update_self, Function.update_of_ne hik, touch_of_hit hi]
      exact ⟨hi.2.symm, rfl⟩
    · have hne := ip_ne_of_no_hit hi hmac
      rcases h.touch clock ip i hmac with hfresh | ⟨j, hij, hip, htime⟩
      · left
        rw [Function.update_of_ne hik, Function.update_of_ne hne]
        exact hfresh
      · -- the slot that supersedes `i` is not the one that is overwritten
        right
        have hjk : j ≠ k := by
          rintro rfl
          simp only [touch_of_hit hhit, hhit.2] at hip
          exact hne hip.symm
        refine ⟨j, hij, ?_⟩
        rw [Function.update_of_ne hjk, Function.update_of_ne hik]
        exact ⟨hip, htime⟩

/-- Without a hit, what is heard supersedes nothing that the table still holds. -/
theorem Fresh.miss (h : Fresh last arpTable) (hnone : ∀ i, ¬ Hit clock ip (arpTable i))
    (mac : MacAddress) :
    Fresh (Function.update last ip (some mac)) fun i => Network.touch clock ip (arpTable i) := by
  intro i hmac
  rw [Function.update_of_ne (ip_ne_of_no_hit (hnone i) hmac)]
  exact h.touch clock ip i hmac

/-- The evicted slot supersedes none: an earlier one used at the same time would
have been evicted in its place. -/
theorem Fresh.evict (h : Fresh last arpTable) {mac : MacAddress} (hmac : last ip = some mac) :
    Fresh last (Function.update arpTable (arpTableSlot arpTable (List.finRange 10) 0)
      ⟨ip, mac, clockSeconds clock⟩) := by
  intro i hi
  by_cases hik : i = arpTableSlot arpTable (List.finRange 10) 0
  · left
    rw [hik, Function.update_self]
    exact hmac
  · rw [Function.update_of_ne hik] at hi
    rcases h i hi with hfresh | ⟨j, hij, hip, htime⟩
    · left
      rw [Function.update_of_ne hik]
      exact hfresh
    · right
      have hjk : j ≠ arpTableSlot arpTable (List.finRange 10) 0 := by
        rintro rfl
        have hlt := (arpTableSlot_spec arpTable i).2 hij
        rw [htime] at hlt
        exact absurd hlt (lt_irrefl _)
      refine ⟨j, hij, ?_⟩
      rw [Function.update_of_ne hjk, Function.update_of_ne hik]
      exact ⟨hip, htime⟩

/-! ### Runs -/

/-- One operation keeps the table fresh with respect to the history. -/
theorem fresh_step {c : Cache} (act : Action)
    (h : ∃ t, c.arpTable = some t ∧ Fresh last t) :
    ∃ t, (cacheStep host c act).arpTable = some t ∧ Fresh (learn host last act) t := by
  obtain ⟨t, hsome, hfresh⟩ := h
  cases act with
  | receive frame left =>
      by_cases hsup : Supported host (arpFrameAt host frame.payload)
      · -- the history learns the sender, whether or not the table does
        simp only [cacheStep, hsome, learn, heard, if_pos hsup]
        rcases arpReceive_cases hsup c.clock left t with ⟨k, hhit, hlast, htable⟩ |
          ⟨hnone, ⟨-, htable⟩ | ⟨-, htable⟩⟩
        · exact ⟨_, htable, hfresh.refresh hhit hlast _⟩
        · exact ⟨_, htable, hfresh.miss hnone _⟩
        · exact ⟨_, htable, (hfresh.miss hnone _).evict (Function.update_self _ _ _)⟩
      · simp only [cacheStep, arpReceive_of_unsupported hsup, learn, heard, if_neg hsup]
        exact ⟨t, hsome, hfresh⟩
  | lookup ip =>
      simp only [cacheStep, hsome, arpTableLookup_table, learn, heard]
      exact ⟨_, rfl, hfresh.touch _ _⟩
  | getMac ip left =>
      simp only [cacheStep, hsome, arpTableGetMac_table, learn, heard]
      exact ⟨_, rfl, hfresh.touch _ _⟩
  | tick clock =>
      simp only [learn, heard, cacheStep]
      split
      · exact ⟨t, hsome, hfresh⟩
      · exact ⟨t, hsome, hfresh⟩

theorem fresh_run (host : Host) {c : Cache} (acts : List Action)
    (h : ∃ t, c.arpTable = some t ∧ Fresh last t) :
    ∃ t, (run (cacheStep host) c acts).arpTable = some t ∧
      Fresh (acts.foldl (learn host) last) t :=
  run_history (R := fun last (c : Cache) => ∃ t, c.arpTable = some t ∧ Fresh last t)
    (fun _ _ act hfresh => fresh_step act hfresh) acts h

/-- A lookup in a fresh table finds no superseded address. -/
theorem Fresh.lookup (h : Fresh last arpTable)
    (hmac : (arpTableLookup clock ip (some arpTable)).1 ≠ NULL_MAC) :
    last ip = some (arpTableLookup clock ip (some arpTable)).1 := by
  rcases arpTableLookup_mac clock ip arpTable with ⟨-, hnull⟩ | ⟨i, hhit, hlast, heq⟩
  · exact absurd hnull hmac
  · rw [heq] at hmac ⊢
    rcases h i hmac with hfresh | ⟨j, hij, hip, htime⟩
    · rwa [hhit.2] at hfresh
    · exact absurd ⟨not_expired_of_eq htime hhit.1, hip.trans hhit.2⟩ (hlast j hij)

/-- **Freshness.**  After any run, an address that a lookup returns is the one
that was heard last from that IP address. -/
theorem arpTableLookup_fresh (host : Host) (clock : DoubleWord) (acts : List Action) (ip : Word)
    (hmac : (arpTableLookup (run (cacheStep host) (initialCache clock) acts).clock ip
      (run (cacheStep host) (initialCache clock) acts).arpTable).1 ≠ NULL_MAC) :
    lastSender host acts ip =
      some (arpTableLookup (run (cacheStep host) (initialCache clock) acts).clock ip
        (run (cacheStep host) (initialCache clock) acts).arpTable).1 := by
  have hinit : ∃ t, (initialCache clock).arpTable = some t ∧ Fresh (fun _ => none) t :=
    ⟨_, rfl, fun i hi => absurd rfl hi⟩
  obtain ⟨t, hsome, hfresh⟩ := fresh_run host acts hinit
  rw [hsome] at hmac ⊢
  exact hfresh.lookup hmac

/-- A reply of the machine 10.0.2.2 with the given last byte of its address. -/
def reply (b : Byte) : EthernetFrame where
  destMac := versatileHost.mac
  srcMac := ![0x02, 0, 0, 0, 0, b]
  etherType := 0x0608
  payload := fun k => [0x00, 0x01, 0x08, 0x00, 6, 4, 0x00, 0x02, 0x02, 0, 0, 0, 0, b, 10, 0, 2, 2,
    0x52, 0x54, 0x00, 0x12, 0x34, 0x56, 10, 0, 2, 10].getD k 0

/-- The machine 10.0.2.2 changes its address; the lookup finds the new one. -/
theorem changed_address_fresh :
    let acts := [.receive (reply 1) ⟨fun _ => 0, fun _ => 0⟩, .tick 5000, .lookup 0x0A000202,
      .receive (reply 7) ⟨fun _ => 0, fun _ => 0⟩, .tick 9000]
    lastSender versatileHost acts 0x0A000202 =
      some (arpTableLookup (run (cacheStep versatileHost) (initialCache 1000) acts).clock 0x0A000202
        (run (cacheStep versatileHost) (initialCache 1000) acts).arpTable).1 :=
  arpTableLookup_fresh versatileHost 1000 _ 0x0A000202 (by decide +kernel)

end Network
end Ninjastorms
