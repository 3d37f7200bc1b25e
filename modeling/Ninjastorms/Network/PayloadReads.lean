import Ninjastorms.Network.EthernetFraming

/-!
# What `ethernet_send` reads of its payload

The payload is a buffer that ends where the caller's object ends, and a read
behind it is an error: it stops with the offset that was read.

`ethernet_send` copies as many bytes as the padded frame has and overwrites the
padding with zeros afterwards.  `fillFrameFrom_eq` says that this works for a
payload that needs no padding, and reads the first byte behind every other one.
-/

namespace Ninjastorms
namespace Network

open Libc

/-- An object of the caller: its length, and that many bytes. -/
structure Buffer where
  len : Word
  bytes : Fin len.toNat → Byte

/-- Read the byte at an offset. -/
def Buffer.read (buf : Buffer) (k : Nat) : Except Nat Byte :=
  if h : k < buf.len.toNat then .ok (buf.bytes ⟨k, h⟩) else .error k

/-- `memcpy` from a buffer. -/
def memcpyFrom (dest : Bytes) (off : Nat) (src : Buffer) : Nat → Except Nat Bytes
  | 0 => .ok dest
  | n + 1 => do
      let dest ← memcpyFrom dest off src n
      let v ← src.read n
      return Function.update dest (off + n) v

/-- `fillFrame`, with the payload in a buffer. -/
def fillFrameFrom (host : Host) (destMac : MacAddress) (ethType : HalfWord) (payload : Buffer)
    (block : Bytes) : Except Nat Bytes := do
  let block := storeMac block 0 (htonMac host destMac)
  let block := storeMac block 6 (htonMac host host.mac)
  let block := storeHalf host block 12 (htons host ethType)
  let block ← memcpyFrom block sizeofEthernetFrame payload (paddedLen payload.len).toNat
  if lenPadding payload.len ≠ 0 then
    return memset block (sizeofEthernetFrame + payload.len.toNat) 0 (lenPadding payload.len).toNat
  else
    return block

/-- `ethernet_send`, with the payload in a buffer. -/
def ethernetSendFrom (host : Host) (destMac : MacAddress) (ethType : HalfWord) (payload : Buffer)
    (block : Bytes) : Except Nat (List Frame) := do
  let block ← fillFrameFrom host destMac ethType payload block
  return e1000SendPacket host block
    ((BitVec.ofNat 32 sizeofEthernetFrame + paddedLen payload.len).setWidth 16)

/-- The variable `arp_frame` of the functions that send ARP frames. -/
def arpFrameBuffer (host : Host) (frame : ArpFrame) : Buffer where
  len := sizeofArpFrame
  bytes := fun i => arpFrameBytes host frame (fun _ => 0) i.val

/-- The callers of `ethernet_send`, with what they are given; `ipv4_send` has found
out `destMac` itself. -/
inductive Caller where
  | arpSendRequest (ip : Word)
  | arpHandleRequest (frame : ArpFrame)
  | ipv4Send (destMac : MacAddress) (payload : Buffer)

/-- The payload of the call. -/
def Caller.payload (host : Host) : Caller → Buffer
  | .arpSendRequest ip => arpFrameBuffer host (arpBuildFrame host ARP_REQUEST NULL_MAC ip)
  | .arpHandleRequest frame =>
      arpFrameBuffer host (arpBuildFrame host ARP_REPLY (ntohMac host frame.srcHardwareAddr)
        (ntohl host frame.srcIpAddress))
  | .ipv4Send _ payload => payload

/-- The call of `ethernet_send`. -/
def Caller.send (host : Host) (block : Bytes) (caller : Caller) : Except Nat (List Frame) :=
  match caller with
  | .arpSendRequest _ => ethernetSendFrom host BROADCAST_MAC TYPE_ARP (caller.payload host) block
  | .arpHandleRequest frame =>
      ethernetSendFrom host (ntohMac host frame.srcHardwareAddr) TYPE_ARP (caller.payload host) block
  | .ipv4Send destMac _ => ethernetSendFrom host destMac TYPE_IPv4 (caller.payload host) block

/-- The call reads no byte behind its payload. -/
def ReadsOnlyPayload (result : Except Nat (List Frame)) : Prop :=
  ∃ frames, result = .ok frames

/-! ### The copy -/

section Copy

variable {dest : Bytes} {off n : Nat} {src : Buffer} {b : Bytes}

/-- The bytes from a pointer on begin with the buffer. -/
def BeginsWith (b : Bytes) (src : Buffer) : Prop :=
  ∀ k < src.len.toNat, src.read k = .ok (b k)

theorem exists_beginsWith (src : Buffer) : ∃ b, BeginsWith b src := by
  refine ⟨fun k => if h : k < src.len.toNat then src.bytes ⟨k, h⟩ else 0, fun k hk => ?_⟩
  simp only [Buffer.read, dif_pos hk]

theorem read_outside {k : Nat} (hk : src.len.toNat ≤ k) : src.read k = .error k :=
  dif_neg (Nat.not_lt.mpr hk)

/-- A copy inside the buffer is a `memcpy`, whatever lies behind. -/
theorem memcpyFrom_inside (hb : BeginsWith b src) (hn : n ≤ src.len.toNat) :
    memcpyFrom dest off src n = .ok (memcpy dest off b n) := by
  induction n with
  | zero => rfl
  | succ n ih =>
      rw [memcpyFrom, ih (by omega), memcpy]
      simp only [bind, Except.bind, hb n (by omega)]
      rfl

/-- A longer copy reads the first byte behind the buffer. -/
theorem memcpyFrom_outside (hn : src.len.toNat < n) :
    memcpyFrom dest off src n = .error src.len.toNat := by
  induction n with
  | zero => exact absurd hn (Nat.not_lt_zero _)
  | succ n ih =>
      rw [memcpyFrom]
      rcases Nat.lt_succ_iff_lt_or_eq.mp hn with hlt | heq
      · rw [ih hlt]
        rfl
      · obtain ⟨b, hb⟩ := exists_beginsWith src
        rw [memcpyFrom_inside hb (le_of_eq heq.symm)]
        simp only [bind, Except.bind, read_outside (le_of_eq heq), heq]

end Copy

section Send

variable {host : Host} {destMac : MacAddress} {ethType : HalfWord} {payload : Buffer} {b : Bytes}

/-- **What the frame is built from.**  A payload that needs no padding is all that is
read; behind every other one a byte is read that does not belong to it. -/
theorem fillFrameFrom_eq (hb : BeginsWith b payload) (block : Bytes) :
    fillFrameFrom host destMac ethType payload block =
      if 46 ≤ payload.len.toNat then
        .ok (fillFrame host destMac ethType b payload.len block)
      else .error payload.len.toNat := by
  unfold fillFrameFrom
  dsimp only
  by_cases hlong : 46 ≤ payload.len.toNat
  · have hpad : lenPadding payload.len = 0 := by
      apply BitVec.eq_of_toNat_eq
      rw [toNat_lenPadding]
      exact Nat.sub_eq_zero_of_le hlong
    have hlen : (paddedLen payload.len).toNat ≤ payload.len.toNat := by
      rw [toNat_paddedLen]
      omega
    rw [if_pos hlong, memcpyFrom_inside hb hlen]
    simp [fillFrame, hpad, bind, Except.bind, pure, Except.pure]
  · have hlen : payload.len.toNat < (paddedLen payload.len).toNat := by
      rw [toNat_paddedLen]
      omega
    rw [if_neg hlong, memcpyFrom_outside hlen]
    rfl

/-- A call that reads only its payload sends what `ethernetSend` says. -/
theorem ethernetSendFrom_eq (hb : BeginsWith b payload) (block : Bytes) :
    ethernetSendFrom host destMac ethType payload block =
      if 46 ≤ payload.len.toNat then
        .ok (ethernetSend host destMac ethType b payload.len block)
      else .error payload.len.toNat := by
  rw [ethernetSendFrom, fillFrameFrom_eq hb]
  by_cases hlong : 46 ≤ payload.len.toNat
  · rw [if_pos hlong, if_pos hlong]
    rfl
  · rw [if_neg hlong, if_neg hlong]
    rfl

theorem readsOnlyPayload_iff (host : Host) (destMac : MacAddress) (ethType : HalfWord)
    (payload : Buffer) (block : Bytes) :
    ReadsOnlyPayload (ethernetSendFrom host destMac ethType payload block) ↔
      46 ≤ payload.len.toNat := by
  obtain ⟨b, hb⟩ := exists_beginsWith payload
  rw [ethernetSendFrom_eq hb, ReadsOnlyPayload]
  by_cases hlong : 46 ≤ payload.len.toNat
  · simp [hlong]
  · simp [hlong]

end Send

/-- **The payload of `ethernet_send`.**  For every caller, no byte outside the
payload is read exactly if the payload needs no padding; an ARP frame always
does. -/
theorem callers_read_payload_iff (host : Host) (block : Bytes) (caller : Caller) :
    (ReadsOnlyPayload (caller.send host block) ↔
      MINIMUM_PAYLOAD_LENGTH.toNat ≤ (caller.payload host).len.toNat) ∧
    ((∀ destMac payload, caller ≠ .ipv4Send destMac payload) →
      (caller.payload host).len.toNat = 28) := by
  cases caller with
  | arpSendRequest ip => exact ⟨readsOnlyPayload_iff _ _ _ _ _, fun _ => rfl⟩
  | arpHandleRequest frame => exact ⟨readsOnlyPayload_iff _ _ _ _ _, fun _ => rfl⟩
  | ipv4Send destMac payload =>
      exact ⟨readsOnlyPayload_iff _ _ _ _ _, fun h => absurd rfl (h destMac payload)⟩

/-- An ARP request: the byte behind its 28 bytes on the stack is read. -/
theorem arpRequest_reads_behind :
    ¬ ReadsOnlyPayload (Caller.send versatileHost (fun _ => 0) (.arpSendRequest 0x0A000202)) := by
  intro h
  exact absurd ((readsOnlyPayload_iff _ _ _ _ _).mp h) (by decide)

end Network
end Ninjastorms
