import Ninjastorms.Lib.Arm
import Ninjastorms.Lib.ByteMemory
import Ninjastorms.Types

/-!
# The start of the kernel

`kernel/boot/start.S`, instruction by instruction, up to the call of
`kernel_main`.  An init function is any change of the machine that keeps to the
calling convention (`InitFunction`); its call is one step.

The stack begins at `__bss_end`, so that the saved registers lie in the range
that the next loop clears.  `BootInv` describes the machine before every
instruction, with the number of instructions that are left;
`savesRegisters_iff` says when the registers survive nevertheless.
-/

namespace Ninjastorms
namespace Boot

open Lib.Arm Lib.ByteMemory

/-! ### The machine -/

/-- What the linker script fixes.  The array of the init functions and the range to
be cleared consist of words; the range has room for the three saved registers. -/
structure Layout where
  bssStart : Word
  bssEnd : Word
  initArrayStart : Word
  initArrayEnd : Word
  bssAligned : 4 ∣ bssStart.toNat ∧ 4 ∣ bssEnd.toNat
  bssRoom : bssStart.toNat + 12 ≤ bssEnd.toNat
  initAligned : 4 ∣ initArrayStart.toNat ∧ 4 ∣ initArrayEnd.toNat
  initOrder : initArrayStart.toNat ≤ initArrayEnd.toNat

/-- The registers that `start.S` uses, the zero flag, and the memory. -/
structure Core where
  r0 : Word
  r1 : Word
  r2 : Word
  sp : Word
  zero : Bool
  mem : Mem

/-- Which instruction is next.  The model ends at `callMain`, where the address of
`kernel_main` is loaded and called. -/
inductive Pc where
  | setSp
  | pushRegs
  | ldrBssStart
  | ldrBssEnd
  | movZero
  | bssCmp
  | bssBeq
  | bssStr
  | bssAdd
  | bssB
  | ldrInitStart
  | ldrInitEnd
  | initCmp
  | initBeq
  | initLdr
  | initPush
  | initBlx
  | initPop
  | initAdd
  | initB
  | popRegs
  | callMain
  deriving DecidableEq

structure Machine extends Core where
  pc : Pc

/-- The byte at `x` is on the stack: from the stack pointer on, below `__bss_end`. -/
def Layout.OnStack (L : Layout) (sp x : Word) : Prop :=
  offset sp x < offset sp L.bssEnd

/-- An init function: it returns with the stack pointer it was called with, and does
not write to the stack of its caller.  No two calls have the same `r0`, so that `run`
may stand for a function that reads more than is in `Core`. -/
structure InitFunction (L : Layout) where
  run : Core → Core
  spRestored : ∀ c, (run c).sp = c.sp
  frameKept : ∀ c x, L.OnStack c.sp x → (run c).mem x = c.mem x

/-- Word accesses. -/
def wordMemory : Memory Mem :=
  ⟨load32, store32⟩

/-- `push`. -/
def Core.push (words : List Word) (c : Core) : Core :=
  let sp := c.sp - BitVec.ofNat 32 (4 * words.length)
  { c with sp := sp, mem := storeWords wordMemory c.mem sp words }

section Step

variable (L : Layout) (functions : Word → InitFunction L)

/-- One instruction. -/
def step (s : Machine) : Machine :=
  match s.pc with
  -- ldr sp, =__bss_end
  | .setSp => { s with sp := L.bssEnd, pc := .pushRegs }
  -- push {r0-r2}
  | .pushRegs => { toCore := s.toCore.push [s.r0, s.r1, s.r2], pc := .ldrBssStart }
  -- ldr r0, =__bss_start; ldr r1, =__bss_end; mov r2, #0
  | .ldrBssStart => { s with r0 := L.bssStart, pc := .ldrBssEnd }
  | .ldrBssEnd => { s with r1 := L.bssEnd, pc := .movZero }
  | .movZero => { s with r2 := 0, pc := .bssCmp }
  -- bss_clear_loop
  | .bssCmp => { s with zero := s.r0 == s.r1, pc := .bssBeq }
  | .bssBeq => { s with pc := if s.zero then .ldrInitStart else .bssStr }
  | .bssStr => { s with mem := store32 s.mem s.r0 s.r2, pc := .bssAdd }
  | .bssAdd => { s with r0 := s.r0 + 4, pc := .bssB }
  | .bssB => { s with pc := .bssCmp }
  -- ldr r0, =__init_array_start; ldr r1, =__init_array_end
  | .ldrInitStart => { s with r0 := L.initArrayStart, pc := .ldrInitEnd }
  | .ldrInitEnd => { s with r1 := L.initArrayEnd, pc := .initCmp }
  -- init_array_loop
  | .initCmp => { s with zero := s.r0 == s.r1, pc := .initBeq }
  | .initBeq => { s with pc := if s.zero then .popRegs else .initLdr }
  | .initLdr => { s with r2 := load32 s.mem s.r0, pc := .initPush }
  | .initPush => { toCore := s.toCore.push [s.r0, s.r1], pc := .initBlx }
  | .initBlx => { toCore := (functions s.r2).run s.toCore, pc := .initPop }
  | .initPop =>
      { s with
        r0 := load32 s.mem s.sp
        r1 := load32 s.mem (s.sp + 4)
        sp := s.sp + 8
        pc := .initAdd }
  | .initAdd => { s with r0 := s.r0 + 4, pc := .initB }
  | .initB => { s with pc := .initCmp }
  -- pop {r0-r2}
  | .popRegs =>
      { s with
        r0 := load32 s.mem s.sp
        r1 := load32 s.mem (s.sp + 4)
        r2 := load32 s.mem (s.sp + 8)
        sp := s.sp + 12
        pc := .callMain }
  | .callMain => s

/-- The machine after some instructions from `Start`. -/
def boot (start : Core) (n : Nat) : Machine :=
  (step L functions)^[n] ⟨start, .setSp⟩

end Step

/-! ### What is promised -/

/-- The init functions begin: the loop over them does, or the first one is called. -/
def Machine.InitBegins (L : Layout) (s : Machine) : Prop :=
  s.pc = .ldrInitStart ∨ s.pc = .initBlx ∧ s.r0 = L.initArrayStart

/-- The words that have been pushed at `Start` are intact when they are popped,
`kernel_main` is called with these registers, and when the init functions begin,
the range is zero apart from the stack. -/
structure SavesRegisters (L : Layout) (functions : Word → InitFunction L) (start : Core) :
    Prop where
  intact : ∀ n, (boot L functions start n).pc = .popRegs →
    let s := boot L functions start n
    load32 s.mem s.sp = start.r0 ∧ load32 s.mem (s.sp + 4) = start.r1 ∧
      load32 s.mem (s.sp + 8) = start.r2
  restored : ∃ n, let s := boot L functions start n
    s.pc = .callMain ∧ s.r0 = start.r0 ∧ s.r1 = start.r1 ∧ s.r2 = start.r2
  cleared : ∀ n, (boot L functions start n).InitBegins L → ∀ x,
    offset L.bssStart x < offset L.bssStart L.bssEnd →
      ¬ L.OnStack (boot L functions start n).sp x → (boot L functions start n).mem x = 0

/-! ### Addresses -/

section Addresses

variable {L : Layout}

/-- The number of words in the range. -/
def Layout.bssWords (L : Layout) : Nat :=
  (L.bssEnd.toNat - L.bssStart.toNat) / 4

/-- The number of init functions. -/
def Layout.initWords (L : Layout) : Nat :=
  (L.initArrayEnd.toNat - L.initArrayStart.toNat) / 4

/-- Where the registers are saved. -/
def Layout.savedRegs (L : Layout) : Word :=
  L.bssEnd - 12

/-- A loop over the words from `a` to `b` ends after as many turns as there are
words. -/
theorem wordLoop {a b : Word} (halign : 4 ∣ a.toNat ∧ 4 ∣ b.toNat) (horder : a.toNat ≤ b.toNat)
    {k : Nat} (hk : k ≤ (b.toNat - a.toNat) / 4) :
    a + BitVec.ofNat 32 (4 * k) = b ↔ k = (b.toNat - a.toNat) / 4 := by
  have hb := b.isLt
  have hval : (a + BitVec.ofNat 32 (4 * k)).toNat = a.toNat + 4 * k := by
    rw [BitVec.toNat_add, BitVec.toNat_ofNat]
    omega
  rw [← BitVec.toNat_inj, hval]
  omega

theorem Layout.bssLoop (L : Layout) {k : Nat} (hk : k ≤ L.bssWords) :
    L.bssStart + BitVec.ofNat 32 (4 * k) = L.bssEnd ↔ k = L.bssWords :=
  wordLoop L.bssAligned (le_trans (Nat.le_add_right _ 12) L.bssRoom) hk

theorem Layout.initLoop (L : Layout) {k : Nat} (hk : k ≤ L.initWords) :
    L.initArrayStart + BitVec.ofNat 32 (4 * k) = L.initArrayEnd ↔ k = L.initWords :=
  wordLoop L.initAligned L.initOrder hk

theorem Layout.bssWords_bounds (L : Layout) : 3 ≤ L.bssWords ∧ 4 * L.bssWords < 2 ^ 32 := by
  have hroom := L.bssRoom
  have hend := L.bssEnd.isLt
  unfold Layout.bssWords
  omega

theorem Layout.bssEnd_eq (L : Layout) :
    L.bssEnd = L.bssStart + BitVec.ofNat 32 (4 * L.bssWords) :=
  ((L.bssLoop (Nat.le_refl _)).mpr rfl).symm

/-- The range has as many bytes as its words have. -/
theorem Layout.offset_bssEnd (L : Layout) : offset L.bssStart L.bssEnd = 4 * L.bssWords := by
  rw [L.bssEnd_eq, offset_add_ofNat _ L.bssWords_bounds.2]

/-- The saved registers lie in the range. -/
theorem Layout.savedRegs_eq (L : Layout) :
    L.savedRegs = L.bssStart + BitVec.ofNat 32 (4 * L.bssWords - 12) := by
  have hbounds := L.bssWords_bounds
  have hsum : 4 * L.bssWords = 4 * L.bssWords - 12 + 12 := by omega
  rw [Layout.savedRegs, L.bssEnd_eq, hsum, BitVec.ofNat_add, ← BitVec.add_assoc]
  exact BitVec.add_sub_cancel _ _

/-- During the call of an init function, the stack has 20 bytes. -/
theorem Layout.onStack_iff (L : Layout) (x : Word) :
    L.OnStack (L.savedRegs - 8) x ↔ offset (L.savedRegs - 8) x < 20 := by
  have hend : L.bssEnd = L.savedRegs - 8 + BitVec.ofNat 32 20 := by
    rw [Layout.savedRegs]
    bv_omega
  rw [Layout.OnStack]
  conv_lhs => rw [hend, offset_add_ofNat _ (by omega)]

end Addresses

/-! ### The memory -/

section Memory

variable {L : Layout} {m : Mem} {a x : Word}

/-- The first `n` bytes of the range are zero. -/
def Layout.Cleared (L : Layout) (m : Mem) (n : Nat) : Prop :=
  ∀ x, offset L.bssStart x < n → m x = 0

/-- So are the bytes in which the registers have been saved. -/
def Layout.SavedCleared (L : Layout) (m : Mem) : Prop :=
  ∀ x, offset L.savedRegs x < 12 → m x = 0

theorem load32_of_zero (h : ∀ x, offset a x < 4 → m x = 0) : load32 m a = 0 := by
  have hzero : load32 (fun _ => 0) a = 0 := by
    show (0 : BitVec 8) ++ (0 : BitVec 8) ++ (0 : BitVec 8) ++ (0 : BitVec 8) = (0 : Word)
    rfl
  rw [← hzero]
  exact load32_congr h

theorem Layout.Cleared.zero : L.Cleared m 0 :=
  fun _ hx => absurd hx (Nat.not_lt_zero _)

/-- One turn of the loop clears one word more. -/
theorem Layout.Cleared.store {k : Nat} (h : L.Cleared m (4 * k)) (hk : k < L.bssWords) :
    L.Cleared (store32 m (L.bssStart + BitVec.ofNat 32 (4 * k)) 0) (4 * (k + 1)) := by
  have hbounds := L.bssWords_bounds
  intro x hx
  have hword := offset_add_lt_iff L.bssStart x (k := 4 * k) (n := 4) (by omega)
  by_cases hin : offset (L.bssStart + BitVec.ofNat 32 (4 * k)) x < 4
  · rw [store32, writeBytes_inside hin]
    exact byteAt_zero _
  · rw [store32, writeBytes_outside hin]
    exact h x (by omega)

/-- The loop also clears the saved registers. -/
theorem Layout.Cleared.saved (h : L.Cleared m (4 * L.bssWords)) : L.SavedCleared m := by
  have hbounds := L.bssWords_bounds
  intro x hx
  rw [L.savedRegs_eq, offset_add_lt_iff L.bssStart x (by omega)] at hx
  exact h x (by omega)

theorem Layout.SavedCleared.load {k : Nat} (h : L.SavedCleared m) (hk : k + 4 ≤ 12) :
    load32 m (L.savedRegs + BitVec.ofNat 32 k) = 0 := by
  apply load32_of_zero
  intro x hx
  rw [offset_add_lt_iff L.savedRegs x (by omega)] at hx
  exact h x (by omega)

/-- `push` of two words: they are on top of the stack, and what is behind them is
untouched. -/
theorem push_two (c : Core) (v w : Word) :
    (c.push [v, w]).sp = c.sp - 8 ∧
    load32 (c.push [v, w]).mem (c.sp - 8) = v ∧
    load32 (c.push [v, w]).mem (c.sp - 8 + 4) = w ∧
    ∀ x, 8 ≤ offset (c.sp - 8) x → (c.push [v, w]).mem x = c.mem x := by
  have hmem : (c.push [v, w]).mem = store32 (store32 c.mem (c.sp - 8) v) (c.sp - 8 + 4) w := rfl
  refine ⟨rfl, ?_, ?_, ?_⟩
  · rw [hmem, load32_store32 (separate_words _)]
    exact load32_store32_self _ _ _
  · rw [hmem]
    exact load32_store32_self _ _ _
  · intro x hx
    have hsecond : ¬ offset (c.sp - 8 + 4) x < 4 := fun hin => by
      have hpart := (offset_add_lt_iff (c.sp - 8) x (k := 4) (by omega)).mp hin
      omega
    rw [hmem, store32, writeBytes_outside hsecond, store32, writeBytes_outside (by omega)]

end Memory

/-! ### The invariant -/

section Invariant

variable {L : Layout}

/-- The loop over the range: `r0` is at word `k`, and the words before `j` are clear. -/
structure Clearing (L : Layout) (k j : Nat) (c : Core) : Prop where
  sp : c.sp = L.savedRegs
  r0 : c.r0 = L.bssStart + BitVec.ofNat 32 (4 * k)
  r1 : c.r1 = L.bssEnd
  r2 : c.r2 = 0
  cleared : L.Cleared c.mem (4 * j)

/-- The saved registers are on top of the stack, and cleared. -/
structure Saved (L : Layout) (c : Core) : Prop where
  sp : c.sp = L.savedRegs
  saved : L.SavedCleared c.mem

theorem Saved.words {c : Core} (h : Saved L c) :
    load32 c.mem c.sp = 0 ∧ load32 c.mem (c.sp + 4) = 0 ∧ load32 c.mem (c.sp + 8) = 0 := by
  rw [h.sp]
  have hfst := h.saved.load (k := 0) (by omega)
  rw [BitVec.ofNat_eq_ofNat, BitVec.add_zero] at hfst
  exact ⟨hfst, h.saved.load (k := 4) (by omega), h.saved.load (k := 8) (by omega)⟩

/-- The loop over the init functions: `r0` is at word `k`. -/
structure Calling (L : Layout) (k : Nat) (c : Core) : Prop extends Saved L c where
  r0 : c.r0 = L.initArrayStart + BitVec.ofNat 32 (4 * k)
  r1 : c.r1 = L.initArrayEnd

/-- Before and after the call of an init function: the registers of the loop are on top
of the saved ones. -/
structure InCall (L : Layout) (k : Nat) (c : Core) : Prop where
  sp : c.sp = L.savedRegs - 8
  saved : L.SavedCleared c.mem
  r0 : load32 c.mem c.sp = L.initArrayStart + BitVec.ofNat 32 (4 * k)
  r1 : load32 c.mem (c.sp + 4) = L.initArrayEnd

/-- Before the first call the whole range is clear. -/
def Layout.FirstCall (L : Layout) (k : Nat) (c : Core) : Prop :=
  k = 0 → L.Cleared c.mem (4 * L.bssWords)

/-- The machine before each instruction, with the number of instructions that are left
until `callMain`. -/
def BootInv (L : Layout) (left : Nat) (s : Machine) : Prop :=
  let c := s.toCore
  match s.pc with
  | .setSp => left = 5 * L.bssWords + 8 * L.initWords + 12
  | .pushRegs => left = 5 * L.bssWords + 8 * L.initWords + 11 ∧ c.sp = L.bssEnd
  | .ldrBssStart => left = 5 * L.bssWords + 8 * L.initWords + 10 ∧ c.sp = L.savedRegs
  | .ldrBssEnd =>
      left = 5 * L.bssWords + 8 * L.initWords + 9 ∧ c.sp = L.savedRegs ∧ c.r0 = L.bssStart
  | .movZero =>
      left = 5 * L.bssWords + 8 * L.initWords + 8 ∧ c.sp = L.savedRegs ∧ c.r0 = L.bssStart ∧
        c.r1 = L.bssEnd
  | .bssCmp => ∃ k ≤ L.bssWords,
      left = 5 * (L.bssWords - k) + 8 * L.initWords + 7 ∧ Clearing L k k c
  | .bssBeq => ∃ k ≤ L.bssWords,
      left = 5 * (L.bssWords - k) + 8 * L.initWords + 6 ∧ Clearing L k k c ∧
        c.zero = decide (k = L.bssWords)
  | .bssStr => ∃ k < L.bssWords,
      left = 5 * (L.bssWords - k) + 8 * L.initWords + 5 ∧ Clearing L k k c
  | .bssAdd => ∃ k < L.bssWords,
      left = 5 * (L.bssWords - k) + 8 * L.initWords + 4 ∧ Clearing L k (k + 1) c
  | .bssB => ∃ k < L.bssWords,
      left = 5 * (L.bssWords - k) + 8 * L.initWords + 3 ∧ Clearing L (k + 1) (k + 1) c
  | .ldrInitStart =>
      left = 8 * L.initWords + 5 ∧ c.sp = L.savedRegs ∧ L.Cleared c.mem (4 * L.bssWords)
  | .ldrInitEnd =>
      left = 8 * L.initWords + 4 ∧ c.sp = L.savedRegs ∧ L.Cleared c.mem (4 * L.bssWords) ∧
        c.r0 = L.initArrayStart
  | .initCmp => ∃ k ≤ L.initWords,
      left = 8 * (L.initWords - k) + 3 ∧ Calling L k c ∧ L.FirstCall k c
  | .initBeq => ∃ k ≤ L.initWords,
      left = 8 * (L.initWords - k) + 2 ∧ Calling L k c ∧ L.FirstCall k c ∧
        c.zero = decide (k = L.initWords)
  | .initLdr => ∃ k < L.initWords,
      left = 8 * (L.initWords - k) + 1 ∧ Calling L k c ∧ L.FirstCall k c
  | .initPush => ∃ k < L.initWords,
      left = 8 * (L.initWords - k) ∧ Calling L k c ∧ L.FirstCall k c
  | .initBlx => ∃ k < L.initWords,
      left = 8 * (L.initWords - k) - 1 ∧ InCall L k c ∧
        c.r0 = L.initArrayStart + BitVec.ofNat 32 (4 * k) ∧
        (k = 0 → ∀ x, offset L.bssStart x < 4 * L.bssWords → ¬ L.OnStack c.sp x → c.mem x = 0)
  | .initPop => ∃ k < L.initWords, left = 8 * (L.initWords - k) - 2 ∧ InCall L k c
  | .initAdd => ∃ k < L.initWords, left = 8 * (L.initWords - k) - 3 ∧ Calling L k c
  | .initB => ∃ k < L.initWords, left = 8 * (L.initWords - k) - 4 ∧ Calling L (k + 1) c
  | .popRegs => left = 1 ∧ Saved L c
  | .callMain => left = 0 ∧ c.r0 = 0 ∧ c.r1 = 0 ∧ c.r2 = 0

theorem Clearing.zero_iff {k : Nat} {c : Core} (h : Clearing L k k c) (hk : k ≤ L.bssWords) :
    (c.r0 == c.r1) = decide (k = L.bssWords) := by
  rw [h.r0, h.r1, beq_eq_decide]
  exact decide_eq_decide.mpr (L.bssLoop hk)

theorem Calling.zero_iff {k : Nat} {c : Core} (h : Calling L k c) (hk : k ≤ L.initWords) :
    (c.r0 == c.r1) = decide (k = L.initWords) := by
  rw [h.r0, h.r1, beq_eq_decide]
  exact decide_eq_decide.mpr (L.initLoop hk)

/-- Before the call, the registers of the loop are pushed below the saved ones. -/
theorem Calling.push {k : Nat} {c : Core} (h : Calling L k c) :
    InCall L k (c.push [c.r0, c.r1]) := by
  obtain ⟨hsp, hfst, hsnd, hkeep⟩ := push_two c c.r0 c.r1
  have hframe : L.savedRegs = L.savedRegs - 8 + BitVec.ofNat 32 8 := by bv_omega
  rw [h.sp] at hsp hfst hsnd hkeep
  constructor
  · exact hsp
  · intro x hx
    have hbehind : 8 ≤ offset (L.savedRegs - 8) x := by
      rw [hframe, offset_add_lt_iff _ x (by omega)] at hx
      exact hx.1
    exact (hkeep x hbehind).trans (h.saved x hx)
  · rw [hsp, hfst, h.r0]
  · rw [hsp, hsnd, h.r1]

/-- What this push writes is on the stack. -/
theorem Calling.push_outside {k : Nat} {c : Core} {x : Word} (h : Calling L k c)
    (hstack : ¬ L.OnStack (c.push [c.r0, c.r1]).sp x) :
    (c.push [c.r0, c.r1]).mem x = c.mem x := by
  obtain ⟨hsp, -, -, hkeep⟩ := push_two c c.r0 c.r1
  rw [hsp, h.sp, L.onStack_iff] at hstack
  rw [h.sp] at hkeep
  exact hkeep x (by omega)

/-- The call leaves the stack of its caller alone. -/
theorem InCall.call {k : Nat} {c : Core} (h : InCall L k c) (f : InitFunction L) :
    InCall L k (f.run c) := by
  have hkeep : ∀ x, offset c.sp x < 20 → (f.run c).mem x = c.mem x := fun x hx => by
    rw [h.sp, ← L.onStack_iff] at hx
    exact f.frameKept c x (h.sp ▸ hx)
  have hsaved : L.savedRegs = c.sp + BitVec.ofNat 32 8 := by
    rw [h.sp]
    bv_omega
  constructor
  · exact (f.spRestored c).trans h.sp
  · intro x hx
    have hstack : offset c.sp x < 20 := by
      rw [hsaved, offset_add_lt_iff _ x (by omega)] at hx
      exact hx.2
    exact (hkeep x hstack).trans (h.saved x hx)
  · rw [f.spRestored, ← h.r0]
    exact load32_congr fun x hx => hkeep x (by omega)
  · rw [f.spRestored, ← h.r1]
    refine load32_congr fun x hx => hkeep x ?_
    have hpart := (offset_add_lt_iff c.sp x (k := 4) (by omega)).mp hx
    omega

/-- One word further on. -/
theorem next_word (a : Word) (k : Nat) :
    a + BitVec.ofNat 32 (4 * k) + 4 = a + BitVec.ofNat 32 (4 * (k + 1)) := by
  rw [Nat.mul_succ, BitVec.ofNat_add, ← BitVec.add_assoc]
  rfl

/-- After the call, the registers of the loop are back. -/
theorem InCall.pop {k : Nat} {c : Core} (h : InCall L k c) :
    Calling L k { c with
      r0 := load32 c.mem c.sp, r1 := load32 c.mem (c.sp + 4), sp := c.sp + 8 } where
  sp := by
    show c.sp + 8 = L.savedRegs
    rw [h.sp, BitVec.sub_add_cancel]
  saved := h.saved
  r0 := h.r0
  r1 := h.r1

/-- The loops end where the addresses were equal. -/
theorem step_bssBeq (functions : Word → InitFunction L) {c : Core} {equal : Prop}
    [Decidable equal] (hzero : c.zero = decide equal) :
    step L functions ⟨c, .bssBeq⟩ = ⟨c, if equal then .ldrInitStart else .bssStr⟩ := by
  simp [step, hzero]

theorem step_initBeq (functions : Word → InitFunction L) {c : Core} {equal : Prop}
    [Decidable equal] (hzero : c.zero = decide equal) :
    step L functions ⟨c, .initBeq⟩ = ⟨c, if equal then .popRegs else .initLdr⟩ := by
  simp [step, hzero]

/-- **One instruction.** -/
theorem bootInv_step (functions : Word → InitFunction L) {left : Nat} {s : Machine}
    (h : BootInv L left s) : BootInv L (left - 1) (step L functions s) := by
  obtain ⟨c, pc⟩ := s
  cases pc with
  | setSp =>
      simp only [BootInv] at h
      exact ⟨by omega, rfl⟩
  | pushRegs =>
      obtain ⟨hleft, hsp⟩ := h
      refine ⟨by omega, ?_⟩
      show c.sp - 12 = L.savedRegs
      rw [hsp, Layout.savedRegs]
  | ldrBssStart =>
      obtain ⟨hleft, hsp⟩ := h
      exact ⟨by omega, hsp, rfl⟩
  | ldrBssEnd =>
      obtain ⟨hleft, hsp, hr0⟩ := h
      exact ⟨by omega, hsp, hr0, rfl⟩
  | movZero =>
      obtain ⟨hleft, hsp, hr0, hr1⟩ := h
      refine ⟨0, Nat.zero_le _, by omega, hsp, ?_, hr1, rfl, Layout.Cleared.zero⟩
      exact hr0.trans (BitVec.add_zero _).symm
  | bssCmp =>
      obtain ⟨k, hk, hleft, hloop⟩ := h
      exact ⟨k, hk, by omega, ⟨hloop.sp, hloop.r0, hloop.r1, hloop.r2, hloop.cleared⟩,
        hloop.zero_iff hk⟩
  | bssBeq =>
      obtain ⟨k, hk, hleft, hloop, hzero⟩ := h
      rcases hk.eq_or_lt with rfl | hlt
      · rw [step_bssBeq functions hzero, if_pos rfl]
        exact ⟨by omega, hloop.sp, hloop.cleared⟩
      · rw [step_bssBeq functions hzero, if_neg hlt.ne]
        exact ⟨k, hlt, by omega, hloop⟩
  | bssStr =>
      obtain ⟨k, hk, hleft, hloop⟩ := h
      refine ⟨k, hk, by omega, hloop.sp, hloop.r0, hloop.r1, hloop.r2, ?_⟩
      show L.Cleared (store32 c.mem c.r0 c.r2) _
      rw [hloop.r0, hloop.r2]
      exact hloop.cleared.store hk
  | bssAdd =>
      obtain ⟨k, hk, hleft, hloop⟩ := h
      refine ⟨k, hk, by omega, hloop.sp, ?_, hloop.r1, hloop.r2, hloop.cleared⟩
      show c.r0 + 4 = _
      rw [hloop.r0, next_word]
  | bssB =>
      obtain ⟨k, hk, hleft, hloop⟩ := h
      exact ⟨k + 1, hk, by omega, hloop⟩
  | ldrInitStart =>
      obtain ⟨hleft, hsp, hcleared⟩ := h
      exact ⟨by omega, hsp, hcleared, rfl⟩
  | ldrInitEnd =>
      obtain ⟨hleft, hsp, hcleared, hr0⟩ := h
      refine ⟨0, Nat.zero_le _, by omega, ⟨⟨hsp, hcleared.saved⟩, ?_, rfl⟩, fun _ => hcleared⟩
      exact hr0.trans (BitVec.add_zero _).symm
  | initCmp =>
      obtain ⟨k, hk, hleft, hloop, hfirst⟩ := h
      exact ⟨k, hk, by omega, ⟨⟨hloop.sp, hloop.saved⟩, hloop.r0, hloop.r1⟩, hfirst,
        hloop.zero_iff hk⟩
  | initBeq =>
      obtain ⟨k, hk, hleft, hloop, hfirst, hzero⟩ := h
      rcases hk.eq_or_lt with rfl | hlt
      · rw [step_initBeq functions hzero, if_pos rfl]
        exact ⟨by omega, hloop.toSaved⟩
      · rw [step_initBeq functions hzero, if_neg hlt.ne]
        exact ⟨k, hlt, by omega, hloop, hfirst⟩
  | initLdr =>
      obtain ⟨k, hk, hleft, hloop, hfirst⟩ := h
      exact ⟨k, hk, by omega, ⟨⟨hloop.sp, hloop.saved⟩, hloop.r0, hloop.r1⟩, hfirst⟩
  | initPush =>
      obtain ⟨k, hk, hleft, hloop, hfirst⟩ := h
      exact ⟨k, hk, by omega, hloop.push, hloop.r0, fun hk0 x hin hstack =>
        (hloop.push_outside hstack).trans (hfirst hk0 x hin)⟩
  | initBlx =>
      obtain ⟨k, hk, hleft, hcall, -⟩ := h
      exact ⟨k, hk, by omega, hcall.call (functions c.r2)⟩
  | initPop =>
      obtain ⟨k, hk, hleft, hcall⟩ := h
      exact ⟨k, hk, by omega, hcall.pop⟩
  | initAdd =>
      obtain ⟨k, hk, hleft, hloop⟩ := h
      refine ⟨k, hk, by omega, ⟨hloop.sp, hloop.saved⟩, ?_, hloop.r1⟩
      show c.r0 + 4 = _
      rw [hloop.r0, next_word]
  | initB =>
      obtain ⟨k, hk, hleft, hloop⟩ := h
      exact ⟨k + 1, hk, by omega, hloop, fun hzero => absurd hzero (Nat.succ_ne_zero k)⟩
  | popRegs =>
      obtain ⟨hleft, hsaved⟩ := h
      obtain ⟨hr0, hr1, hr2⟩ := hsaved.words
      exact ⟨by omega, hr0, hr1, hr2⟩
  | callMain =>
      obtain ⟨hleft, hregs⟩ := h
      exact ⟨by omega, hregs⟩

/-- **Every point of the run.** -/
theorem bootInv_boot (functions : Word → InitFunction L) (start : Core) (n : Nat) :
    BootInv L (5 * L.bssWords + 8 * L.initWords + 12 - n) (boot L functions start n) := by
  induction n with
  | zero => rfl
  | succ n ih =>
      rw [boot, Function.iterate_succ_apply']
      exact bootInv_step functions ih

/-- Only where `kernel_main` is called no instruction is left. -/
theorem pc_of_bootInv_zero {s : Machine} (h : BootInv L 0 s) : s.pc = .callMain := by
  obtain ⟨c, pc⟩ := s
  cases pc with
  | callMain => rfl
  | setSp =>
      have hleft : 0 = 5 * L.bssWords + 8 * L.initWords + 12 := h
      omega
  | bssCmp | bssBeq | bssStr | bssAdd | bssB | initCmp | initBeq | initLdr | initPush | initBlx
    | initPop | initAdd | initB =>
      obtain ⟨k, hk, hleft⟩ := h
      omega
  | _ =>
      have hleft := h.1
      omega

/-- The loops end, and `kernel_main` is called. -/
theorem boot_ends (functions : Word → InitFunction L) (start : Core) :
    ∃ n, (boot L functions start n).pc = .callMain := by
  have hinv := bootInv_boot functions start (5 * L.bssWords + 8 * L.initWords + 12)
  rw [Nat.sub_self] at hinv
  exact ⟨_, pc_of_bootInv_zero hinv⟩

theorem regs_of_callMain {functions : Word → InitFunction L} {start : Core} {n : Nat}
    (hpc : (boot L functions start n).pc = .callMain) :
    (boot L functions start n).r0 = 0 ∧ (boot L functions start n).r1 = 0 ∧
      (boot L functions start n).r2 = 0 := by
  have hinv := bootInv_boot functions start n
  rw [BootInv, hpc] at hinv
  exact hinv.2

theorem words_of_popRegs {functions : Word → InitFunction L} {start : Core} {n : Nat}
    (hpc : (boot L functions start n).pc = .popRegs) :
    load32 (boot L functions start n).mem (boot L functions start n).sp = 0 ∧
      load32 (boot L functions start n).mem ((boot L functions start n).sp + 4) = 0 ∧
      load32 (boot L functions start n).mem ((boot L functions start n).sp + 8) = 0 := by
  have hinv := bootInv_boot functions start n
  rw [BootInv, hpc] at hinv
  exact hinv.2.words

/-- The range is clear, apart from the stack, when the init functions begin. -/
theorem cleared_of_initBegins {functions : Word → InitFunction L} {start : Core} {n : Nat}
    {x : Word} (hbegins : (boot L functions start n).InitBegins L)
    (hx : offset L.bssStart x < offset L.bssStart L.bssEnd)
    (hstack : ¬ L.OnStack (boot L functions start n).sp x) :
    (boot L functions start n).mem x = 0 := by
  have hinv := bootInv_boot functions start n
  rw [L.offset_bssEnd] at hx
  rcases hbegins with hpc | ⟨hpc, hfirst⟩
  · rw [BootInv, hpc] at hinv
    exact hinv.2.2 x hx
  · rw [BootInv, hpc] at hinv
    obtain ⟨k, hk, -, -, hr0, hcleared⟩ := hinv
    have hzero : k = 0 := by
      have hends := L.initArrayEnd.isLt
      have hoff := offset_add_ofNat L.initArrayStart (k := 4 * k) (by
        unfold Layout.initWords at hk
        omega)
      rw [← hr0, hfirst, offset_self] at hoff
      omega
    exact hcleared hzero x hx hstack

end Invariant

/-- **The registers for `kernel_main`.**  For every range, all init functions that keep
to the calling convention, and all registers and memory at `Start`: what has been
saved is intact, and restored, exactly if it is zero. -/
theorem savesRegisters_iff (L : Layout) (functions : Word → InitFunction L) (start : Core) :
    SavesRegisters L functions start ↔ start.r0 = 0 ∧ start.r1 = 0 ∧ start.r2 = 0 := by
  constructor
  · intro h
    obtain ⟨n, hpc, hr0, hr1, hr2⟩ := h.restored
    obtain ⟨hz0, hz1, hz2⟩ := regs_of_callMain hpc
    exact ⟨hr0.symm.trans hz0, hr1.symm.trans hz1, hr2.symm.trans hz2⟩
  · rintro ⟨hr0, hr1, hr2⟩
    constructor
    · intro n hpc
      obtain ⟨hw0, hw1, hw2⟩ := words_of_popRegs hpc
      exact ⟨hw0.trans hr0.symm, hw1.trans hr1.symm, hw2.trans hr2.symm⟩
    · obtain ⟨n, hpc⟩ := boot_ends functions start
      obtain ⟨hz0, hz1, hz2⟩ := regs_of_callMain hpc
      exact ⟨n, hpc, hz0.trans hr0.symm, hz1.trans hr1.symm, hz2.trans hr2.symm⟩
    · exact fun n hbegins x hx hstack => cleared_of_initBegins hbegins hx hstack

/-- A range of 64 bytes, and no init functions. -/
def smallLayout : Layout where
  bssStart := 0x20000
  bssEnd := 0x20040
  initArrayStart := 0x1F000
  initArrayEnd := 0x1F000
  bssAligned := by decide
  bssRoom := by decide
  initAligned := by decide
  initOrder := by decide

/-- What a boot loader passes: a machine number and the address of a list. -/
def loaderRegisters : Core where
  r0 := 0
  r1 := 0x183
  r2 := 0x100
  sp := 0
  zero := false
  mem := fun _ => 0

/-- The machine number is lost. -/
theorem machineNumber_not_saved :
    ¬ SavesRegisters smallLayout (fun _ => ⟨id, fun _ => rfl, fun _ _ _ => rfl⟩)
      loaderRegisters := by
  intro h
  obtain ⟨n, hpc, -, hr1, -⟩ := h.restored
  have hlost : loaderRegisters.r1 = 0 := hr1.symm.trans (regs_of_callMain hpc).2.1
  exact absurd hlost (by decide)

end Boot
end Ninjastorms
