import Ninjastorms.Boot

/-!
# The calls of the start code

The whole of `kernel/boot/start.S`: the part that `Boot` covers, the call of
`kernel_main`, the loop over `.fini_array`, and the halt.  `calls` lists the
addresses that are called.

`boot_calls_in_order` says that these are the entries of `.init_array`,
`kernel_main` and the entries of `.fini_array`, each once and in this order, and that
the machine halts behind them; the functions return, and leave the two arrays alone.
-/

namespace Ninjastorms
namespace Boot

open Lib.Arm Lib.ByteMemory

/-! ### The machine -/

/-- What the linker script fixes besides: the arrays are below the range that is
cleared, which has room for the stack of `start.S`. -/
structure BootLayout extends Layout where
  finiArrayStart : Word
  finiArrayEnd : Word
  kernelMain : Word
  finiAligned : 4 ∣ finiArrayStart.toNat ∧ 4 ∣ finiArrayEnd.toNat
  finiOrder : finiArrayStart.toNat ≤ finiArrayEnd.toNat
  arraysBelow : initArrayEnd.toNat ≤ bssStart.toNat ∧ finiArrayEnd.toNat ≤ bssStart.toNat
  stackRoom : bssStart.toNat + 20 ≤ bssEnd.toNat

/-- Which instruction is next; `before` is the part up to the call of `kernel_main`. -/
inductive WholePc where
  | before (pc : Pc)
  | ldrFiniStart
  | ldrFiniEnd
  | finiCmp
  | finiBeq
  | finiLdr
  | finiPush
  | finiBlx
  | finiPop
  | finiAdd
  | finiB
  | halt

structure WholeMachine extends Core where
  pc : WholePc
  calls : List Word

section Step

variable (L : BootLayout) (functions : Word → InitFunction L.toLayout)

/-- One instruction. -/
def wholeStep (s : WholeMachine) : WholeMachine :=
  match s.pc with
  -- ldr r3, =kernel_main; blx r3
  | .before .callMain =>
      { toCore := (functions L.kernelMain).run s.toCore
        pc := .ldrFiniStart
        calls := s.calls ++ [L.kernelMain] }
  | .before pc =>
      let s' := step L.toLayout functions ⟨s.toCore, pc⟩
      { toCore := s'.toCore
        pc := .before s'.pc
        calls := s.calls ++ if pc = .initBlx then [s.r2] else [] }
  -- ldr r0, =__fini_array_start; ldr r1, =__fini_array_end
  | .ldrFiniStart => { s with r0 := L.finiArrayStart, pc := .ldrFiniEnd }
  | .ldrFiniEnd => { s with r1 := L.finiArrayEnd, pc := .finiCmp }
  -- fini_array_loop
  | .finiCmp => { s with zero := s.r0 == s.r1, pc := .finiBeq }
  | .finiBeq => { s with pc := if s.zero then .halt else .finiLdr }
  | .finiLdr => { s with r2 := load32 s.mem s.r0, pc := .finiPush }
  | .finiPush => { s with toCore := s.toCore.push [s.r0, s.r1], pc := .finiBlx }
  | .finiBlx =>
      { toCore := (functions s.r2).run s.toCore
        pc := .finiPop
        calls := s.calls ++ [s.r2] }
  | .finiPop =>
      { s with
        r0 := load32 s.mem s.sp
        r1 := load32 s.mem (s.sp + 4)
        sp := s.sp + 8
        pc := .finiAdd }
  | .finiAdd => { s with r0 := s.r0 + 4, pc := .finiB }
  | .finiB => { s with pc := .finiCmp }
  | .halt => s

/-- The machine after some instructions from `Start`. -/
def wholeBoot (start : Core) (n : Nat) : WholeMachine :=
  (wholeStep L functions)^[n] ⟨start, .before .setSp, []⟩

end Step

/-! ### What is promised -/

/-- The number of fini functions. -/
def BootLayout.finiWords (L : BootLayout) : Nat :=
  (L.finiArrayEnd.toNat - L.finiArrayStart.toNat) / 4

/-- The words of an array. -/
def entries (mem : Mem) (a : Word) (n : Nat) : List Word :=
  (List.range n).map fun k => load32 mem (a + BitVec.ofNat 32 (4 * k))

def BootLayout.initEntries (L : BootLayout) (mem : Mem) : List Word :=
  entries mem L.initArrayStart L.initWords

def BootLayout.finiEntries (L : BootLayout) (mem : Mem) : List Word :=
  entries mem L.finiArrayStart L.finiWords

/-- All that is to be called. -/
def BootLayout.allCalls (L : BootLayout) (mem : Mem) : List Word :=
  L.initEntries mem ++ L.kernelMain :: L.finiEntries mem

/-- The byte at `x` belongs to one of the two arrays. -/
def BootLayout.InArrays (L : BootLayout) (x : Word) : Prop :=
  offset L.initArrayStart x < 4 * L.initWords ∨ offset L.finiArrayStart x < 4 * L.finiWords

/-- The functions leave the arrays alone. -/
def KeepsArrays (L : BootLayout) (functions : Word → InitFunction L.toLayout) : Prop :=
  ∀ f c x, L.InArrays x → ((functions f).run c).mem x = c.mem x

/-! ### The arrays stay as they are -/

section Arrays

variable {L : BootLayout} {functions : Word → InitFunction L.toLayout} {x : Word}

theorem toNat_of_offset_lt {a : Word} {n : Nat} (hx : offset a x < n) (hn : a.toNat + n ≤ 2 ^ 32) :
    x.toNat = a.toNat + offset a x := by
  have hsum := congrArg BitVec.toNat (add_offset a x)
  rw [BitVec.toNat_add, BitVec.toNat_ofNat] at hsum
  omega

theorem BootLayout.InArrays.lt (h : L.InArrays x) : x.toNat < L.bssStart.toNat := by
  have hinit := L.arraysBelow.1
  have hfini := L.arraysBelow.2
  have hinitOrder := L.initOrder
  have hfiniOrder := L.finiOrder
  have hbss := L.bssStart.isLt
  rcases h with hin | hin
  · unfold Layout.initWords at hin
    have hval := toNat_of_offset_lt hin (by omega)
    omega
  · unfold BootLayout.finiWords at hin
    have hval := toNat_of_offset_lt hin (by omega)
    omega

/-- They are apart from everything behind them. -/
theorem BootLayout.InArrays.outside (h : L.InArrays x) {a : Word} {n : Nat}
    (ha : L.bssStart.toNat ≤ a.toNat) (hn : a.toNat + n ≤ 2 ^ 32) : ¬ offset a x < n := by
  intro hin
  have hval := toNat_of_offset_lt hin hn
  have hlt := h.lt
  omega

/-- A stack pointer in the stack of `start.S`. -/
theorem BootLayout.toNat_stack (L : BootLayout) {k : Nat} (hk : k ≤ 20) :
    (L.bssEnd - BitVec.ofNat 32 k).toNat = L.bssEnd.toNat - k := by
  have hroom := L.stackRoom
  have hend := L.bssEnd.isLt
  rw [BitVec.toNat_sub, BitVec.toNat_ofNat]
  omega

theorem BootLayout.InArrays.notOnStack (h : L.InArrays x) {k : Nat} (hk : k ≤ 20) :
    ¬ offset (L.bssEnd - BitVec.ofNat 32 k) x < k := by
  have hroom := L.stackRoom
  have hend := L.bssEnd.isLt
  have hval := L.toNat_stack hk
  exact h.outside (by omega) (by omega)

theorem storeWords_outside (words : List Word) (m : Mem) (a : Word)
    (hlen : 4 * words.length ≤ 2 ^ 32) (hx : ¬ offset a x < 4 * words.length) :
    storeWords wordMemory m a words x = m x := by
  induction words generalizing m a with
  | nil => rfl
  | cons w words ih =>
      rw [List.length_cons] at hlen hx
      have hrest : ¬ offset (a + 4) x < 4 * words.length := fun hin => by
        have hpart := (offset_add_lt_iff a x (k := 4) (by omega)).mp hin
        omega
      rw [storeWords, ih _ _ (by omega) hrest]
      exact store32_outside (by omega)

/-- What is pushed lies on the stack of `start.S`. -/
theorem push_keeps_arrays {c : Core} {words : List Word} {k : Nat}
    (hsp : c.sp - BitVec.ofNat 32 (4 * words.length) = L.bssEnd - BitVec.ofNat 32 k)
    (hk : k ≤ 20) (hlen : 4 * words.length ≤ k) (hx : L.InArrays x) :
    (c.push words).mem x = c.mem x := by
  refine storeWords_outside words c.mem _ (by omega) fun hin => hx.notOnStack hk ?_
  rw [hsp] at hin
  omega

/-- **The part that `Boot` covers.** -/
theorem step_keeps_arrays (hkeep : KeepsArrays L functions) {left : Nat} {s : Machine}
    (h : BootInv L.toLayout left s) (hx : L.InArrays x) :
    (step L.toLayout functions s).mem x = s.mem x := by
  obtain ⟨c, pc⟩ := s
  have hsaved : L.savedRegs = L.bssEnd - BitVec.ofNat 32 12 := rfl
  cases pc with
  | pushRegs =>
      obtain ⟨-, hsp⟩ := h
      exact push_keeps_arrays (k := 12) (by rw [hsp]; rfl) (by omega) (Nat.le_refl 12) hx
  | bssStr =>
      obtain ⟨k, hk, -, hloop⟩ := h
      have hroom := L.bssRoom
      have hend := L.bssEnd.isLt
      have hin : ¬ offset c.r0 x < 4 := by
        rw [hloop.r0]
        unfold Layout.bssWords at hk
        have hval : (L.bssStart + BitVec.ofNat 32 (4 * k)).toNat = L.bssStart.toNat + 4 * k := by
          rw [BitVec.toNat_add, BitVec.toNat_ofNat]
          omega
        exact hx.outside (by omega) (by omega)
      exact store32_outside hin
  | initPush =>
      obtain ⟨k, hk, -, hloop, -⟩ := h
      refine push_keeps_arrays (k := 20) ?_ (by omega) (show 8 ≤ 20 by omega) hx
      rw [hloop.sp, hsaved]
      show L.bssEnd - 12 - 8 = L.bssEnd - 20
      bv_omega
  | initBlx => exact hkeep c.r2 c x hx
  | _ => rfl

end Arrays

/-! ### The invariant -/

section Invariant

variable {L : BootLayout} {functions : Word → InitFunction L.toLayout} {mem : Mem}

/-- How many init functions have still to be called. -/
def toCome (L : BootLayout) (left : Nat) : Pc → Nat
  | .initBlx => left / 8 + 1
  | .initCmp | .initBeq | .initLdr | .initPush | .initPop | .initAdd | .initB | .popRegs
    | .callMain => left / 8
  | _ => L.initWords

/-- How many there are. -/
theorem toCome_le {left : Nat} {s : Machine} (h : BootInv L.toLayout left s) :
    toCome L left s.pc ≤ L.initWords := by
  obtain ⟨c, pc⟩ := s
  cases pc with
  | initCmp | initBeq | initLdr | initPush | initBlx | initPop | initAdd | initB =>
      obtain ⟨k, hk, hleft, -⟩ := h
      simp only [toCome]
      omega
  | popRegs | callMain =>
      have hleft := h.1
      simp only [toCome]
      omega
  | _ => exact Nat.le_refl _

/-- A function more has been called when its call is done. -/
theorem toCome_step {left : Nat} {s : Machine} (h : BootInv L.toLayout left s) :
    toCome L (left - 1) (step L.toLayout functions s).pc =
      toCome L left s.pc - if s.pc = .initBlx then 1 else 0 := by
  obtain ⟨c, pc⟩ := s
  cases pc with
  | bssBeq =>
      obtain ⟨k, hk, hleft, -, hzero⟩ := h
      rw [step_bssBeq functions hzero]
      split <;> rfl
  | initBeq =>
      obtain ⟨k, hk, hleft, -, -, hzero⟩ := h
      rw [step_initBeq functions hzero]
      split <;> simp only [toCome] <;> simp <;> omega
  | initCmp | initLdr | initPush | initBlx | initPop | initAdd | initB =>
      obtain ⟨k, hk, hleft, -⟩ := h
      simp only [toCome, step]
      simp
      omega
  | popRegs | callMain =>
      have hleft := h.1
      simp only [toCome, step]
      simp
      omega
  | ldrInitEnd =>
      have hleft := h.1
      simp only [toCome, step]
      simp
      omega
  | _ => rfl

@[simp] theorem length_entries (mem : Mem) (a : Word) (n : Nat) :
    (entries mem a n).length = n := by
  simp [entries]

theorem getElem?_entries (mem : Mem) (a : Word) {n k : Nat} (hk : k < n) :
    (entries mem a n)[k]? = some (load32 mem (a + BitVec.ofNat 32 (4 * k))) := by
  simp [entries, hk]

/-- The arrays are as they were at `Start`. -/
def Kept (L : BootLayout) (mem : Mem) (c : Core) : Prop :=
  ∀ x, L.InArrays x → c.mem x = mem x

/-- The word that a loop loads. -/
theorem Kept.load {c : Core} (h : Kept L mem c) {a : Word} {n k : Nat} (hk : k < n)
    (hn : 4 * n ≤ 2 ^ 32) (hin : ∀ x, offset a x < 4 * n → L.InArrays x) :
    (entries mem a n)[k]? = some (load32 c.mem (a + BitVec.ofNat 32 (4 * k))) := by
  rw [getElem?_entries mem a hk]
  refine congrArg some (load32_congr fun x hx => (h x (hin x ?_)).symm)
  rw [offset_add_lt_iff a x (by omega)] at hx
  omega

theorem BootLayout.words_lt (L : BootLayout) :
    4 * L.initWords ≤ 2 ^ 32 ∧ 4 * L.finiWords ≤ 2 ^ 32 := by
  have hinit := L.initArrayEnd.isLt
  have hfini := L.finiArrayEnd.isLt
  unfold Layout.initWords BootLayout.finiWords
  omega

/-- Before each instruction of the part that `Boot` covers: the functions that have been
called, and the one that has been loaded. -/
structure BeforeInv (L : BootLayout) (mem : Mem) (left : Nat) (pc : Pc) (s : WholeMachine) :
    Prop where
  boot : BootInv L.toLayout left ⟨s.toCore, pc⟩
  calls : s.calls = (L.initEntries mem).take (L.initWords - toCome L left pc)
  loaded : pc = .initPush ∨ pc = .initBlx →
    (L.initEntries mem)[L.initWords - toCome L left pc]? = some s.r2
  sp : pc = .callMain → s.sp = L.bssEnd

/-- The function of the next entry has been called. -/
theorem take_entries_succ {list calls : List Word} {k : Nat} {w : Word}
    (hcalls : calls = list.take k) (hw : list[k]? = some w) : calls ++ [w] = list.take (k + 1) := by
  rw [List.take_add_one, hw, hcalls]
  rfl

theorem wholeStep_before {pc : Pc} (hnot : pc ≠ .callMain) (c : Core) (calls : List Word) :
    wholeStep L functions ⟨c, .before pc, calls⟩ =
      { toCore := (step L.toLayout functions ⟨c, pc⟩).toCore
        pc := .before (step L.toLayout functions ⟨c, pc⟩).pc
        calls := calls ++ if pc = .initBlx then [c.r2] else [] } := by
  cases pc with
  | callMain => exact absurd rfl hnot
  | _ => rfl

theorem BeforeInv.step {left : Nat} {pc : Pc} {c : Core} {calls : List Word}
    (h : BeforeInv L mem left pc ⟨c, .before pc, calls⟩) (hkept : Kept L mem c)
    (hnot : pc ≠ .callMain) :
    BeforeInv L mem (left - 1) (Boot.step L.toLayout functions ⟨c, pc⟩).pc
      (wholeStep L functions ⟨c, .before pc, calls⟩) := by
  have hcount : toCome L (left - 1) (Boot.step L.toLayout functions ⟨c, pc⟩).pc =
      toCome L left pc - if pc = .initBlx then 1 else 0 := toCome_step h.boot
  have hle := toCome_le h.boot
  rw [wholeStep_before hnot]
  refine ⟨bootInv_step functions h.boot, ?_, ?_, ?_⟩
  · rw [hcount]
    by_cases hblx : pc = .initBlx
    · subst hblx
      have hentry := take_entries_succ h.calls (h.loaded (Or.inr rfl))
      have hpos : 1 ≤ toCome L left .initBlx := Nat.le_add_left 1 _
      have hnext : L.initWords - toCome L left .initBlx + 1 =
          L.initWords - (toCome L left .initBlx - 1) := by
        simp only at hle
        omega
      simp only [if_true]
      rw [← hnext]
      exact hentry
    · simp only [if_neg hblx, List.append_nil, Nat.sub_zero]
      exact h.calls
  · rw [hcount]
    cases pc with
    | initLdr =>
        intro _
        obtain ⟨k, hk, hleft, hloop, -⟩ := h.boot
        have hindex : L.initWords - toCome L left .initLdr = k := by
          simp only [toCome]
          omega
        have hentry := hkept.load hk L.words_lt.1 fun x hx => Or.inl hx
        show (L.initEntries mem)[L.initWords - toCome L left .initLdr]? = some (load32 c.mem c.r0)
        rw [hindex, hloop.r0]
        exact hentry
    | initPush => exact fun _ => h.loaded (Or.inl rfl)
    | bssBeq =>
        obtain ⟨k, hk, hleft, -, hzero⟩ := h.boot
        rw [step_bssBeq functions hzero]
        split <;> simp
    | initBeq =>
        obtain ⟨k, hk, hleft, -, -, hzero⟩ := h.boot
        rw [step_initBeq functions hzero]
        split <;> simp
    | _ => simp [Boot.step]
  · cases pc with
    | popRegs =>
        intro _
        obtain ⟨-, hsaved⟩ := h.boot
        show c.sp + 12 = L.bssEnd
        rw [hsaved.sp, Layout.savedRegs, BitVec.sub_add_cancel]
    | callMain => exact absurd rfl hnot
    | bssBeq =>
        obtain ⟨k, hk, hleft, -, hzero⟩ := h.boot
        rw [step_bssBeq functions hzero]
        split <;> simp
    | initBeq =>
        obtain ⟨k, hk, hleft, -, -, hzero⟩ := h.boot
        rw [step_initBeq functions hzero]
        split <;> simp
    | _ => simp [Boot.step]

/-! ### The loop over the fini functions -/

theorem BootLayout.finiLoop (L : BootLayout) {k : Nat} (hk : k ≤ L.finiWords) :
    L.finiArrayStart + BitVec.ofNat 32 (4 * k) = L.finiArrayEnd ↔ k = L.finiWords :=
  wordLoop L.finiAligned L.finiOrder hk

/-- `r0` is at word `k`. -/
structure FiniCalling (L : BootLayout) (k : Nat) (c : Core) : Prop where
  sp : c.sp = L.bssEnd
  r0 : c.r0 = L.finiArrayStart + BitVec.ofNat 32 (4 * k)
  r1 : c.r1 = L.finiArrayEnd

/-- The registers of the loop are on top of the stack. -/
structure FiniInCall (L : BootLayout) (k : Nat) (c : Core) : Prop where
  sp : c.sp = L.bssEnd - 8
  r0 : load32 c.mem c.sp = L.finiArrayStart + BitVec.ofNat 32 (4 * k)
  r1 : load32 c.mem (c.sp + 4) = L.finiArrayEnd

theorem FiniCalling.push {k : Nat} {c : Core} (h : FiniCalling L k c) :
    FiniInCall L k (c.push [c.r0, c.r1]) := by
  obtain ⟨hsp, hfst, hsnd, -⟩ := push_two c c.r0 c.r1
  rw [h.sp] at hsp hfst hsnd
  refine ⟨hsp, ?_, ?_⟩
  · rw [hsp, hfst, h.r0]
  · rw [hsp, hsnd, h.r1]

/-- The call leaves the stack of its caller alone. -/
theorem FiniInCall.call {k : Nat} {c : Core} (h : FiniInCall L k c)
    (f : InitFunction L.toLayout) : FiniInCall L k (f.run c) := by
  have hend : L.bssEnd = c.sp + BitVec.ofNat 32 8 := by
    rw [h.sp]
    exact (BitVec.sub_add_cancel L.bssEnd 8).symm
  have hkeep : ∀ x, offset c.sp x < 8 → (f.run c).mem x = c.mem x := by
    intro x hx
    refine f.frameKept c x ?_
    rw [Layout.OnStack, hend, offset_add_ofNat _ (by omega)]
    exact hx
  refine ⟨(f.spRestored c).trans h.sp, ?_, ?_⟩
  · rw [f.spRestored, ← h.r0]
    exact load32_congr fun x hx => hkeep x (by omega)
  · rw [f.spRestored, ← h.r1]
    refine load32_congr fun x hx => hkeep x ?_
    have hpart := (offset_add_lt_iff c.sp x (k := 4) (by omega)).mp hx
    omega

/-- What has been called when `k` of the fini functions have. -/
def BootLayout.calledUpTo (L : BootLayout) (mem : Mem) (k : Nat) : List Word :=
  L.initEntries mem ++ L.kernelMain :: (L.finiEntries mem).take k

theorem BootLayout.calledUpTo_all (L : BootLayout) (mem : Mem) :
    L.calledUpTo mem L.finiWords = L.allCalls mem := by
  have hall : (L.finiEntries mem).take L.finiWords = L.finiEntries mem := by
    rw [List.take_of_length_le]
    rw [BootLayout.finiEntries, length_entries]
  rw [BootLayout.calledUpTo, hall, BootLayout.allCalls]

theorem BootLayout.calledUpTo_succ (L : BootLayout) {mem : Mem} {k : Nat} {w : Word}
    (hw : (L.finiEntries mem)[k]? = some w) :
    L.calledUpTo mem k ++ [w] = L.calledUpTo mem (k + 1) := by
  rw [BootLayout.calledUpTo, BootLayout.calledUpTo, ← take_entries_succ rfl hw, List.append_assoc,
    List.cons_append]

/-- The machine before each instruction, with the number of instructions that are left
until it halts. -/
def WholeInv (L : BootLayout) (mem : Mem) (left : Nat) (s : WholeMachine) : Prop :=
  Kept L mem s.toCore ∧
  match s.pc with
  | .before pc => ∃ toMain, left = toMain + 8 * L.finiWords + 5 ∧ BeforeInv L mem toMain pc s
  | .ldrFiniStart =>
      left = 8 * L.finiWords + 4 ∧ s.calls = L.calledUpTo mem 0 ∧ s.sp = L.bssEnd
  | .ldrFiniEnd =>
      left = 8 * L.finiWords + 3 ∧ s.calls = L.calledUpTo mem 0 ∧ s.sp = L.bssEnd ∧
        s.r0 = L.finiArrayStart
  | .finiCmp => ∃ k ≤ L.finiWords,
      left = 8 * (L.finiWords - k) + 2 ∧ s.calls = L.calledUpTo mem k ∧ FiniCalling L k s.toCore
  | .finiBeq => ∃ k ≤ L.finiWords,
      left = 8 * (L.finiWords - k) + 1 ∧ s.calls = L.calledUpTo mem k ∧
        FiniCalling L k s.toCore ∧ s.zero = decide (k = L.finiWords)
  | .finiLdr => ∃ k < L.finiWords,
      left = 8 * (L.finiWords - k) ∧ s.calls = L.calledUpTo mem k ∧ FiniCalling L k s.toCore
  | .finiPush => ∃ k < L.finiWords,
      left = 8 * (L.finiWords - k) - 1 ∧ s.calls = L.calledUpTo mem k ∧
        FiniCalling L k s.toCore ∧ (L.finiEntries mem)[k]? = some s.r2
  | .finiBlx => ∃ k < L.finiWords,
      left = 8 * (L.finiWords - k) - 2 ∧ s.calls = L.calledUpTo mem k ∧
        FiniInCall L k s.toCore ∧ (L.finiEntries mem)[k]? = some s.r2
  | .finiPop => ∃ k < L.finiWords,
      left = 8 * (L.finiWords - k) - 3 ∧ s.calls = L.calledUpTo mem (k + 1) ∧
        FiniInCall L k s.toCore
  | .finiAdd => ∃ k < L.finiWords,
      left = 8 * (L.finiWords - k) - 4 ∧ s.calls = L.calledUpTo mem (k + 1) ∧
        FiniCalling L k s.toCore
  | .finiB => ∃ k < L.finiWords,
      left = 8 * (L.finiWords - k) - 5 ∧ s.calls = L.calledUpTo mem (k + 1) ∧
        FiniCalling L (k + 1) s.toCore
  | .halt => left = 0 ∧ s.calls = L.allCalls mem

/-- All init functions have been called when `kernel_main` is. -/
theorem BeforeInv.callMain {left : Nat} {s : WholeMachine} (h : BeforeInv L mem left .callMain s) :
    s.calls ++ [L.kernelMain] = L.calledUpTo mem 0 := by
  have hleft : left = 0 := h.boot.1
  have hall : (L.initEntries mem).take L.initWords = L.initEntries mem := by
    rw [List.take_of_length_le]
    rw [BootLayout.initEntries, length_entries]
  have hcalls := h.calls
  rw [hleft, show toCome L 0 .callMain = 0 from rfl, Nat.sub_zero, hall] at hcalls
  rw [hcalls]
  rfl

/-- **One instruction.** -/
theorem wholeInv_step (hkeep : KeepsArrays L functions) {left : Nat} {s : WholeMachine}
    (h : WholeInv L mem left s) : WholeInv L mem (left - 1) (wholeStep L functions s) := by
  obtain ⟨hkept, h⟩ := h
  obtain ⟨c, pc, calls⟩ := s
  cases pc with
  | before pc =>
      obtain ⟨toMain, hleft, hbefore⟩ := h
      by_cases hmain : pc = .callMain
      · subst hmain
        have hzero : toMain = 0 := hbefore.boot.1
        refine ⟨fun x hx => (hkeep L.kernelMain c x hx).trans (hkept x hx), by omega,
          hbefore.callMain, ?_⟩
        exact ((functions L.kernelMain).spRestored c).trans (hbefore.sp rfl)
      · have hnext : BeforeInv L _ (toMain - 1) (Boot.step L.toLayout functions ⟨c, pc⟩).pc
            (wholeStep L functions ⟨c, .before pc, calls⟩) := hbefore.step hkept hmain
        have hpos : toMain ≠ 0 := fun hzero => hmain (pc_of_bootInv_zero (hzero ▸ hbefore.boot))
        rw [wholeStep_before hmain] at hnext ⊢
        exact ⟨fun x hx => (step_keeps_arrays hkeep hbefore.boot hx).trans (hkept x hx),
          toMain - 1, by omega, hnext⟩
  | ldrFiniStart =>
      obtain ⟨hleft, hcalls, hsp⟩ := h
      exact ⟨hkept, by omega, hcalls, hsp, rfl⟩
  | ldrFiniEnd =>
      obtain ⟨hleft, hcalls, hsp, hr0⟩ := h
      refine ⟨hkept, 0, Nat.zero_le _, by omega, hcalls, hsp, ?_, rfl⟩
      exact hr0.trans (BitVec.add_zero _).symm
  | finiCmp =>
      obtain ⟨k, hk, hleft, hcalls, hloop⟩ := h
      refine ⟨hkept, k, hk, by omega, hcalls, ⟨hloop.sp, hloop.r0, hloop.r1⟩, ?_⟩
      show (c.r0 == c.r1) = _
      rw [hloop.r0, hloop.r1, beq_eq_decide]
      exact decide_eq_decide.mpr (L.finiLoop hk)
  | finiBeq =>
      obtain ⟨k, hk, hleft, hcalls, hloop, hzero⟩ := h
      have hstep : wholeStep L functions ⟨c, .finiBeq, calls⟩ =
          ⟨c, if k = L.finiWords then .halt else .finiLdr, calls⟩ := by
        have hflag : c.zero = decide (k = L.finiWords) := hzero
        simp [wholeStep, hflag]
      rw [hstep]
      rcases hk.eq_or_lt with rfl | hlt
      · rw [if_pos rfl]
        exact ⟨hkept, by omega, hcalls.trans (L.calledUpTo_all mem)⟩
      · rw [if_neg hlt.ne]
        exact ⟨hkept, k, hlt, by omega, hcalls, hloop⟩
  | finiLdr =>
      obtain ⟨k, hk, hleft, hcalls, hloop⟩ := h
      refine ⟨hkept, k, hk, by omega, hcalls, ⟨hloop.sp, hloop.r0, hloop.r1⟩, ?_⟩
      show _ = some (load32 c.mem c.r0)
      rw [hloop.r0]
      exact hkept.load hk L.words_lt.2 fun x hx => Or.inr hx
  | finiPush =>
      obtain ⟨k, hk, hleft, hcalls, hloop, hentry⟩ := h
      refine ⟨fun x hx => ?_, k, hk, by omega, hcalls, hloop.push, hentry⟩
      have hlen : 4 * [c.r0, c.r1].length ≤ 8 := Nat.le_refl 8
      refine (push_keeps_arrays (k := 8) ?_ (by omega) hlen hx).trans (hkept x hx)
      rw [hloop.sp]
      rfl
  | finiBlx =>
      obtain ⟨k, hk, hleft, hcalls, hcall, hentry⟩ := h
      refine ⟨fun x hx => (hkeep c.r2 c x hx).trans (hkept x hx), k, hk, by omega, ?_,
        hcall.call (functions c.r2)⟩
      show calls ++ [c.r2] = _
      rw [← L.calledUpTo_succ hentry]
      exact congrArg (· ++ [c.r2]) hcalls
  | finiPop =>
      obtain ⟨k, hk, hleft, hcalls, hcall⟩ := h
      refine ⟨hkept, k, hk, by omega, hcalls, ?_, hcall.r0, hcall.r1⟩
      show c.sp + 8 = L.bssEnd
      rw [hcall.sp, BitVec.sub_add_cancel]
  | finiAdd =>
      obtain ⟨k, hk, hleft, hcalls, hloop⟩ := h
      refine ⟨hkept, k, hk, by omega, hcalls, hloop.sp, ?_, hloop.r1⟩
      show c.r0 + 4 = _
      rw [hloop.r0, next_word]
  | finiB =>
      obtain ⟨k, hk, hleft, hcalls, hloop⟩ := h
      exact ⟨hkept, k + 1, hk, by omega, hcalls, hloop⟩
  | halt =>
      obtain ⟨hleft, hcalls⟩ := h
      exact ⟨hkept, by omega, hcalls⟩

/-- **Every point of the run.** -/
theorem wholeInv_boot (hkeep : KeepsArrays L functions) (start : Core) (n : Nat) :
    WholeInv L start.mem (5 * L.bssWords + 8 * L.initWords + 8 * L.finiWords + 17 - n)
      (wholeBoot L functions start n) := by
  induction n with
  | zero =>
      refine ⟨fun x _ => rfl, 5 * L.bssWords + 8 * L.initWords + 12, by omega, rfl, ?_, by simp,
        by simp⟩
      simp [toCome, wholeBoot]
  | succ n ih =>
      rw [wholeBoot, Function.iterate_succ_apply']
      exact wholeInv_step hkeep ih

/-- Exactly where the machine halts no instruction is left. -/
theorem WholeInv.halt_iff {left : Nat} {s : WholeMachine} (h : WholeInv L mem left s) :
    s.pc = .halt ↔ left = 0 := by
  obtain ⟨-, h⟩ := h
  obtain ⟨c, pc, calls⟩ := s
  cases pc with
  | before pc =>
      obtain ⟨toMain, hleft, -⟩ := h
      simp only [reduceCtorEq, false_iff]
      omega
  | ldrFiniStart | ldrFiniEnd =>
      have hleft := h.1
      simp only [reduceCtorEq, false_iff]
      omega
  | halt => simpa using h.1
  | _ =>
      obtain ⟨k, hk, hleft, -⟩ := h
      simp only [reduceCtorEq, false_iff]
      omega

theorem WholeInv.calls_begin {left : Nat} {s : WholeMachine} (h : WholeInv L mem left s) :
    s.calls <+: L.allCalls mem := by
  have hupTo : ∀ k, L.calledUpTo mem k <+: L.allCalls mem := fun k =>
    (List.prefix_append_right_inj _).mpr ((List.prefix_cons_inj _).mpr (List.take_prefix k _))
  obtain ⟨-, h⟩ := h
  obtain ⟨c, pc, calls⟩ := s
  cases pc with
  | before pc =>
      obtain ⟨toMain, -, hbefore⟩ := h
      rw [hbefore.calls]
      exact (List.take_prefix _ _).trans (List.prefix_append _ _)
  | ldrFiniStart | ldrFiniEnd =>
      have hcalls := h.2.1
      rw [hcalls]
      exact hupTo 0
  | halt =>
      have hcalls := h.2
      rw [hcalls]
  | finiPop | finiAdd | finiB =>
      obtain ⟨k, -, -, hcalls, -⟩ := h
      rw [hcalls]
      exact hupTo (k + 1)
  | _ =>
      obtain ⟨k, -, -, hcalls, -⟩ := h
      rw [hcalls]
      exact hupTo k

end Invariant

/-- **The start code calls everything once, in order, and halts.**  For every layout,
whatever the memory and the registers are at `Start` and whatever the functions do that
return and leave the arrays alone: what has been called is always a beginning of the
list, and from some instruction on the machine has called all of it and halts. -/
theorem boot_calls_in_order (L : BootLayout) (functions : Word → InitFunction L.toLayout)
    (hkeep : KeepsArrays L functions) (start : Core) :
    (∀ n, (wholeBoot L functions start n).calls <+: L.allCalls start.mem) ∧
    ∃ last, ∀ n, ((wholeBoot L functions start n).pc = .halt ↔ last ≤ n) ∧
      (last ≤ n → (wholeBoot L functions start n).calls = L.allCalls start.mem) := by
  refine ⟨fun n => (wholeInv_boot hkeep start n).calls_begin,
    5 * L.bssWords + 8 * L.initWords + 8 * L.finiWords + 17, fun n => ?_⟩
  have hinv := wholeInv_boot hkeep start n
  have hhalt : (wholeBoot L functions start n).pc = .halt ↔
      5 * L.bssWords + 8 * L.initWords + 8 * L.finiWords + 17 ≤ n := by
    rw [hinv.halt_iff]
    omega
  refine ⟨hhalt, fun hlast => ?_⟩
  have hpc := hhalt.mpr hlast
  obtain ⟨-, hend⟩ := hinv
  rw [hpc] at hend
  exact hend.2

/-- Two init functions and a fini function. -/
def threeFunctions : BootLayout where
  bssStart := 0x24000
  bssEnd := 0x24080
  initArrayStart := 0x23000
  initArrayEnd := 0x23008
  finiArrayStart := 0x23008
  finiArrayEnd := 0x2300C
  kernelMain := 0x10400
  bssAligned := by decide
  bssRoom := by decide
  initAligned := by decide
  initOrder := by decide
  finiAligned := by decide
  finiOrder := by decide
  arraysBelow := by decide
  stackRoom := by decide

/-- They change a register, and each byte of the memory holds the end of its address. -/
theorem threeFunctions_called :
    let functions : Word → InitFunction threeFunctions.toLayout :=
      fun f => ⟨fun c => { c with r0 := f }, fun _ => rfl, fun _ _ _ => rfl⟩
    let start : Core := { loaderRegisters with mem := fun x => x.setWidth 8 }
    (∀ n, (wholeBoot threeFunctions functions start n).calls <+:
      threeFunctions.allCalls start.mem) ∧
    ∃ last, ∀ n, ((wholeBoot threeFunctions functions start n).pc = .halt ↔ last ≤ n) ∧
      (last ≤ n → (wholeBoot threeFunctions functions start n).calls =
        threeFunctions.allCalls start.mem) :=
  boot_calls_in_order threeFunctions
    (fun f => ⟨fun c => { c with r0 := f }, fun _ => rfl, fun _ _ _ => rfl⟩)
    (fun _ _ _ _ => rfl) { loaderRegisters with mem := fun x => x.setWidth 8 }

end Boot
end Ninjastorms
