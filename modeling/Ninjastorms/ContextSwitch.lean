import Ninjastorms.Lib.Arm
import Ninjastorms.Scheduler
import Mathlib.Tactic.FinCases

/-!
# The context switch

`kernel/interrupt_handler.S`, instruction by instruction, on the memory that
holds the variables of `kernel/scheduler.c`.

* `Ram` — these variables under their types, and all other memory by address;
  `Layout` says at which addresses the assembly code finds them.  A word of
  `tasks` is a field of a `task_t`: `reg[13]`, `sp`, `lr`, `pc`, `cpsr` at the
  offsets 0, 52, 56, 60 and 64.
* `saveCurrentTaskState_spec` — the save path stores exactly the context of the
  interrupted code, as a whole `task_t`;
* `LoadProgress` — what the load path has established after each of its
  instructions, so that it can also be followed one instruction at a time;
* `interrupt_spec` — one interrupt, from the vector to the resumed context.
-/

namespace Ninjastorms
namespace ContextSwitch

open Scheduler Lib.Arm

/-! ### The words of a `task_t` -/

/-- `sizeof (task_t)`. -/
abbrev TASK_SIZE : Nat := 68

/-- The word at offset `4 * f` of a `task_t`. -/
def field (task : Task) (f : Nat) : Word :=
  if h : f < 13 then task.reg ⟨f, h⟩
  else if f = 13 then task.sp
  else if f = 14 then task.lr
  else if f = 15 then task.pc
  else task.cpsr

/-- Overwrite the word at offset `4 * f`. -/
def setField (task : Task) (f : Nat) (w : Word) : Task :=
  if h : f < 13 then { task with reg := Function.update task.reg ⟨f, h⟩ w }
  else if f = 13 then { task with sp := w }
  else if f = 14 then { task with lr := w }
  else if f = 15 then { task with pc := w }
  else { task with cpsr := w }

/-- A `task_t` is determined by its seventeen words. -/
theorem task_ext {task task' : Task} (h : ∀ f < 17, field task f = field task' f) :
    task = task' := by
  have hreg : task.reg = task'.reg := by
    funext i
    have hi := h i.val (by omega)
    simpa [field] using hi
  have hsp : task.sp = task'.sp := h 13 (by decide)
  have hlr : task.lr = task'.lr := h 14 (by decide)
  have hpc : task.pc = task'.pc := h 15 (by decide)
  have hcpsr : task.cpsr = task'.cpsr := h 16 (by decide)
  cases task
  cases task'
  simp_all

theorem field_setField (task : Task) {f g : Nat} (hf : f < 17) (hg : g < 17) (w : Word) :
    field (setField task f w) g = if g = f then w else field task g := by
  by_cases hreg : f < 13
  · by_cases hgreg : g < 13
    · simp [field, setField, hreg, hgreg, Function.update_apply]
    · have hne : g ≠ f := by omega
      simp [field, setField, hreg, hgreg, hne]
  · obtain rfl | rfl | rfl | rfl : f = 13 ∨ f = 14 ∨ f = 15 ∨ f = 16 := by omega
    all_goals
      by_cases hgreg : g < 13
      · have hne : ∀ k, 13 ≤ k → g ≠ k := by omega
        simp [field, setField, hgreg, hne]
      · obtain rfl | rfl | rfl | rfl : g = 13 ∨ g = 14 ∨ g = 15 ∨ g = 16 := by omega
        all_goals simp [field, setField]

/-- Overwrite consecutive words. -/
def setFields (task : Task) : Nat → List Word → Task
  | _, [] => task
  | f, w :: ws => setFields (setField task f w) (f + 1) ws

theorem setFields_append (task : Task) (f : Nat) (ws ws' : List Word) :
    setFields task f (ws ++ ws') = setFields (setFields task f ws) (f + ws.length) ws' := by
  induction ws generalizing task f with
  | nil => rfl
  | cons w ws ih =>
      rw [List.cons_append, setFields, ih, setFields, List.length_cons, Nat.add_right_comm,
        Nat.add_assoc]

theorem field_setFields (task : Task) {f g : Nat} (ws : List Word) (hf : f + ws.length ≤ 17)
    (hg : g < 17) :
    field (setFields task f ws) g =
      if h : f ≤ g ∧ g - f < ws.length then ws.get ⟨g - f, h.2⟩ else field task g := by
  induction ws generalizing task f with
  | nil => simp [setFields]
  | cons w ws ih =>
      rw [List.length_cons] at hf
      rw [setFields, ih _ (by omega), field_setField task (by omega) hg]
      by_cases heq : g = f
      · subst heq
        simp
      · by_cases hle : f ≤ g
        · obtain ⟨d, rfl⟩ : ∃ d, g = f + 1 + d := ⟨g - f - 1, by omega⟩
          have hsub : f + 1 + d - f = d + 1 := by omega
          simp [heq, hsub, hle, show f + 1 + d - (f + 1) = d by omega,
            show f + 1 ≤ f + 1 + d by omega]
        · simp [heq, hle, show ¬ f + 1 ≤ g by omega]

/-! ### Addresses -/

/-- Where the variables and the code stand.  The words of `tasks` and
`current_task` are apart from each other and from the four words that
`irq_handler` pushes on its stack. -/
structure Layout (board : Board) where
  tasks : Word
  currentTask : Word
  irqHandler : Word
  loadCurrentTaskState : Word
  currentTask_apart : 16 * TASK_SIZE ≤ (currentTask - tasks).toNat
  irqStack_apart : ∀ k < 4,
    16 * TASK_SIZE ≤ (irqStackAddress board - 16 + BitVec.ofNat 32 (4 * k) - tasks).toNat ∧
    irqStackAddress board - 16 + BitVec.ofNat 32 (4 * k) ≠ currentTask

/-- A kernel image that is loaded at `0x10000`. -/
def kernelImage : Layout .versatilepb where
  tasks := 0x20000
  currentTask := 0x20800
  irqHandler := 0x10000
  loadCurrentTaskState := 0x10100
  currentTask_apart := by decide
  irqStack_apart := by decide

variable {board : Board}

/-- `&tasks[i]`. -/
def Layout.taskAddr (L : Layout board) (i : Fin MAX_TASK_NUMBER) : Word :=
  L.tasks + BitVec.ofNat 32 (TASK_SIZE * i.val)

/-- The address of the word at offset `4 * f` of `tasks[i]`. -/
def Layout.fieldAddr (L : Layout board) (i : Fin MAX_TASK_NUMBER) (f : Nat) : Word :=
  L.taskAddr i + BitVec.ofNat 32 (4 * f)

/-- The `k`-th of the four words that `irq_handler` pushes. -/
def frameAddr (board : Board) (k : Nat) : Word :=
  irqStackAddress board - 16 + BitVec.ofNat 32 (4 * k)

/-- The value of a `task_t *`. -/
def Layout.pointer (L : Layout board) : TaskPtr → Word
  | none => 0
  | some i => L.taskAddr i

/-- What the word at an address belongs to. -/
inductive Cell where
  | field (i : Fin MAX_TASK_NUMBER) (f : Nat)
  | currentTask
  | other
  deriving DecidableEq

def Layout.cellAt (L : Layout board) (address : Word) : Cell :=
  let offset := (address - L.tasks).toNat
  if h : offset < 16 * TASK_SIZE ∧ offset % 4 = 0 then
    .field ⟨offset / TASK_SIZE, Nat.div_lt_of_lt_mul (Nat.mul_comm 16 TASK_SIZE ▸ h.1)⟩
      (offset % TASK_SIZE / 4)
  else if address = L.currentTask then
    .currentTask
  else
    .other

theorem Layout.cellAt_fieldAddr (L : Layout board) (i : Fin MAX_TASK_NUMBER) {f : Nat}
    (hf : f < 17) : L.cellAt (L.fieldAddr i f) = .field i f := by
  have hi : i.val < 16 := i.isLt
  have hoffset : (L.fieldAddr i f - L.tasks).toNat = 68 * i.val + 4 * f := by
    have hsub : L.fieldAddr i f - L.tasks = BitVec.ofNat 32 (68 * i.val + 4 * f) := by
      rw [fieldAddr, taskAddr, BitVec.add_assoc, ← BitVec.ofNat_add, BitVec.add_comm,
        BitVec.add_sub_cancel]
    rw [hsub, BitVec.toNat_ofNat, Nat.mod_eq_of_lt (by omega)]
  have hinside : 68 * i.val + 4 * f < 16 * TASK_SIZE ∧ (68 * i.val + 4 * f) % 4 = 0 := by
    simp only [TASK_SIZE]
    omega
  have hdiv : (68 * i.val + 4 * f) / TASK_SIZE = i.val := by
    simp only [TASK_SIZE]
    omega
  have hmod : (68 * i.val + 4 * f) % TASK_SIZE / 4 = f := by
    simp only [TASK_SIZE]
    omega
  simp only [cellAt, hoffset, hinside, and_self, dite_true, hdiv, hmod]

theorem Layout.cellAt_of_apart (L : Layout board) {address : Word}
    (h : 16 * TASK_SIZE ≤ (address - L.tasks).toNat) :
    L.cellAt address = if address = L.currentTask then .currentTask else .other := by
  have hout : ¬ (address - L.tasks).toNat < 16 * TASK_SIZE := Nat.not_lt.mpr h
  simp only [cellAt, hout, false_and, dite_false]

theorem Layout.cellAt_currentTask (L : Layout board) :
    L.cellAt L.currentTask = .currentTask := by
  rw [L.cellAt_of_apart L.currentTask_apart, if_pos rfl]

theorem Layout.cellAt_frameAddr (L : Layout board) {k : Nat} (hk : k < 4) :
    L.cellAt (frameAddr board k) = .other := by
  obtain ⟨hapart, hne⟩ := L.irqStack_apart k hk
  rw [frameAddr, L.cellAt_of_apart hapart, if_neg hne]

theorem Layout.fieldAddr_zero (L : Layout board) (i : Fin MAX_TASK_NUMBER) :
    L.fieldAddr i 0 = L.taskAddr i := by
  simp [fieldAddr]

/-- Offsets add up. -/
theorem Layout.fieldAddr_add (L : Layout board) (i : Fin MAX_TASK_NUMBER) (f d : Nat) :
    L.fieldAddr i f + BitVec.ofNat 32 (4 * d) = L.fieldAddr i (f + d) := by
  rw [fieldAddr, fieldAddr, BitVec.add_assoc, ← BitVec.ofNat_add, Nat.mul_add]

theorem Layout.fieldAddr_succ (L : Layout board) (i : Fin MAX_TASK_NUMBER) (f : Nat) :
    L.fieldAddr i f + 4 = L.fieldAddr i (f + 1) :=
  L.fieldAddr_add i f 1

theorem frameAddr_add (board : Board) (k d : Nat) :
    frameAddr board k + BitVec.ofNat 32 (4 * d) = frameAddr board (k + d) := by
  rw [frameAddr, frameAddr, BitVec.add_assoc, ← BitVec.ofNat_add, Nat.mul_add]

theorem frameAddr_succ (board : Board) (k : Nat) : frameAddr board k + 4 = frameAddr board (k + 1) :=
  frameAddr_add board k 1

theorem frameAddr_ne {j k : Nat} (hj : j < 4) (hk : k < 4) (hne : j ≠ k) :
    frameAddr board j ≠ frameAddr board k := by
  intro heq
  have hnat : BitVec.ofNat 32 (4 * j) = BitVec.ofNat 32 (4 * k) :=
    (BitVec.add_right_inj _).mp heq
  have hval := congrArg BitVec.toNat hnat
  simp only [BitVec.toNat_ofNat] at hval
  omega

/-! ### Memory -/

/-- The variables of `scheduler.c`, and the words at all other addresses. -/
structure Ram where
  sched : State
  other : Word → Word

/-- The `task_t *` that a word stands for. -/
def Layout.decode (L : Layout board) (w : Word) : TaskPtr :=
  (List.finRange MAX_TASK_NUMBER).find? fun i => L.taskAddr i = w

def load (L : Layout board) (ram : Ram) (address : Word) : Word :=
  match L.cellAt address with
  | .field i f => field (ram.sched.tasks i) f
  | .currentTask => L.pointer ram.sched.currentTask
  | .other => ram.other address

/-- Replace the whole of `tasks[i]`. -/
def Ram.putTask (ram : Ram) (i : Fin MAX_TASK_NUMBER) (task : Task) : Ram :=
  { ram with sched := { ram.sched with tasks := Function.update ram.sched.tasks i task } }

def store (L : Layout board) (ram : Ram) (address w : Word) : Ram :=
  match L.cellAt address with
  | .field i f => ram.putTask i (setField (ram.sched.tasks i) f w)
  | .currentTask => { ram with sched := { ram.sched with currentTask := L.decode w } }
  | .other => { ram with other := Function.update ram.other address w }

/-- The memory that the assembly code works on. -/
def memory (L : Layout board) : Memory Ram where
  load := load L
  store := store L

variable {L : Layout board} {ram : Ram} {t : Fin MAX_TASK_NUMBER}

theorem load_fieldAddr {f : Nat} (hf : f < 17) :
    (memory L).load ram (L.fieldAddr t f) = field (ram.sched.tasks t) f := by
  simp only [memory, load, L.cellAt_fieldAddr t hf]

theorem load_currentTask :
    (memory L).load ram L.currentTask = L.pointer ram.sched.currentTask := by
  simp only [memory, load, L.cellAt_currentTask]

theorem load_frameAddr {k : Nat} (hk : k < 4) :
    (memory L).load ram (frameAddr board k) = ram.other (frameAddr board k) := by
  simp only [memory, load, L.cellAt_frameAddr hk]

theorem store_frameAddr {k : Nat} (hk : k < 4) (w : Word) :
    (memory L).store ram (frameAddr board k) w =
      { ram with other := Function.update ram.other (frameAddr board k) w } := by
  simp only [memory, store, L.cellAt_frameAddr hk]

@[simp] theorem putTask_other (task : Task) : (ram.putTask t task).other = ram.other := rfl

@[simp] theorem putTask_currentTask (task : Task) :
    (ram.putTask t task).sched.currentTask = ram.sched.currentTask := rfl

theorem putTask_self : ram.putTask t (ram.sched.tasks t) = ram := by
  simp [Ram.putTask]

theorem store_putTask (task : Task) {f : Nat} (hf : f < 17) (w : Word) :
    (memory L).store (ram.putTask t task) (L.fieldAddr t f) w =
      ram.putTask t (setField task f w) := by
  simp [memory, store, L.cellAt_fieldAddr t hf, Ram.putTask]

theorem storeWords_putTask (task : Task) {f : Nat} (ws : List Word) (hf : f + ws.length ≤ 17) :
    storeWords (memory L) (ram.putTask t task) (L.fieldAddr t f) ws =
      ram.putTask t (setFields task f ws) := by
  induction ws generalizing task f with
  | nil => rfl
  | cons w ws ih =>
      rw [List.length_cons] at hf
      rw [storeWords, store_putTask task (by omega), L.fieldAddr_succ, ih _ (by omega),
        setFields]

/-- Words stored within the pushed frame. -/
theorem storeWords_frameAddr (ram : Ram) {k : Nat} (ws : List Word) (hk : k + ws.length ≤ 4) :
    ∃ other, storeWords (memory L) ram (frameAddr board k) ws = { ram with other := other } ∧
      (∀ j (hj : j < ws.length), other (frameAddr board (k + j)) = ws[j]) ∧
      ∀ j < k, other (frameAddr board j) = ram.other (frameAddr board j) := by
  induction ws generalizing ram k with
  | nil => exact ⟨ram.other, rfl, fun j hj => absurd hj (Nat.not_lt_zero j), fun _ _ => rfl⟩
  | cons w ws ih =>
      rw [List.length_cons] at hk
      obtain ⟨other, hstore, hwords, hbelow⟩ :=
        ih ((memory L).store ram (frameAddr board k) w) (k := k + 1) (by omega)
      rw [store_frameAddr (by omega)] at hstore hbelow
      refine ⟨other, ?_, ?_, ?_⟩
      · rw [storeWords, frameAddr_succ, store_frameAddr (by omega), hstore]
      -- the first word lies below the others, which leave it alone
      · intro j hj
        cases j with
        | zero => simpa using hbelow k (by omega)
        | succ j =>
            have hword := hwords j (by simpa using hj)
            rw [Nat.add_right_comm] at hword
            exact hword
      · intro j hj
        have hne : frameAddr board j ≠ frameAddr board k :=
          frameAddr_ne (by omega) (by omega) (by omega)
        rw [hbelow j (by omega)]
        exact Function.update_of_ne hne _ _

/-! ### The save path -/

/-- `irq_handler`, up to the call of `save_current_task_state`. -/
def irqEntry (L : Layout board) : List Instr :=
  [.push [0, 1, 2], .movSp 0, .bl (L.irqHandler + 12)]

/-- `save_current_task_state`, without its return. -/
def saveCurrentTaskState (L : Layout board) : List Instr :=
  [.ldrAddress 2 L.currentTask, .ldr 2 2 0,
    .ldrPost 1 0 4, .strPost 1 2 4,
    .ldrPost 1 0 4, .strPost 1 2 4,
    .ldrPost 1 0 4, .strPost 1 2 4,
    .stmUser 2 [3, 4, 5, 6, 7, 8, 9, 10, 11, 12],
    .ldr 1 0 0, .sub 1 4, .strPost 1 2 4,
    .mrsSpsr 1, .strPost 1 2 4]

/-- The words of a whole `task_t`, in their order. -/
def taskWords (task : Task) : List Word :=
  (List.finRange 13).map task.reg ++ [task.sp, task.lr, task.pc, task.cpsr]

theorem taskWords_eq (task : Task) :
    taskWords task =
      [task.reg 0, task.reg 1, task.reg 2, task.reg 3, task.reg 4, task.reg 5, task.reg 6,
        task.reg 7, task.reg 8, task.reg 9, task.reg 10, task.reg 11, task.reg 12,
        task.sp, task.lr, task.pc, task.cpsr] := rfl

theorem setFields_taskWords (old task : Task) : setFields old 0 (taskWords task) = task := by
  apply task_ext
  intro f hf
  have hlength : (taskWords task).length = 17 := by simp [taskWords]
  rw [field_setFields old _ (by omega) hf, dif_pos (by omega)]
  by_cases hreg : f < 13
  · simp [taskWords, field, hreg]
  · obtain rfl | rfl | rfl | rfl : f = 13 ∨ f = 14 ∨ f = 15 ∨ f = 16 := by omega
    all_goals rfl

/-- What holds while the save path is under way: `words` have been stored, `r0`
points to the next word on the stack and `r2` to the next word of the task. -/
structure Saving (L : Layout board) (t : Fin MAX_TASK_NUMBER) (before : Cpu × Ram)
    (k : Nat) (words : List Word) (now : Cpu × Ram) : Prop where
  cpu : ∃ r, now.1 = { before.1 with r := r }
  r0 : now.1.r 0 = frameAddr board k
  r2 : now.1.r 2 = L.fieldAddr t words.length
  high : ∀ i : Fin 13, 3 ≤ i.val → now.1.r i = before.1.r i
  ram : now.2 = before.2.putTask t (setFields (before.2.sched.tasks t) 0 words)

variable {before now : Cpu × Ram} {k : Nat} {words : List Word}

theorem saving_address (hcurrent : before.2.sched.currentTask = some t)
    (hr0 : before.1.r 0 = frameAddr board k) :
    Saving L t before k []
      (runCode (memory L) [.ldrAddress 2 L.currentTask, .ldr 2 2 0] before) := by
  obtain ⟨cpu, ram⟩ := before
  have hpointer : L.pointer ram.sched.currentTask = L.taskAddr t := congrArg L.pointer hcurrent
  refine ⟨⟨_, rfl⟩, ?_, ?_, ?_, ?_⟩
  · simpa [exec] using hr0
  · simp [exec, load_currentTask, L.fieldAddr_zero, hpointer]
  · intro i hi
    have hne : i ≠ 2 := by omega
    simp [exec, hne]
  · simp [exec, setFields, putTask_self]

/-- What is in `r1` does not matter. -/
theorem Saving.scratch (h : Saving L t before k words now) (w : Word) :
    Saving L t before k words ({ now.1 with r := Function.update now.1.r 1 w }, now.2) := by
  obtain ⟨⟨r, hcpu⟩, hr0, hr2, hhigh, hram⟩ := h
  refine ⟨⟨Function.update now.1.r 1 w, by rw [hcpu]⟩, hr0, hr2, ?_, hram⟩
  intro i hi
  have hne : i ≠ 1 := by omega
  exact (Function.update_of_ne hne _ _).trans (hhigh i hi)

/-- `str r1, [r2], #4`. -/
theorem Saving.strPost (h : Saving L t before k words now) (hlen : words.length < 17)
    {w : Word} (hr1 : now.1.r 1 = w) :
    Saving L t before k (words ++ [w]) (exec (memory L) (.strPost 1 2 4) now) := by
  obtain ⟨cpu, ram⟩ := now
  obtain ⟨⟨r, rfl⟩, hr0, hr2, hhigh, rfl⟩ := h
  simp only at hr0 hr1 hr2 hhigh
  refine ⟨⟨_, rfl⟩, ?_, ?_, ?_, ?_⟩
  · simpa [exec] using hr0
  · have hsucc := L.fieldAddr_succ t words.length
    simpa [exec, hr2] using hsucc
  · intro i hi
    have hne : i ≠ 2 := by omega
    simpa [exec, hne] using hhigh i hi
  · simp only [exec, hr1, hr2]
    rw [store_putTask _ hlen, setFields_append, Nat.zero_add, setFields, setFields]

/-- `ldr r1, [r0], #4; str r1, [r2], #4`. -/
theorem Saving.copyWord (h : Saving L t before k words now) (hk : k < 4)
    (hlen : words.length < 17) :
    Saving L t before (k + 1) (words ++ [before.2.other (frameAddr board k)])
      (runCode (memory L) [.ldrPost 1 0 4, .strPost 1 2 4] now) := by
  obtain ⟨cpu, ram⟩ := now
  obtain ⟨⟨r, rfl⟩, hr0, hr2, hhigh, rfl⟩ := h
  simp only at hr0 hr2 hhigh
  have hload : Saving L t before (k + 1) words
      (exec (memory L) (.ldrPost 1 0 4) ({ before.1 with r := r },
        before.2.putTask t (setFields (before.2.sched.tasks t) 0 words))) := by
    refine ⟨⟨_, rfl⟩, ?_, ?_, ?_, rfl⟩
    · have hsucc := frameAddr_succ board k
      simpa [exec, hr0] using hsucc
    · simpa [exec] using hr2
    · intro i hi
      have hne0 : i ≠ 0 := by omega
      have hne1 : i ≠ 1 := by omega
      simpa [exec, hne0, hne1] using hhigh i hi
  exact hload.strPost hlen (by simp [exec, hr0, load_frameAddr hk])

/-- `stm r2!, {r3-r12, sp, lr}^`. -/
theorem Saving.stmUser (h : Saving L t before k words now) (hlen : words.length = 3) :
    Saving L t before k
      (words ++ ([3, 4, 5, 6, 7, 8, 9, 10, 11, 12].map before.1.r ++
        [before.1.sp .usr, before.1.lr .usr]))
      (exec (memory L) (.stmUser 2 [3, 4, 5, 6, 7, 8, 9, 10, 11, 12]) now) := by
  obtain ⟨cpu, ram⟩ := now
  obtain ⟨⟨r, rfl⟩, hr0, hr2, hhigh, rfl⟩ := h
  simp only at hr0 hr2 hhigh
  -- the save path has used `r0` to `r2` only, and none of them is in the list
  have hregs : [3, 4, 5, 6, 7, 8, 9, 10, 11, 12].map r =
      [3, 4, 5, 6, 7, 8, 9, 10, 11, 12].map before.1.r := by
    apply List.map_congr_left
    intro i hi
    apply hhigh
    revert i
    decide
  refine ⟨⟨_, rfl⟩, ?_, ?_, ?_, ?_⟩
  · simpa [exec] using hr0
  · have hadd := L.fieldAddr_add t words.length 12
    simpa [exec, hr2] using hadd
  · intro i hi
    have hne : i ≠ 2 := by omega
    simpa [exec, hne] using hhigh i hi
  · simp only [exec, hr2, hregs]
    rw [storeWords_putTask _ _ (by simp [hlen]), setFields_append _ 0 words, Nat.zero_add]

/-- `ldr r1, [r0]; sub r1, #4; str r1, [r2], #4`. -/
theorem Saving.storePc (h : Saving L t before k words now) (hk : k < 4)
    (hlen : words.length < 17) :
    Saving L t before k (words ++ [before.2.other (frameAddr board k) - 4])
      (runCode (memory L) [.ldr 1 0 0, .sub 1 4, .strPost 1 2 4] now) := by
  obtain ⟨cpu, ram⟩ := now
  have hr0 : cpu.r 0 = frameAddr board k := h.r0
  have hram : ram = before.2.putTask t (setFields (before.2.sched.tasks t) 0 words) := h.ram
  have hsub : Saving L t before k words
      (runCode (memory L) [.ldr 1 0 0, .sub 1 4] (cpu, ram)) := (h.scratch _).scratch _
  exact hsub.strPost hlen (by simp [exec, hr0, hram, load_frameAddr hk])

/-- `mrs r1, spsr; str r1, [r2], #4`. -/
theorem Saving.storeCpsr (h : Saving L t before k words now) (hlen : words.length < 17) :
    Saving L t before k (words ++ [before.1.spsr before.1.bank])
      (runCode (memory L) [.mrsSpsr 1, .strPost 1 2 4] now) := by
  obtain ⟨cpu, ram⟩ := now
  obtain ⟨r, rfl⟩ := h.cpu
  have hmrs : Saving L t before k words
      (exec (memory L) (.mrsSpsr 1) ({ before.1 with r := r }, ram)) := h.scratch _
  exact hmrs.strPost hlen (by simp [exec, Cpu.bank])

/-- The context that the save path stores: `r0` to `r2` and the program counter
come from the stack, the stack pointer and link register from user mode, the
status from `spsr`. -/
def savedContext (board : Board) (before : Cpu × Ram) : Task where
  reg := fun i =>
    if i.val < 3 then before.2.other (frameAddr board i.val) else before.1.r i
  sp := before.1.sp .usr
  lr := before.1.lr .usr
  pc := before.2.other (frameAddr board 3) - 4
  cpsr := before.1.spsr before.1.bank

/-- **The save path** stores the whole context of the current task, and changes
nothing else but `r0` to `r2`. -/
theorem saveCurrentTaskState_spec (before : Cpu × Ram) (hcurrent : before.2.sched.currentTask = some t)
    (hr0 : before.1.r 0 = frameAddr board 0) :
    ∃ r, runCode (memory L) (saveCurrentTaskState L) before =
      ({ before.1 with r := r }, before.2.putTask t (savedContext board before)) := by
  have hsaving := saving_address (L := L) hcurrent hr0
  have hcopied := ((hsaving.copyWord (by omega) (by simp)).copyWord (by omega)
    (by simp)).copyWord (by omega) (by simp)
  have hstored := ((hcopied.stmUser rfl).storePc (by omega) (by simp)).storeCpsr (by simp)
  obtain ⟨⟨r, hcpu⟩, -, -, -, hram⟩ := hstored
  have hwords := setFields_taskWords (before.2.sched.tasks t) (savedContext board before)
  simp only [runCode_cons, runCode_nil] at hcpu hram
  simp only [saveCurrentTaskState, runCode_cons, runCode_nil]
  refine ⟨r, Prod.ext hcpu (hram.trans ?_)⟩
  rw [← hwords, taskWords_eq]
  simp [savedContext]

/-- The first part of `irq_handler` leaves the four pushed words on the stack. -/
theorem irqEntry_spec (ram : Ram) {cpu : Cpu} (hbank : cpu.bank = .irq)
    (hsp : cpu.sp .irq = irqStackAddress board) :
    ∃ other, runCode (memory L) (irqEntry L) (cpu, ram) =
      ({ cpu with
          r := Function.update cpu.r 0 (frameAddr board 0)
          sp := Function.update cpu.sp .irq (frameAddr board 0)
          lr := Function.update cpu.lr .irq (L.irqHandler + 12) },
        { ram with other := other }) ∧
      (∀ i : Fin 13, i.val < 3 → other (frameAddr board i.val) = cpu.r i) ∧
      other (frameAddr board 3) = cpu.lr .irq := by
  have hframe : irqStackAddress board - 16#32 = frameAddr board 0 := by
    simp [frameAddr]
  obtain ⟨other, hpush, hwords, -⟩ := storeWords_frameAddr (L := L) ram (k := 0)
    [cpu.r 0, cpu.r 1, cpu.r 2, cpu.lr .irq] (by simp)
  have hbank' : bankOf cpu.cpsr = .irq := hbank
  refine ⟨other, ?_, ?_, hwords 3 (by simp)⟩
  · simp [irqEntry, exec, Cpu.bank, hbank', hsp, hframe, hpush]
  · intro i hi
    obtain rfl | rfl | rfl : i = 0 ∨ i = 1 ∨ i = 2 := by omega
    · exact hwords 0 (by simp)
    · exact hwords 1 (by simp)
    · exact hwords 2 (by simp)

/-! ### The load path -/

/-- `load_current_task_state`. -/
def loadCurrentTaskState (L : Layout board) : List Instr :=
  [.ldrAddress 0 L.currentTask, .ldr 0 0 0, .ldr 1 0 64, .msrSpsr 1, .addLr 0 60, .ldmUser 0,
    .ldmReturn]

/-- The context of the code that the processor runs, as the registers of user mode show it. -/
def context (cpu : Cpu) : Task where
  reg := cpu.r
  sp := cpu.sp .usr
  lr := cpu.lr .usr
  pc := cpu.pc
  cpsr := cpu.cpsr

/-- What the first `k` instructions of the load path have established, in a
mode with the bank `b`, when task `t` is the current one. -/
def LoadProgress (L : Layout board) (sched : State) (t : Fin MAX_TASK_NUMBER) (b : Bank) :
    Nat → Cpu → Prop
  | 0, _ => True
  | 1, cpu => cpu.r 0 = L.currentTask
  | 2, cpu => cpu.r 0 = L.taskAddr t
  | 3, cpu => cpu.r 0 = L.taskAddr t ∧ cpu.r 1 = (sched.tasks t).cpsr
  | 4, cpu => cpu.r 0 = L.taskAddr t ∧ cpu.spsr b = (sched.tasks t).cpsr
  | 5, cpu => cpu.r 0 = L.taskAddr t ∧ cpu.spsr b = (sched.tasks t).cpsr ∧
      cpu.lr b = L.fieldAddr t 15
  | _, cpu => cpu.spsr b = (sched.tasks t).cpsr ∧ cpu.lr b = L.fieldAddr t 15 ∧
      cpu.r = (sched.tasks t).reg ∧ cpu.sp .usr = (sched.tasks t).sp ∧
      cpu.lr .usr = (sched.tasks t).lr

/-- The load path writes no memory; up to its last instruction it stays in its
mode and does not branch, and it leaves the stack pointers of the other modes alone. -/
theorem loadCurrentTaskState_frame {k : Nat} {i : Instr} (cpu : Cpu) (ram : Ram)
    (hi : (loadCurrentTaskState L)[k]? = some i) :
    (exec (memory L) i (cpu, ram)).2 = ram ∧
    (exec (memory L) i (cpu, ram)).1.sp .irq = cpu.sp .irq ∧
    (k < 6 → (exec (memory L) i (cpu, ram)).1.cpsr = cpu.cpsr ∧
      (exec (memory L) i (cpu, ram)).1.pc = cpu.pc) := by
  have hk : k < 7 := (List.getElem?_eq_some_iff.mp hi).1
  interval_cases k
  all_goals
    obtain rfl := Option.some.inj hi
    simp [exec]

theorem loadProgress_step {k : Nat} {i : Instr} {cpu : Cpu} {b : Bank}
    (hi : (loadCurrentTaskState L)[k]? = some i) (hk : k < 6)
    (hcurrent : ram.sched.currentTask = some t) (hb : cpu.bank = b) (husr : b ≠ .usr)
    (h : LoadProgress L ram.sched t b k cpu) :
    LoadProgress L ram.sched t b (k + 1) (exec (memory L) i (cpu, ram)).1 := by
  have hpointer : L.pointer ram.sched.currentTask = L.taskAddr t := congrArg L.pointer hcurrent
  have hload : ∀ f < 17, (memory L).load ram (L.taskAddr t + BitVec.ofNat 32 (4 * f)) =
      field (ram.sched.tasks t) f := fun f hf => load_fieldAddr hf
  interval_cases k
  all_goals obtain rfl := Option.some.inj hi
  · simp [LoadProgress, exec]
  · have hr0 : cpu.r 0 = L.currentTask := h
    simp [LoadProgress, exec, hr0, load_currentTask, hpointer]
  · have hr0 : cpu.r 0 = L.taskAddr t := h
    have hcpsr := hload 16 (by decide)
    simpa [LoadProgress, exec, hr0, field] using hcpsr
  · obtain ⟨hr0, hr1⟩ := h
    simp [LoadProgress, exec, hr0, hr1, hb]
  · obtain ⟨hr0, hspsr⟩ := h
    simp [LoadProgress, exec, hr0, hspsr, hb, Layout.fieldAddr]
  · obtain ⟨hr0, hspsr, hlr⟩ := h
    refine ⟨hspsr, ?_, ?_, ?_, ?_⟩
    · simp [exec, hlr, husr]
    · funext j
      have hreg := hload j.val (by omega)
      simpa [exec, hr0, field] using hreg
    · have hsp := hload 13 (by decide)
      simpa [exec, hr0, field] using hsp
    · have hlr := hload 14 (by decide)
      simpa [exec, hr0, field] using hlr

/-- The last instruction of the load path resumes the task. -/
theorem loadProgress_return {cpu : Cpu} {b : Bank} (hb : cpu.bank = b)
    (h : LoadProgress L ram.sched t b 6 cpu) :
    context (exec (memory L) .ldmReturn (cpu, ram)).1 = ram.sched.tasks t := by
  obtain ⟨hspsr, hlr, hreg, hsp, hlr'⟩ := h
  have hpc : (memory L).load ram (L.fieldAddr t 15) = (ram.sched.tasks t).pc :=
    load_fieldAddr (by decide)
  simp only [context, exec, hb, hspsr, hlr, hreg, hsp, hlr', hpc]

/-- **The load path** resumes the current task with exactly its saved context. -/
theorem loadCurrentTaskState_spec (cpu : Cpu) (ram : Ram) (hcurrent : ram.sched.currentTask = some t)
    (husr : cpu.bank ≠ .usr) :
    context (runCode (memory L) (loadCurrentTaskState L) (cpu, ram)).1 = ram.sched.tasks t ∧
    (runCode (memory L) (loadCurrentTaskState L) (cpu, ram)).1.sp .irq = cpu.sp .irq ∧
    (runCode (memory L) (loadCurrentTaskState L) (cpu, ram)).2 = ram := by
  -- by induction on the number of instructions executed
  have hrun : ∀ k ≤ 6, ∃ cpu', runCode (memory L) ((loadCurrentTaskState L).take k) (cpu, ram) =
      (cpu', ram) ∧ cpu'.bank = cpu.bank ∧ cpu'.sp .irq = cpu.sp .irq ∧
      LoadProgress L ram.sched t cpu.bank k cpu' := by
    intro k
    induction k with
    | zero => exact fun _ => ⟨cpu, rfl, rfl, rfl, trivial⟩
    | succ k ih =>
        intro hk
        obtain ⟨cpu', hrun, hbank, hsp, hprogress⟩ := ih (by omega)
        have hlt : k < (loadCurrentTaskState L).length := by simp [loadCurrentTaskState]; omega
        have hi := List.getElem?_eq_getElem hlt
        obtain ⟨hram, hsp', hcpsr⟩ := loadCurrentTaskState_frame cpu' ram hi
        refine ⟨_, ?_, ?_, hsp'.trans hsp,
          loadProgress_step hi (by omega) hcurrent hbank husr hprogress⟩
        · rw [List.take_add_one, hi, runCode_append, hrun]
          exact Prod.ext rfl hram
        · rw [Cpu.bank, (hcpsr (by omega)).1]
          exact hbank
  obtain ⟨cpu', hrun, hbank, hsp, hprogress⟩ := hrun 6 le_rfl
  have hcode : loadCurrentTaskState L = (loadCurrentTaskState L).take 6 ++ [.ldmReturn] := rfl
  rw [hcode, runCode_append, hrun]
  exact ⟨loadProgress_return hbank hprogress, hsp, rfl⟩

/-! ### One interrupt -/

/-- `TIMER1_INTBIT`: the tick of the scheduler. -/
def TIMER1_INTBIT : Word := 1 <<< 4

/-- `TIMER3_INTBIT`: the clock. -/
def TIMER3_INTBIT : Word := 1 <<< 5

/-- `PCI3_INTBIT`: the network card. -/
def PCI3_INTBIT : Word := 1 <<< 30

/-- What compiled C code may leave in the registers and in the memory that is
not its own to keep. -/
structure Clobber where
  r : Fin 13 → Word
  lr : Word
  flags : Word
  other : Word → Word
  deriving Inhabited

/-- The registers a C function need not preserve: `r0` to `r3` and `r12`. -/
def callerSaved (i : Fin 13) : Bool :=
  i.val ≤ 3 || i.val == 12

/-- The address of one of the words that `irq_handler` has pushed. -/
def InFrame (board : Board) (address : Word) : Prop :=
  ∃ k < 4, address = frameAddr board k

instance (board : Board) (address : Word) : Decidable (InFrame board address) :=
  inferInstanceAs (Decidable (∃ k < 4, address = frameAddr board k))

/-- `irq_handler_timer`, as far as it acts on the variables of the scheduler:
it saves `r0` to `r2`, calls `schedule` and clears the timer. -/
def irqHandlerTimer (sched : State) : State :=
  schedule sched

/-- `handle_interrupt` with the given interrupt status.  Besides the tick, its
handlers (`e1000_irq_handler` for the network card, `irq_handler_clock` for the
clock) act on other memory only. -/
def handleInterrupt (board : Board) (status : Word) (clobber : Clobber) (s : Cpu × Ram) :
    Cpu × Ram :=
  ({ s.1 with
      r := fun i => if callerSaved i then clobber.r i else s.1.r i
      lr := Function.update s.1.lr s.1.bank clobber.lr
      cpsr := withFlags s.1.cpsr clobber.flags },
    { sched := if status &&& TIMER1_INTBIT ≠ 0 then irqHandlerTimer s.2.sched else s.2.sched
      other := fun a => if InFrame board a then s.2.other a else clobber.other a })

/-- `irq_handler`. -/
def irqHandler (L : Layout board) (status : Word) (clobber : Clobber) (s : Cpu × Ram) :
    Cpu × Ram :=
  let s := runCode (memory L) (irqEntry L) s
  let s := runCode (memory L) (saveCurrentTaskState L) s
  let s := runCode (memory L) [.bl (L.irqHandler + 16)] s
  let s := handleInterrupt board status clobber s
  let s := runCode (memory L) [.pop [0, 1, 2]] s
  runCode (memory L) (loadCurrentTaskState L) s

/-- An interrupt is taken, handled and returned from. -/
def interrupt (L : Layout board) (status : Word) (clobber : Clobber) (s : Cpu × Ram) :
    Cpu × Ram :=
  irqHandler L status clobber (takeIrq L.irqHandler s.1, s.2)

/-- The scheduler after an interrupt: the context of the interrupted task is
saved, and a tick makes another task current. -/
def afterInterrupt (sched : State) (t : Fin MAX_TASK_NUMBER) (saved : Task) (status : Word) :
    State :=
  let sched := { sched with tasks := Function.update sched.tasks t saved }
  if status &&& TIMER1_INTBIT ≠ 0 then irqHandlerTimer sched else sched

/-- The first two steps of `irq_handler`: the context of the interrupted code is
in the variables of the scheduler. -/
theorem irqSave_spec {cpu : Cpu} (hsp : cpu.sp .irq = irqStackAddress board)
    (hcurrent : ram.sched.currentTask = some t) :
    ∃ cpu' ram', runCode (memory L) (saveCurrentTaskState L)
        (runCode (memory L) (irqEntry L) (takeIrq L.irqHandler cpu, ram)) = (cpu', ram') ∧
      cpu'.bank = .irq ∧ cpu'.sp .irq = frameAddr board 0 ∧
      ram'.sched =
        { ram.sched with tasks := Function.update ram.sched.tasks t (context cpu) } := by
  have hbank := bank_takeIrq L.irqHandler cpu
  obtain ⟨other, hentry, hregs, hpc⟩ := irqEntry_spec (L := L) ram hbank hsp
  obtain ⟨r, hsave⟩ := saveCurrentTaskState_spec (L := L) (t := t)
    (runCode (memory L) (irqEntry L) (takeIrq L.irqHandler cpu, ram))
    (by rw [hentry]; exact hcurrent) (by rw [hentry]; simp)
  have hcontext : savedContext board
      (runCode (memory L) (irqEntry L) (takeIrq L.irqHandler cpu, ram)) = context cpu := by
    rw [hentry]
    -- `r0` to `r2` and `pc` were pushed; `irq_handler` has not touched the others
    apply task_ext
    intro f hf
    by_cases hreg : f < 13
    · by_cases hlow : f < 3
      · simpa [field, savedContext, context, hreg, hlow] using hregs ⟨f, hreg⟩ hlow
      · have hne : (⟨f, hreg⟩ : Fin 13) ≠ 0 := by
          intro heq
          have hval := congrArg Fin.val heq
          simp only [Fin.val_zero] at hval
          omega
        simp [field, savedContext, context, hreg, hlow, hne]
    · obtain rfl | rfl | rfl | rfl : f = 13 ∨ f = 14 ∨ f = 15 ∨ f = 16 := by omega
      · simp [field, savedContext, context]
      · simp [field, savedContext, context]
      · simp [field, savedContext, context, hpc]
      · have hbank' : bankOf (takeIrq L.irqHandler cpu).cpsr = .irq := hbank
        simp [field, savedContext, context, Cpu.bank, hbank']
  rw [hcontext, hentry] at hsave
  rw [hentry]
  exact ⟨_, _, hsave, hbank, by simp, rfl⟩

/-- The end of `irq_handler` gives up the pushed frame. -/
theorem irqExit_spec (ram : Ram) {cpu : Cpu} (hbank : cpu.bank = .irq)
    (hsp : cpu.sp .irq = frameAddr board 0) :
    (runCode (memory L) [.pop [0, 1, 2]] (cpu, ram)).1.bank = .irq ∧
    (runCode (memory L) [.pop [0, 1, 2]] (cpu, ram)).1.sp .irq = irqStackAddress board ∧
    (runCode (memory L) [.pop [0, 1, 2]] (cpu, ram)).2 = ram := by
  have htop : frameAddr board 3 + 4#32 = irqStackAddress board := by
    simp [frameAddr, BitVec.add_assoc]
  have hadd : frameAddr board 0 + 12#32 = frameAddr board 3 := frameAddr_add board 0 3
  have hbank' : bankOf cpu.cpsr = .irq := hbank
  simp [exec, Cpu.bank, hbank', hsp, hadd, htop]

/-- **One interrupt.**  It saves the context of the current task and resumes
the task that is current afterwards, with exactly its saved context, and the
stack of the interrupt mode is as it was. -/
theorem interrupt_spec {cpu : Cpu} {t' : Fin MAX_TASK_NUMBER} (status : Word) (clobber : Clobber)
    (hsp : cpu.sp .irq = irqStackAddress board) (hcurrent : ram.sched.currentTask = some t)
    (hnext : (afterInterrupt ram.sched t (context cpu) status).currentTask = some t') :
    (interrupt L status clobber (cpu, ram)).2.sched =
      afterInterrupt ram.sched t (context cpu) status ∧
    context (interrupt L status clobber (cpu, ram)).1 =
      (afterInterrupt ram.sched t (context cpu) status).tasks t' ∧
    (interrupt L status clobber (cpu, ram)).1.sp .irq = irqStackAddress board := by
  -- the states after the save path, the C code, the `pop` and the load path
  obtain ⟨cpu₁, ram₁, hsave, hbank₁, hsp₁, hsched₁⟩ := irqSave_spec (L := L) hsp hcurrent
  have hhandle : ∃ cpu₂ ram₂, handleInterrupt board status clobber
      (runCode (memory L) [.bl (L.irqHandler + 16)] (cpu₁, ram₁)) = (cpu₂, ram₂) ∧
      cpu₂.bank = .irq ∧ cpu₂.sp .irq = frameAddr board 0 ∧
      ram₂.sched = afterInterrupt ram.sched t (context cpu) status := by
    refine ⟨_, _, rfl, ?_, hsp₁, ?_⟩
    · simpa [handleInterrupt, exec, Cpu.bank] using hbank₁
    · simp [exec, afterInterrupt, hsched₁]
  obtain ⟨cpu₂, ram₂, hhandle, hbank₂, hsp₂, hsched₂⟩ := hhandle
  obtain ⟨hbank₃, hsp₃, hram₃⟩ := irqExit_spec (L := L) ram₂ hbank₂ hsp₂
  have hrun : interrupt L status clobber (cpu, ram) =
      runCode (memory L) (loadCurrentTaskState L)
        ((runCode (memory L) [.pop [0, 1, 2]] (cpu₂, ram₂)).1, ram₂) := by
    simp only [interrupt, irqHandler, hsave, hhandle]
    exact congrArg _ (Prod.ext rfl hram₃)
  have hload := loadCurrentTaskState_spec (L := L) (t := t')
    (runCode (memory L) [.pop [0, 1, 2]] (cpu₂, ram₂)).1 ram₂
    (by rw [hsched₂]; exact hnext) (by rw [hbank₃]; decide)
  obtain ⟨hcontext, hsp₄, hram₄⟩ := hload
  rw [hrun]
  refine ⟨?_, ?_, hsp₄.trans hsp₃⟩
  · rw [hram₄, hsched₂]
  · rw [hcontext, hsched₂]

/-! ### Enabling interrupts -/

/-- `setup_irq_stack`. -/
def setupIrqStack (board : Board) (cpu : Cpu) : Cpu :=
  let svc := ((cpu.cpsr &&& ~~~0x1f) ||| 0x12) &&& ~~~0x1f ||| CPSR_MODE_SVC
  { cpu with
    r := Function.update cpu.r 0 svc
    sp := Function.update cpu.sp .irq (irqStackAddress board)
    cpsr := svc }

/-- `enable_irq`. -/
def enableIrq (cpu : Cpu) : Cpu :=
  let cpsr := cpu.cpsr &&& ~~~0x80
  { cpu with r := Function.update cpu.r 1 cpsr, cpsr := cpsr }

/-- Interrupts are enabled in supervisor mode. -/
theorem modeBits_enableIrq (board : Board) (cpu : Cpu) :
    modeBits (enableIrq (setupIrqStack board cpu)).cpsr = CPSR_MODE_SVC := by
  apply BitVec.eq_of_getLsbD_eq
  intro i hi
  interval_cases i <;> simp [modeBits, enableIrq, setupIrqStack, CPSR_MODE_SVC]

end ContextSwitch
end Ninjastorms
