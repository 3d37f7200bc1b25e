import Ninjastorms.Libc.PrintfRendering

/-!
# The digit buffers of `vprintf`

Each branch for numbers stores its digits in an array `tmp` and prints them
backwards.  The array has 10 elements for 32 bits and 20 for 64 bits, as many as
the longest decimal number has digits.

Here the two loops are taken turn by turn, without the bound that `fillDigits`
puts on the first one, and with reads that are checked.  `magnitude_after` says
what is left of the number after some turns, also for the least number of a
width, which stays negative; `digits_stay_in_tmp` is the result for every
conversion and every argument.
-/

namespace Ninjastorms
namespace Libc

/-! ### The loops, turn by turn -/

section Loops

variable (f : NumberFormat) {w : Nat}

/-- The variables of the loop `while (x)`. -/
structure DigitLoop (w : Nat) where
  tmp : List Byte
  i : Nat
  x : BitVec w

/-- The body of the loop. -/
def digitTurn (s : DigitLoop w) : DigitLoop w where
  tmp := s.tmp.set s.i ((f.rem s.x).setWidth 8)
  i := s.i + 1
  x := f.quot s.x

/-- The variables after some turns, whatever `x` is then. -/
def digitsAfter (x : BitVec w) : Nat → DigitLoop w
  | 0 => ⟨List.replicate f.size 0, 0, x⟩
  | k + 1 => digitTurn f (digitsAfter x k)

/-- The value of `x` when the loop begins. -/
def NumberFormat.loopArg (x : BitVec w) : BitVec w :=
  if f.signed && x.slt 0 then x * (-1) else x

/-- The index at which the second loop begins. -/
def firstIndex (i : Nat) : Nat :=
  if i ≠ 0 then i - 1 else i

/-- `tmp[i]`; a read behind the end is undefined. -/
def readTmp (tmp : List Byte) (i : Nat) : Except Exit Byte :=
  match tmp[i]? with
  | some digit => .ok digit
  | none => .error .undefined

/-- The loop `for ( ; i >= 0; --i)`, with checked reads. -/
def putDigitsIn (tmp : List Byte) : Nat → Out → Except Exit Out
  | 0, o => do
      let digit ← readTmp tmp 0
      let o ← put (f.digitChar digit) o
      pure (o.add 1)
  | i + 1, o => do
      let digit ← readTmp tmp (i + 1)
      let o ← put (f.digitChar digit) o
      putDigitsIn tmp i (o.add 1)

/-- A branch for numbers, with checked reads. -/
def putNumberIn (x : BitVec w) (o : Out) : Except Exit Out :=
  let sign := f.signed && x.slt 0
  let o := o.add (if sign then 1 else 0)
  match fillDigits f f.size (List.replicate f.size 0) 0 (f.loopArg x) with
  | none => .error .undefined
  | some (tmp, i) => do
      let o ← if sign then put ((charByte '-').setWidth 32) o else .ok o
      putDigitsIn f tmp (firstIndex i) o

end Loops

/-! ### What is promised -/

/-- The first loop ends after `turns` turns, each of which writes inside of `tmp`;
the second one only reads inside of `tmp`, what has been written or is still 0. -/
structure StaysInTmp (f : NumberFormat) {w : Nat} (x : BitVec w) (turns : Nat) : Prop where
  runs : ∀ k < turns, (digitsAfter f x k).x ≠ 0
  stops : (digitsAfter f x turns).x = 0
  writes : ∀ k < turns, (digitsAfter f x k).i < f.size
  reads : ∀ i ≤ firstIndex (digitsAfter f x turns).i, i < f.size ∧
    ((∃ k < turns, (digitsAfter f x k).i = i) ∨ (digitsAfter f x turns).tmp[i]? = some 0)

/-- The conversions for numbers. -/
inductive NumericConversion where
  | i
  | l
  | L
  | x
  | X
  | y
  | Y

/-- The width of the argument. -/
def NumericConversion.width : NumericConversion → Nat
  | i | x | X => 32
  | l | L | y | Y => 64

/-- The argument with its type. -/
def NumericConversion.arg : (conv : NumericConversion) → BitVec conv.width → Arg
  | i, n | x, n | X, n => .int n
  | l, n | L, n | y, n | Y, n => .longLong n

/-- What the branch of the conversion is like. -/
def NumericConversion.numberFormat : NumericConversion → NumberFormat
  | i => formatI
  | l => formatLowerL
  | L => formatUpperL
  | x => formatLowerX
  | X => formatUpperX
  | y => formatLowerY
  | Y => formatUpperY

/-- The conversion character. -/
def NumericConversion.char : NumericConversion → Byte
  | i => charByte 'i'
  | l => charByte 'l'
  | L => charByte 'L'
  | x => charByte 'x'
  | X => charByte 'X'
  | y => charByte 'y'
  | Y => charByte 'Y'

/-! ### What is left of the number -/

section Magnitude

variable {f : NumberFormat} {w : Nat} {x : BitVec w}

/-- The absolute value, in the type of the format. -/
def NumberFormat.magnitude (f : NumberFormat) (x : BitVec w) : Nat :=
  if f.signed then x.toInt.natAbs else x.toNat

theorem magnitude_eq_zero : f.magnitude x = 0 ↔ x = 0 := by
  unfold NumberFormat.magnitude
  cases f.signed with
  | false =>
      rw [if_neg Bool.false_ne_true]
      exact BitVec.toNat_inj (y := 0)
  | true =>
      rw [if_pos rfl, Int.natAbs_eq_zero, ← BitVec.toInt_zero]
      exact BitVec.toInt_inj

/-- It fits into the array. -/
theorem magnitude_lt (h : f.WellFormed w) (x : BitVec w) :
    f.magnitude x < f.radix ^ f.size := by
  have hlt := x.isLt
  have hroom := h.room
  unfold NumberFormat.magnitude
  cases f.signed with
  | false =>
      rw [if_neg Bool.false_ne_true]
      omega
  | true =>
      rw [if_pos rfl, BitVec.toInt_eq_toNat_cond]
      split <;> omega

/-- Both divisions divide the absolute value, also that of the least number. -/
theorem magnitude_quot (h : f.WellFormed w) (x : BitVec w) :
    f.magnitude (f.quot x) = f.magnitude x / f.radix := by
  have hlt := h.two_mul_radix_lt
  have hval : (BitVec.ofNat w f.radix).toNat = f.radix := by
    rw [BitVec.toNat_ofNat]
    exact Nat.mod_eq_of_lt (by omega)
  unfold NumberFormat.magnitude NumberFormat.quot
  cases f.signed with
  | false =>
      simp only [Bool.false_eq_true, if_false]
      rw [BitVec.toNat_udiv, hval]
  | true =>
      have hint : (BitVec.ofNat w f.radix).toInt = (f.radix : Int) := by
        rw [BitVec.toInt_eq_toNat_of_lt (by omega), hval]
      have hne : BitVec.ofNat w f.radix ≠ -1#w := by
        intro heq
        have hneg := congrArg BitVec.toInt heq
        have hwidth := h.width
        rw [hint, BitVec.neg_one_eq_allOnes, BitVec.toInt_allOnes, if_pos (by omega)] at hneg
        omega
      simp only [if_true]
      rw [BitVec.toInt_sdiv_of_ne_or_ne _ _ (Or.inr hne), hint, Int.natAbs_tdiv, Int.natAbs_natCast]
      rfl

/-- **What is left** after some turns. -/
theorem magnitude_after (h : f.WellFormed w) (x : BitVec w) (k : Nat) :
    f.magnitude (digitsAfter f x k).x = f.magnitude x / f.radix ^ k := by
  induction k with
  | zero => rw [Nat.pow_zero, Nat.div_one, digitsAfter]
  | succ k ih =>
      have hturn : (digitsAfter f x (k + 1)).x = f.quot (digitsAfter f x k).x := rfl
      rw [hturn, magnitude_quot h, ih, Nat.div_div_eq_div_mul, Nat.pow_succ]

end Magnitude

/-! ### The loops stay inside -/

section Stay

variable {f : NumberFormat} {w : Nat} {x : BitVec w}

/-- The index counts the turns. -/
theorem index_after (f : NumberFormat) (x : BitVec w) (k : Nat) : (digitsAfter f x k).i = k := by
  induction k with
  | zero => rfl
  | succ k ih => exact congrArg (· + 1) ih

theorem length_after (f : NumberFormat) (x : BitVec w) (k : Nat) :
    (digitsAfter f x k).tmp.length = f.size := by
  induction k with
  | zero => exact List.length_replicate
  | succ k ih => exact List.length_set.trans ih

/-- **The buffer is long enough.**  There are as many turns as the absolute value has
digits. -/
theorem staysInTmp (h : f.WellFormed w) (x : BitVec w) :
    StaysInTmp f x (Nat.digits f.radix (f.magnitude x)).length := by
  have hradix := h.bounds.1
  have hsize : (Nat.digits f.radix (f.magnitude x)).length ≤ f.size :=
    (Nat.digits_length_le_iff hradix _).mpr (magnitude_lt h x)
  have hpos := h.size_pos
  refine ⟨fun k hk hzero => ?_, ?_, fun k hk => ?_, fun i hi => ?_⟩
  · have hleft := magnitude_after h x k
    rw [magnitude_eq_zero.mpr hzero] at hleft
    have hlarge := (Nat.lt_digits_length_iff hradix (f.magnitude x)).mp hk
    have hturn := Nat.div_pos hlarge (Nat.pow_pos (Nat.zero_lt_of_lt hradix))
    omega
  · rw [← magnitude_eq_zero (f := f), magnitude_after h]
    exact Nat.div_eq_of_lt (Nat.lt_base_pow_length_digits hradix)
  · rw [index_after]
    exact Nat.lt_of_lt_of_le hk hsize
  · rw [index_after, firstIndex] at hi
    by_cases hnone : (Nat.digits f.radix (f.magnitude x)).length = 0
    · -- nothing has been written
      rw [if_neg (not_not.mpr hnone), hnone] at hi
      obtain rfl := Nat.le_zero.mp hi
      refine ⟨hpos, Or.inr ?_⟩
      rw [hnone]
      exact List.getElem?_replicate_of_lt hpos
    · rw [if_pos hnone] at hi
      exact ⟨by omega, Or.inl ⟨i, by omega, index_after f x i⟩⟩

/-- As long as the loop stays in `tmp`, it is `fillDigits`. -/
theorem fillDigits_after {turns k : Nat} (h : StaysInTmp f x turns) (hk : k ≤ turns) :
    fillDigits f f.size (List.replicate f.size 0) 0 x =
      fillDigits f (f.size - k) (digitsAfter f x k).tmp (digitsAfter f x k).i
        (digitsAfter f x k).x := by
  induction k with
  | zero => rfl
  | succ k ih =>
      have hlt : k < f.size := by
        have hwrite := h.writes k hk
        rwa [index_after] at hwrite
      have hroom : f.size - k = f.size - (k + 1) + 1 := by omega
      rw [ih (Nat.le_of_succ_le hk), hroom, fillDigits, if_neg (h.runs k hk)]
      rfl

theorem fillDigits_of_staysInTmp {turns : Nat} (h : StaysInTmp f x turns) :
    fillDigits f f.size (List.replicate f.size 0) 0 x =
      some ((digitsAfter f x turns).tmp, (digitsAfter f x turns).i) := by
  rw [fillDigits_after h (Nat.le_refl turns), fillDigits.eq_def, if_pos h.stops]

theorem readTmp_of_lt {tmp : List Byte} {i : Nat} (hi : i < tmp.length) :
    readTmp tmp i = .ok (tmp.getD i 0) := by
  rw [readTmp, List.getD_eq_getElem?_getD, List.getElem?_eq_getElem hi, Option.getD_some]

/-- Inside of `tmp`, a checked read is a plain one. -/
theorem putDigitsIn_eq {tmp : List Byte} {i : Nat} (hi : i < tmp.length) :
    putDigitsIn f tmp i = putDigits f tmp i := by
  funext o
  induction i generalizing o with
  | zero =>
      rw [putDigitsIn, readTmp_of_lt hi]
      rfl
  | succ i ih =>
      have hrest : putDigitsIn f tmp i = putDigits f tmp i := funext (ih (Nat.lt_of_succ_lt hi))
      rw [putDigitsIn, readTmp_of_lt hi, hrest]
      rfl

theorem bind_ne_undefined {α β : Type} {m : Except Exit α} {next : α → Except Exit β}
    (hm : m ≠ .error .undefined) (hnext : ∀ a, next a ≠ .error .undefined) :
    (m >>= next) ≠ .error .undefined := by
  cases m with
  | error e => exact fun heq => hm (congrArg Except.error (Except.error.inj heq))
  | ok a => exact hnext a

/-- A character is written, or `vprintf` returns; it is never undefined. -/
theorem put_ne_undefined (c : Word) (o : Out) : put c o ≠ .error .undefined := by
  unfold put
  simp only
  split <;> simp

theorem putDigits_ne_undefined (tmp : List Byte) (i : Nat) (o : Out) :
    putDigits f tmp i o ≠ .error .undefined := by
  induction i generalizing o with
  | zero => exact bind_ne_undefined (put_ne_undefined _ _) fun o' => by simp [pure, Except.pure]
  | succ i ih => exact bind_ne_undefined (put_ne_undefined _ _) fun o' => ih _

/-- A branch for numbers reads inside of `tmp` only, and is never undefined. -/
theorem putNumberIn_eq (h : f.WellFormed w) (x : BitVec w) (o : Out) :
    putNumberIn f x o = putNumber f x o ∧ putNumber f x o ≠ .error .undefined := by
  obtain ⟨tmp, i, hfill, hfirst⟩ : ∃ tmp i,
      fillDigits f f.size (List.replicate f.size 0) 0 (f.loopArg x) = some (tmp, i) ∧
        firstIndex i < tmp.length := by
    have hstay := staysInTmp h (f.loopArg x)
    refine ⟨_, _, fillDigits_of_staysInTmp hstay, ?_⟩
    rw [length_after]
    exact (hstay.reads _ (Nat.le_refl _)).1
  have hfill' : fillDigits f f.size (List.replicate f.size 0) 0
      (if f.signed && x.slt 0 then x * (-1) else x) = some (tmp, i) := hfill
  constructor
  · simp only [putNumberIn, putNumber, hfill, hfill', putDigitsIn_eq hfirst]
    rfl
  · simp only [putNumber, hfill']
    split
    · exact bind_ne_undefined (put_ne_undefined _ _) fun o' => putDigits_ne_undefined _ _ _
    · exact bind_ne_undefined (by simp) fun o' => putDigits_ne_undefined _ _ _

end Stay

/-! ### The conversions -/

theorem NumericConversion.wellFormed (conv : NumericConversion) :
    conv.numberFormat.WellFormed conv.width := by
  cases conv with
  | i => exact wellFormed_formatI
  | l => exact wellFormed_formatLowerL
  | L => exact wellFormed_formatUpperL
  | x => exact wellFormed_formatLowerX
  | X => exact wellFormed_formatUpperX
  | y => exact wellFormed_formatLowerY
  | Y => exact wellFormed_formatUpperY

theorem putInt_ne_undefined {f : NumberFormat} (h : f.WellFormed 32) (n : Word) (args : List Arg)
    (o : Out) : putInt f (.int n :: args) o ≠ .error .undefined :=
  bind_ne_undefined (m := putNumber f n o) (putNumberIn_eq h n o).2 fun _ => by
    simp [pure, Except.pure]

theorem putLongLong_ne_undefined {f : NumberFormat} (h : f.WellFormed 64) (n : DoubleWord)
    (args : List Arg) (o : Out) : putLongLong f (.longLong n :: args) o ≠ .error .undefined :=
  bind_ne_undefined (m := putNumber f n o) (putNumberIn_eq h n o).2 fun _ => by
    simp [pure, Except.pure]

/-- The `switch` finds the branch of the conversion. -/
theorem convert_ne_undefined (printf : Printf) (conv : NumericConversion)
    (n : BitVec conv.width) (args : List Arg) (o : Out) :
    convert printf conv.char (conv.arg n :: args) o ≠ .error .undefined := by
  cases conv with
  | i => exact putInt_ne_undefined wellFormed_formatI n args o
  | l => exact putLongLong_ne_undefined wellFormed_formatLowerL n args o
  | L => exact putLongLong_ne_undefined wellFormed_formatUpperL n args o
  | x => exact putInt_ne_undefined wellFormed_formatLowerX n args o
  | X => exact putInt_ne_undefined wellFormed_formatUpperX n args o
  | y => exact putLongLong_ne_undefined wellFormed_formatLowerY n args o
  | Y => exact putLongLong_ne_undefined wellFormed_formatUpperY n args o

/-- **The digit buffers.**  Under each of the seven conversions, whatever the number
is: the first loop ends and writes inside of `tmp`, and the second one reads
inside of it, so that nothing undefined happens. -/
theorem digits_stay_in_tmp (conv : NumericConversion) (n : BitVec conv.width) :
    (∃ turns, StaysInTmp conv.numberFormat (conv.numberFormat.loopArg n) turns) ∧
    (∀ o, putNumberIn conv.numberFormat n o = putNumber conv.numberFormat n o) ∧
    ∀ printf args o, convert printf conv.char (conv.arg n :: args) o ≠ .error .undefined :=
  ⟨⟨_, staysInTmp conv.wellFormed _⟩, fun o => (putNumberIn_eq conv.wellFormed n o).1,
    fun printf args o => convert_ne_undefined printf conv n args o⟩

/-- The least number takes all ten elements. -/
example : (Nat.digits 10 (formatI.magnitude (BitVec.intMin 32))).length = formatI.size := by
  have hmin : formatI.magnitude (BitVec.intMin 32) = 2147483648 := by decide
  rw [hmin]
  simp [formatI]

end Libc
end Ninjastorms
