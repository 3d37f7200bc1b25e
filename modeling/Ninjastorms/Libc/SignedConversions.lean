import Ninjastorms.Libc.PrintfRendering

/-!
# Signed conversions read back

`%i`, `%L`, `%X` and `%Y` over the whole range of their arguments.
`PrintfRendering` says which text a conversion prints; here the text is read
back: `Represents` says that it is an optional minus and the digits of a number,
and which number that is.

The code makes the number positive before it takes the digits.  The least number
of a width has no positive counterpart and stays negative, and the digits are
negative, too; `signed_prints_iff` says that this is the only exception.
-/

namespace Ninjastorms
namespace Libc

/-! ### Reading a number -/

/-- The digit that a character stands for; above 9 these are capital letters. -/
def readDigit (b : Byte) : Option Nat :=
  if charByte '0' ≤ b ∧ b ≤ charByte '9' then some (b - charByte '0').toNat
  else if charByte 'A' ≤ b ∧ b ≤ charByte 'F' then some ((b - charByte 'A').toNat + 10)
  else none

/-- The number that a text of digits stands for. -/
def readNumeral (radix : Nat) (text : List Byte) : Option Nat :=
  text.foldlM (fun n b => (readDigit b).bind fun digit =>
    if digit < radix then some (n * radix + digit) else none) 0

/-- The text behind the sign. -/
def magnitude (text : List Byte) : List Byte :=
  if text.head? = some (charByte '-') then text.tail else text

/-- The number that a text with an optional minus stands for. -/
def readSigned (radix : Nat) (text : List Byte) : Option Int :=
  (readNumeral radix (magnitude text)).map fun (n : Nat) =>
    if text.head? = some (charByte '-') then -(n : Int) else n

/-- The text is the number `x` in the radix: a minus if it is negative, and digits
without leading zeros. -/
structure Represents (radix : Nat) (x : Int) (text : List Byte) : Prop where
  sign : text.head? = some (charByte '-') ↔ x < 0
  digits : ∀ b ∈ magnitude text, ∃ digit < radix, readDigit b = some digit
  nonempty : magnitude text ≠ []
  leading : (magnitude text).head? = some (charByte '0') → magnitude text = [charByte '0']
  value : readSigned radix text = some x

/-! ### The conversions -/

/-- The conversions for signed numbers. -/
inductive SignedConversion where
  | i
  | L
  | X
  | Y

/-- The width of the argument. -/
def SignedConversion.width : SignedConversion → Nat
  | i | X => 32
  | L | Y => 64

/-- The argument with its type. -/
def SignedConversion.arg : (conv : SignedConversion) → BitVec conv.width → Arg
  | i, x | X, x => .int x
  | L, x | Y, x => .longLong x

def SignedConversion.radix : SignedConversion → Nat
  | i | L => 10
  | X | Y => 16

/-- The conversion character. -/
def SignedConversion.char : SignedConversion → Byte
  | i => charByte 'i'
  | L => charByte 'L'
  | X => charByte 'X'
  | Y => charByte 'Y'

/-- The format that consists of the conversion alone. -/
def SignedConversion.format (conv : SignedConversion) : CString where
  bytes := [charByte '%', conv.char]
  noNul := by
    intro b hb
    have hcases : b = charByte '%' ∨ b = conv.char := by simpa using hb
    rcases hcases with rfl | rfl
    · decide
    · cases conv <;> decide

/-- The conversion prints a text that stands for the argument, and counts its
characters: in any format at any place, and alone. -/
def Prints (conv : SignedConversion) (x : BitVec conv.width) : Prop :=
  ∃ text, Represents conv.radix x.toInt text ∧
    (∀ printf args o, convert printf conv.char (conv.arg x :: args) o =
      .ok (args, ⟨o.charsWritten + BitVec.ofNat 32 text.length, o.uart ++ text⟩)) ∧
    ∀ uart, vprintf conv.format [conv.arg x] uart =
      some (BitVec.ofNat 32 text.length, uart ++ text)

/-! ### Numerals are read back -/

section Read

variable {radix : Nat} {letter : Char}

/-- The characters for the digits of a radix are read as these digits. -/
def ReadsDigits (radix : Nat) (letter : Char) : Prop :=
  1 < radix ∧ ∀ digit < radix, readDigit (digitByte letter digit) = some digit

instance (radix : Nat) (letter : Char) : Decidable (ReadsDigits radix letter) :=
  inferInstanceAs (Decidable (_ ∧ _))

theorem readNumeral_digits (h : ReadsDigits radix letter) {digits : List Nat}
    (hdigits : ∀ d ∈ digits, d < radix) :
    readNumeral radix (digits.reverse.map (digitByte letter)) = some (Nat.ofDigits radix digits) := by
  induction digits with
  | nil => rfl
  | cons d digits ih =>
      have hd : d < radix := hdigits d List.mem_cons_self
      have hrest := ih fun e he => hdigits e (List.mem_cons_of_mem d he)
      rw [readNumeral] at hrest ⊢
      rw [List.reverse_cons, List.map_append, List.foldlM_append, hrest, Nat.ofDigits_cons]
      simp [h.2 d hd, hd, Nat.mul_comm, Nat.add_comm]

/-- A number is read back from its numeral. -/
theorem readNumeral_numeral (h : ReadsDigits radix letter) (n : Nat) :
    readNumeral radix (numeral radix letter n) = some n := by
  unfold numeral
  by_cases hn : n = 0
  · subst hn
    have hzero : ∀ d ∈ [0], d < radix := by simp [Nat.zero_lt_of_lt h.1]
    exact readNumeral_digits h hzero
  · rw [if_neg hn, readNumeral_digits h fun d hd => Nat.digits_lt_base h.1 hd, Nat.ofDigits_digits]

/-- What a numeral consists of. -/
theorem mem_numeral (h : ReadsDigits radix letter) {n : Nat} {b : Byte}
    (hb : b ∈ numeral radix letter n) : ∃ digit < radix, b = digitByte letter digit := by
  obtain ⟨digit, hdigit, rfl⟩ := List.mem_map.mp hb
  refine ⟨digit, ?_, rfl⟩
  split at hdigit
  · rw [List.mem_singleton.mp hdigit]
    exact Nat.zero_lt_of_lt h.1
  · exact Nat.digits_lt_base h.1 (List.mem_reverse.mp hdigit)

theorem numeral_ne_nil (n : Nat) : numeral radix letter n ≠ [] := by
  unfold numeral
  by_cases hn : n = 0
  · simp [hn]
  · rw [if_neg hn, ne_eq, List.map_eq_nil_iff, List.reverse_eq_nil_iff]
    exact Nat.digits_ne_nil_iff_ne_zero.mpr hn

/-- The character 0 stands in front of the numeral of 0 only. -/
theorem numeral_of_leading_zero (h : ReadsDigits radix letter) {n : Nat}
    (hlead : (numeral radix letter n).head? = some (charByte '0')) :
    numeral radix letter n = [charByte '0'] := by
  have hread : ∀ digit < radix, digitByte letter digit = charByte '0' → digit = 0 := by
    intro digit hdigit heq
    have hval := h.2 digit hdigit
    rw [heq, show readDigit (charByte '0') = some 0 by decide] at hval
    exact (Option.some.inj hval).symm
  unfold numeral at hlead ⊢
  by_cases hn : n = 0
  · rw [if_pos hn]
    rfl
  · exfalso
    have hne : Nat.digits radix n ≠ [] := Nat.digits_ne_nil_iff_ne_zero.mpr hn
    rw [if_neg hn, List.head?_map, List.head?_reverse, List.getLast?_eq_some_getLast hne,
      Option.map_some, Option.some.injEq] at hlead
    have hlast := hread _ (Nat.digits_lt_base h.1 (List.getLast_mem hne)) hlead
    exact Nat.getLast_digit_ne_zero radix hn hlast

/-- No digit is a minus. -/
theorem numeral_head_ne_minus (h : ReadsDigits radix letter) (n : Nat) :
    (numeral radix letter n).head? ≠ some (charByte '-') := by
  intro hhead
  obtain ⟨digit, hdigit, hminus⟩ := mem_numeral h (List.mem_of_mem_head? hhead)
  have hval := h.2 digit hdigit
  rw [← hminus, show readDigit (charByte '-') = none by decide] at hval
  exact absurd hval (by simp)

theorem magnitude_signedNumeral (h : ReadsDigits radix letter) (x : Int) :
    magnitude (signedNumeral radix letter x) = numeral radix letter x.natAbs ∧
    ((signedNumeral radix letter x).head? = some (charByte '-') ↔ x < 0) := by
  unfold signedNumeral magnitude
  by_cases hx : x < 0
  · simp [hx]
  · simp [hx, numeral_head_ne_minus h]

/-- **A signed numeral represents its number.** -/
theorem represents_signedNumeral (h : ReadsDigits radix letter) (x : Int) :
    Represents radix x (signedNumeral radix letter x) := by
  obtain ⟨hmagnitude, hsign⟩ := magnitude_signedNumeral h x
  refine ⟨hsign, ?_, ?_, ?_, ?_⟩
  · rw [hmagnitude]
    intro b hb
    obtain ⟨digit, hdigit, rfl⟩ := mem_numeral h hb
    exact ⟨digit, hdigit, h.2 digit hdigit⟩
  · rw [hmagnitude]
    exact numeral_ne_nil _
  · rw [hmagnitude]
    exact numeral_of_leading_zero h
  · rw [readSigned, hmagnitude, readNumeral_numeral h, Option.map_some]
    by_cases hx : x < 0
    · rw [if_pos (hsign.mpr hx)]
      congr 1
      omega
    · rw [if_neg (mt hsign.mp hx)]
      congr 1
      omega

/-- A representation has no newline in it. -/
theorem Represents.crlf_eq {x : Int} {text : List Byte} (h : Represents radix x text) :
    crlf text = text := by
  have hno : newline ∉ text := by
    intro hmem
    have hmag : newline ∈ magnitude text := by
      unfold magnitude
      split
      · rename_i hminus
        obtain ⟨rest, rfl⟩ := List.head?_eq_some_iff.mp hminus
        exact (List.mem_cons.mp hmem).resolve_left (by decide)
      · exact hmem
    obtain ⟨digit, -, hread⟩ := h.digits _ hmag
    exact absurd hread (by simp [show readDigit newline = none by decide])
  have hsame : ∀ b ∈ text, (if b = newline then [carriageReturn, newline] else [b]) = [b] :=
    fun b hb => if_neg fun (heq : b = newline) => hno (heq ▸ hb)
  rw [crlf, List.flatMap_congr hsame, List.flatMap_singleton']

end Read

/-! ### What is printed -/

/-- The letter for the digit 10. -/
def SignedConversion.letter : SignedConversion → Char
  | i | L => 'a'
  | X | Y => 'A'

theorem SignedConversion.readsDigits (conv : SignedConversion) :
    ReadsDigits conv.radix conv.letter := by
  cases conv <;> decide

/-- The conversion of any number but the least one. -/
theorem convert_signed (printf : Printf) (conv : SignedConversion) {x : BitVec conv.width}
    (hx : x ≠ BitVec.intMin conv.width) (args : List Arg) (o : Out) :
    convert printf conv.char (conv.arg x :: args) o =
      .ok (args, o.written (signedNumeral conv.radix conv.letter x.toInt)) := by
  cases conv with
  | i => exact putInt_eq (putNumber_signed wellFormed_formatI rfl hx o) args
  | L => exact putLongLong_eq (putNumber_signed wellFormed_formatUpperL rfl hx o) args
  | X => exact putInt_eq (putNumber_signed wellFormed_formatUpperX rfl hx o) args
  | Y => exact putLongLong_eq (putNumber_signed wellFormed_formatUpperY rfl hx o) args

/-- A format that is one conversion. -/
theorem vprintf_single {conv : SignedConversion} {x : BitVec conv.width} {uart : List Byte}
    {o : Out} (h : convert (vprintfAt 1) conv.char [conv.arg x] ⟨0, uart⟩ = .ok ([], o)) :
    vprintf conv.format [conv.arg x] uart = some (o.charsWritten, o.uart) := by
  have hformat : conv.format.bytes = [charByte '%', conv.char] := rfl
  rw [vprintf, hformat, vprintfAt_succ, vprintfLoop_percent, h]
  rfl

theorem prints_of_ne {conv : SignedConversion} {x : BitVec conv.width}
    (hx : x ≠ BitVec.intMin conv.width) : Prints conv x := by
  have hrep := represents_signedNumeral conv.readsDigits x.toInt
  have hconvert : ∀ printf args o, convert printf conv.char (conv.arg x :: args) o =
      .ok (args, ⟨o.charsWritten + BitVec.ofNat 32 (signedNumeral conv.radix conv.letter
        x.toInt).length, o.uart ++ signedNumeral conv.radix conv.letter x.toInt⟩) := by
    intro printf args o
    rw [convert_signed printf conv hx, Out.written, hrep.crlf_eq]
  refine ⟨_, hrep, hconvert, fun uart => ?_⟩
  rw [vprintf_single (hconvert _ _ _)]
  exact congrArg (fun n => some (n, _)) (BitVec.zero_add _)

/-- What the least number is printed as: nothing that can be read. -/
theorem not_prints_intMin (conv : SignedConversion) :
    ¬ Prints conv (BitVec.intMin conv.width) := by
  rintro ⟨text, hrep, -, hprint⟩
  have hnone : ((vprintf conv.format [conv.arg (BitVec.intMin conv.width)] []).bind fun r =>
      readSigned conv.radix r.2) = none := by
    cases conv <;> decide +kernel
  rw [hprint []] at hnone
  have hvalue := hrep.value
  exact absurd (hvalue.symm.trans hnone) (by simp)

/-- **Signed conversions.**  Under each of the four, every number is printed as a
text that can be read back, except for the least number of the width. -/
theorem signed_prints_iff (conv : SignedConversion) (x : BitVec conv.width) :
    Prints conv x ↔ x ≠ BitVec.intMin conv.width := by
  refine ⟨?_, prints_of_ne⟩
  rintro hprints rfl
  exact not_prints_intMin conv hprints

/-- `%i` of -2147483648. -/
theorem intMin_not_printed : ¬ Prints .i (0x80000000 : Word) :=
  not_prints_intMin .i

end Libc
end Ninjastorms
