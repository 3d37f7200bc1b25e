import Mathlib.Data.Nat.Digits.Lemmas
import Ninjastorms.Libc.Printf

/-!
# What `printf` prints

`reference` says what a format and its arguments render to, in terms of the
values of the arguments: a number is written with the digits that `Nat.digits`
gives for its absolute value.

* `fillDigits_spec` and `putDigits_spec` are the two loops of a branch for
  numbers: the first one stores the digits, last digit first, and never leaves
  `tmp`; the second one prints them backwards.
* `convert_spec` is one conversion, `vprintfLoop_spec` the induction over the
  format and the arguments.
-/

namespace Ninjastorms
namespace Libc

/-! ### The reference -/

/-- The character for a digit; digits above 9 begin at `letter`. -/
def digitByte (letter : Char) (digit : Nat) : Byte :=
  if digit < 10 then BitVec.ofNat 8 ('0'.toNat + digit)
  else BitVec.ofNat 8 (letter.toNat + (digit - 10))

/-- A number without leading zeros; zero is the single digit 0. -/
def numeral (radix : Nat) (letter : Char) (n : Nat) : List Byte :=
  (if n = 0 then [0] else (Nat.digits radix n).reverse).map (digitByte letter)

/-- A number with a leading minus if it is negative. -/
def signedNumeral (radix : Nat) (letter : Char) (x : Int) : List Byte :=
  (if x < 0 then [charByte '-'] else []) ++ numeral radix letter x.natAbs

/-- The conversion characters that `vprintf` knows. -/
def Supported (c : Byte) : Prop :=
  c ∈ textBytes "%csilLxXyY"

instance (c : Byte) : Decidable (Supported c) :=
  inferInstanceAs (Decidable (c ∈ _))

/-- The text for a conversion and the argument it consumes. -/
def conversionText (c : Byte) (args : List Arg) : List Byte :=
  if c = charByte '%' then [charByte '%']
  else
    match args with
    | .int x :: _ =>
        if c = charByte 'c' then [x.setWidth 8]
        else if c = charByte 'i' then signedNumeral 10 'a' x.toInt
        else if c = charByte 'x' then numeral 16 'a' x.toNat
        else signedNumeral 16 'A' x.toInt
    | .longLong x :: _ =>
        if c = charByte 'l' then numeral 10 'a' x.toNat
        else if c = charByte 'L' then signedNumeral 10 'a' x.toInt
        else if c = charByte 'y' then numeral 16 'a' x.toNat
        else signedNumeral 16 'A' x.toInt
    | .str none :: _ => nullText
    | .str (some s) :: _ => s.bytes
    | [] => []

/-- Every conversion but `%%` consumes one argument. -/
def argsAfter (c : Byte) (args : List Arg) : List Arg :=
  if c = charByte '%' then args else args.tail

/-- The argument for a conversion has its type, and is in its range. -/
def ArgMatches (c : Byte) (args : List Arg) : Prop :=
  c = charByte '%' ∨
    match args with
    | .int x :: _ =>
        c = charByte 'c' ∧ x.toNat ≤ 255 ∨
        (c = charByte 'i' ∨ c = charByte 'X') ∧ x ≠ BitVec.intMin 32 ∨ c = charByte 'x'
    | .longLong x :: _ =>
        (c = charByte 'L' ∨ c = charByte 'Y') ∧ x ≠ BitVec.intMin 64 ∨
        c = charByte 'l' ∨ c = charByte 'y'
    | .str _ :: _ => c = charByte 's'
    | [] => False

/-- The arguments match the conversions of the format, up to the first one that is
not supported. -/
def Matches : List Byte → List Arg → Prop
  | [], _ => True
  | c :: rest, args =>
      if c = charByte '%' then
        match rest with
        | [] => True
        | c :: rest => Supported c → ArgMatches c args ∧ Matches rest (argsAfter c args)
      else Matches rest args

instance (c : Byte) : (args : List Arg) → Decidable (ArgMatches c args)
  | .int _ :: _ => inferInstanceAs (Decidable (_ ∨ _ ∧ _ ∨ (_ ∨ _) ∧ _ ∨ _))
  | .longLong _ :: _ => inferInstanceAs (Decidable (_ ∨ (_ ∨ _) ∧ _ ∨ _ ∨ _))
  | .str _ :: _ => inferInstanceAs (Decidable (_ ∨ _))
  | [] => inferInstanceAs (Decidable (_ ∨ False))

theorem matches_percent (c : Byte) (rest : List Byte) (args : List Arg) :
    Matches (charByte '%' :: c :: rest) args ↔
      (Supported c → ArgMatches c args ∧ Matches rest (argsAfter c args)) :=
  Iff.rfl

theorem matches_cons {b : Byte} (hb : b ≠ charByte '%') (rest : List Byte) (args : List Arg) :
    Matches (b :: rest) args ↔ Matches rest args := by
  conv_lhs => rw [Matches.eq_def]
  simp only [if_neg hb]

instance decidableMatches : (format : List Byte) → (args : List Arg) →
    Decidable (Matches format args)
  | [], _ => .isTrue trivial
  | [b], args =>
      if hb : b = charByte '%' then .isTrue (hb ▸ trivial)
      else .isTrue ((matches_cons hb [] args).mpr trivial)
  | b :: c :: rest, args =>
      if hb : b = charByte '%' then
        have := decidableMatches rest (argsAfter c args)
        decidable_of_iff (Supported c → ArgMatches c args ∧ Matches rest (argsAfter c args))
          (hb ▸ (matches_percent c rest args).symm)
      else
        have := decidableMatches (c :: rest) args
        decidable_of_iff (Matches (c :: rest) args) (matches_cons hb (c :: rest) args).symm

/-- The text, and the character behind `%` at which it ends too early, if any; 0
stands for the end of the format. -/
structure Rendering where
  text : List Byte
  stop : Option Byte
  deriving DecidableEq

def Rendering.prepend (text : List Byte) (r : Rendering) : Rendering :=
  { r with text := text ++ r.text }

/-- What a format renders to. -/
def reference : List Byte → List Arg → Rendering
  | [], _ => ⟨[], none⟩
  | c :: rest, args =>
      if c = charByte '%' then
        match rest with
        | [] => ⟨[], some 0⟩
        | c :: rest =>
            if Supported c then
              (reference rest (argsAfter c args)).prepend (conversionText c args)
            else ⟨[], some c⟩
      else (reference rest args).prepend [c]

/-- Every newline preceded by a carriage return. -/
def crlf (text : List Byte) : List Byte :=
  text.flatMap fun b => if b = newline then [carriageReturn, newline] else [b]

/-- The line about an unsupported conversion character. -/
def errorLine (c : Byte) : List Byte :=
  textBytes "\nprintf: unimplemented conversion character '" ++ [c] ++ textBytes "'\n"

/-- The bytes that reach the UART. -/
def Rendering.bytes (r : Rendering) : List Byte :=
  crlf r.text ++ match r.stop with
    | none => []
    | some c => crlf (errorLine c)

/-! ### Characters -/

/-- What has been written, and counted, after `text`. -/
def Out.written (o : Out) (text : List Byte) : Out :=
  ⟨o.charsWritten + BitVec.ofNat 32 text.length, o.uart ++ crlf text⟩

@[simp] theorem crlf_nil : crlf [] = [] := rfl

@[simp] theorem crlf_append (text text' : List Byte) :
    crlf (text ++ text') = crlf text ++ crlf text' :=
  List.flatMap_append

@[simp] theorem written_nil (o : Out) : o.written [] = o := by
  simp [Out.written]

@[simp] theorem written_written (o : Out) (text text' : List Byte) :
    (o.written text).written text' = o.written (text ++ text') := by
  simp [Out.written, BitVec.ofNat_add, BitVec.add_assoc]

/-- A character between 0 and 255 is written, and `putchar` does not return `EOF`. -/
theorem put_eq {c : Word} (h : c.toNat ≤ 255) (o : Out) :
    put c o = .ok { o with uart := o.uart ++ crlf [c.setWidth 8] } := by
  have hEof : c ≠ EOF := by
    rintro rfl
    exact absurd h (by decide)
  have hnewline : c = newline.setWidth 32 ↔ c.setWidth 8 = newline := by
    constructor
    · rintro rfl
      decide
    · intro heq
      have hval := congrArg BitVec.toNat heq
      rw [BitVec.toNat_setWidth, Nat.mod_eq_of_lt (by omega)] at hval
      exact BitVec.eq_of_toNat_eq hval
  have hput : put c o = .ok { o with uart := (putchar c o.uart).2 } := if_neg hEof
  rw [hput, putchar]
  by_cases heq : c = newline.setWidth 32
  · simp [crlf, heq, newline]
  · simp [crlf, heq, mt hnewline.mpr heq]

theorem toNat_setWidth_byte (b : Byte) : (b.setWidth 32 : Word).toNat ≤ 255 := by
  have hb := b.isLt
  rw [BitVec.toNat_setWidth]
  omega

@[simp] theorem setWidth_byte (b : Byte) : (b.setWidth 32 : Word).setWidth 8 = b := by
  apply BitVec.eq_of_toNat_eq
  simp

theorem putString_eq (text : List Byte) (o : Out) : putString text o = .ok (o.written text) := by
  induction text generalizing o with
  | nil => simp [putString]
  | cons b rest ih =>
      rw [putString, put_eq (toNat_setWidth_byte b), setWidth_byte]
      refine (ih _).trans ?_
      exact congrArg Except.ok (written_written o [b] rest)

/-! ### Numbers -/

/-- A format that can hold every number of `w` bits. -/
structure NumberFormat.WellFormed (f : NumberFormat) (w : Nat) : Prop where
  radix : f.letter = none ∧ f.radix = 10 ∨ (f.letter = some 'a' ∨ f.letter = some 'A') ∧ f.radix = 16
  width : 5 < w
  room : 2 ^ w ≤ f.radix ^ f.size

section Number

variable {f : NumberFormat} {w : Nat} {x : BitVec w}

theorem NumberFormat.WellFormed.bounds (h : f.WellFormed w) : 1 < f.radix ∧ f.radix ≤ 16 := by
  rcases h.radix with ⟨-, hradix⟩ | ⟨-, hradix⟩ <;> omega

/-- The radix is a positive number of `w` bits, also for a signed format. -/
theorem NumberFormat.WellFormed.two_mul_radix_lt (h : f.WellFormed w) : 2 * f.radix < 2 ^ w := by
  have hpow : 2 ^ 6 ≤ 2 ^ w := Nat.pow_le_pow_right (by omega) h.width
  have hradix := h.bounds.2
  omega

/-- On a number that is not negative, the signed and the unsigned division agree. -/
theorem NumberFormat.WellFormed.toNat_rem_quot (h : f.WellFormed w)
    (hsign : f.signed = true → x.msb = false) :
    (f.rem x).toNat = x.toNat % f.radix ∧ (f.quot x).toNat = x.toNat / f.radix := by
  have hlt := h.two_mul_radix_lt
  have hval : (BitVec.ofNat w f.radix).toNat = f.radix := by
    rw [BitVec.toNat_ofNat]
    exact Nat.mod_eq_of_lt (by omega)
  have hmsb : (BitVec.ofNat w f.radix).msb = false := by
    rw [BitVec.msb_eq_false_iff_two_mul_lt, hval]
    exact hlt
  unfold NumberFormat.rem NumberFormat.quot
  cases hsigned : f.signed with
  | false => simp only [Bool.false_eq_true, if_false, BitVec.toNat_umod, BitVec.toNat_udiv, hval, and_self]
  | true =>
      simp only [if_true, BitVec.srem_eq, BitVec.sdiv_eq, hsign hsigned, hmsb]
      exact ⟨BitVec.toNat_umod.trans (by rw [hval]), BitVec.toNat_udiv.trans (by rw [hval])⟩

/-- The first loop stores the digits behind those that are in `tmp` already. -/
theorem fillDigits_spec (h : f.WellFormed w) (room : Nat) (stored : List Byte)
    (hsign : f.signed = true → x.msb = false) (hroom : x.toNat < f.radix ^ room) :
    let digits := (Nat.digits f.radix x.toNat).map (BitVec.ofNat 8)
    fillDigits f room (stored ++ List.replicate room 0) stored.length x =
      some (stored ++ digits ++ List.replicate (room - digits.length) 0,
        stored.length + digits.length) := by
  induction room generalizing stored x with
  | zero =>
      have hzero : x = 0 := BitVec.eq_of_toNat_eq (by simpa using hroom)
      simp [fillDigits, hzero]
  | succ room ih =>
      by_cases hzero : x = 0
      · simp [fillDigits, hzero]
      · have hpos : 0 < x.toNat := Nat.pos_of_ne_zero fun hval =>
          hzero (BitVec.eq_of_toNat_eq hval)
        obtain ⟨hrem, hquot⟩ := h.toNat_rem_quot hsign
        have hdigit : (f.rem x).setWidth 8 = BitVec.ofNat 8 (x.toNat % f.radix) := by
          rw [← hrem, BitVec.ofNat_toNat]
        have hset : (stored ++ List.replicate (room + 1) 0).set stored.length
            ((f.rem x).setWidth 8) =
              (stored ++ [BitVec.ofNat 8 (x.toNat % f.radix)]) ++ List.replicate room 0 := by
          simp [List.replicate_succ, hdigit]
        have hsign' : f.signed = true → (f.quot x).msb = false := by
          intro hsigned
          have hx := BitVec.msb_eq_false_iff_two_mul_lt.mp (hsign hsigned)
          have hle := Nat.div_le_self x.toNat f.radix
          rw [BitVec.msb_eq_false_iff_two_mul_lt, hquot]
          omega
        have hroom' : (f.quot x).toNat < f.radix ^ room := by
          rw [hquot]
          exact Nat.div_lt_of_lt_mul (by rwa [Nat.pow_succ, Nat.mul_comm] at hroom)
        have hrest := ih (stored ++ [BitVec.ofNat 8 (x.toNat % f.radix)]) hsign' hroom'
        rw [List.length_append, List.length_singleton] at hrest
        rw [fillDigits, if_neg hzero]
        simp only [hset, hrest, hquot]
        rw [Nat.digits_def' h.bounds.1 hpos]
        simp [Nat.add_assoc, Nat.add_comm 1]

/-- Formats with the same letter print a digit in the same way. -/
theorem digitChar_congr {g : NumberFormat} (hletter : f.letter = g.letter) (digit : Byte) :
    f.digitChar digit = g.digitChar digit := by
  rw [NumberFormat.digitChar, NumberFormat.digitChar, hletter]

/-- What holds of all digits of one format holds of every format with its letter. -/
theorem digitChar_of_letter {g : NumberFormat} {bound : Nat} {letter : Char}
    (hg : f.letter = g.letter)
    (hall : ∀ n < bound, (g.digitChar (BitVec.ofNat 8 n)).toNat ≤ 255 ∧
      (g.digitChar (BitVec.ofNat 8 n)).setWidth 8 = digitByte letter n)
    {digit : Byte} (hlt : digit.toNat < bound) :
    (f.digitChar digit).toNat ≤ 255 ∧
    (f.digitChar digit).setWidth 8 = digitByte letter digit.toNat := by
  have hspec := hall digit.toNat hlt
  rw [BitVec.ofNat_toNat, BitVec.setWidth_eq] at hspec
  rwa [digitChar_congr hg]

/-- A digit is printed as in the reference. -/
theorem digitChar_eq (h : f.WellFormed w) {digit : Byte} (hlt : digit.toNat < f.radix) :
    (f.digitChar digit).toNat ≤ 255 ∧
    (f.digitChar digit).setWidth 8 = digitByte (f.letter.getD 'a') digit.toNat := by
  have hdecimal : ∀ n < 10, (formatI.digitChar (BitVec.ofNat 8 n)).toNat ≤ 255 ∧
      (formatI.digitChar (BitVec.ofNat 8 n)).setWidth 8 = digitByte 'a' n := by decide
  have hlower : ∀ n < 16, (formatLowerX.digitChar (BitVec.ofNat 8 n)).toNat ≤ 255 ∧
      (formatLowerX.digitChar (BitVec.ofNat 8 n)).setWidth 8 = digitByte 'a' n := by decide
  have hupper : ∀ n < 16, (formatUpperX.digitChar (BitVec.ofNat 8 n)).toNat ≤ 255 ∧
      (formatUpperX.digitChar (BitVec.ofNat 8 n)).setWidth 8 = digitByte 'A' n := by decide
  rcases h.radix with ⟨hletter, hradix⟩ | ⟨hletter | hletter, hradix⟩
  · rw [hletter]
    exact digitChar_of_letter (g := formatI) hletter hdecimal (hradix ▸ hlt)
  · rw [hletter]
    exact digitChar_of_letter (g := formatLowerX) hletter hlower (hradix ▸ hlt)
  · rw [hletter]
    exact digitChar_of_letter (g := formatUpperX) hletter hupper (hradix ▸ hlt)

/-- The characters of the digits in `tmp` below the index `i`, in the order of printing. -/
def digitText (f : NumberFormat) (tmp : List Byte) (i : Nat) : List Byte :=
  (tmp.take i).reverse.map fun digit => digitByte (f.letter.getD 'a') digit.toNat

/-- One turn of the second loop. -/
theorem put_digit (h : f.WellFormed w) {tmp : List Byte}
    (hdigits : ∀ digit ∈ tmp, digit.toNat < f.radix) {i : Nat} (hi : i < tmp.length) :
    ∃ b, digitText f tmp (i + 1) = b :: digitText f tmp i ∧
      ∀ o, (put (f.digitChar (tmp.getD i 0)) o).map (·.add 1) = .ok (o.written [b]) := by
  have hget : tmp.getD i 0 = tmp[i] := by
    rw [List.getD_eq_getElem?_getD, List.getElem?_eq_getElem hi, Option.getD_some]
  obtain ⟨hsmall, hchar⟩ := digitChar_eq h (hdigits tmp[i] (List.getElem_mem hi))
  refine ⟨(f.digitChar tmp[i]).setWidth 8, ?_, fun o => ?_⟩
  · rw [digitText, ← List.take_append_getElem hi, List.reverse_append, hchar]
    rfl
  · rw [hget, put_eq hsmall]
    rfl

/-- The second loop prints the digits in `tmp` from the index `i` down. -/
theorem putDigits_spec (h : f.WellFormed w) {tmp : List Byte}
    (hdigits : ∀ digit ∈ tmp, digit.toNat < f.radix) {i : Nat} (hi : i < tmp.length) (o : Out) :
    putDigits f tmp i o = .ok (o.written (digitText f tmp (i + 1))) := by
  induction i generalizing o with
  | zero =>
      obtain ⟨b, htext, hput⟩ := put_digit h hdigits hi
      rw [htext]
      exact hput o
  | succ i ih =>
      obtain ⟨b, htext, hput⟩ := put_digit h hdigits hi
      have hfirst : putDigits f tmp (i + 1) o =
          ((put (f.digitChar (tmp.getD (i + 1) 0)) o).map (·.add 1)).bind
            (putDigits f tmp i) := by
        rw [putDigits]
        cases put (f.digitChar (tmp.getD (i + 1) 0)) o <;> rfl
      rw [hfirst, hput, htext]
      refine (ih (Nat.lt_of_succ_lt hi) _).trans ?_
      exact congrArg Except.ok (written_written o [b] _)

theorem NumberFormat.WellFormed.size_pos (h : f.WellFormed w) : 0 < f.size := by
  cases hsize : f.size with
  | zero =>
      have hpow := h.room
      have hwidth := Nat.one_lt_two_pow (Nat.ne_of_gt (Nat.zero_lt_of_lt h.width))
      rw [hsize, Nat.pow_zero] at hpow
      omega
  | succ n => exact Nat.succ_pos n

/-- A digit fits into an element of `tmp`. -/
theorem toNat_ofNat_digit (h : f.WellFormed w) {n d : Nat} (hd : d ∈ Nat.digits f.radix n) :
    (BitVec.ofNat 8 d).toNat = d := by
  have hradix := h.bounds
  have hlt := Nat.digits_lt_base hradix.1 hd
  rw [BitVec.toNat_ofNat, Nat.mod_eq_of_lt (by omega)]

/-- All that the first loop leaves in `tmp` are digits. -/
theorem toNat_lt_radix (h : f.WellFormed w) {n room : Nat} {digit : Byte}
    (hmem : digit ∈ (Nat.digits f.radix n).map (BitVec.ofNat 8) ++ List.replicate room 0) :
    digit.toNat < f.radix := by
  have hradix := h.bounds.1
  cases List.mem_append.mp hmem with
  | inl hdigit =>
      obtain ⟨d, hd, rfl⟩ := List.mem_map.mp hdigit
      rw [toNat_ofNat_digit h hd]
      exact Nat.digits_lt_base hradix hd
  | inr hzero =>
      rw [(List.mem_replicate.mp hzero).2]
      exact Nat.zero_lt_of_lt hradix

/-- Both loops, for a number that is not negative: what is printed is the number. -/
theorem digits_spec (h : f.WellFormed w) (hsign : f.signed = true → x.msb = false) :
    ∃ tmp i, fillDigits f f.size (List.replicate f.size 0) 0 x = some (tmp, i) ∧
      ∀ o, putDigits f tmp (if i ≠ 0 then i - 1 else i) o =
        .ok (o.written (numeral f.radix (f.letter.getD 'a') x.toNat)) := by
  have hfill := fillDigits_spec h f.size [] hsign (x.isLt.trans_le h.room)
  simp only [List.nil_append, List.length_nil, Nat.zero_add] at hfill
  refine ⟨_, _, hfill, fun o => ?_⟩
  have hdigits : ∀ digit ∈ (Nat.digits f.radix x.toNat).map (BitVec.ofNat 8) ++
      List.replicate (f.size - ((Nat.digits f.radix x.toNat).map (BitVec.ofNat 8)).length) 0,
      digit.toNat < f.radix := fun _ hmem => toNat_lt_radix h hmem
  by_cases hzero : x.toNat = 0
  · -- nothing has been stored: the 0 that `tmp` was filled with is printed
    obtain ⟨n, hn⟩ : ∃ n, f.size = n + 1 := Nat.exists_eq_add_one.mpr h.size_pos
    simp only [hzero, Nat.digits_zero, List.map_nil, List.length_nil, List.nil_append] at hdigits ⊢
    rw [if_neg (by simp), putDigits_spec h hdigits (by simp [hn])]
    simp [digitText, numeral, hn, List.replicate_succ]
  · -- the index has gone one too far, and is set back to the first digit
    have hlength : (Nat.digits f.radix x.toNat).length ≠ 0 := fun hnil =>
      hzero (Nat.digits_eq_nil_iff_eq_zero.mp (List.length_eq_zero_iff.mp hnil))
    have hlast : (Nat.digits f.radix x.toNat).length - 1 + 1 =
        (Nat.digits f.radix x.toNat).length := by omega
    rw [List.length_map] at hdigits ⊢
    rw [if_pos hlength, putDigits_spec h hdigits (by simp; omega), hlast, digitText, numeral,
      if_neg hzero, List.take_left' (by simp), ← List.map_reverse, List.map_map]
    congr 2
    refine List.map_congr_left fun d hd => ?_
    simp only [Function.comp_apply, toNat_ofNat_digit h (List.mem_reverse.mp hd)]

@[simp] theorem Out.add_zero (o : Out) : o.add 0 = o := by
  simp [Out.add]

theorem putNumber_of_not_neg (h : f.WellFormed w) (hsign : f.signed = true → x.msb = false)
    (o : Out) :
    putNumber f x o = .ok (o.written (numeral f.radix (f.letter.getD 'a') x.toNat)) := by
  obtain ⟨tmp, i, hfill, hput⟩ := digits_spec h hsign
  have hnot : (f.signed && x.slt 0) = false := by
    rw [show x.slt 0 = x.msb from BitVec.slt_zero_eq_msb]
    cases hsigned : f.signed with
    | false => rfl
    | true => exact hsign hsigned
  simp only [putNumber, hnot, Bool.false_eq_true, if_false, hfill, Out.add_zero]
  exact hput o

/-- The absolute value of a negative number other than the smallest one. -/
theorem natAbs_of_neg (hneg : x.msb = true) (hx : x ≠ BitVec.intMin w) :
    x.toInt < 0 ∧ (x * (-1)).toNat = x.toInt.natAbs ∧ (x * (-1)).msb = false := by
  have hlt := x.isLt
  have hlarge := BitVec.msb_eq_true_iff_two_mul_ge.mp hneg
  have hw : 0 < w := by
    rcases Nat.eq_zero_or_pos w with rfl | hpos
    · simp [BitVec.of_length_zero] at hneg
    · exact hpos
  have hpow : 2 ^ w = 2 * 2 ^ (w - 1) := by
    rw [← Nat.pow_succ', Nat.succ_eq_add_one, Nat.sub_add_cancel hw]
  have hmin : x.toNat ≠ 2 ^ (w - 1) := fun heq =>
    hx (BitVec.eq_of_toNat_eq (heq.trans (BitVec.toNat_intMin_of_pos hw).symm))
  have htoInt : x.toInt = (x.toNat : Int) - (2 ^ w : Nat) := by
    rw [BitVec.toInt_eq_msb_cond, if_pos hneg]
  -- the code multiplies by -1 and does not look at the sign bit again
  have habs : (x * (-1)).toNat = 2 ^ w - x.toNat := by
    rw [BitVec.mul_neg, show x * 1 = x from BitVec.mul_one x, BitVec.toNat_neg]
    exact Nat.mod_eq_of_lt (by omega)
  refine ⟨by omega, by omega, ?_⟩
  rw [BitVec.msb_eq_false_iff_two_mul_lt, habs]
  omega

theorem putNumber_signed (h : f.WellFormed w) (hsigned : f.signed = true)
    (hx : x ≠ BitVec.intMin w) (o : Out) :
    putNumber f x o = .ok (o.written (signedNumeral f.radix (f.letter.getD 'a') x.toInt)) := by
  cases hneg : x.msb with
  | false =>
      have hvalue : x.toInt = x.toNat := by
        rw [BitVec.toInt_eq_msb_cond, hneg, if_neg Bool.false_ne_true]
      rw [putNumber_of_not_neg h (fun _ => hneg), signedNumeral, hvalue, if_neg (by omega),
        List.nil_append, Int.natAbs_natCast]
  | true =>
      obtain ⟨hlt, habs, hmsb⟩ := natAbs_of_neg hneg hx
      obtain ⟨tmp, i, hfill, hput⟩ := digits_spec h fun _ => hmsb
      have hminus : put ((charByte '-').setWidth 32) (o.add 1) = .ok (o.written [charByte '-']) := by
        rw [put_eq (toNat_setWidth_byte _)]
        rfl
      have hsign : (f.signed && x.slt 0) = true := by
        rw [hsigned, show x.slt 0 = x.msb from BitVec.slt_zero_eq_msb, hneg, Bool.and_self]
      simp only [putNumber, hsign, if_true, hfill, hminus]
      refine (hput _).trans ?_
      rw [written_written, signedNumeral, if_pos hlt, habs]

end Number

/-! ### Conversions -/

theorem wellFormed_formatI : formatI.WellFormed 32 :=
  ⟨Or.inl ⟨rfl, rfl⟩, by decide, by decide⟩

theorem wellFormed_formatLowerL : formatLowerL.WellFormed 64 :=
  ⟨Or.inl ⟨rfl, rfl⟩, by decide, by decide⟩

theorem wellFormed_formatUpperL : formatUpperL.WellFormed 64 :=
  ⟨Or.inl ⟨rfl, rfl⟩, by decide, by decide⟩

theorem wellFormed_formatLowerX : formatLowerX.WellFormed 32 :=
  ⟨Or.inr ⟨Or.inl rfl, rfl⟩, by decide, by decide⟩

theorem wellFormed_formatUpperX : formatUpperX.WellFormed 32 :=
  ⟨Or.inr ⟨Or.inr rfl, rfl⟩, by decide, by decide⟩

theorem wellFormed_formatLowerY : formatLowerY.WellFormed 64 :=
  ⟨Or.inr ⟨Or.inl rfl, rfl⟩, by decide, by decide⟩

theorem wellFormed_formatUpperY : formatUpperY.WellFormed 64 :=
  ⟨Or.inr ⟨Or.inr rfl, rfl⟩, by decide, by decide⟩

/-- What `vprintf` relies on for the calls of `printf` that it makes itself. -/
structure NestedPrintf (printf : Printf) : Prop where
  null : ∀ uart, printf nullText [] uart =
    some (BitVec.ofNat 32 nullText.length, uart ++ crlf nullText)
  error : ∀ c uart, printf unimplementedFormat [.int (c.setWidth 32)] uart =
    some (BitVec.ofNat 32 (errorLine c).length, uart ++ crlf (errorLine c))

section Conversions

variable {printf : Printf} {f : NumberFormat} {o o' : Out}

theorem putInt_eq {x : Word} (h : putNumber f x o = .ok o') (args : List Arg) :
    putInt f (.int x :: args) o = .ok (args, o') := by
  simp only [putInt, vaArgInt]
  show (putNumber f x o).bind _ = _
  rw [h]
  rfl

theorem putLongLong_eq {x : DoubleWord} (h : putNumber f x o = .ok o') (args : List Arg) :
    putLongLong f (.longLong x :: args) o = .ok (args, o') := by
  simp only [putLongLong, vaArgLongLong]
  show (putNumber f x o).bind _ = _
  rw [h]
  rfl

theorem convertString_eq (hp : NestedPrintf printf) (s : Option CString) (args : List Arg)
    (o : Out) :
    convertString printf (.str s :: args) o =
      .ok (args, o.written (conversionText (charByte 's') (.str s :: args))) := by
  cases s with
  | none =>
      -- `printf("(null)")` returns 6, which is added to the count
      have hEof : BitVec.ofNat 32 nullText.length ≠ EOF := by decide
      have hcall : convertString printf (.str none :: args) o =
          if BitVec.ofNat 32 nullText.length = EOF then
            .error (.ret { o with uart := o.uart ++ crlf nullText })
          else .ok (args, o.written nullText) := by
        rw [convertString, vaArgStr]
        simp only [bind, Except.bind, hp.null]
        rfl
      rw [hcall, if_neg hEof]
      rfl
  | some s =>
      simp only [convertString, vaArgStr]
      show (putString s.bytes o).bind _ = _
      rw [putString_eq]
      rfl

theorem convert_char (printf : Printf) {x : Word} (hx : x.toNat ≤ 255) (args : List Arg)
    (o : Out) :
    convert printf (charByte 'c') (.int x :: args) o = .ok (args, o.written [x.setWidth 8]) := by
  show (put x o).bind _ = _
  rw [put_eq hx]
  rfl

/-- The conversions one by one, in the order of the `switch`. -/
theorem supported_cases (c : Byte) : Supported c ↔ c = charByte '%' ∨ c = charByte 'c' ∨
    c = charByte 's' ∨ c = charByte 'i' ∨ c = charByte 'l' ∨ c = charByte 'L' ∨
    c = charByte 'x' ∨ c = charByte 'X' ∨ c = charByte 'y' ∨ c = charByte 'Y' := by
  have hchars : textBytes "%csilLxXyY" = [charByte '%', charByte 'c', charByte 's', charByte 'i',
      charByte 'l', charByte 'L', charByte 'x', charByte 'X', charByte 'y', charByte 'Y'] := rfl
  rw [Supported, hchars]
  simp only [List.mem_cons, List.not_mem_nil, or_false]

/-- **One conversion.**  A supported conversion prints its text and consumes its
argument. -/
theorem convert_spec (hp : NestedPrintf printf) {c : Byte} {args : List Arg}
    (hsupported : Supported c) (hmatch : ArgMatches c args) (o : Out) :
    convert printf c args o = .ok (argsAfter c args, o.written (conversionText c args)) := by
  rw [supported_cases] at hsupported
  rcases hsupported with rfl | rfl | rfl | rfl | rfl | rfl | rfl | rfl | rfl | rfl
  -- `%` consumes no argument
  · have hfirst : convert printf (charByte '%') args o =
        (put ((charByte '%').setWidth 32) o).bind fun o => .ok (args, o.add 1) := if_pos rfl
    rw [hfirst, put_eq (toNat_setWidth_byte _)]
    rfl
  · match args, hmatch with
    | .int x :: rest, hmatch =>
        -- the range of `c` keeps it away from `EOF`
        have hx : x.toNat ≤ 255 := by simpa [ArgMatches, charByte] using hmatch
        exact convert_char printf hx rest o
  · match args, hmatch with
    | .str s :: rest, _ => exact convertString_eq hp s rest o
  · match args, hmatch with
    | .int x :: rest, hmatch =>
        have hx : x ≠ BitVec.intMin 32 := by simpa [ArgMatches, charByte] using hmatch
        exact putInt_eq (putNumber_signed wellFormed_formatI rfl hx o) rest
  · match args, hmatch with
    | .longLong x :: rest, _ =>
        exact putLongLong_eq (putNumber_of_not_neg wellFormed_formatLowerL Bool.noConfusion o) rest
  · match args, hmatch with
    | .longLong x :: rest, hmatch =>
        have hx : x ≠ BitVec.intMin 64 := by simpa [ArgMatches, charByte] using hmatch
        exact putLongLong_eq (putNumber_signed wellFormed_formatUpperL rfl hx o) rest
  · match args, hmatch with
    | .int x :: rest, _ =>
        exact putInt_eq (putNumber_of_not_neg wellFormed_formatLowerX Bool.noConfusion o) rest
  · match args, hmatch with
    | .int x :: rest, hmatch =>
        have hx : x ≠ BitVec.intMin 32 := by simpa [ArgMatches, charByte] using hmatch
        exact putInt_eq (putNumber_signed wellFormed_formatUpperX rfl hx o) rest
  · match args, hmatch with
    | .longLong x :: rest, _ =>
        exact putLongLong_eq (putNumber_of_not_neg wellFormed_formatLowerY Bool.noConfusion o) rest
  · match args, hmatch with
    | .longLong x :: rest, hmatch =>
        have hx : x ≠ BitVec.intMin 64 := by simpa [ArgMatches, charByte] using hmatch
        exact putLongLong_eq (putNumber_signed wellFormed_formatUpperY rfl hx o) rest

/-- An unsupported character ends the output with the line about it. -/
theorem unimplemented_eq (hp : NestedPrintf printf) (c : Byte) (o : Out) {α : Type} :
    (unimplemented printf c o : Except Exit α) =
      .error (.ret { o with uart := o.uart ++ crlf (errorLine c) }) := by
  rw [unimplemented, hp.error]

theorem convert_of_not_supported (hp : NestedPrintf printf) {c : Byte} (h : ¬ Supported c)
    (args : List Arg) (o : Out) :
    convert printf c args o = .error (.ret { o with uart := o.uart ++ crlf (errorLine c) }) := by
  simp only [supported_cases, not_or] at h
  obtain ⟨hpercent, hc, hs, hi, hl, hL, hx, hX, hy, hY⟩ := h
  rw [convert, if_neg hpercent, if_neg hc, if_neg hs, if_neg hi, if_neg hl, if_neg hL, if_neg hx,
    if_neg hX, if_neg hy, if_neg hY, unimplemented_eq hp]

/-! ### The loop over the format -/

theorem vprintfLoop_cons (printf : Printf) {b : Byte} (hb : b ≠ charByte '%') (rest : List Byte)
    (args : List Arg) (o : Out) :
    vprintfLoop printf (b :: rest) args o = vprintfLoop printf rest args (o.written [b]) := by
  rw [vprintfLoop.eq_def]
  simp only [if_neg hb, put_eq (toNat_setWidth_byte b), setWidth_byte]
  rfl

theorem vprintfLoop_percent (printf : Printf) (c : Byte) (rest : List Byte) (args : List Arg)
    (o : Out) :
    vprintfLoop printf (charByte '%' :: c :: rest) args o =
      (convert printf c args o).bind fun next => vprintfLoop printf rest next.1 next.2 := by
  rw [vprintfLoop.eq_def]
  rfl

/-- Literal characters are printed as they are. -/
theorem vprintfLoop_literal (printf : Printf) {text : List Byte}
    (htext : charByte '%' ∉ text) (rest : List Byte) (args : List Arg) (o : Out) :
    vprintfLoop printf (text ++ rest) args o = vprintfLoop printf rest args (o.written text) := by
  induction text generalizing o with
  | nil => simp
  | cons b text ih =>
      rw [List.mem_cons, not_or] at htext
      obtain ⟨hb, hrest⟩ := htext
      rw [List.cons_append, vprintfLoop_cons printf (Ne.symm hb), ih hrest, written_written]
      rfl

/-- How the loop ends: at the end of the format, or with a `return` after the line
about an unsupported character, which is not counted. -/
def Rendering.result (r : Rendering) (o : Out) : Except Exit Out :=
  match r.stop with
  | none => .ok (o.written r.text)
  | some _ => .error (.ret ⟨(o.written r.text).charsWritten, o.uart ++ r.bytes⟩)

theorem result_prepend (text : List Byte) (r : Rendering) (o : Out) :
    (r.prepend text).result o = r.result (o.written text) := by
  unfold Rendering.result Rendering.prepend Rendering.bytes
  cases r.stop with
  | none => simp
  | some c => simp [Out.written, BitVec.ofNat_add, BitVec.add_assoc]

/-- **The loop.**  It prints what the format renders to. -/
theorem vprintfLoop_spec (hp : NestedPrintf printf) (format : List Byte) (args : List Arg)
    (hmatch : Matches format args) (o : Out) :
    vprintfLoop printf format args o = (reference format args).result o := by
  fun_induction reference format args generalizing o with
  | case1 args => simp [vprintfLoop, Rendering.result]
  | case2 =>
      -- a `%` at the end of the format
      rw [vprintfLoop.eq_def]
      simp only [if_true, unimplemented_eq hp]
      simp [Rendering.result, Rendering.bytes]
  | case3 args c rest hsupported ih =>
      have hboth : ArgMatches c args ∧ Matches rest (argsAfter c args) := hmatch hsupported
      rw [vprintfLoop_percent, convert_spec hp hsupported hboth.1, result_prepend]
      exact ih hboth.2 _
  | case4 args c rest hsupported =>
      -- the line about the character ends the loop: what is behind it is not read
      rw [vprintfLoop_percent, convert_of_not_supported hp hsupported]
      simp [Rendering.result, Rendering.bytes, Except.bind]
  | case5 b rest args hb ih =>
      rw [vprintfLoop_cons printf hb, result_prepend]
      exact ih ((matches_cons hb rest args).mp hmatch) _

theorem vprintfAt_succ (depth : Nat) (format : List Byte) (args : List Arg) (uart : List Byte) :
    vprintfAt (depth + 1) format args uart =
      finish (vprintfLoop (vprintfAt depth) format args ⟨0, uart⟩) :=
  rfl

theorem finish_ok (text uart : List Byte) :
    finish (.ok ((⟨0, uart⟩ : Out).written text)) =
      some (BitVec.ofNat 32 text.length, uart ++ crlf text) := by
  simp [finish, Out.written]

/-- The calls of `printf` that `vprintf` makes need no further ones. -/
theorem nestedPrintf_vprintfAt (depth : Nat) : NestedPrintf (vprintfAt (depth + 1)) where
  null := by
    intro uart
    have htext : charByte '%' ∉ nullText := by decide
    have hloop : vprintfLoop (vprintfAt depth) nullText [] ⟨0, uart⟩ =
        .ok ((⟨0, uart⟩ : Out).written nullText) := by
      have hall := vprintfLoop_literal (vprintfAt depth) htext [] [] ⟨0, uart⟩
      rwa [List.append_nil] at hall
    rw [vprintfAt_succ, hloop, finish_ok]
  error := by
    intro c uart
    -- the format is two texts around `%c`
    have hformat : unimplementedFormat =
        textBytes "\nprintf: unimplemented conversion character '" ++
          charByte '%' :: charByte 'c' :: (textBytes "'\n" ++ []) := by decide
    have hbefore : charByte '%' ∉ textBytes "\nprintf: unimplemented conversion character '" := by
      decide
    have hbehind : charByte '%' ∉ textBytes "'\n" := by decide
    have hloop : vprintfLoop (vprintfAt depth) unimplementedFormat [.int (c.setWidth 32)]
        ⟨0, uart⟩ = .ok ((⟨0, uart⟩ : Out).written (errorLine c)) := by
      rw [hformat, vprintfLoop_literal _ hbefore, vprintfLoop_percent,
        convert_char _ (toNat_setWidth_byte c), setWidth_byte]
      show vprintfLoop _ (textBytes "'\n" ++ []) [] _ = _
      rw [vprintfLoop_literal _ hbehind, written_written, written_written]
      rfl
    rw [vprintfAt_succ, hloop, finish_ok]

end Conversions

/-- **What `vprintf` prints.**  For every format and arguments that match it: the
bytes of the rendering reach the UART, and the length of its text is returned.
So it is for `printf`. -/
theorem vprintf_renders (format : CString) (args : List Arg) (uart : List Byte)
    (hmatch : Matches format.bytes args) :
    let r := reference format.bytes args
    vprintf format args uart = some (BitVec.ofNat 32 r.text.length, uart ++ r.bytes) ∧
    printf format args uart = some (BitVec.ofNat 32 r.text.length, uart ++ r.bytes) := by
  intro r
  rw [printf, and_self]
  have hloop := vprintfLoop_spec (nestedPrintf_vprintfAt 0) format.bytes args hmatch ⟨0, uart⟩
  rw [vprintf, vprintfAt_succ, hloop]
  show finish (r.result ⟨0, uart⟩) = _
  unfold Rendering.result Rendering.bytes
  cases r.stop with
  | none => simp [finish, Out.written]
  | some c => simp [finish, Out.written]

/-- A format with a null string, two numbers, and an unsupported character at which
the output ends. -/
def mixedFormat : CString where
  bytes := textBytes "%s: %i%%, %x\n%q"
  noNul := by decide

theorem mixedFormat_renders :
    let args := [.str none, .int (-12), .int 0xBEEF]
    let r := reference mixedFormat.bytes args
    vprintf mixedFormat args [] = some (BitVec.ofNat 32 r.text.length, [] ++ r.bytes) ∧
    printf mixedFormat args [] = some (BitVec.ofNat 32 r.text.length, [] ++ r.bytes) :=
  vprintf_renders mixedFormat [.str none, .int (-12), .int 0xBEEF] [] (by decide)

example :
    reference mixedFormat.bytes [.str none, .int (-12), .int 0xBEEF] =
      ⟨textBytes "(null): -12%, beef\n", some (charByte 'q')⟩ := by
  decide +kernel

end Libc
end Ninjastorms
