import Ninjastorms.Libc.Printf

/-!
# The time as a string

`clock_time_to_str` and `clock_formatted_msms` of `kernel/time.c`.  The function
writes its digits into the string constant `"mm:ss:lll"` and returns it, so that
every call finds what the last one has left; `clockStringAfter` is the constant
after some calls.

The two digits for the seconds are those of the seconds since the start, not of
the seconds of a minute.  `clockString_denotes_iff` says for which times the
string is right.
-/

namespace Ninjastorms
namespace Clock

open Libc

/-- `INTTOCHAR`, stored in a `char`. -/
def intToChar (val : DoubleWord) : Byte :=
  (val + (charByte '0').setWidth 64).setWidth 8

/-- The constant `format` in the kernel image, without its null byte. -/
def timeFormat : List Byte :=
  textBytes "mm:ss:lll"

/-- `clock_time_to_str`, when the constant holds `format`. -/
def clockTimeToStr (time : DoubleWord) (format : List Byte) : List Byte :=
  let mils := time
  let secs := mils / 1000
  let mins := mils / 60000
  -- minutes:seconds:millis
  let format := format.set 0 (intToChar ((mins / 10) % 10))
  let format := format.set 1 (intToChar (mins % 10))
  let format := format.set 3 (intToChar ((secs / 10) % 10))
  let format := format.set 4 (intToChar (secs % 10))
  let format := format.set 6 (intToChar ((mils / 100) % 10))
  let format := format.set 7 (intToChar ((mils / 10) % 10))
  format.set 8 (intToChar (mils % 10))

/-- `clock_formatted_msms`, where `clock` counts milliseconds. -/
def clockFormattedMsms (clock : DoubleWord) (format : List Byte) : List Byte :=
  clockTimeToStr clock format

/-- The constant after calls with these times. -/
def clockStringAfter (earlier : List DoubleWord) : List Byte :=
  earlier.foldl (fun format time => clockTimeToStr time format) timeFormat

/-! ### What is promised -/

/-- The character for a decimal digit. -/
def decimalChar (digit : Nat) : Byte :=
  BitVec.ofNat 8 ('0'.toNat + digit)

/-- The string `mm:ss:lll` for minutes, seconds and milliseconds. -/
def clockText (minutes seconds millis : Nat) : List Byte :=
  [decimalChar (minutes / 10), decimalChar (minutes % 10), charByte ':',
    decimalChar (seconds / 10), decimalChar (seconds % 10), charByte ':',
    decimalChar (millis / 100), decimalChar (millis / 10 % 10), decimalChar (millis % 10)]

/-- The string shows minutes, seconds of a minute and milliseconds that make up
`time`, where the minutes are reduced modulo 100. -/
def Denotes (text : List Byte) (time : DoubleWord) : Prop :=
  ∃ minutes < 100, ∃ seconds < 60, ∃ millis < 1000, text = clockText minutes seconds millis ∧
    minutes * 60000 + seconds * 1000 + millis = time.toNat % 6000000

/-! ### What is written -/

theorem intToChar_eq (val : DoubleWord) : intToChar val = decimalChar val.toNat := by
  have hzero : ((charByte '0').setWidth 64 : DoubleWord).toNat = 48 := by decide
  have hchar : '0'.toNat = 48 := rfl
  apply BitVec.eq_of_toNat_eq
  rw [intToChar, decimalChar, BitVec.toNat_setWidth, BitVec.toNat_add, hzero, BitVec.toNat_ofNat,
    hchar]
  omega

/-- Digits have different characters. -/
theorem decimalChar_inj {d e : Nat} (hd : d < 10) (he : e < 10)
    (h : decimalChar d = decimalChar e) : d = e := by
  have hval := congrArg BitVec.toNat h
  have hchar : '0'.toNat = 48 := rfl
  rw [decimalChar, decimalChar, BitVec.toNat_ofNat, BitVec.toNat_ofNat, hchar] at hval
  omega

/-- The string tells its three numbers. -/
theorem clockText_inj {m m' s s' l l' : Nat} (hm : m < 100 ∧ m' < 100) (hs : s < 100 ∧ s' < 100)
    (hl : l < 1000 ∧ l' < 1000) (h : clockText m s l = clockText m' s' l') :
    m = m' ∧ s = s' ∧ l = l' := by
  simp only [clockText, List.cons.injEq, true_and, and_true] at h
  obtain ⟨hm1, hm0, hs1, hs0, hl2, hl1, hl0⟩ := h
  have hm1' := decimalChar_inj (by omega) (by omega) hm1
  have hm0' := decimalChar_inj (by omega) (by omega) hm0
  have hs1' := decimalChar_inj (by omega) (by omega) hs1
  have hs0' := decimalChar_inj (by omega) (by omega) hs0
  have hl2' := decimalChar_inj (by omega) (by omega) hl2
  have hl1' := decimalChar_inj (by omega) (by omega) hl1
  have hl0' := decimalChar_inj (by omega) (by omega) hl0
  omega

/-- Wherever the digits go, the separators stay. -/
def HasSeparators (format : List Byte) : Prop :=
  ∃ m₁ m₀ s₁ s₀ l₂ l₁ l₀,
    format = [m₁, m₀, charByte ':', s₁, s₀, charByte ':', l₂, l₁, l₀]

/-- **What is written.**  The minutes and the seconds are both reduced modulo 100. -/
theorem clockTimeToStr_eq {format : List Byte} (h : HasSeparators format) (time : DoubleWord) :
    clockTimeToStr time format =
      clockText (time.toNat / 60000 % 100) (time.toNat / 1000 % 100) (time.toNat % 1000) := by
  obtain ⟨m₁, m₀, s₁, s₀, l₂, l₁, l₀, rfl⟩ := h
  have hdigit : ∀ val : DoubleWord, intToChar (val % 10) = decimalChar (val.toNat % 10) := by
    intro val
    rw [intToChar_eq]
    exact congrArg decimalChar BitVec.toNat_umod
  have hmins : (time / 60000).toNat = time.toNat / 60000 := BitVec.toNat_udiv
  have hsecs : (time / 1000).toNat = time.toNat / 1000 := BitVec.toNat_udiv
  have hhundreds : (time / 100).toNat = time.toNat / 100 := BitVec.toNat_udiv
  have htens : ∀ val : DoubleWord, (val / 10).toNat = val.toNat / 10 := fun _ => BitVec.toNat_udiv
  simp only [clockTimeToStr, List.set_cons_zero, List.set_cons_succ, hdigit, clockText, htens,
    hmins, hsecs, hhundreds, List.cons.injEq, true_and, and_true]
  refine ⟨?_, ?_, ?_, ?_, ?_, ?_, ?_⟩ <;> congr 1 <;> omega

theorem hasSeparators_clockText (minutes seconds millis : Nat) :
    HasSeparators (clockText minutes seconds millis) :=
  ⟨_, _, _, _, _, _, _, rfl⟩

/-- Every call finds the separators in their places. -/
theorem hasSeparators_after (earlier : List DoubleWord) : HasSeparators (clockStringAfter earlier) := by
  have hkeep : ∀ format, HasSeparators format →
      HasSeparators (earlier.foldl (fun format time => clockTimeToStr time format) format) := by
    induction earlier with
    | nil => exact fun format h => h
    | cons time earlier ih =>
        intro format h
        rw [List.foldl_cons]
        refine ih _ ?_
        rw [clockTimeToStr_eq h]
        exact hasSeparators_clockText _ _ _
  exact hkeep timeFormat ⟨_, _, _, _, _, _, _, rfl⟩

/-! ### When it is right -/

/-- The seconds of a minute are those of the string in every fifth minute only. -/
theorem denotes_iff (earlier : List DoubleWord) (time : DoubleWord) :
    Denotes (clockTimeToStr time (clockStringAfter earlier)) time ↔ time.toNat / 60000 % 5 = 0 := by
  rw [clockTimeToStr_eq (hasSeparators_after earlier)]
  constructor
  · rintro ⟨minutes, hm, seconds, hs, millis, hl, htext, hsum⟩
    obtain ⟨hmin, hsec, hmil⟩ := clockText_inj ⟨Nat.mod_lt _ (by omega), hm⟩
      ⟨Nat.mod_lt _ (by omega), by omega⟩ ⟨Nat.mod_lt _ (by omega), hl⟩ htext
    omega
  · intro hfifth
    refine ⟨_, Nat.mod_lt _ (by omega), time.toNat / 1000 % 100, by omega, _,
      Nat.mod_lt _ (by omega), rfl, by omega⟩

/-- Times that are less than 100 minutes apart have different strings. -/
theorem ne_of_apart (earlier earlier' : List DoubleWord) {time time' : DoubleWord}
    (hne : time ≠ time') (hclose : time'.toNat < time.toNat + 6000000)
    (hclose' : time.toNat < time'.toNat + 6000000) :
    clockTimeToStr time (clockStringAfter earlier) ≠
      clockTimeToStr time' (clockStringAfter earlier') := by
  rw [clockTimeToStr_eq (hasSeparators_after earlier),
    clockTimeToStr_eq (hasSeparators_after earlier')]
  intro htext
  obtain ⟨hmin, hsec, hmil⟩ := clockText_inj ⟨Nat.mod_lt _ (by omega), Nat.mod_lt _ (by omega)⟩
    ⟨Nat.mod_lt _ (by omega), Nat.mod_lt _ (by omega)⟩
    ⟨Nat.mod_lt _ (by omega), Nat.mod_lt _ (by omega)⟩ htext
  refine hne (BitVec.eq_of_toNat_eq ?_)
  omega

/-- **The clock string.**  Whatever calls have been made before, the string is right
exactly in the minutes 0, 5, 10, and so on; in any case it differs from those of
all other times that are less than 100 minutes away.  `clock_formatted_msms` is right
exactly when the clock is in such a minute. -/
theorem clockString_denotes_iff (earlier : List DoubleWord) (time : DoubleWord) :
    (Denotes (clockTimeToStr time (clockStringAfter earlier)) time ↔
      time.toNat / 60000 % 5 = 0) ∧
    (∀ earlier' time', time ≠ time' → time'.toNat < time.toNat + 6000000 →
      time.toNat < time'.toNat + 6000000 →
      clockTimeToStr time (clockStringAfter earlier) ≠
        clockTimeToStr time' (clockStringAfter earlier')) ∧
    ∀ clock, Denotes (clockFormattedMsms clock (clockStringAfter earlier)) clock ↔
      clock.toNat / 60000 % 5 = 0 :=
  ⟨denotes_iff earlier time, fun earlier' _ => ne_of_apart earlier earlier',
    denotes_iff earlier⟩

/-- After one minute the string is `01:60:000`. -/
theorem minute_not_denoted : ¬ Denotes (clockTimeToStr 60000 (clockStringAfter [])) 60000 := by
  rw [denotes_iff]
  decide

end Clock
end Ninjastorms
