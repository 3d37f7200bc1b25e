import Ninjastorms.Types

/-!
# `printf`

`libc/stdio/putchar.c`, `vprintf.c` and `printf.c`.  The model reads the format
and the arguments and appends to the bytes that have been written to the UART.
A character is unsigned, as in the calling convention of the machine; the wait
for a UART that is busy is left out.

The seven conversions for numbers are one function, `putNumber`, of the format
of the number.  A `return` in the middle of the loop, and what the code leaves
undefined (an argument of another type than the conversion reads, a write behind
the end of `tmp`), are the two values of `Exit`.  `vprintf` calls `printf`
itself; `vprintfAt` bounds how deep such calls are nested.
-/

namespace Ninjastorms
namespace Libc

/-- The bytes of a string in front of its terminating null byte. -/
structure CString where
  bytes : List Byte
  noNul : ∀ b ∈ bytes, b ≠ 0

/-- An argument, by the type it is passed with. -/
inductive Arg where
  | int (x : Word)
  | longLong (x : DoubleWord)
  | str (s : Option CString)

def charByte (c : Char) : Byte :=
  BitVec.ofNat 8 c.toNat

/-- A string constant of the source. -/
def textBytes (s : String) : List Byte :=
  s.toList.map charByte

def newline : Byte := 0x0A
def carriageReturn : Byte := 0x0D

/-- `EOF`. -/
def EOF : Word := -1

/-- `putchar`: the value it returns, and the bytes written to the UART. -/
def putchar (c : Word) (uart : List Byte) : Word × List Byte :=
  let uart := if c = newline.setWidth 32 then uart ++ [carriageReturn] else uart
  (c, uart ++ [c.setWidth 8])

/-- `chars_written` and the UART. -/
structure Out where
  charsWritten : Word
  uart : List Byte

/-- Why the loop of `vprintf` ends before the format does. -/
inductive Exit where
  | ret (o : Out)
  | undefined

/-- `chars_written += n`. -/
def Out.add (o : Out) (n : Word) : Out :=
  { o with charsWritten := o.charsWritten + n }

/-- `if (putchar(c) == EOF) return chars_written;` -/
def put (c : Word) (o : Out) : Except Exit Out :=
  let (res, uart) := putchar c o.uart
  if res = EOF then .error (.ret { o with uart := uart }) else .ok { o with uart := uart }

/-- `va_arg(ap, int)`, for `int` and `unsigned int`. -/
def vaArgInt : List Arg → Except Exit (Word × List Arg)
  | .int x :: args => .ok (x, args)
  | _ => .error .undefined

/-- `va_arg(ap, long long)`, for `long long` and `unsigned long long`. -/
def vaArgLongLong : List Arg → Except Exit (DoubleWord × List Arg)
  | .longLong x :: args => .ok (x, args)
  | _ => .error .undefined

/-- `va_arg(ap, char*)`. -/
def vaArgStr : List Arg → Except Exit (Option CString × List Arg)
  | .str s :: args => .ok (s, args)
  | _ => .error .undefined

/-- The loop over the characters of a string. -/
def putString : List Byte → Out → Except Exit Out
  | [], o => .ok o
  | b :: rest, o => do
      let o ← put (b.setWidth 32) o
      putString rest (o.add 1)

/-! ### Numbers -/

/-- What the branches for numbers differ in: whether the number is signed, the
radix, the length of `tmp`, and the letter for the digit 10, if there is one. -/
structure NumberFormat where
  signed : Bool
  radix : Nat
  size : Nat
  letter : Option Char

section Number

variable (f : NumberFormat) {w : Nat}

/-- `x % radix`. -/
def NumberFormat.rem (x : BitVec w) : BitVec w :=
  if f.signed then x.srem (BitVec.ofNat w f.radix) else x % BitVec.ofNat w f.radix

/-- `x / radix`. -/
def NumberFormat.quot (x : BitVec w) : BitVec w :=
  if f.signed then x.sdiv (BitVec.ofNat w f.radix) else x / BitVec.ofNat w f.radix

/-- The loop `while (x)`, which stores the last digit first.  `room` is what is
left of `tmp` from the index `i` on. -/
def fillDigits (room : Nat) (tmp : List Byte) (i : Nat) (x : BitVec w) :
    Option (List Byte × Nat) :=
  if x = 0 then some (tmp, i)
  else
    match room with
    -- a write behind the end of `tmp`
    | 0 => none
    | room + 1 => fillDigits room (tmp.set i ((f.rem x).setWidth 8)) (i + 1) (f.quot x)

/-- The character for a digit. -/
def NumberFormat.digitChar (digit : Byte) : Word :=
  match f.letter with
  | none => digit.setWidth 32 + (charByte '0').setWidth 32
  | some letter =>
      if digit > 9 then digit.setWidth 32 + (charByte letter).setWidth 32 - 10
      else digit.setWidth 32 + (charByte '0').setWidth 32

/-- The loop `for ( ; i >= 0; --i)`. -/
def putDigits (tmp : List Byte) : Nat → Out → Except Exit Out
  | 0, o => do
      let o ← put (f.digitChar (tmp.getD 0 0)) o
      pure (o.add 1)
  | i + 1, o => do
      let o ← put (f.digitChar (tmp.getD (i + 1) 0)) o
      putDigits tmp i (o.add 1)

/-- A branch for numbers, after `va_arg`. -/
def putNumber (x : BitVec w) (o : Out) : Except Exit Out :=
  let sign := f.signed && x.slt 0
  let o := o.add (if sign then 1 else 0)
  -- the least number stays negative here
  let x := if sign then x * (-1) else x
  match fillDigits f f.size (List.replicate f.size 0) 0 x with
  | none => .error .undefined
  | some (tmp, i) => do
      -- for 0 nothing has been stored, and `tmp[0]` is printed
      let i := if i ≠ 0 then i - 1 else i
      let o ← if sign then put ((charByte '-').setWidth 32) o else .ok o
      putDigits f tmp i o

end Number

/-- `case 'i'`. -/
def formatI : NumberFormat := ⟨true, 10, 10, none⟩

/-- `case 'l'`. -/
def formatLowerL : NumberFormat := ⟨false, 10, 20, none⟩

/-- `case 'L'`. -/
def formatUpperL : NumberFormat := ⟨true, 10, 20, none⟩

/-- `case 'x'`. -/
def formatLowerX : NumberFormat := ⟨false, 0x10, 10, some 'a'⟩

/-- `case 'X'`. -/
def formatUpperX : NumberFormat := ⟨true, 0x10, 10, some 'A'⟩

/-- `case 'y'`. -/
def formatLowerY : NumberFormat := ⟨false, 0x10, 20, some 'a'⟩

/-- `case 'Y'`. -/
def formatUpperY : NumberFormat := ⟨true, 0x10, 20, some 'A'⟩

def putInt (f : NumberFormat) (args : List Arg) (o : Out) : Except Exit (List Arg × Out) := do
  let (x, args) ← vaArgInt args
  let o ← putNumber f x o
  pure (args, o)

def putLongLong (f : NumberFormat) (args : List Arg) (o : Out) :
    Except Exit (List Arg × Out) := do
  let (x, args) ← vaArgLongLong args
  let o ← putNumber f x o
  pure (args, o)

/-! ### The loop over the format -/

/-- `printf` as `vprintf` calls it: the format, the arguments and the UART. -/
abbrev Printf := List Byte → List Arg → List Byte → Option (Word × List Byte)

def nullText : List Byte :=
  textBytes "(null)"

def unimplementedFormat : List Byte :=
  textBytes "\nprintf: unimplemented conversion character '%c'\n"

section Loop

variable (printf : Printf)

/-- `case 's'`. -/
def convertString (args : List Arg) (o : Out) : Except Exit (List Arg × Out) := do
  let (x, args) ← vaArgStr args
  match x with
  | none =>
      match printf nullText [] o.uart with
      | none => .error .undefined
      | some (res, uart) =>
          if res = EOF then .error (.ret { o with uart := uart })
          else .ok (args, ⟨o.charsWritten + res, uart⟩)
  | some s =>
      let o ← putString s.bytes o
      pure (args, o)

/-- `default`: the line about the character, and `return`. -/
def unimplemented {α : Type} (c : Byte) (o : Out) : Except Exit α :=
  match printf unimplementedFormat [.int (c.setWidth 32)] o.uart with
  | none => .error .undefined
  | some (_, uart) => .error (.ret { o with uart := uart })

/-- The `switch` over the character behind `%`. -/
def convert (c : Byte) (args : List Arg) (o : Out) : Except Exit (List Arg × Out) :=
  if c = charByte '%' then do
    let o ← put ((charByte '%').setWidth 32) o
    pure (args, o.add 1)
  else if c = charByte 'c' then do
    let (x, args) ← vaArgInt args
    let o ← put x o
    pure (args, o.add 1)
  else if c = charByte 's' then convertString printf args o
  else if c = charByte 'i' then putInt formatI args o
  else if c = charByte 'l' then putLongLong formatLowerL args o
  else if c = charByte 'L' then putLongLong formatUpperL args o
  else if c = charByte 'x' then putInt formatLowerX args o
  else if c = charByte 'X' then putInt formatUpperX args o
  else if c = charByte 'y' then putLongLong formatLowerY args o
  else if c = charByte 'Y' then putLongLong formatUpperY args o
  else unimplemented printf c o

/-- The loop `while (*c)`.  Behind the last character `*c` is 0. -/
def vprintfLoop : List Byte → List Arg → Out → Except Exit Out
  | [], _, o => .ok o
  | c :: rest, args, o =>
      if c = charByte '%' then
        match rest with
        -- the format ends behind `%`: `*c` is its null byte
        | [] => unimplemented printf 0 o
        | c :: rest => do
            let (args, o) ← convert printf c args o
            vprintfLoop rest args o
      else do
        let o ← put (c.setWidth 32) o
        vprintfLoop rest args (o.add 1)

end Loop

/-- `return chars_written`, at the end or in the middle. -/
def finish : Except Exit Out → Option (Word × List Byte)
  | .ok o => some (o.charsWritten, o.uart)
  | .error (.ret o) => some (o.charsWritten, o.uart)
  | .error .undefined => none

/-- `vprintf`, with at most `depth` calls of it nested. -/
def vprintfAt : Nat → Printf
  | 0 => fun _ _ _ => none
  | depth + 1 => fun format args uart =>
      finish (vprintfLoop (vprintfAt depth) format args ⟨0, uart⟩)

/-- `vprintf`: the value it returns, and the bytes written to the UART.  The
formats that it passes on to `printf` need no third call. -/
def vprintf (format : CString) (args : List Arg) (uart : List Byte) : Option (Word × List Byte) :=
  vprintfAt 2 format.bytes args uart

/-- `printf`. -/
def printf (format : CString) (args : List Arg) (uart : List Byte) : Option (Word × List Byte) :=
  vprintf format args uart

end Libc
end Ninjastorms
