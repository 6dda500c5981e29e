import LibCheckpoint.Reader
import LibCheckpoint.Ntoa

/-!
The formatter of `printf.c`.

A `const char *` is the list of the bytes from the pointer to the end of the object it points
into, and a read behind that end is `none`. The arguments are the slots of the `va_list`, which
have 64 bits each.
-/

namespace LibCheckpoint.Printf

open LibCheckpoint.Bytes LibCheckpoint.Sink LibCheckpoint.Ntoa
open LibCheckpoint.Reader (Read peek advance arg many)

/-- What a call finds outside its arguments: the bytes at an address, and what `_ftoa` and
`_etoa` print for a double, a precision, a width and flags. -/
structure Env where
  str : Word → List Byte
  ftoa : Word → ℕ → ℕ → Flags → List Byte
  etoa : Word → ℕ → ℕ → Flags → List Byte

/-! ### The output functions -/

/-- `out_fct_type`: the character, the buffer, the index, the size -/
abbrev OutFct (β σ : Type*) := Byte → β → ℕ → Word → σ → σ

def outBuffer : OutFct Word (Word → Byte) := fun character buffer idx maxlen m =>
  if idx < maxlen.toNat then Function.update m (buffer + BitVec.ofNat 64 idx) character else m

def outNull {β σ : Type*} : OutFct β σ := fun _ _ _ _ s => s

/-- `_putchar`: what the serial port has been sent -/
def putchar (character : Byte) (console : List Byte) : List Byte := console ++ [character]

def outChar : OutFct Unit (List Byte) := fun character _ _ _ console =>
  if character ≠ 0 then putchar character console else console

/-- `_out_fct`: the buffer is the function with its argument -/
def outFct {σ : Type*} : OutFct (Byte → σ → σ) σ := fun character fct _ _ s =>
  if character ≠ 0 then fct character s else s

/-! ### Reading the format and the arguments -/

/-- `_strnlen_s`, before its result is cut to 32 bits -/
def strnlen : List Byte → ℕ → Option ℕ
  | [], _ => none
  | c :: s, maxsize =>
    if c = 0 then some 0
    else
      match maxsize with
      | 0 => some 0
      | maxsize + 1 => (strnlen s maxsize).map (· + 1)

def strnlenS (s : List Byte) (maxsize : ℕ) : Option ℕ := (strnlen s maxsize).map (· % 2 ^ 32)

def isDigit (ch : Byte) : Bool := decide (chr '0' ≤ ch) && decide (ch ≤ chr '9')

def atoi : Read Byte Word ℕ :=
  many (fun i c => if isDigit c then some ((i * 10 + (c - chr '0').toNat) % 2 ^ 32) else none) 0

def setFlag (c : Byte) (flags : Flags) : Option Flags :=
  if c = chr '0' then some { flags with zeropad := true }
  else if c = chr '-' then some { flags with left := true }
  else if c = chr '+' then some { flags with plus := true }
  else if c = chr ' ' then some { flags with space := true }
  else if c = chr '#' then some { flags with hash := true }
  else none

def flagsField : Read Byte Word Flags := many (fun flags c => setFlag c flags) {}

/-- `va_arg(va, int)` -/
def intArg (w : Word) : BitVec 32 := w.setWidth 32

def widthField (flags : Flags) : Read Byte Word (Flags × ℕ) := peek fun c =>
  if isDigit c then Reader.bind atoi fun width => Reader.pure (flags, width)
  else if c = chr '*' then
    arg fun a => advance <| Reader.pure <|
      if (intArg a).toInt < 0 then ({ flags with left := true }, (-intArg a).toNat)
      else (flags, (intArg a).toNat)
  else Reader.pure (flags, 0)

def precisionDigits : Read Byte Word ℕ := peek fun c =>
  if isDigit c then atoi
  else if c = chr '*' then
    arg fun a => advance <| Reader.pure <|
      if 0 < (intArg a).toInt then (intArg a).toNat else 0
  else Reader.pure 0

def precisionField (flags : Flags) : Read Byte Word (Flags × ℕ) := peek fun c =>
  if c = chr '.' then
    advance <| Reader.bind precisionDigits fun precision =>
      Reader.pure ({ flags with precision := true }, precision)
  else Reader.pure (flags, 0)

def lengthTwice (c : Byte) (once twice : Flags) : Read Byte Word Flags := peek fun c' =>
  if c' = c then advance (Reader.pure twice) else Reader.pure once

/-- evaluate length field: `ptrdiff_t`, `intmax_t` and `size_t` are as long as `long` -/
def lengthField (flags : Flags) : Read Byte Word Flags := peek fun c =>
  if c = chr 'l' then
    advance <| lengthTwice c { flags with long := true }
      { flags with long := true, longLong := true }
  else if c = chr 'h' then
    advance <| lengthTwice c { flags with short := true }
      { flags with short := true, char := true }
  else if c = chr 't' ∨ c = chr 'j' ∨ c = chr 'z' then
    advance <| Reader.pure { flags with long := true }
  else Reader.pure flags

/-- The fields in front of a specifier. -/
structure Directive where
  flags : Flags
  width : ℕ
  precision : ℕ
  deriving DecidableEq, Repr

/-- `%[flags][width][.precision][length]` behind the `%` -/
def directive : Read Byte Word Directive :=
  Reader.bind flagsField fun flags =>
  Reader.bind (widthField flags) fun w =>
  Reader.bind (precisionField w.1) fun p =>
  Reader.bind (lengthField p.1) fun flags =>
  Reader.pure ⟨flags, w.2, p.2⟩

/-! ### The conversions -/

def baseOf (c : Byte) : ℕ :=
  if c = chr 'x' ∨ c = chr 'X' then 16
  else if c = chr 'o' then 8
  else if c = chr 'b' then 2
  else 10

def isSigned (c : Byte) : Bool := c == chr 'i' || c == chr 'd'

/-- The flags of an integer conversion: no hash for the decimal format, upper case for `X`, no
plus or space but for `i` and `d`, and no zero padding when a precision is given. -/
def integerFlags (c : Byte) (flags : Flags) : Flags :=
  { flags with
    hash := flags.hash && baseOf c != 10
    uppercase := flags.uppercase || c == chr 'X'
    plus := flags.plus && isSigned c
    space := flags.space && isSigned c
    zeropad := flags.zeropad && !flags.precision }

/-- `value > 0 ? value : 0 - value` -/
def magnitude {n : ℕ} (value : BitVec n) : BitVec n := if 0 < value.toInt then value else 0 - value

def signedInt (flags : Flags) (w : Word) : BitVec 32 :=
  if flags.char then (w.setWidth 8).setWidth 32
  else if flags.short then (w.setWidth 16).signExtend 32
  else w.setWidth 32

def unsignedInt (flags : Flags) (w : Word) : BitVec 32 :=
  if flags.char then (w.setWidth 8).setWidth 32
  else if flags.short then (w.setWidth 16).setWidth 32
  else w.setWidth 32

section Output

variable {σ : Type*} (out : Out Byte σ)

/-- The specifiers `d`, `i`, `u`, `x`, `X`, `o` and `b`. -/
def integer (d : Directive) (c : Byte) (w : Word) (p : ℕ × σ) : ℕ × σ :=
  let flags := integerFlags c d.flags
  if isSigned c then
    if flags.longLong then
      ntoaLongLong out (magnitude w) (decide (w.toInt < 0)) (baseOf c) d.precision d.width flags p
    else if flags.long then
      ntoaLong out (magnitude w) (decide (w.toInt < 0)) (baseOf c) d.precision d.width flags p
    else
      let value := signedInt flags w
      ntoaLong out ((magnitude value).setWidth 64) (decide (value.toInt < 0)) (baseOf c)
        d.precision d.width flags p
  else if flags.longLong then
    ntoaLongLong out w false (baseOf c) d.precision d.width flags p
  else if flags.long then
    ntoaLong out w false (baseOf c) d.precision d.width flags p
  else
    ntoaLong out ((unsignedInt flags w).setWidth 64) false (baseOf c) d.precision d.width flags p

def character (d : Directive) (w : Word) (p : ℕ × σ) : ℕ × σ :=
  -- pre padding
  let p := if !d.flags.left then (put out (chr ' '))^[d.width - 1] p else p
  let p := put out (w.setWidth 8) p
  -- post padding
  if d.flags.left then (put out (chr ' '))^[d.width - 1] p else p

/-- The loop of the string output. -/
def stringLoop (limited : Bool) : List Byte → ℕ → ℕ × σ → Option (ℕ × σ)
  | [], _, _ => none
  | c :: s, precision, p =>
    if c = 0 then some p
    else if limited then
      match precision with
      | 0 => some p
      | precision + 1 => stringLoop limited s precision (put out c p)
    else stringLoop limited s precision (put out c p)

def sizeMax : ℕ := 2 ^ 64 - 1

def string (E : Env) (d : Directive) (w : Word) (p : ℕ × σ) : Option (ℕ × σ) :=
  (strnlenS (E.str w) (if d.precision ≠ 0 then d.precision else sizeMax)).bind fun l =>
    let l := if d.flags.precision then min l d.precision else l
    -- pre padding
    let p := if !d.flags.left then (put out (chr ' '))^[d.width - l] p else p
    (stringLoop out d.flags.precision (E.str w) d.precision p).map fun p =>
      -- post padding
      if d.flags.left then (put out (chr ' '))^[d.width - l] p else p

def pointer (d : Directive) (w : Word) (p : ℕ × σ) : ℕ × σ :=
  ntoaLongLong out w false 16 d.precision 16 { d.flags with zeropad := true, uppercase := true } p

def isInteger (c : Byte) : Bool :=
  c == chr 'd' || c == chr 'i' || c == chr 'u' || c == chr 'x' || c == chr 'X' || c == chr 'o' ||
    c == chr 'b'

def etoaFlags (c : Byte) (flags : Flags) : Flags :=
  let flags := if c = chr 'g' ∨ c = chr 'G' then { flags with adaptExp := true } else flags
  if c = chr 'E' ∨ c = chr 'G' then { flags with uppercase := true } else flags

def takesArg (c : Byte) : Bool :=
  isInteger c || c == chr 'f' || c == chr 'F' || c == chr 'e' || c == chr 'E' || c == chr 'g' ||
    c == chr 'G' || c == chr 'c' || c == chr 's' || c == chr 'p'

/-- A specifier and its argument. -/
def convert (E : Env) (d : Directive) (c : Byte) (w : Word) (p : ℕ × σ) : Option (ℕ × σ) :=
  if isInteger c then some (integer out d c w p)
  else if c = chr 'f' ∨ c = chr 'F' then
    let flags := if c = chr 'F' then { d.flags with uppercase := true } else d.flags
    some (puts out (E.ftoa w d.precision d.width flags) p)
  else if c = chr 'e' ∨ c = chr 'E' ∨ c = chr 'g' ∨ c = chr 'G' then
    some (puts out (E.etoa w d.precision d.width (etoaFlags c d.flags)) p)
  else if c = chr 'c' then some (character out d w p)
  else if c = chr 's' then string out E d w p
  else some (pointer out d w p)

def specifier (E : Env) (d : Directive) (c : Byte) (va : List Word) (p : ℕ × σ) :
    Option (List Word × (ℕ × σ)) :=
  if takesArg c then
    match va with
    | [] => none
    | w :: va => (convert out E d c w p).map fun p => (va, p)
  else some (va, put out c p)  -- `%%` and every other character

end Output

end LibCheckpoint.Printf
