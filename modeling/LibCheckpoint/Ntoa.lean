import LibCheckpoint.Bytes
import LibCheckpoint.Sink
import LibCheckpoint.Numeral

/-!
How `printf.c` converts an integer: the digits are written lowest first into a buffer of
32 characters, zeros, a base prefix and a sign are appended, and the buffer is sent out in
reverse between the blanks that fill the width.
-/

namespace LibCheckpoint.Ntoa

open LibCheckpoint.Bytes LibCheckpoint.Sink LibCheckpoint.Numeral

def chr (c : Char) : Byte := BitVec.ofNat 8 c.toNat

/-- The internal flags `FLAGS_*`. -/
structure Flags where
  zeropad : Bool := false
  left : Bool := false
  plus : Bool := false
  space : Bool := false
  hash : Bool := false
  uppercase : Bool := false
  char : Bool := false
  short : Bool := false
  long : Bool := false
  longLong : Bool := false
  precision : Bool := false
  adaptExp : Bool := false
  deriving DecidableEq, Repr

/-! ### The conversion buffer -/

abbrev ntoaBufferSize : ℕ := 32

/-- The characters of `buf` below `len`. -/
structure Buf where
  chars : List Byte
  fits : chars.length ≤ ntoaBufferSize

namespace Buf

def len (buf : Buf) : ℕ := buf.chars.length

def empty : Buf := ⟨[], Nat.zero_le _⟩

/-- `buf[len++] = c` -/
def push (buf : Buf) (c : Byte) (h : buf.len < ntoaBufferSize) : Buf :=
  ⟨buf.chars ++ [c], by rw [List.length_append]; exact h⟩

/-- The same where the source first tests that there is room. -/
def offer (buf : Buf) (c : Byte) : Buf := if h : buf.len < ntoaBufferSize then buf.push c h else buf

def pop (buf : Buf) : Buf := ⟨buf.chars.dropLast, by
  have := buf.fits
  rw [List.length_dropLast]
  omega⟩

@[simp] lemma chars_empty : empty.chars = [] := rfl
@[simp] lemma len_empty : empty.len = 0 := rfl
@[simp] lemma chars_push (buf : Buf) (c : Byte) (h : buf.len < ntoaBufferSize) :
    (buf.push c h).chars = buf.chars ++ [c] := rfl
@[simp] lemma len_push (buf : Buf) (c : Byte) (h : buf.len < ntoaBufferSize) :
    (buf.push c h).len = buf.len + 1 := by
  simp [len]
@[simp] lemma chars_pop (buf : Buf) : buf.pop.chars = buf.chars.dropLast := rfl
@[simp] lemma len_pop (buf : Buf) : buf.pop.len = buf.len - 1 := by simp [len]

lemma length_chars (buf : Buf) : buf.chars.length = buf.len := rfl

lemma len_le (buf : Buf) : buf.len ≤ ntoaBufferSize := buf.fits

lemma chars_offer (buf : Buf) (c : Byte) :
    (buf.offer c).chars = if buf.len < ntoaBufferSize then buf.chars ++ [c] else buf.chars := by
  unfold offer
  split_ifs <;> rfl

lemma len_offer (buf : Buf) (c : Byte) :
    (buf.offer c).len = if buf.len < ntoaBufferSize then buf.len + 1 else buf.len := by
  unfold offer
  split_ifs <;> simp

end Buf

/-! ### The functions of the source -/

variable {σ : Type*} (out : Out Byte σ)

def outRev (buf : Buf) (width : ℕ) (flags : Flags) (p : ℕ × σ) : ℕ × σ :=
  let startIdx := p.1
  -- pad spaces up to given width
  let p := if !flags.left && !flags.zeropad then (put out (chr ' '))^[width - buf.len] p else p
  -- reverse string
  let p := puts out buf.chars.reverse p
  -- append pad spaces up to given width
  if flags.left then (put out (chr ' '))^[width - (p.1 - startIdx)] p else p

/-- `while ((len < n) && (len < PRINTF_NTOA_BUFFER_SIZE)) buf[len++] = '0'` -/
def padZeros (n : ℕ) (buf : Buf) : Buf :=
  if h : buf.len < n ∧ buf.len < ntoaBufferSize then padZeros n (buf.push (chr '0') h.2) else buf
termination_by ntoaBufferSize - buf.len
decreasing_by
  rw [Buf.len_push]
  omega

/-- The width that is left when a sign goes in front of zeros. -/
def padWidth (negative : Bool) (width : ℕ) (flags : Flags) : ℕ :=
  if !flags.left && (width != 0 && flags.zeropad && (negative || flags.plus || flags.space)) then
    width - 1
  else width

def padLeading (prec width : ℕ) (flags : Flags) (buf : Buf) : Buf :=
  if !flags.left then
    let buf := padZeros prec buf
    if flags.zeropad then padZeros width buf else buf
  else buf

/-- The zeros, or digits, that the prefix takes the place of. -/
def dropForHash (base prec width : ℕ) (flags : Flags) (buf : Buf) : Buf :=
  if !flags.precision && buf.len != 0 && (buf.len == prec || buf.len == width) then
    let buf := buf.pop
    if buf.len != 0 && base == 16 then buf.pop else buf
  else buf

def handleHash (base prec width : ℕ) (flags : Flags) (buf : Buf) : Buf :=
  if flags.hash then
    let buf := dropForHash base prec width flags buf
    let buf :=
      if base = 16 then buf.offer (if flags.uppercase then chr 'X' else chr 'x')
      else if base = 2 then buf.offer (chr 'b')
      else buf
    buf.offer (chr '0')
  else buf

/-- The sign, which takes one character if there is room for it. -/
def signChar (negative : Bool) (flags : Flags) (buf : Buf) : Buf :=
  if negative then buf.offer (chr '-')
  else if flags.plus then buf.offer (chr '+')
  else if flags.space then buf.offer (chr ' ')
  else buf

def ntoaFormat (buf : Buf) (negative : Bool) (base prec width : ℕ) (flags : Flags)
    (p : ℕ × σ) : ℕ × σ :=
  let width := padWidth negative width flags
  let buf := padLeading prec width flags buf
  let buf := handleHash base prec width flags buf
  let buf := signChar negative flags buf
  outRev out buf width flags p

def digitChar (uppercase : Bool) (digit : ℕ) : Byte :=
  if digit < 10 then chr '0' + BitVec.ofNat 8 digit
  else (if uppercase then chr 'A' else chr 'a') + BitVec.ofNat 8 (digit - 10)

/-- The loop that writes the digits, the lowest one in any case. -/
def ntoaDigits (base : ℕ) (uppercase : Bool) (value : ℕ) (buf : Buf)
    (h : buf.len < ntoaBufferSize) : Buf :=
  let next := buf.push (digitChar uppercase (value % base)) h
  if h' : value / base ≠ 0 ∧ next.len < ntoaBufferSize then
    ntoaDigits base uppercase (value / base) next h'.2
  else next
termination_by ntoaBufferSize - buf.len
decreasing_by
  simp only [next, Buf.len_push] at h' ⊢
  omega

/-- The flags without the hash for a zero value. -/
def ntoaFlags (value : Word) (flags : Flags) : Flags :=
  if value = 0 then { flags with hash := false } else flags

def ntoaBuf (value : Word) (base : ℕ) (flags : Flags) : Buf :=
  if !flags.precision || value != 0 then
    ntoaDigits base flags.uppercase value.toNat Buf.empty (by decide)
  else Buf.empty

/-- The body that `_ntoa_long` and `_ntoa_long_long` have in common: both types have 64 bits. -/
def ntoa (value : Word) (negative : Bool) (base prec width : ℕ) (flags : Flags)
    (p : ℕ × σ) : ℕ × σ :=
  let flags := ntoaFlags value flags
  ntoaFormat out (ntoaBuf value base flags) negative base prec width flags p

def ntoaLong (value : Word) (negative : Bool) (base prec width : ℕ) (flags : Flags)
    (p : ℕ × σ) : ℕ × σ := ntoa out value negative base prec width flags p

def ntoaLongLong (value : Word) (negative : Bool) (base prec width : ℕ) (flags : Flags)
    (p : ℕ × σ) : ℕ × σ := ntoa out value negative base prec width flags p

/-! ### What is printed -/

def revText (buf : Buf) (width : ℕ) (flags : Flags) : List Byte :=
  (if !flags.left && !flags.zeropad then List.replicate (width - buf.len) (chr ' ') else []) ++
    (buf.chars.reverse ++
      if flags.left then List.replicate (width - buf.len) (chr ' ') else [])

/-- The buffer that `_ntoa_format` sends out. -/
def formatBuf (buf : Buf) (negative : Bool) (base prec width : ℕ) (flags : Flags) : Buf :=
  let width := padWidth negative width flags
  signChar negative flags (handleHash base prec width flags (padLeading prec width flags buf))

def ntoaText (value : Word) (negative : Bool) (base prec width : ℕ) (flags : Flags) : List Byte :=
  let flags := ntoaFlags value flags
  revText (formatBuf (ntoaBuf value base flags) negative base prec width flags)
    (padWidth negative width flags) flags

variable {out}

lemma prints_outRev (buf : Buf) (width : ℕ) (flags : Flags) :
    Prints out (outRev out buf width flags) (revText buf width flags) := by
  intro p
  unfold outRev revText
  cases flags.left
  · cases flags.zeropad
    · simp [puts_append, iterate_put]
    · simp
  · have hlen : p.1 + buf.chars.length - p.1 = buf.len := by
      rw [Nat.add_sub_cancel_left]
      rfl
    simp [puts_append, iterate_put, hlen]

/-- **What a conversion prints**, whatever the sink. -/
theorem prints_ntoa (value : Word) (negative : Bool) (base prec width : ℕ) (flags : Flags) :
    Prints out (ntoa out value negative base prec width flags)
      (ntoaText value negative base prec width flags) :=
  prints_outRev _ _ _

/-! ### The buffer, step by step -/

lemma chars_padZeros (n : ℕ) (buf : Buf) : (padZeros n buf).chars =
    buf.chars ++ List.replicate (min n ntoaBufferSize - buf.len) (chr '0') := by
  induction buf using padZeros.induct n with
  | case1 buf h ih =>
    rw [padZeros, dif_pos h, ih, Buf.chars_push, Buf.len_push, List.append_assoc,
      List.singleton_append, ← List.replicate_succ]
    congr 2
    omega
  | case2 buf h =>
    have : min n ntoaBufferSize - buf.len = 0 := by omega
    rw [padZeros, dif_neg h, this]
    simp

lemma len_padZeros (n : ℕ) (buf : Buf) :
    (padZeros n buf).len = max buf.len (min n ntoaBufferSize) := by
  unfold Buf.len
  rw [chars_padZeros, List.length_append, List.length_replicate]
  unfold Buf.len
  omega

/-- How many characters the digits and the zeros in front of them take. -/
def bodyLen (prec width : ℕ) (flags : Flags) (digits : ℕ) : ℕ :=
  if flags.left then digits
  else if flags.zeropad then
    max (max digits (min prec ntoaBufferSize)) (min width ntoaBufferSize)
  else max digits (min prec ntoaBufferSize)

lemma le_bodyLen (prec width : ℕ) (flags : Flags) (digits : ℕ) :
    digits ≤ bodyLen prec width flags digits := by
  unfold bodyLen
  split_ifs <;> omega

lemma bodyLen_le {digits : ℕ} (h : digits ≤ ntoaBufferSize) (prec width : ℕ) (flags : Flags) :
    bodyLen prec width flags digits ≤ ntoaBufferSize := by
  unfold bodyLen
  split_ifs <;> omega

lemma chars_padLeading (prec width : ℕ) (flags : Flags) (buf : Buf) :
    (padLeading prec width flags buf).chars = buf.chars ++
      List.replicate (bodyLen prec width flags buf.len - buf.len) (chr '0') := by
  unfold padLeading bodyLen
  cases flags.left
  · cases flags.zeropad
    · have : max buf.len (min prec ntoaBufferSize) - buf.len =
        min prec ntoaBufferSize - buf.len := by omega
      simp [chars_padZeros, this]
    · simp only [chars_padZeros, len_padZeros, Bool.not_false, if_true, Bool.false_eq_true,
        if_false, List.append_assoc, List.replicate_append_replicate]
      congr 2
      omega
  · simp

lemma len_padLeading (prec width : ℕ) (flags : Flags) (buf : Buf) :
    (padLeading prec width flags buf).len = bodyLen prec width flags buf.len := by
  have := le_bodyLen prec width flags buf.len
  unfold Buf.len at this ⊢
  rw [chars_padLeading, List.length_append, List.length_replicate]
  unfold Buf.len
  omega

lemma chars_ntoaDigits (base : ℕ) (uppercase : Bool) (value : ℕ) (buf : Buf)
    (h : buf.len < ntoaBufferSize) : (ntoaDigits base uppercase value buf h).chars =
      buf.chars ++ (lowDigits base (ntoaBufferSize - buf.len) value).map (digitChar uppercase) := by
  induction value, buf, h using ntoaDigits.induct base uppercase with
  | case1 value buf h next h' ih =>
    have hroom : ntoaBufferSize - buf.len = ntoaBufferSize - next.len + 1 := by
      simp only [next, Buf.len_push]
      omega
    rw [ntoaDigits, dif_pos h', ih, hroom, lowDigits, if_neg h'.1]
    simp [next]
  | case2 value buf h next h' =>
    rw [ntoaDigits, dif_neg h']
    by_cases hq : value / base = 0
    · have hroom : ntoaBufferSize - buf.len = ntoaBufferSize - next.len + 1 := by
        simp only [next, Buf.len_push]
        omega
      rw [hroom, lowDigits, if_pos hq]
      simp
    · have hfull : ntoaBufferSize - buf.len = 1 := by
        simp only [next, Buf.len_push] at h'
        omega
      simp [hfull, lowDigits]

/-- The digits that a conversion writes. -/
def digitsOf (value : Word) (base : ℕ) (flags : Flags) : List ℕ :=
  if !flags.precision || value != 0 then lowDigits base ntoaBufferSize value.toNat else []

lemma chars_ntoaBuf (value : Word) (base : ℕ) (flags : Flags) :
    (ntoaBuf value base flags).chars =
      (digitsOf value base flags).map (digitChar flags.uppercase) := by
  unfold ntoaBuf digitsOf
  split_ifs
  · rw [chars_ntoaDigits]
    simp
  · rfl

lemma len_ntoaBuf (value : Word) (base : ℕ) (flags : Flags) :
    (ntoaBuf value base flags).len = (digitsOf value base flags).length := by
  rw [Buf.len, chars_ntoaBuf, List.length_map]

end LibCheckpoint.Ntoa
