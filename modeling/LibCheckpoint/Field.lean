import LibCheckpoint.Ntoa

/-!
What the text of an integer conversion says: which number it shows, where the sign and the
base prefix are lost, and how long it is.
-/

namespace LibCheckpoint.Field

open LibCheckpoint.Bytes LibCheckpoint.Sink LibCheckpoint.Numeral LibCheckpoint.Ntoa
open Nat (ofDigits)

/-! ### The alphabet -/

/-- The value of a hexadecimal digit, sixteen for any other character. -/
def hexVal (c : Byte) : ℕ :=
  if chr '0' ≤ c ∧ c ≤ chr '9' then c.toNat - '0'.toNat
  else if chr 'a' ≤ c ∧ c ≤ chr 'f' then c.toNat - 'a'.toNat + 10
  else if chr 'A' ≤ c ∧ c ≤ chr 'F' then c.toNat - 'A'.toNat + 10
  else 16

lemma hexVal_digitChar : ∀ uppercase : Bool, ∀ d < 16, hexVal (digitChar uppercase d) = d := by
  decide

lemma val_of_hexVal {base : ℕ} (hb : base ≤ 16) {c : Byte} (h : hexVal c = 16) :
    (if hexVal c < base then some (hexVal c) else none) = none :=
  if_neg (by omega)

/-- The digits of a base, in upper or lower case; both are read. -/
def alphabet (uppercase : Bool) {base : ℕ} (hb : base ≤ 16) : Alphabet Byte base where
  blank := chr ' '
  plus := chr '+'
  minus := chr '-'
  digit := digitChar uppercase
  val c := if hexVal c < base then some (hexVal c) else none
  val_digit d hd := by rw [hexVal_digitChar uppercase d (by omega), if_pos hd]
  val_blank := val_of_hexVal hb (by decide)
  val_plus := val_of_hexVal hb (by decide)
  val_minus := val_of_hexVal hb (by decide)
  plus_ne_blank := by decide
  minus_ne_blank := by decide
  minus_ne_plus := by decide

/-! ### The number in the field -/

@[simp] lemma bodyLen_ntoaFlags (value : Word) (flags : Flags) (prec width digits : ℕ) :
    bodyLen prec width (ntoaFlags value flags) digits = bodyLen prec width flags digits := by
  unfold ntoaFlags
  split_ifs <;> rfl

@[simp] lemma padWidth_ntoaFlags (value : Word) (flags : Flags) (negative : Bool) (width : ℕ) :
    padWidth negative width (ntoaFlags value flags) = padWidth negative width flags := by
  unfold ntoaFlags
  split_ifs <;> rfl

@[simp] lemma digitsOf_ntoaFlags (value : Word) (flags : Flags) (base : ℕ) :
    digitsOf value base (ntoaFlags value flags) = digitsOf value base flags := by
  unfold ntoaFlags
  split_ifs <;> rfl

@[simp] lemma uppercase_ntoaFlags (value : Word) (flags : Flags) :
    (ntoaFlags value flags).uppercase = flags.uppercase := by
  unfold ntoaFlags
  split_ifs <;> rfl

/-- The length of the digits and zeros of a conversion. -/
def body (value : Word) (negative : Bool) (base prec width : ℕ) (flags : Flags) : ℕ :=
  bodyLen prec (padWidth negative width flags) flags (digitsOf value base flags).length

lemma length_digitsOf_le (value : Word) (base : ℕ) (flags : Flags) :
    (digitsOf value base flags).length ≤ ntoaBufferSize := by
  unfold digitsOf
  split_ifs
  · exact length_lowDigits_le _ _ _
  · exact Nat.zero_le _

lemma body_le (value : Word) (negative : Bool) (base prec width : ℕ) (flags : Flags) :
    body value negative base prec width flags ≤ ntoaBufferSize :=
  bodyLen_le (length_digitsOf_le value base flags) _ _ _

/-- The digits of a conversion and the zeros in front of them, lowest first. -/
def padded (value : Word) (negative : Bool) (base prec width : ℕ) (flags : Flags) : List ℕ :=
  digitsOf value base flags ++ List.replicate (body value negative base prec width flags -
    (digitsOf value base flags).length) 0

def shown (value : Word) (negative : Bool) (base prec width : ℕ) (flags : Flags) : List ℕ :=
  (padded value negative base prec width flags).reverse

/-- The sign of a conversion, which is left out when the digits fill the buffer. -/
def signMark (negative : Bool) (flags : Flags) (len : ℕ) : Mark :=
  if len < ntoaBufferSize then
    if negative then .minus else if flags.plus then .plus else .none
  else .none

lemma length_padded (value : Word) (negative : Bool) (base prec width : ℕ) (flags : Flags) :
    (padded value negative base prec width flags).length =
      body value negative base prec width flags := by
  have := le_bodyLen prec (padWidth negative width flags) flags (digitsOf value base flags).length
  unfold padded body at *
  rw [List.length_append, List.length_replicate]
  omega

lemma length_shown (value : Word) (negative : Bool) (base prec width : ℕ) (flags : Flags) :
    (shown value negative base prec width flags).length =
      body value negative base prec width flags := by
  rw [shown, List.length_reverse, length_padded]

lemma mem_digitsOf_lt {value : Word} {base : ℕ} {flags : Flags} (hb : 0 < base) {d : ℕ}
    (h : d ∈ digitsOf value base flags) : d < base := by
  unfold digitsOf at h
  split_ifs at h
  · exact lt_of_mem_lowDigits hb h
  · simp at h

lemma ofDigits_digitsOf {value : Word} {base : ℕ} {flags : Flags} (hb : 0 < base) :
    ofDigits base (digitsOf value base flags) = value.toNat % base ^ ntoaBufferSize := by
  unfold digitsOf
  split_ifs with h
  · exact ofDigits_lowDigits hb _ _
  · have hv : value = 0 := by
      by_contra hne
      exact h (Bool.or_eq_true_iff.mpr (Or.inr (bne_iff_ne.mpr hne)))
    simp [hv]

lemma value_shown {base : ℕ} (hb : 0 < base) (v : Word) (negative : Bool) (prec width : ℕ)
    (flags : Flags) : value base (shown v negative base prec width flags) =
      v.toNat % base ^ ntoaBufferSize := by
  rw [shown, value_reverse, padded, Nat.ofDigits_append_replicate_zero, ofDigits_digitsOf hb]

lemma mem_padded_lt {base : ℕ} (hb : 0 < base) {v : Word} {negative : Bool} {prec width : ℕ}
    {flags : Flags} {d : ℕ} (h : d ∈ padded v negative base prec width flags) : d < base := by
  unfold padded at h
  rw [List.mem_append, List.mem_replicate] at h
  rcases h with h | ⟨-, rfl⟩
  · exact mem_digitsOf_lt hb h
  · exact hb

variable {base : ℕ} (hb : base ≤ 16)

lemma revText_eq (buf : Buf) (width : ℕ) (flags : Flags) : ∃ k l, revText buf width flags =
    List.replicate k (chr ' ') ++ (buf.chars.reverse ++ List.replicate l (chr ' ')) := by
  refine ⟨if !flags.left && !flags.zeropad then width - buf.len else 0,
    if flags.left then width - buf.len else 0, ?_⟩
  unfold revText
  split_ifs <;> simp

lemma reverse_signChar (uppercase negative : Bool) (flags : Flags) (buf : Buf) :
    ∃ j, (signChar negative flags buf).chars.reverse = List.replicate j (chr ' ') ++
      ((alphabet uppercase hb).mark (signMark negative flags buf.len) ++ buf.chars.reverse) := by
  unfold signChar signMark
  by_cases hroom : buf.len < ntoaBufferSize
  · cases negative
    · cases flags.plus
      · cases flags.space
        · exact ⟨0, by simp [hroom, Alphabet.mark]⟩
        · exact ⟨1, by simp [hroom, Buf.chars_offer, Alphabet.mark]⟩
      · exact ⟨0, by simp [hroom, Buf.chars_offer, Alphabet.mark, alphabet]⟩
    · exact ⟨0, by simp [hroom, Buf.chars_offer, Alphabet.mark, alphabet]⟩
  · refine ⟨0, ?_⟩
    split_ifs <;> simp [hroom, Buf.chars_offer, Alphabet.mark]

lemma chars_padded (v : Word) (negative : Bool) (base prec width : ℕ) (flags : Flags) :
    (padLeading prec (padWidth negative width flags) flags (ntoaBuf v base flags)).chars =
      (padded v negative base prec width flags).map (digitChar flags.uppercase) := by
  have hzero : digitChar flags.uppercase 0 = chr '0' := by simp [digitChar]
  rw [chars_padLeading, chars_ntoaBuf, len_ntoaBuf]
  simp [padded, body, hzero]

/-- **The text is a field**: blanks, the sign, zeros, the digits, blanks. -/
theorem ntoaText_eq_field (v : Word) (negative : Bool) (prec width : ℕ) {flags : Flags}
    (h : flags.hash = false) : ∃ k l, ntoaText v negative base prec width flags =
      (alphabet flags.uppercase hb).field k
        (signMark negative flags (body v negative base prec width flags))
        (shown v negative base prec width flags) l := by
  have hflags : ntoaFlags v flags = flags := by
    unfold ntoaFlags
    split_ifs
    · rw [← h]
    · rfl
  unfold ntoaText formatBuf
  simp only [hflags]
  obtain ⟨k, l, htext⟩ := revText_eq (signChar negative flags (handleHash base prec
    (padWidth negative width flags) flags (padLeading prec (padWidth negative width flags) flags
      (ntoaBuf v base flags)))) (padWidth negative width flags) flags
  have hhash : ∀ buf w, handleHash base prec w flags buf = buf := fun buf w => by
    simp [handleHash, h]
  rw [hhash] at htext
  obtain ⟨j, hsign⟩ := reverse_signChar hb flags.uppercase negative flags
    (padLeading prec (padWidth negative width flags) flags (ntoaBuf v base flags))
  rw [len_padLeading, len_ntoaBuf, chars_padded, ← List.map_reverse] at hsign
  refine ⟨k + j, l, ?_⟩
  rw [hhash, htext, hsign]
  unfold Alphabet.field
  rw [List.replicate_add]
  simp only [List.append_assoc]
  rfl

structure Bare (flags : Flags) (width : ℕ) : Prop where
  left : flags.left = false
  plus : flags.plus = false
  space : flags.space = false
  hash : flags.hash = false
  filled : flags.zeropad = true ∨ width = 0

lemma ntoaText_bare (v : Word) (base prec : ℕ) {width : ℕ} {flags : Flags} (h : Bare flags width) :
    ntoaText v false base prec width flags =
      (shown v false base prec width flags).map (digitChar flags.uppercase) := by
  have hflags : ntoaFlags v flags = flags := by
    unfold ntoaFlags
    split_ifs
    · rw [← h.hash]
    · rfl
  have hformat : formatBuf (ntoaBuf v base flags) false base prec width flags =
      padLeading prec (padWidth false width flags) flags (ntoaBuf v base flags) := by
    simp [formatBuf, handleHash, signChar, h.hash, h.plus, h.space]
  have hwidth : padWidth false width flags = width := by simp [padWidth, h.plus, h.space]
  have hpad := chars_padded v false base prec width flags
  unfold ntoaText
  simp only [hflags, hformat]
  unfold revText
  rw [hpad, shown, List.map_reverse, hwidth, h.left]
  rcases h.filled with hzero | rfl
  · simp [hzero]
  · simp

lemma zero_not_mem_ntoaText {base : ℕ} (hb : base ≤ 16) (hpos : 0 < base) (v : Word)
    (negative : Bool) (prec width : ℕ) {flags : Flags} (h : flags.hash = false) :
    (0 : Byte) ∉ ntoaText v negative base prec width flags := by
  obtain ⟨k, l, htext⟩ := ntoaText_eq_field hb v negative prec width h
  have hdigit : ∀ uppercase : Bool, ∀ d < 16, digitChar uppercase d ≠ 0 := by decide
  have hblank : ∀ k, (0 : Byte) ∉ List.replicate k (chr ' ') := fun k hmem =>
    absurd (List.eq_of_mem_replicate hmem) (by decide)
  have hmark : ∀ s, (0 : Byte) ∉ (alphabet flags.uppercase hb).mark s := by
    rintro (_ | _ | _) <;> simp [Alphabet.mark, alphabet] <;> decide
  rw [htext]
  unfold Alphabet.field
  simp only [List.mem_append, List.mem_map, not_or, not_exists, not_and]
  refine ⟨hblank k, hmark _, fun d hd => hdigit _ d ?_, hblank l⟩
  have := mem_padded_lt hpos (List.mem_reverse.mp hd)
  omega

/-- **What a conversion shows**: no number when there are neither digits nor zeros, else the
value as far as 32 digits go, with its sign unless the digits and zeros fill the buffer. -/
theorem read_ntoaText (hpos : 0 < base) (v : Word) (negative : Bool) (prec width : ℕ)
    {flags : Flags} (h : flags.hash = false) :
    (alphabet flags.uppercase hb).read (ntoaText v negative base prec width flags) =
      if body v negative base prec width flags = 0 then none
      else some (Alphabet.signed
        (signMark negative flags (body v negative base prec width flags))
        (v.toNat % base ^ ntoaBufferSize)) := by
  obtain ⟨k, l, htext⟩ := ntoaText_eq_field hb v negative prec width h
  have hlen := length_shown v negative base prec width flags
  rw [htext]
  split_ifs with h0
  · rw [List.length_eq_zero_iff.mp (hlen.trans h0)]
    exact Alphabet.read_field_nil _ _ _
  · have hne : shown v negative base prec width flags ≠ [] := by
      intro hnil
      rw [hnil] at hlen
      exact h0 hlen.symm
    have hlt : ∀ d ∈ shown v negative base prec width flags, d < base := fun d hd =>
      mem_padded_lt hpos (List.mem_reverse.mp hd)
    rw [Alphabet.read_field _ _ _ hlt hne, value_shown hpos]

/-! ### The width of the field -/

/-- How many characters make room for the prefix. -/
def dropped (base prec width : ℕ) (flags : Flags) (len : ℕ) : ℕ :=
  if !flags.precision && len != 0 && (len == prec || len == width) then
    if len - 1 != 0 && base == 16 then 2 else 1
  else 0

lemma chars_dropForHash (base prec width : ℕ) (flags : Flags) (buf : Buf) :
    (dropForHash base prec width flags buf).chars =
      buf.chars.take (buf.len - dropped base prec width flags buf.len) := by
  unfold dropForHash dropped
  simp only [Buf.len_pop]
  split_ifs
  · rw [Buf.chars_pop, Buf.chars_pop, List.dropLast_eq_take, List.dropLast_eq_take,
      List.length_take, List.take_take, Buf.len]
    congr 1
    omega
  · rw [Buf.chars_pop, List.dropLast_eq_take, Buf.len]
  · rw [Nat.sub_zero, Buf.len, List.take_length]

lemma len_dropForHash (base prec width : ℕ) (flags : Flags) (buf : Buf) :
    (dropForHash base prec width flags buf).len =
      buf.len - dropped base prec width flags buf.len := by
  rw [Buf.len, chars_dropForHash, List.length_take, ← Buf.len]
  omega

lemma dropped_le (base prec width : ℕ) (flags : Flags) (len : ℕ) :
    dropped base prec width flags len ≤ if base = 16 then 2 else 1 := by
  unfold dropped
  by_cases h16 : base = 16
  · simp only [h16, if_true]
    split_ifs <;> omega
  · simp only [h16, beq_iff_eq, Bool.and_eq_true, and_false, if_false]
    split_ifs <;> omega

/-- The prefix takes no less room than what was dropped for it. -/
lemma le_len_handleHash (base prec width : ℕ) (flags : Flags) (buf : Buf) :
    buf.len ≤ (handleHash base prec width flags buf).len := by
  have hle := buf.len_le
  have hdrop := dropped_le base prec width flags buf.len
  unfold handleHash
  by_cases h : flags.hash = true
  · rw [if_pos h]
    by_cases h16 : base = 16
    · simp only [h16, if_true] at hdrop ⊢
      simp only [Buf.len_offer, len_dropForHash]
      split_ifs <;> omega
    · simp only [h16, if_false] at hdrop ⊢
      split_ifs
      · simp only [Buf.len_offer, len_dropForHash]
        split_ifs <;> omega
      · simp only [Buf.len_offer, len_dropForHash]
        split_ifs <;> omega
  · rw [if_neg h]

lemma length_revText (buf : Buf) (width : ℕ) (flags : Flags) : (revText buf width flags).length =
    if !flags.left && flags.zeropad then buf.len else max buf.len width := by
  unfold revText
  cases flags.left <;> cases flags.zeropad <;> simp [Buf.length_chars] <;> omega

lemma len_signChar (negative : Bool) (flags : Flags) (buf : Buf) :
    (signChar negative flags buf).len =
      if (negative || flags.plus || flags.space) && buf.len < ntoaBufferSize then buf.len + 1
      else buf.len := by
  unfold signChar
  cases negative <;> cases flags.plus <;> cases flags.space <;> simp [Buf.len_offer]

/-- **The width**: the text of a conversion fills the width it is given, except for a width of
more than 32 characters that is to be filled with zeros. -/
theorem width_le_length_ntoaText (v : Word) (negative : Bool) (base prec width : ℕ)
    (flags : Flags) : width ≤ (ntoaText v negative base prec width flags).length ↔
      flags.left = true ∨ flags.zeropad = false ∨ width ≤ ntoaBufferSize := by
  have hflags : (ntoaFlags v flags).left = flags.left ∧
      (ntoaFlags v flags).zeropad = flags.zeropad ∧
      (ntoaFlags v flags).plus = flags.plus ∧ (ntoaFlags v flags).space = flags.space := by
    unfold ntoaFlags
    split_ifs <;> exact ⟨rfl, rfl, rfl, rfl⟩
  obtain ⟨hleft, hzeropad, hplus, hspace⟩ := hflags
  unfold ntoaText
  simp only [length_revText, padWidth_ntoaFlags, hleft, hzeropad]
  -- With zeros on the left the width is filled inside the buffer, else outside of it.
  by_cases hz : (!flags.left && flags.zeropad) = true
  · rw [if_pos hz]
    simp only [Bool.and_eq_true, Bool.not_eq_true'] at hz
    obtain ⟨hl, hzp⟩ := hz
    simp only [hl, hzp, Bool.false_eq_true, Bool.true_eq_false, false_or]
    constructor
    · exact fun h => h.trans (Buf.len_le _)
    · intro hw
      set w := padWidth negative width flags with hwdef
      set buf := padLeading prec w (ntoaFlags v flags) (ntoaBuf v base (ntoaFlags v flags))
      -- The zeros fill what the sign leaves of the width.
      have hpad : min w ntoaBufferSize ≤ buf.len := by
        rw [len_padLeading, bodyLen_ntoaFlags, bodyLen]
        simp only [hl, hzp, Bool.false_eq_true, if_false, if_true]
        omega
      have hhash := le_len_handleHash base prec w (ntoaFlags v flags) buf
      have hformat : (formatBuf (ntoaBuf v base (ntoaFlags v flags)) negative base prec width
          (ntoaFlags v flags)).len = (signChar negative (ntoaFlags v flags)
            (handleHash base prec w (ntoaFlags v flags) buf)).len := by
        unfold formatBuf
        simp only [padWidth_ntoaFlags]
        rfl
      rw [hformat, len_signChar, hplus, hspace]
      by_cases hs : (negative || flags.plus || flags.space) = true
      · have hw1 : width - 1 ≤ w := by
          rw [hwdef]
          unfold padWidth
          split_ifs <;> omega
        simp only [hs, Bool.true_and, decide_eq_true_eq]
        split_ifs <;> omega
      · have hw0 : w = width := by
          rw [hwdef]
          unfold padWidth
          simp [hs]
        simp only [hs, Bool.false_and, Bool.false_eq_true, if_false]
        omega
  · rw [if_neg hz]
    have hor : flags.left = true ∨ flags.zeropad = false := by
      revert hz
      cases flags.left <;> cases flags.zeropad <;> simp
    have hw : padWidth negative width flags = width := by
      unfold padWidth
      rcases hor with h | h <;> simp [h]
    rw [hw]
    constructor
    · exact fun _ => hor.imp_right Or.inl
    · exact fun _ => le_max_right _ _

/-! ### The prefix of the base -/

/-- In base 16, a text without the blanks and the prefix in front. -/
def skipBase (base : ℕ) (cs : List Byte) : List Byte :=
  if base = 16 then
    match cs.dropWhile (· = chr ' ') with
    | c :: x :: cs =>
      if c = chr '0' ∧ (x = chr 'x' ∨ x = chr 'X') then cs else c :: x :: cs
    | cs => cs
  else cs

/-- How many digits and zeros are left when the prefix has made room for itself. -/
def keptLen (v : Word) (base prec width : ℕ) (flags : Flags) : ℕ :=
  body v false base prec width flags -
    dropped base prec width flags (body v false base prec width flags)

/-- These digits, lowest first. -/
def kept (v : Word) (base prec width : ℕ) (flags : Flags) : List ℕ :=
  (padded v false base prec width flags).take (keptLen v base prec width flags)

lemma length_kept (v : Word) (base prec width : ℕ) (flags : Flags) :
    (kept v base prec width flags).length = keptLen v base prec width flags := by
  unfold kept keptLen
  rw [List.length_take, length_padded]
  omega

/-- **What making room costs**: the digits that are left denote the value if and only if only
zeros were dropped. -/
lemma ofDigits_kept {base : ℕ} (hb : 1 < base) {v : Word} (hv : v ≠ 0)
    (hfit : v.toNat < base ^ ntoaBufferSize) (prec width : ℕ) (flags : Flags) :
    ofDigits base (kept v base prec width flags) = v.toNat ↔
      (digitsOf v base flags).length ≤ keptLen v base prec width flags := by
  have hpos : 0 < v.toNat :=
    Nat.pos_of_ne_zero fun h => hv (BitVec.eq_of_toNat_eq (by simpa using h))
  have hdigits : digitsOf v base flags = lowDigits base ntoaBufferSize v.toNat := by
    unfold digitsOf
    rw [if_pos (Bool.or_eq_true_iff.mpr (Or.inr (bne_iff_ne.mpr hv)))]
  have hval : ofDigits base (digitsOf v base flags) = v.toNat := by
    rw [ofDigits_digitsOf (by omega), Nat.mod_eq_of_lt hfit]
  constructor
  · intro h
    -- Fewer digits denote a smaller number: the highest one is not zero.
    by_contra hlt
    have hne : digitsOf v base flags ≠ [] := by
      rw [hdigits]
      exact lowDigits_ne_nil (by decide)
    have hlast : (digitsOf v base flags).getLast hne ≠ 0 := by
      simp only [hdigits]
      exact getLast_lowDigits_ne_zero hb hpos hfit _
    have htake : kept v base prec width flags =
        (digitsOf v base flags).take (keptLen v base prec width flags) :=
      List.take_append_of_le_length (by omega)
    have := ofDigits_take_lt (b := base) (by omega) hne hlast
      (k := keptLen v base prec width flags) (by omega)
    rw [htake] at h
    omega
  · intro h
    -- With all digits left, there are only zeros in front of them.
    have htake : kept v base prec width flags = digitsOf v base flags ++
        List.replicate (keptLen v base prec width flags - (digitsOf v base flags).length) 0 := by
      have hle : keptLen v base prec width flags - (digitsOf v base flags).length ≤
          body v false base prec width flags - (digitsOf v base flags).length := by
        unfold keptLen
        omega
      unfold kept padded
      rw [List.take_append, List.take_of_length_le h, List.take_replicate, min_eq_left hle]
    rw [htake, Nat.ofDigits_append_replicate_zero, hval]

lemma formatBuf_hash {base : ℕ} (v : Word) (prec width : ℕ) {flags : Flags}
    (hplus : flags.plus = false) (hspace : flags.space = false) :
    formatBuf (ntoaBuf v base flags) false base prec width flags =
      handleHash base prec width flags (padLeading prec width flags (ntoaBuf v base flags)) := by
  have hw : padWidth false width flags = width := by simp [padWidth, hplus, hspace]
  unfold formatBuf signChar
  simp [hw, hplus, hspace]

lemma chars_kept (base : ℕ) (v : Word) (prec width : ℕ) {flags : Flags}
    (hplus : flags.plus = false) (hspace : flags.space = false) :
    (dropForHash base prec width flags
      (padLeading prec width flags (ntoaBuf v base flags))).chars =
      (kept v base prec width flags).map (digitChar flags.uppercase) := by
  have hw : padWidth false width flags = width := by simp [padWidth, hplus, hspace]
  have hchars := chars_padded v false base prec width flags
  have hlen : (padLeading prec width flags (ntoaBuf v base flags)).len =
      body v false base prec width flags := by
    rw [len_padLeading, len_ntoaBuf, body, hw]
  rw [hw] at hchars
  rw [chars_dropForHash, hchars, hlen, ← List.map_take]
  rfl

variable {flags : Flags}

/-- In base 8 the prefix is one more zero. -/
lemma ntoaText_octal {v : Word} (hv : v ≠ 0) (prec width : ℕ) (hhash : flags.hash = true)
    (hplus : flags.plus = false) (hspace : flags.space = false) : ∃ k l z,
    ntoaText v false 8 prec width flags =
      (alphabet flags.uppercase (by decide : 8 ≤ 16)).field k .none
        ((kept v 8 prec width flags ++ List.replicate z 0).reverse) l := by
  have hflags : ntoaFlags v flags = flags := if_neg hv
  have hkept := chars_kept 8 v prec width hplus hspace
  obtain ⟨k, l, htext⟩ := revText_eq (handleHash 8 prec width flags
    (padLeading prec width flags (ntoaBuf v 8 flags))) (padWidth false width flags) flags
  have hchars : ∃ z, (handleHash 8 prec width flags
      (padLeading prec width flags (ntoaBuf v 8 flags))).chars =
        (kept v 8 prec width flags ++ List.replicate z 0).map (digitChar flags.uppercase) := by
    unfold handleHash
    rw [if_pos hhash]
    simp only [if_neg (show ¬ (8 = 16) by decide), if_neg (show ¬ (8 = 2) by decide),
      Buf.chars_offer, hkept]
    split_ifs
    · exact ⟨1, by simp [digitChar]⟩
    · exact ⟨0, by simp⟩
  obtain ⟨z, hz⟩ := hchars
  refine ⟨k, l, z, ?_⟩
  unfold ntoaText
  simp only [hflags]
  rw [formatBuf_hash v prec width hplus hspace, htext, hz, ← List.map_reverse]
  rfl

/-- In base 16 the prefix takes two characters, one of them if there is room for one only. -/
lemma ntoaText_hex {v : Word} (hv : v ≠ 0) (prec width : ℕ) (hhash : flags.hash = true)
    (hplus : flags.plus = false) (hspace : flags.space = false) : ∃ k l,
    ntoaText v false 16 prec width flags = List.replicate k (chr ' ') ++
      ((if keptLen v 16 prec width flags + 1 < ntoaBufferSize then [chr '0'] else []) ++
        ((if keptLen v 16 prec width flags < ntoaBufferSize then
          [if flags.uppercase then chr 'X' else chr 'x'] else []) ++
        ((kept v 16 prec width flags).reverse.map (digitChar flags.uppercase) ++
          List.replicate l (chr ' ')))) := by
  have hflags : ntoaFlags v flags = flags := if_neg hv
  have hkept := chars_kept 16 v prec width hplus hspace
  have hlen : (dropForHash 16 prec width flags
      (padLeading prec width flags (ntoaBuf v 16 flags))).len = keptLen v 16 prec width flags := by
    rw [← Buf.length_chars, hkept, List.length_map, length_kept]
  obtain ⟨k, l, htext⟩ := revText_eq (handleHash 16 prec width flags
    (padLeading prec width flags (ntoaBuf v 16 flags))) (padWidth false width flags) flags
  refine ⟨k, l, ?_⟩
  unfold ntoaText
  simp only [hflags]
  rw [formatBuf_hash v prec width hplus hspace, htext]
  congr 1
  unfold handleHash
  rw [if_pos hhash]
  simp only [if_true, Buf.chars_offer, Buf.len_offer, hkept, hlen]
  by_cases hroom : keptLen v 16 prec width flags < ntoaBufferSize
  · by_cases hroom2 : keptLen v 16 prec width flags + 1 < ntoaBufferSize
    · simp [hroom, hroom2]
    · simp [hroom, hroom2]
  · have hroom2 : ¬ keptLen v 16 prec width flags + 1 < ntoaBufferSize := by omega
    simp [hroom, hroom2]

lemma lt_pow_ntoaBufferSize (v : Word) {base : ℕ} (h : 4 ≤ base) :
    v.toNat < base ^ ntoaBufferSize :=
  calc v.toNat < 2 ^ 64 := v.isLt
    _ = 4 ^ ntoaBufferSize := by norm_num
    _ ≤ base ^ ntoaBufferSize := Nat.pow_le_pow_left h _

lemma mem_kept_lt {base : ℕ} (hb : 0 < base) {v : Word} {prec width d : ℕ}
    (h : d ∈ kept v base prec width flags) : d < base :=
  mem_padded_lt hb (List.mem_of_mem_take h)

lemma read_kept {base : ℕ} (hb : base ≤ 16) (h4 : 4 ≤ base) {v : Word} (hv : v ≠ 0)
    (prec width k l z : ℕ) :
    (alphabet flags.uppercase hb).read ((alphabet flags.uppercase hb).field k .none
        (kept v base prec width flags ++ List.replicate z 0).reverse l) = some (v.toNat : ℤ) ↔
      (digitsOf v base flags).length ≤ keptLen v base prec width flags := by
  have hpos : v.toNat ≠ 0 := fun h => hv (BitVec.eq_of_toNat_eq (by simpa using h))
  rw [← ofDigits_kept (by omega) hv (lt_pow_ntoaBufferSize v h4) prec width flags,
    ← Nat.ofDigits_append_replicate_zero (k := z)]
  set ds := kept v base prec width flags ++ List.replicate z 0 with hds
  by_cases hne : ds = []
  · have hnone := Alphabet.read_field_nil (A := alphabet flags.uppercase hb) k .none l
    rw [hne, List.reverse_nil, hnone]
    constructor
    · exact fun h => absurd h (by simp)
    · exact fun h => absurd h.symm hpos
  · have hlt : ∀ d ∈ ds.reverse, d < base := by
      intro d hd
      rw [hds, List.mem_reverse, List.mem_append, List.mem_replicate] at hd
      rcases hd with hd | ⟨-, rfl⟩
      · exact mem_kept_lt (by omega) hd
      · omega
    have hread := Alphabet.read_field (A := alphabet flags.uppercase hb) k .none l hlt
      (by simpa using hne)
    rw [value_reverse] at hread
    rw [hread, Option.some_inj]
    exact Nat.cast_inj

/-- **The prefix of base 8**: the number with its prefix denotes the value if and only if only
zeros were dropped for the prefix. -/
theorem read_octal {v : Word} (hv : v ≠ 0) (prec width : ℕ) (hhash : flags.hash = true)
    (hplus : flags.plus = false) (hspace : flags.space = false) :
    (alphabet flags.uppercase (by decide : 8 ≤ 16)).read
        (ntoaText v false 8 prec width flags) = some (v.toNat : ℤ) ↔
      (digitsOf v 8 flags).length ≤ keptLen v 8 prec width flags := by
  obtain ⟨k, l, z, htext⟩ := ntoaText_octal hv prec width hhash hplus hspace
  rw [htext]
  exact read_kept (by decide) (by decide) hv prec width k l z

lemma dropWhile_blanks (k : ℕ) {s : List Byte} (h : ∀ c ∈ s.head?, c ≠ chr ' ') :
    (List.replicate k (chr ' ') ++ s).dropWhile (· = chr ' ') = s :=
  Alphabet.dropWhile_blanks (A := alphabet false (le_refl 16)) k h

lemma skipBase_hex (k : ℕ) (uppercase : Bool) (s : List Byte) :
    skipBase 16 (List.replicate k (chr ' ') ++
      (chr '0' :: (if uppercase then chr 'X' else chr 'x') :: s)) = s := by
  unfold skipBase
  rw [if_pos rfl, dropWhile_blanks k (by simp; decide)]
  cases uppercase <;> simp

lemma skipBase_of_head_ne (k : ℕ) {c : Byte} (hc : c ≠ chr '0') (hblank : c ≠ chr ' ')
    (s : List Byte) : skipBase 16 (List.replicate k (chr ' ') ++ c :: s) = c :: s := by
  unfold skipBase
  rw [if_pos rfl, dropWhile_blanks k (by simpa using hblank)]
  cases s with
  | nil => rfl
  | cons x s => simp [hc]

lemma digitChar_ne {d : ℕ} (hd : d < 16) (uppercase : Bool) {c : Byte} (hc : hexVal c = 16) :
    digitChar uppercase d ≠ c := fun heq => by
  have := hexVal_digitChar uppercase d hd
  rw [heq] at this
  omega

lemma skipBase_digits (k : ℕ) {d e : ℕ} (hd : d < 16) (he : e < 16) (uppercase : Bool)
    (s : List Byte) : skipBase 16 (List.replicate k (chr ' ') ++
      (digitChar uppercase d :: digitChar uppercase e :: s)) =
        digitChar uppercase d :: digitChar uppercase e :: s := by
  have hblank := digitChar_ne hd uppercase (c := chr ' ') (by decide)
  have hx := digitChar_ne he uppercase (c := chr 'x') (by decide)
  have hX := digitChar_ne he uppercase (c := chr 'X') (by decide)
  unfold skipBase
  rw [if_pos rfl, dropWhile_blanks k (by simpa using hblank)]
  simp only [hx, hX, or_self, and_false, if_false]

/-- A text that begins with the letter of the prefix is no number. -/
lemma read_letter (uppercase : Bool) (s : List Byte) :
    (alphabet uppercase (le_refl 16)).read
      ((if uppercase then chr 'X' else chr 'x') :: s) = none := by
  have hletter : ∀ c : Byte, hexVal c = 16 → c ≠ chr ' ' → c ≠ chr '-' → c ≠ chr '+' →
      (alphabet uppercase (le_refl 16)).read (c :: s) = none := by
    intro c hc hblank hminus hplus
    simp [Alphabet.read, Alphabet.readMark, digitRun, alphabet, hc, hblank, hminus, hplus]
  cases uppercase
  · exact hletter _ (by decide) (by decide) (by decide) (by decide)
  · exact hletter _ (by decide) (by decide) (by decide) (by decide)

/-- **The prefix of base 16**: the number after its prefix is the value if and only if only
zeros were dropped for the prefix, and the prefix has not been cut in half by the end of the
buffer. -/
theorem read_hex {v : Word} (hv : v ≠ 0) (prec width : ℕ) (hhash : flags.hash = true)
    (hplus : flags.plus = false) (hspace : flags.space = false) :
    (alphabet flags.uppercase (le_refl 16)).read
        (skipBase 16 (ntoaText v false 16 prec width flags)) = some (v.toNat : ℤ) ↔
      (digitsOf v 16 flags).length ≤ keptLen v 16 prec width flags ∧
        keptLen v 16 prec width flags + 1 ≠ ntoaBufferSize := by
  obtain ⟨k, l, htext⟩ := ntoaText_hex hv prec width hhash hplus hspace
  have hlen := length_kept v 16 prec width flags
  have hle : keptLen v 16 prec width flags ≤ ntoaBufferSize :=
    (Nat.sub_le _ _).trans (body_le _ _ _ _ _ _)
  have hkept := @read_kept flags 16 le_rfl (by decide) v hv prec width 0 l 0
  simp only [List.replicate_zero, List.append_nil, Alphabet.field, List.nil_append] at hkept
  have hcases : keptLen v 16 prec width flags + 1 < ntoaBufferSize ∨
      keptLen v 16 prec width flags + 1 = ntoaBufferSize ∨
      keptLen v 16 prec width flags = ntoaBufferSize := by omega
  rw [htext]
  rcases hcases with hroom | hroom | hroom
  · -- the whole prefix
    rw [if_pos hroom, if_pos (by omega), List.singleton_append, List.singleton_append,
      skipBase_hex, and_iff_left (by omega)]
    exact hkept
  · -- half of the prefix
    rw [if_neg (by omega), if_pos (by omega), List.nil_append, List.singleton_append,
      skipBase_of_head_ne k (by split_ifs <;> decide) (by split_ifs <;> decide), read_letter]
    constructor
    · exact fun h => absurd h (by simp)
    · exact fun h => absurd hroom h.2
  · -- no prefix
    rw [if_neg (by omega), if_neg (by omega), List.nil_append, List.nil_append,
      and_iff_left (by omega)]
    have hskip : skipBase 16 (List.replicate k (chr ' ') ++
        ((kept v 16 prec width flags).reverse.map (digitChar flags.uppercase) ++
          List.replicate l (chr ' '))) =
        (kept v 16 prec width flags).reverse.map (digitChar flags.uppercase) ++
          List.replicate l (chr ' ') := by
      have hlt : ∀ d ∈ (kept v 16 prec width flags).reverse, d < 16 := fun d hd =>
        mem_kept_lt (by decide) (List.mem_reverse.mp hd)
      have hlen2 : (kept v 16 prec width flags).reverse.length = ntoaBufferSize := by
        rw [List.length_reverse, hlen, hroom]
      rcases hds : (kept v 16 prec width flags).reverse with _ | ⟨d, _ | ⟨e, ds⟩⟩
      · simp [hds] at hlen2
      · simp [hds] at hlen2
      · rw [hds] at hlt
        exact skipBase_digits k (hlt d (by simp)) (hlt e (by simp)) _ _
    rw [hskip]
    exact hkept

/-- The two bases together. -/
theorem read_prefixed {base : ℕ} (hbase : base = 16 ∨ base = 8) (hb : base ≤ 16) {v : Word}
    (hv : v ≠ 0) (prec width : ℕ) (hhash : flags.hash = true) (hplus : flags.plus = false)
    (hspace : flags.space = false) : (alphabet flags.uppercase hb).read
        (skipBase base (ntoaText v false base prec width flags)) = some (v.toNat : ℤ) ↔
      (digitsOf v base flags).length ≤ keptLen v base prec width flags ∧
        (base = 16 → keptLen v base prec width flags + 1 ≠ ntoaBufferSize) := by
  rcases hbase with rfl | rfl
  · rw [read_hex hv prec width hhash hplus hspace]
    simp only [forall_const]
  · have hskip : ∀ cs, skipBase 8 cs = cs := fun cs => if_neg (by decide)
    rw [hskip, read_octal hv prec width hhash hplus hspace]
    simp

end LibCheckpoint.Field
