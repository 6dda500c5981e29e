import LibCheckpoint.Vsnprintf

/-!
What the conversions of a format show: an integer specifier the value of its argument, a string
specifier the string, each in a field of the width it is given, and where they do not.
-/

namespace LibCheckpoint.Conversions

open LibCheckpoint.Bytes LibCheckpoint.Sink LibCheckpoint.Numeral LibCheckpoint.Ntoa
open LibCheckpoint.Field LibCheckpoint.Printf LibCheckpoint.Format LibCheckpoint.Vsnprintf
open LibCheckpoint.Reader (Returns returns_true returns_pure returns_bind returns_peek
  returns_advance)

/-! ### The value of an argument -/

/-- The value that an integer specifier is given, in the width of its length field. -/
def integerValue (flags : Flags) (c : Byte) (w : Word) : ℤ :=
  if isSigned c then
    if flags.longLong || flags.long then w.toInt else (signedInt flags w).toInt
  else if flags.longLong || flags.long then w.toNat
  else (unsignedInt flags w).toNat

lemma toNat_magnitude {n : ℕ} (v : BitVec n) : ((magnitude v).toNat : ℤ) = |v.toInt| := by
  unfold magnitude
  split_ifs with h
  · rw [abs_of_pos h]
    have := BitVec.toInt_eq_toNat_cond v
    have hlt := v.isLt
    split_ifs at this <;> omega
  · have hsub : (0 - v).toNat = (-v).toNat := congrArg BitVec.toNat (BitVec.zero_sub v)
    rw [abs_of_nonpos (by omega), hsub, BitVec.toNat_neg]
    have := BitVec.toInt_eq_toNat_cond v
    have hlt := v.isLt
    by_cases h0 : v.toNat = 0
    · simp [h0] at this ⊢
      exact this
    · rw [Nat.mod_eq_of_lt (by omega)]
      split_ifs at this <;> omega

lemma toNat_integerArg (flags : Flags) (c : Byte) (w : Word) :
    ((integerArg flags c w).1.toNat : ℤ) = |integerValue flags c w| ∧
      ((integerArg flags c w).2 = true ↔ integerValue flags c w < 0) := by
  unfold integerArg integerValue
  have hwide : ∀ v : BitVec 32, (v.setWidth 64).toNat = v.toNat := fun v =>
    BitVec.toNat_setWidth_of_le (by decide)
  split_ifs
  · exact ⟨toNat_magnitude w, by simp⟩
  · exact ⟨by rw [hwide, toNat_magnitude], by simp⟩
  · exact ⟨by simp, by simp⟩
  · exact ⟨by rw [hwide]; simp, by simp⟩

lemma baseOf_cases (c : Byte) : baseOf c = 16 ∨ baseOf c = 8 ∨ baseOf c = 2 ∨ baseOf c = 10 := by
  unfold baseOf
  split_ifs <;> simp

lemma baseOf_le (c : Byte) : baseOf c ≤ 16 := by
  have := baseOf_cases c
  omega

lemma baseOf_of_signed {c : Byte} (h : isSigned c = true) : baseOf c = 10 := by
  have hc : c = chr 'i' ∨ c = chr 'd' := by simpa [isSigned] using h
  rcases hc with rfl | rfl <;> decide

/-! ### Which number is shown -/

/-- Nothing is shown: a zero that is given a precision without digits, or on the left. -/
def Empty (d : Directive) (v : ℤ) : Prop :=
  d.flags.precision = true ∧ v = 0 ∧ (d.flags.left = true ∨ d.precision = 0)

def Full (d : Directive) : Prop :=
  d.flags.left = false ∧ (ntoaBufferSize ≤ d.precision ∨
    (d.flags.zeropad = true ∧ d.flags.precision = false ∧ ntoaBufferSize < d.width))

lemma length_digitsOf_eq_zero {v : Word} {base : ℕ} {flags : Flags} :
    (digitsOf v base flags).length = 0 ↔ flags.precision = true ∧ v = 0 := by
  unfold digitsOf
  split_ifs with h
  · have hne := lowDigits_ne_nil (b := base) (n := v.toNat) (k := ntoaBufferSize) (by decide)
    have hnot : ¬ (flags.precision = true ∧ v = 0) := by
      rintro ⟨hp, rfl⟩
      simp [hp] at h
    simp only [List.length_eq_zero_iff, hne, hnot]
  · have hboth : flags.precision = true ∧ v = 0 := by
      rw [Bool.or_eq_true_iff, not_or, bne_iff_ne, not_not] at h
      exact ⟨by simpa using h.1, h.2⟩
    simp [hboth]

lemma length_digitsOf_decimal (v : Word) (flags : Flags) :
    (digitsOf v 10 flags).length ≤ 20 := by
  unfold digitsOf
  split_ifs
  · rw [length_lowDigits (by decide)]
    have hlt : v.toNat < 10 ^ 20 := v.isLt.trans (by norm_num)
    have hlog : Nat.log 10 v.toNat < 20 := Nat.log_lt_of_lt_pow' (by decide) hlt
    omega
  · exact Nat.zero_le _

variable {d : Directive} {c : Byte} {w : Word}

/-- The digits and zeros of an integer specifier. -/
def integerBody (d : Directive) (c : Byte) (w : Word) : ℕ :=
  body (integerArg d.flags c w).1 (integerArg d.flags c w).2 (baseOf c) d.precision d.width
    (integerFlags c d.flags)

lemma integerBody_eq_zero :
    integerBody d c w = 0 ↔ Empty d (integerValue d.flags c w) := by
  have hv : (integerArg d.flags c w).1 = 0 ↔ integerValue d.flags c w = 0 := by
    rw [← abs_eq_zero (a := integerValue d.flags c w), ← (toNat_integerArg d.flags c w).1]
    constructor
    · intro h
      rw [h]
      rfl
    · intro h
      exact BitVec.eq_of_toNat_eq (by simpa using h)
  have hlen : (digitsOf (integerArg d.flags c w).1 (baseOf c) (integerFlags c d.flags)).length =
      0 ↔ _ := length_digitsOf_eq_zero
  have hprec : (integerFlags c d.flags).precision = d.flags.precision := rfl
  have hleft : (integerFlags c d.flags).left = d.flags.left := rfl
  have hzero : (integerFlags c d.flags).zeropad = (d.flags.zeropad && !d.flags.precision) := rfl
  unfold Empty
  have hN : ntoaBufferSize = 32 := rfl
  rw [← hv]
  rw [hprec] at hlen
  unfold integerBody body bodyLen
  rw [hleft, hzero]
  -- Zeros fill a width on the right side only, and up to the precision.
  cases hl : d.flags.left
  · cases hp : d.flags.precision
    · have hne := hlen.not.mpr (by simp [hp])
      simp only [Bool.false_eq_true, if_false, false_and, iff_false]
      split_ifs <;> omega
    · simp only [Bool.not_true, Bool.and_false, Bool.false_eq_true, if_false, true_and, false_or]
      simp only [hp, true_and] at hlen
      rw [← hlen]
      omega
  · simp only [if_true, true_or, and_true]
    exact hlen

/-- A negative number has at most twenty digits, so only zeros can fill the buffer. -/
lemma integerBody_lt (hneg : integerValue d.flags c w < 0) :
    integerBody d c w < ntoaBufferSize ↔ ¬ Full d := by
  have hneg' := (toNat_integerArg d.flags c w).2.mpr hneg
  have hsigned : isSigned c = true := by
    by_contra h
    unfold integerValue at hneg
    simp only [h, if_false] at hneg
    split_ifs at hneg <;> omega
  have hlen := length_digitsOf_decimal (integerArg d.flags c w).1 (integerFlags c d.flags)
  have hleft : (integerFlags c d.flags).left = d.flags.left := rfl
  have hzero : (integerFlags c d.flags).zeropad = (d.flags.zeropad && !d.flags.precision) := rfl
  have hN : ntoaBufferSize = 32 := rfl
  unfold integerBody body bodyLen padWidth Full
  rw [hleft, hzero, hneg', baseOf_of_signed hsigned]
  cases d.flags.left
  · cases d.flags.zeropad
    · simp
      omega
    · cases d.flags.precision
      · simp
        split_ifs <;> omega
      · simp
        omega
  · simp
    omega

lemma signed_true (flags : Flags) (len n : ℕ) :
    Alphabet.signed (signMark true flags len) n = if len < ntoaBufferSize then -(n : ℤ) else n := by
  unfold signMark
  by_cases h : len < ntoaBufferSize <;> simp [h, Alphabet.signed]

lemma signed_false (flags : Flags) (len n : ℕ) :
    Alphabet.signed (signMark false flags len) n = n := by
  unfold signMark
  by_cases h : len < ntoaBufferSize <;> cases flags.plus <;> simp [h, Alphabet.signed]

lemma isSigned_of_neg (hneg : integerValue d.flags c w < 0) : isSigned c = true := by
  by_contra h
  unfold integerValue at hneg
  simp only [h] at hneg
  split_ifs at hneg <;> omega

/-- **The value of an integer specifier is read back** from what it prints, if there is no
prefix, exactly when something is shown, the sign of a negative number finds room in the
buffer, and a binary number has no more than 32 digits. -/
theorem integer_read (hhash : d.flags.hash = false ∨ baseOf c = 10) : ∃ cs,
    (∀ (σ : Type) (out : Out Byte σ), Prints out (integer out d c w) cs) ∧
      ((alphabet (integerFlags c d.flags).uppercase (baseOf_le c)).read cs =
          some (integerValue d.flags c w) ↔
        ¬ Empty d (integerValue d.flags c w) ∧ (integerValue d.flags c w < 0 → ¬ Full d) ∧
          (baseOf c = 2 → integerValue d.flags c w < 2 ^ 32)) := by
  refine ⟨integerText d c w, fun σ out => prints_integer d c w, ?_⟩
  have hh : (integerFlags c d.flags).hash = false := by
    show (d.flags.hash && baseOf c != 10) = false
    rcases hhash with h | h <;> simp [h]
  have hbase := baseOf_cases c
  obtain ⟨habs, hsign⟩ := toNat_integerArg d.flags c w
  have hread := read_ntoaText (baseOf_le c) (by omega) (integerArg d.flags c w).1
    (integerArg d.flags c w).2 d.precision d.width hh
  have hbody : body (integerArg d.flags c w).1 (integerArg d.flags c w).2 (baseOf c) d.precision
    d.width (integerFlags c d.flags) = integerBody d c w := rfl
  rw [hbody] at hread
  unfold integerText
  -- What is read back depends on how many digits and zeros there are.
  rw [hread, ← integerBody_eq_zero]
  -- The digits that fit are all the digits, but for the binary format.
  have hmod : baseOf c ≠ 2 →
      (integerArg d.flags c w).1.toNat % baseOf c ^ ntoaBufferSize =
        (integerArg d.flags c w).1.toNat := fun h2 =>
    Nat.mod_eq_of_lt (lt_pow_ntoaBufferSize _ (by omega))
  by_cases h0 : integerBody d c w = 0
  · simp [h0]
  rw [if_neg h0, Option.some_inj]
  simp only [h0, not_false_iff, true_and]
  rcases lt_or_ge (integerValue d.flags c w) 0 with hneg | hnonneg
  · -- A negative number is decimal, and its sign needs a place in the buffer.
    have h2 : baseOf c ≠ 2 := by
      rw [baseOf_of_signed (isSigned_of_neg hneg)]
      decide
    rw [hmod h2, hsign.mpr hneg, signed_true, ← integerBody_lt hneg]
    rw [abs_of_neg hneg] at habs
    by_cases hroom : integerBody d c w < ntoaBufferSize
    · simp only [hroom, if_true, implies_true, h2, false_imp_iff, and_self, iff_true]
      omega
    · simp only [hroom, if_false, hneg, forall_const, false_and, iff_false]
      omega
  · have hn : (integerArg d.flags c w).2 = false := by
      rw [Bool.eq_false_iff]
      exact fun h => absurd (hsign.mp h) (by omega)
    rw [abs_of_nonneg hnonneg] at habs
    rw [hn, signed_false, ← habs]
    have hnot : ¬ (((integerArg d.flags c w).1.toNat : ℤ) < 0) := by omega
    -- Only base 2 has numbers with more digits than the buffer holds.
    by_cases h2 : baseOf c = 2
    · have hpow : (2 : ℕ) ^ ntoaBufferSize = 2 ^ 32 := rfl
      simp only [hnot, false_imp_iff, true_and, h2, forall_const, Nat.cast_inj, hpow]
      constructor
      · intro h
        have := Nat.mod_lt (integerArg d.flags c w).1.toNat (y := 2 ^ 32) (by decide)
        omega
      · exact fun h => Nat.mod_eq_of_lt (by omega)
    · simp only [hmod h2, hnot, false_imp_iff, true_and, h2]

/-- The format `%+08d` with the argument -5. -/
theorem integer_read_neg : ∃ cs, (∀ (σ : Type) (out : Out Byte σ), Prints out
    (integer out ⟨{ plus := true, zeropad := true }, 8, 0⟩ (chr 'd') (-5)) cs) ∧
      ((alphabet (integerFlags (chr 'd') { plus := true, zeropad := true }).uppercase
          (baseOf_le (chr 'd'))).read cs =
            some (integerValue { plus := true, zeropad := true } (chr 'd') (-5)) ↔
        ¬ Empty ⟨{ plus := true, zeropad := true }, 8, 0⟩
            (integerValue { plus := true, zeropad := true } (chr 'd') (-5)) ∧
          (integerValue { plus := true, zeropad := true } (chr 'd') (-5) < 0 →
            ¬ Full ⟨{ plus := true, zeropad := true }, 8, 0⟩) ∧
          (baseOf (chr 'd') = 2 →
            integerValue { plus := true, zeropad := true } (chr 'd') (-5) < 2 ^ 32)) :=
  integer_read (d := ⟨{ plus := true, zeropad := true }, 8, 0⟩) (.inl rfl)

/-- **The width of an integer specifier** is filled, except for more than 32 characters that
are to be filled with zeros. -/
theorem integer_width (d : Directive) (c : Byte) (w : Word) : ∃ cs,
    (∀ (σ : Type) (out : Out Byte σ), Prints out (integer out d c w) cs) ∧
      (d.width ≤ cs.length ↔ d.flags.left = true ∨
        (d.flags.zeropad && !d.flags.precision) = false ∨ d.width ≤ ntoaBufferSize) :=
  ⟨integerText d c w, fun _ _ => prints_integer d c w, width_le_length_ntoaText _ _ _ _ _ _⟩

/-- **The prefix of the specifiers `x`, `X` and `o`**: the number behind the prefix is the value
if and only if only zeros have made room for the prefix, and in base 16 the prefix has not been
cut in half by the end of the buffer. -/
theorem integer_hash_read (hc : c = chr 'x' ∨ c = chr 'X' ∨ c = chr 'o')
    (hhash : d.flags.hash = true) (hw : integerValue d.flags c w ≠ 0) : ∃ cs,
    (∀ (σ : Type) (out : Out Byte σ), Prints out (integer out d c w) cs) ∧
      ((alphabet (integerFlags c d.flags).uppercase (baseOf_le c)).read
          (skipBase (baseOf c) cs) = some (integerValue d.flags c w) ↔
        (digitsOf (integerArg d.flags c w).1 (baseOf c) (integerFlags c d.flags)).length ≤
            keptLen (integerArg d.flags c w).1 (baseOf c) d.precision d.width
              (integerFlags c d.flags) ∧
          (baseOf c = 16 → keptLen (integerArg d.flags c w).1 (baseOf c) d.precision d.width
            (integerFlags c d.flags) + 1 ≠ ntoaBufferSize)) := by
  refine ⟨integerText d c w, fun σ out => prints_integer d c w, ?_⟩
  -- The bases with a prefix are unsigned, so there is no sign in front of it.
  have hsigned : isSigned c = false := by rcases hc with rfl | rfl | rfl <;> decide
  have hten : (baseOf c != 10) = true := by rcases hc with rfl | rfl | rfl <;> decide
  have hh : (integerFlags c d.flags).hash = true := by
    show (d.flags.hash && baseOf c != 10) = true
    rw [hhash, hten]
    rfl
  have hplus : (integerFlags c d.flags).plus = false := by
    show (d.flags.plus && isSigned c) = false
    rw [hsigned, Bool.and_false]
  have hspace : (integerFlags c d.flags).space = false := by
    show (d.flags.space && isSigned c) = false
    rw [hsigned, Bool.and_false]
  obtain ⟨habs, hsign⟩ := toNat_integerArg d.flags c w
  have hnonneg : ¬ integerValue d.flags c w < 0 := fun h => by
    rw [isSigned_of_neg h] at hsigned
    exact absurd hsigned (by decide)
  have hneg : (integerArg d.flags c w).2 = false := by
    rw [Bool.eq_false_iff]
    exact fun h => hnonneg (hsign.mp h)
  rw [abs_of_nonneg (by omega)] at habs
  -- A zero has lost its prefix before.
  have hv : (integerArg d.flags c w).1 ≠ 0 := by
    intro h
    rw [h] at habs
    exact hw habs.symm
  unfold integerText
  rw [hneg, ← habs]
  have hbase : baseOf c = 16 ∨ baseOf c = 8 := by
    rcases hc with rfl | rfl | rfl
    · exact Or.inl (by decide)
    · exact Or.inl (by decide)
    · exact Or.inr (by decide)
  exact read_prefixed hbase (baseOf_le c) hv d.precision d.width hh hplus hspace

/-- The format `%#x` with the argument 255. -/
theorem integer_hash_read_hex : ∃ cs, (∀ (σ : Type) (out : Out Byte σ), Prints out
    (integer out ⟨{ hash := true }, 0, 0⟩ (chr 'x') 255) cs) ∧
      ((alphabet (integerFlags (chr 'x') { hash := true }).uppercase
          (baseOf_le (chr 'x'))).read (skipBase (baseOf (chr 'x')) cs) =
            some (integerValue { hash := true } (chr 'x') 255) ↔
        (digitsOf (integerArg { hash := true } (chr 'x') 255).1 (baseOf (chr 'x'))
            (integerFlags (chr 'x') { hash := true })).length ≤
          keptLen (integerArg { hash := true } (chr 'x') 255).1 (baseOf (chr 'x')) 0 0
            (integerFlags (chr 'x') { hash := true }) ∧
        (baseOf (chr 'x') = 16 →
          keptLen (integerArg { hash := true } (chr 'x') 255).1 (baseOf (chr 'x')) 0 0
            (integerFlags (chr 'x') { hash := true }) + 1 ≠ ntoaBufferSize)) :=
  integer_hash_read (d := ⟨{ hash := true }, 0, 0⟩) (.inl rfl) rfl (by decide)

/-! ### Numbers in a format -/

lemma integerText_unsigned_long (w : Word) :
    integerText ⟨{ long := true }, 0, 0⟩ (chr 'u') w =
      (lowDigits 10 ntoaBufferSize w.toNat).reverse.map (digitChar false) := by
  have hbare : Bare (integerFlags (chr 'u') { long := true }) 0 :=
    ⟨rfl, rfl, rfl, rfl, .inr rfl⟩
  have hshown : shown w false 10 0 0 (integerFlags (chr 'u') { long := true }) =
      (lowDigits 10 ntoaBufferSize w.toNat).reverse := by
    simp [shown, padded, body, bodyLen, digitsOf, integerFlags]
  have htext := ntoaText_bare w 10 0 hbare
  rwa [hshown] at htext

/-- The loop of `_atoi` on digits, from a number on. -/
lemma atoi_digits {ds : List ℕ} (hds : ∀ e ∈ ds, e < 10) {c : Byte} (hc : ¬ isDigit c = true)
    (s : List Byte) (va : List Word) (i : ℕ) :
    Reader.many (fun i c => if isDigit c then some ((i * 10 + (c - chr '0').toNat) % 2 ^ 32)
      else none) i (ds.map (digitChar false) ++ c :: s) va =
        some (if ds = [] then i else ds.foldl (fun a e => a * 10 + e) i % 2 ^ 32, c :: s, va) := by
  induction ds generalizing i with
  | nil => simp [Reader.many, hc]
  | cons e ds ih =>
    have he : e < 10 := hds e List.mem_cons_self
    have hdigit : ∀ e < 10, isDigit (digitChar false e) = true ∧
        (digitChar false e - chr '0').toNat = e := by decide
    have hmod : ∀ (l : List ℕ) (a : ℕ), l.foldl (fun a e => a * 10 + e) (a % 2 ^ 32) % 2 ^ 32 =
        l.foldl (fun a e => a * 10 + e) a % 2 ^ 32 := by
      intro l
      induction l with
      | nil => exact fun a => Nat.mod_mod _ _
      | cons e l ih =>
        intro a
        rw [List.foldl_cons, List.foldl_cons, ← ih, ← ih (a * 10 + e)]
        congr 2
        omega
    simp only [List.map_cons, List.cons_append, Reader.many, (hdigit e he).1, if_true,
      (hdigit e he).2]
    rw [ih (fun e' he' => hds e' (List.mem_cons_of_mem _ he'))]
    rw [if_neg (List.cons_ne_nil e ds), List.foldl_cons]
    split_ifs with h
    · rw [h]
      rfl
    · rw [hmod]

/-- **Round trip through a format**: a number printed with `%lu` is read back by `_atoi`, as a
width or a precision, modulo 2³². -/
theorem integer_atoi (w : Word) : ∃ cs,
    (∀ (σ : Type) (out : Out Byte σ),
      Prints out (integer out ⟨{ long := true }, 0, 0⟩ (chr 'u') w) cs) ∧
    ∀ (c : Byte) (s : List Byte) (va : List Word), isDigit c = false →
      atoi (cs ++ c :: s) va = some (w.toNat % 2 ^ 32, c :: s, va) := by
  refine ⟨_, fun σ out => prints_integer _ _ w, fun c s va hc => ?_⟩
  have hne : (lowDigits 10 ntoaBufferSize w.toNat).reverse ≠ [] := by
    rw [Ne, List.reverse_eq_nil_iff]
    exact lowDigits_ne_nil (by decide)
  have hlt : ∀ e ∈ (lowDigits 10 ntoaBufferSize w.toNat).reverse, e < 10 := fun e he =>
    lt_of_mem_lowDigits (by decide) (List.mem_reverse.mp he)
  have hvalue : value 10 (lowDigits 10 ntoaBufferSize w.toNat).reverse = w.toNat := by
    rw [value_reverse, ofDigits_lowDigits (by decide),
      Nat.mod_eq_of_lt (lt_pow_ntoaBufferSize w (by decide))]
  unfold atoi
  rw [integerText_unsigned_long, atoi_digits hlt (by simpa using hc), if_neg hne]
  exact congrArg (fun n => some (n % 2 ^ 32, c :: s, va)) hvalue

/-! ### Strings -/

def Limited (d : Directive) : Prop := d.precision ≠ 0 → d.flags.precision = true

lemma returns_precisionField (flags : Flags) :
    Returns (precisionField flags) fun r => r.2 ≠ 0 → r.1.precision = true := by
  apply returns_peek
  intro c
  split_ifs
  · apply returns_advance
    exact returns_bind (returns_true _) fun n _ => returns_pure fun _ => rfl
  · exact returns_pure fun h => absurd rfl h

lemma returns_lengthField (flags : Flags) :
    Returns (lengthField flags) fun f => f.precision = flags.precision := by
  have htwice : ∀ (c : Byte) (once twice : Flags), once.precision = flags.precision →
      twice.precision = flags.precision →
      Returns (lengthTwice c once twice) fun f => f.precision = flags.precision := by
    intro c once twice honce htwice
    apply returns_peek
    intro c'
    split_ifs
    · exact returns_advance (returns_pure htwice)
    · exact returns_pure honce
  apply returns_peek
  intro c
  split_ifs
  · exact returns_advance (htwice _ _ _ rfl rfl)
  · exact returns_advance (htwice _ _ _ rfl rfl)
  · exact returns_advance (returns_pure rfl)
  · exact returns_pure rfl

lemma returns_directive : Returns directive Limited := by
  refine returns_bind (returns_true _) fun flags _ => ?_
  refine returns_bind (returns_true _) fun w _ => ?_
  refine returns_bind (returns_precisionField w.1) fun p hp => ?_
  refine returns_bind (returns_lengthField p.1) fun f hf => ?_
  apply returns_pure
  intro h
  exact hf.trans (hp h)

lemma limited_of_conversion {fmt r : List Byte} {va va' : List Word}
    (h : conversion fmt va = some (.conv d c w, r, va')) : Limited d := by
  obtain ⟨⟨d', r₁, va₁⟩, h₁, h₂⟩ := Option.bind_eq_some_iff.mp h
  have hd := returns_directive _ _ _ _ _ h₁
  cases r₁ with
  | nil => simp [Reader.lastly, Reader.peek] at h₂
  | cons c' r₁ =>
    cases htakes : takesArg c' with
    | false => simp [Reader.lastly, Reader.peek, Reader.advance, Reader.pure, htakes] at h₂
    | true =>
      cases va₁ with
      | nil => simp [Reader.lastly, Reader.peek, Reader.arg, htakes] at h₂
      | cons w' va₁ =>
        have hd' : d' = d := by
          simp only [Reader.lastly, Reader.peek, Reader.arg, Reader.advance, Reader.pure, htakes,
            if_true, Option.some_inj, Prod.mk.injEq, Item.conv.injEq] at h₂
          exact h₂.1.1
        rwa [← hd']

variable {s : List Byte}

/-- **What reading a string takes**: a terminator, or more bytes than a precision that is not
zero; one byte behind the characters that are printed is read in any case. -/
theorem readable_iff (hd : Limited d) (hs : s.length ≤ sizeMax) :
    Readable d s ↔ 0 ∈ s ∨ (d.precision ≠ 0 ∧ d.precision < s.length) := by
  unfold Readable
  by_cases h0 : d.precision = 0
  · have : ¬ sizeMax < s.length := by omega
    simp [h0, this]
  · simp [h0, hd h0]

/-- The padding goes by the number of characters that are printed. -/
lemma stringLen_eq (hd : Limited d) (hs : s.length < 2 ^ 32) :
    stringLen d s = (stringChars d.flags.precision d.precision s).length := by
  have hle := (List.takeWhile_prefix (l := s) fun c => decide (c ≠ 0)).length_le
  have hmax : sizeMax = 2 ^ 64 - 1 := rfl
  unfold stringLen stringChars
  set n := (s.takeWhile (· ≠ 0)).length with hn
  by_cases hp : d.flags.precision = true
  · simp only [hp, if_true, List.length_take, ← hn]
    split_ifs <;> rw [Nat.mod_eq_of_lt (by omega)] <;> omega
  · have h0 : d.precision = 0 := by
      by_contra h
      exact hp (hd h)
    simp only [hp, h0, ne_eq, not_true_eq_false, if_false, Bool.false_eq_true, ← hn]
    rw [Nat.mod_eq_of_lt (by omega)]
    omega

/-- **A string in a field**, of an object of less than `2 ^ 32` bytes: its characters, up to the
terminator and the precision, between blanks on one side that fill the width. -/
theorem string_field {E : Env} {fmt r : List Byte} {va va' : List Word}
    (h : conversion fmt va = some (.conv d (chr 's') w, r, va')) (hs : (E.str w).length < 2 ^ 32)
    (hr : 0 ∈ E.str w ∨ (d.precision ≠ 0 ∧ d.precision < (E.str w).length)) : ∃ k l,
    (∀ (σ : Type) (out : Out Byte σ) (p : ℕ × σ), string out E d w p =
      some (puts out (List.replicate k (chr ' ') ++
        (stringChars d.flags.precision d.precision (E.str w) ++ List.replicate l (chr ' '))) p)) ∧
      k + (stringChars d.flags.precision d.precision (E.str w)).length + l =
        max d.width (stringChars d.flags.precision d.precision (E.str w)).length ∧
      (d.flags.left = true → k = 0) ∧ (d.flags.left = false → l = 0) := by
  have hmax : sizeMax = 2 ^ 64 - 1 := rfl
  have hd : Limited d := limited_of_conversion h
  have hread : Readable d (E.str w) := (readable_iff hd (by omega)).mpr hr
  have hlen := stringLen_eq hd hs
  set cs := stringChars d.flags.precision d.precision (E.str w) with hcs
  have htext : stringText d (E.str w) = pad d cs.length cs := by rw [stringText, hlen]
  have hstring (σ : Type) (out : Out Byte σ) (p : ℕ × σ) :
      string out E d w p = some (puts out (pad d cs.length cs) p) := by
    rw [string_eq, if_pos hread, htext]
  unfold pad at hstring
  cases hleft : d.flags.left
  · refine ⟨d.width - cs.length, 0, fun σ out p => ?_, by omega, by simp, fun _ => rfl⟩
    rw [hstring, hleft]
    simp
  · refine ⟨0, d.width - cs.length, fun σ out p => ?_, by omega, fun _ => rfl, by simp⟩
    rw [hstring, hleft]
    simp

/-- The format `%8.2s` with a string of three characters. -/
theorem string_field_hart : ∃ k l,
    (∀ (σ : Type) (out : Out Byte σ) (p : ℕ × σ),
      string out ⟨fun _ => [104, 97, 114, 0], fun _ _ _ _ => [], fun _ _ _ _ => []⟩
        ⟨{ precision := true }, 8, 2⟩ 0x80000000 p = some (puts out (List.replicate k (chr ' ') ++
          (stringChars true 2 [104, 97, 114, 0] ++ List.replicate l (chr ' '))) p)) ∧
      k + (stringChars true 2 [104, 97, 114, 0]).length + l =
        max 8 (stringChars true 2 [104, 97, 114, 0]).length ∧
      (false = true → k = 0) ∧ (false = false → l = 0) :=
  string_field (E := ⟨fun _ => [104, 97, 114, 0], fun _ _ _ _ => [], fun _ _ _ _ => []⟩)
    (d := ⟨{ precision := true }, 8, 2⟩)
    (show conversion [chr '8', chr '.', chr '2', chr 's', 0] [0x80000000] =
      some (.conv ⟨{ precision := true }, 8, 2⟩ (chr 's') 0x80000000, [0], []) by decide)
    (by decide) (.inl (by decide))

/-! ### What a call reads -/

section Reads

variable {E : Env} {fmt : List Byte} {va : List Word}

lemma convText_string (d : Directive) (w : Word) : convText E d (chr 's') w =
    if Readable d (E.str w) then some (stringText d (E.str w)) else none := by
  unfold convText
  rw [if_neg (by decide), if_neg (by decide), if_neg (by decide), if_neg (by decide), if_pos rfl]

lemma isSome_itemText {i : Item} : (itemText E i).isSome ↔
    ∀ d w, i = .conv d (chr 's') w → Readable d (E.str w) := by
  cases i with
  | lit c => simp [itemText]
  | conv d c w =>
    simp only [itemText, Item.conv.injEq]
    by_cases hc : c = chr 's'
    · subst hc
      rw [convText_string]
      constructor
      · rintro h d' w' ⟨rfl, -, rfl⟩
        by_contra hr
        simp [hr] at h
      · intro h
        rw [if_pos (h d w ⟨rfl, rfl, rfl⟩)]
        rfl
    · constructor
      · rintro - d' w' ⟨-, h, -⟩
        exact absurd h hc
      · intro
        unfold convText
        rw [if_neg hc]
        split_ifs <;> rfl

lemma isSome_itemTexts {is : List Item} :
    (itemTexts E is).isSome ↔ ∀ i ∈ is, (itemText E i).isSome := by
  induction is with
  | nil => simp [itemTexts]
  | cons i is ih =>
    rw [List.forall_mem_cons, ← ih, itemTexts]
    cases itemText E i <;> cases itemTexts E is <;> simp

variable {σ β : Type*}

/-- **What a call reads**: it stays inside the format, its arguments and their strings if and
only if the format ends outside its directives, there is an argument for each slot, and every
string has a terminator or more bytes than its precision. -/
theorem vsnprintf_isSome_iff (hE : ∀ w, (E.str w).length ≤ sizeMax) (h0 : 0 ∉ fmt)
    (out : OutFct β σ) (buffer : Option β) (maxlen : Word) (va : List Word) (s : σ) :
    (vsnprintf E out buffer maxlen (fmt ++ [0]) va s).isSome ↔
      Complete fmt ∧ slots fmt ≤ va.length ∧ ∀ d w, .conv d (chr 's') w ∈ items fmt va →
        0 ∈ E.str w ∨ (d.precision ≠ 0 ∧ d.precision < (E.str w).length) := by
  have htext : (vsnprintf E out buffer maxlen (fmt ++ [0]) va s).isSome ↔
      (text E (fmt ++ [0]) va).isSome := by
    unfold vsnprintf
    simp only [vsnprintfLoop_eq, Option.isSome_map]
  rw [htext, ← and_assoc, ← parse_isSome_iff h0 va]
  unfold text items
  cases hparse : parse (fmt ++ [0]) va with
  | none => simp
  | some r =>
    obtain ⟨is, rest, va'⟩ := r
    have hlimited := forall_mem_parse (P := fun i => ∀ d w, i = .conv d (chr 's') w → Limited d)
      (by simp) (fun _ _ i _ _ hi d w h => limited_of_conversion (h ▸ hi)) hparse
    simp only [Option.bind_some, Option.isSome_some, true_and, Option.map_some, Option.getD_some,
      isSome_itemTexts, isSome_itemText]
    constructor
    · intro h d w hmem
      exact (readable_iff (hlimited _ hmem d w rfl) (hE w)).mp (h _ hmem d w rfl)
    · rintro h i hi d w rfl
      exact (readable_iff (hlimited _ hi d w rfl) (hE w)).mpr (h d w hi)

theorem vsnprintf_isSome_iff_hex :
    (vsnprintf emptyStrings outBuffer (some 0x80000000) 3 ([chr '%', chr 'x'] ++ [0]) [255]
        fun _ => 1).isSome ↔
      Complete [chr '%', chr 'x'] ∧ slots [chr '%', chr 'x'] ≤ ([255] : List Word).length ∧
        ∀ d w, .conv d (chr 's') w ∈ items [chr '%', chr 'x'] [255] →
          0 ∈ emptyStrings.str w ∨
            (d.precision ≠ 0 ∧ d.precision < (emptyStrings.str w).length) :=
  vsnprintf_isSome_iff (fun _ => (by decide : [(0 : Byte)].length ≤ sizeMax)) (by decide)
    outBuffer (some 0x80000000) 3 [255] fun _ => 1

end Reads

end LibCheckpoint.Conversions
