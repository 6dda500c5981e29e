import LibCheckpoint.Field
import LibCheckpoint.Format

/-!
`_vsnprintf` and the functions that call it. What a call prints is a text that depends on the
format and the arguments only; every output function gets the characters of that text in
order, and then a terminator.
-/

namespace LibCheckpoint.Vsnprintf

open LibCheckpoint.Bytes LibCheckpoint.Sink LibCheckpoint.Ntoa LibCheckpoint.Printf
open LibCheckpoint.Format

/-! ### The functions of the source -/

section Functions

variable {σ : Type*}

def vsnprintfLoop (E : Env) (out : Out Byte σ) (fmt : List Byte) (va : List Word) (p : ℕ × σ) :
    Option (ℕ × σ) :=
  match fmt with
  | [] => none
  | c :: fmt =>
    if c = 0 then some p
    else if c ≠ chr '%' then vsnprintfLoop E out fmt va (put out c p)
    else
      match _hd : directive fmt va with
      | none => none
      | some (_, [], _) => none
      | some (d, c :: rest, va) =>
        match specifier out E d c va p with
        | none => none
        | some (va, p) => vsnprintfLoop E out rest va p
termination_by fmt.length
decreasing_by
  · exact Nat.lt_succ_self _
  · obtain ⟨u, vs, ht⟩ := follows_directive.ok _ _ _ _ _ (fun _ _ => trivial) _hd
    rw [ht.text, List.length_cons, List.length_append, List.length_cons]
    omega

variable {β : Type*}

/-- `_vsnprintf`; `none` for a null buffer -/
def vsnprintf (E : Env) (out : OutFct β σ) (buffer : Option β) (maxlen : Word)
    (format : List Byte) (va : List Word) (s : σ) : Option (BitVec 32 × σ) :=
  let out : Out Byte σ :=
    match buffer with
    | none => fun character idx => outNull character () idx maxlen  -- use null output function
    | some buffer => fun character idx => out character buffer idx maxlen
  (vsnprintfLoop E out format va (0, s)).map fun p =>
    (BitVec.ofNat 32 p.1, out 0 (if p.1 < maxlen.toNat then p.1 else (maxlen - 1).toNat) p.2)

/-- `printf_` and `vprintf_`, on what the serial port has been sent -/
def printf_ (E : Env) (format : List Byte) (va : List Word) (console : List Byte) :
    Option (BitVec 32 × List Byte) :=
  vsnprintf E outChar (some ()) (-1) format va console

def snprintf_ (E : Env) (buffer : Option Word) (count : Word) (format : List Byte)
    (va : List Word) (m : Word → Byte) : Option (BitVec 32 × (Word → Byte)) :=
  vsnprintf E outBuffer buffer count format va m

def sprintf_ (E : Env) (buffer : Option Word) (format : List Byte) (va : List Word)
    (m : Word → Byte) : Option (BitVec 32 × (Word → Byte)) :=
  vsnprintf E outBuffer buffer (-1) format va m

def fctprintf (E : Env) (fct : Byte → σ → σ) (format : List Byte) (va : List Word) (s : σ) :
    Option (BitVec 32 × σ) :=
  vsnprintf E outFct (some fct) (-1) format va s

end Functions

/-! ### The text of an item -/

/-- What an integer specifier prints: the magnitude, and whether there is a minus sign. -/
def integerArg (flags : Flags) (c : Byte) (w : Word) : Word × Bool :=
  if isSigned c then
    if flags.longLong || flags.long then (magnitude w, decide (w.toInt < 0))
    else
      ((magnitude (signedInt flags w)).setWidth 64, decide ((signedInt flags w).toInt < 0))
  else if flags.longLong || flags.long then (w, false)
  else ((unsignedInt flags w).setWidth 64, false)

def integerText (d : Directive) (c : Byte) (w : Word) : List Byte :=
  ntoaText (integerArg d.flags c w).1 (integerArg d.flags c w).2 (baseOf c) d.precision d.width
    (integerFlags c d.flags)

/-- Blanks on the left, or on the right, up to a width. -/
def pad (d : Directive) (len : ℕ) (cs : List Byte) : List Byte :=
  (if !d.flags.left then List.replicate (d.width - len) (chr ' ') else []) ++
    (cs ++ if d.flags.left then List.replicate (d.width - len) (chr ' ') else [])

/-- The characters of a string up to its terminator, or up to the precision. -/
def stringChars (limited : Bool) (precision : ℕ) (s : List Byte) : List Byte :=
  if limited then (s.takeWhile (· ≠ 0)).take precision else s.takeWhile (· ≠ 0)

/-- The string can be read as far as the length and the output read it. -/
def Readable (d : Directive) (s : List Byte) : Prop :=
  0 ∈ s ∨ ((if d.precision ≠ 0 then d.precision else sizeMax) < s.length ∧
    d.flags.precision = true ∧ d.precision < s.length)

instance (d : Directive) (s : List Byte) : Decidable (Readable d s) :=
  inferInstanceAs (Decidable (_ ∨ _))

/-- The length that the padding of a string goes by. -/
def stringLen (d : Directive) (s : List Byte) : ℕ :=
  let l := min (if d.precision ≠ 0 then d.precision else sizeMax)
    (s.takeWhile (· ≠ 0)).length % 2 ^ 32
  if d.flags.precision then min l d.precision else l

def stringText (d : Directive) (s : List Byte) : List Byte :=
  pad d (stringLen d s) (stringChars d.flags.precision d.precision s)

def pointerText (d : Directive) (w : Word) : List Byte :=
  ntoaText w false 16 d.precision 16 { d.flags with zeropad := true, uppercase := true }

/-- What a specifier with its argument prints. -/
def convText (E : Env) (d : Directive) (c : Byte) (w : Word) : Option (List Byte) :=
  if isInteger c then some (integerText d c w)
  else if c = chr 'f' ∨ c = chr 'F' then
    some (E.ftoa w d.precision d.width
      (if c = chr 'F' then { d.flags with uppercase := true } else d.flags))
  else if c = chr 'e' ∨ c = chr 'E' ∨ c = chr 'g' ∨ c = chr 'G' then
    some (E.etoa w d.precision d.width (etoaFlags c d.flags))
  else if c = chr 'c' then some (pad d 1 [w.setWidth 8])
  else if c = chr 's' then
    if Readable d (E.str w) then some (stringText d (E.str w)) else none
  else some (pointerText d w)

/-- What an item prints; `none` if a string is read behind the end of its object. -/
def itemText (E : Env) : Item → Option (List Byte)
  | .lit c => some [c]
  | .conv d c w => convText E d c w

def itemTexts (E : Env) : List Item → Option (List Byte)
  | [] => some []
  | i :: is => (itemText E i).bind fun cs => (itemTexts E is).map (cs ++ ·)

/-- **What a call prints**: the texts of the items of the format, one after the other. -/
def text (E : Env) (format : List Byte) (va : List Word) : Option (List Byte) :=
  (parse format va).bind fun r => itemTexts E r.1

/-! ### The conversions print their texts -/

section Prints

variable {σ : Type*} {out : Out Byte σ}

lemma prints_integer (d : Directive) (c : Byte) (w : Word) :
    Prints out (integer out d c w) (integerText d c w) := by
  intro p
  have hlongLong : (integerFlags c d.flags).longLong = d.flags.longLong := rfl
  have hlong : (integerFlags c d.flags).long = d.flags.long := rfl
  have hsigned : signedInt (integerFlags c d.flags) w = signedInt d.flags w := rfl
  have hunsigned : unsignedInt (integerFlags c d.flags) w = unsignedInt d.flags w := rfl
  unfold integer integerText integerArg
  simp only [ntoaLong, ntoaLongLong, hlongLong, hlong, hsigned, hunsigned]
  cases isSigned c <;> cases d.flags.longLong <;> cases d.flags.long <;>
    exact prints_ntoa _ _ _ _ _ _ p

lemma prints_character (d : Directive) (w : Word) :
    Prints out (character out d w) (pad d 1 [w.setWidth 8]) := by
  intro p
  unfold character pad
  cases d.flags.left <;> simp [puts_append, iterate_put]

lemma mem_cons_of_ne {c : Byte} (hc : c ≠ 0) (s : List Byte) : 0 ∈ c :: s ↔ 0 ∈ s :=
  List.mem_cons.trans (or_iff_right (Ne.symm hc))

lemma takeWhile_cons_of_ne {c : Byte} (hc : c ≠ 0) (s : List Byte) :
    (c :: s).takeWhile (· ≠ 0) = c :: s.takeWhile (· ≠ 0) :=
  List.takeWhile_cons_of_pos (decide_eq_true hc)

lemma strnlen_eq (s : List Byte) (n : ℕ) : strnlen s n =
    if 0 ∈ s ∨ n < s.length then some (min n (s.takeWhile (· ≠ 0)).length) else none := by
  induction s generalizing n with
  | nil => simp [strnlen]
  | cons c s ih =>
    unfold strnlen
    by_cases hc : c = 0
    · simp [hc]
    · simp only [if_neg hc, mem_cons_of_ne hc, takeWhile_cons_of_ne hc, List.length_cons]
      cases n with
      | zero => simp
      | succ n =>
        simp only [ih, Nat.succ_lt_succ_iff]
        split_ifs
        · simp [Nat.succ_min_succ]
        · rfl

lemma stringLoop_eq (limited : Bool) (s : List Byte) (n : ℕ) (p : ℕ × σ) :
    stringLoop out limited s n p =
      if 0 ∈ s ∨ (limited = true ∧ n < s.length) then some (puts out (stringChars limited n s) p)
      else none := by
  induction s generalizing n p with
  | nil => simp [stringLoop]
  | cons c s ih =>
    unfold stringLoop stringChars
    by_cases hc : c = 0
    · cases limited <;> simp [hc]
    · simp only [if_neg hc, mem_cons_of_ne hc, takeWhile_cons_of_ne hc, List.length_cons]
      cases limited with
      | false => simp only [ih, Bool.false_eq_true, if_false, false_and, stringChars, puts_cons]
      | true =>
        cases n with
        | zero => simp
        | succ n =>
          simp only [ih, if_true, true_and, Nat.succ_lt_succ_iff, stringChars, List.take_succ_cons,
            puts_cons]

lemma string_eq (E : Env) (d : Directive) (w : Word) (p : ℕ × σ) : string out E d w p =
    if Readable d (E.str w) then some (puts out (stringText d (E.str w)) p) else none := by
  unfold string strnlenS
  rw [strnlen_eq]
  by_cases h0 : (0 : Byte) ∈ E.str w
  · have hr : Readable d (E.str w) := Or.inl h0
    simp only [h0, true_or, if_true, Option.map_some, Option.bind_some, stringLoop_eq, hr]
    unfold stringText pad stringLen
    cases d.flags.left <;> simp [puts_append, iterate_put]
  · have hr : Readable d (E.str w) ↔ (if d.precision ≠ 0 then d.precision else sizeMax) <
        (E.str w).length ∧ d.flags.precision = true ∧ d.precision < (E.str w).length := by
      unfold Readable
      simp only [h0, false_or]
    simp only [h0, false_or, hr, stringLoop_eq]
    by_cases hmax : (if d.precision ≠ 0 then d.precision else sizeMax) < (E.str w).length
    · by_cases hlim : d.flags.precision = true ∧ d.precision < (E.str w).length
      · simp only [hmax, hlim, if_true, Option.map_some, Option.bind_some, and_self]
        unfold stringText pad stringLen
        cases d.flags.left <;> simp [puts_append, iterate_put, hlim.1]
      · simp only [hmax, hlim, if_true, if_false, Option.map_some, Option.bind_some,
          Option.map_none, and_false]
    · simp only [hmax, if_false, Option.map_none, Option.bind_none, false_and]

lemma convert_eq (E : Env) (d : Directive) (c : Byte) (w : Word) (p : ℕ × σ) :
    convert out E d c w p = (convText E d c w).map fun cs => puts out cs p := by
  unfold convert convText
  split_ifs
  · exact congrArg some (prints_integer d c w p)
  · rfl
  · rfl
  · rfl
  · exact congrArg some (prints_character d w p)
  · rw [string_eq, if_pos ‹_›]
    rfl
  · rw [string_eq, if_neg ‹_›]
    rfl
  · exact congrArg some (prints_ntoa _ _ _ _ _ _ p)

end Prints

/-! ### The loop prints the text -/

section Text

variable {E : Env} {fmt rest : List Byte} {va va' : List Word}

lemma text_nil : text E [] va = none := by rw [text, parse_nil]; rfl

lemma text_stop : text E (0 :: fmt) va = some [] := by rw [text, parse_stop]; rfl

lemma text_lit {c : Byte} (h0 : c ≠ 0) (hc : c ≠ chr '%') :
    text E (c :: fmt) va = (text E fmt va).map (c :: ·) := by
  unfold text
  rw [parse_lit h0 hc]
  cases parse fmt va with
  | none => rfl
  | some r => rfl

lemma text_conv {i : Item} (h : conversion fmt va = some (i, rest, va')) :
    text E (chr '%' :: fmt) va =
      (itemText E i).bind fun cs => (text E rest va').map (cs ++ ·) := by
  unfold text
  rw [parse_conv h]
  cases parse rest va' with
  | none => cases itemText E i <;> rfl
  | some r => rfl

lemma text_conv_none (h : conversion fmt va = none) : text E (chr '%' :: fmt) va = none := by
  rw [text, parse_conv_none h]
  rfl

lemma conversion_of_directive {d : Directive} (h : directive fmt va = some (d, rest, va')) :
    conversion fmt va = Reader.lastly takesArg (Item.conv d) Item.lit rest va' := by
  unfold conversion Reader.bind
  rw [h]
  rfl

variable {σ : Type*} {out : Out Byte σ}

lemma vsnprintfLoop_stop (p : ℕ × σ) : vsnprintfLoop E out (0 :: fmt) va p = some p := by
  rw [vsnprintfLoop]
  exact if_pos rfl

lemma vsnprintfLoop_lit {c : Byte} (h0 : c ≠ 0) (hc : c ≠ chr '%') (p : ℕ × σ) :
    vsnprintfLoop E out (c :: fmt) va p = vsnprintfLoop E out fmt va (put out c p) := by
  rw [vsnprintfLoop]
  simp only [if_neg h0, if_pos hc]

lemma vsnprintfLoop_none (h : directive fmt va = none) (p : ℕ × σ) :
    vsnprintfLoop E out (chr '%' :: fmt) va p = none := by
  rw [vsnprintfLoop, if_neg (by decide), if_neg (by simp)]
  split <;> simp_all

lemma vsnprintfLoop_end {d : Directive} (h : directive fmt va = some (d, [], va')) (p : ℕ × σ) :
    vsnprintfLoop E out (chr '%' :: fmt) va p = none := by
  rw [vsnprintfLoop, if_neg (by decide), if_neg (by simp)]
  split <;> simp_all

lemma vsnprintfLoop_conv {d : Directive} {c : Byte}
    (h : directive fmt va = some (d, c :: rest, va')) (p : ℕ × σ) :
    vsnprintfLoop E out (chr '%' :: fmt) va p = (specifier out E d c va' p).bind fun r =>
      vsnprintfLoop E out rest r.1 r.2 := by
  rw [vsnprintfLoop, if_neg (by decide), if_neg (by simp)]
  split
  · simp_all
  · simp_all
  · rename_i d' c' rest' va'' heq
    rw [h] at heq
    obtain ⟨rfl, ⟨rfl, rfl⟩, rfl⟩ := by simpa using heq
    cases specifier out E d c va' p with
    | none => rfl
    | some r => rfl

/-- **The loop prints the text**, whatever the output function. -/
theorem vsnprintfLoop_eq (fmt : List Byte) (va : List Word) (p : ℕ × σ) :
    vsnprintfLoop E out fmt va p = (text E fmt va).map fun cs => puts out cs p := by
  -- Each round of the loop reads one item; what is left of the format is shorter.
  induction hn : fmt.length using Nat.strong_induction_on generalizing fmt va p with
  | _ n ih =>
    cases fmt with
    | nil => rw [text_nil, vsnprintfLoop]; rfl
    | cons c fmt =>
      rw [List.length_cons] at hn
      by_cases h0 : c = 0
      · subst h0
        rw [text_stop, vsnprintfLoop_stop]
        rfl
      · by_cases hc : c = chr '%'
        · subst hc
          cases hd : directive fmt va with
          | none =>
            have hconv : conversion fmt va = none := by
              unfold conversion Reader.bind
              rw [hd]
              rfl
            rw [vsnprintfLoop_none hd, text_conv_none hconv]
            rfl
          | some x =>
            obtain ⟨d, r, va₁⟩ := x
            have hconv := conversion_of_directive hd
            cases r with
            | nil =>
              rw [vsnprintfLoop_end hd, text_conv_none (by rw [hconv]; rfl)]
              rfl
            | cons c rest =>
              -- What is behind the specifier is shorter, so the hypothesis applies to it.
              have hlen : rest.length < n := by
                obtain ⟨u, vs, ht⟩ := follows_directive.ok _ _ _ _ _ (fun _ _ => trivial) hd
                rw [ht.text, List.length_append, List.length_cons] at hn
                omega
              rw [vsnprintfLoop_conv hd]
              unfold specifier
              -- A character that is no specifier is sent as it is, without an argument.
              cases htakes : takesArg c with
              | false =>
                have hitem : conversion fmt va = some (.lit c, rest, va₁) := by
                  rw [hconv]
                  simp [Reader.lastly, Reader.peek, htakes, Reader.advance, Reader.pure]
                rw [text_conv hitem]
                simp only [Bool.false_eq_true, if_false, Option.bind_some, itemText,
                  ih _ hlen rest va₁ _ rfl, Option.map_map]
                rfl
              | true =>
                cases va₁ with
                | nil =>
                  have hitem : conversion fmt va = none := by
                    rw [hconv]
                    simp [Reader.lastly, Reader.peek, htakes, Reader.arg]
                  rw [text_conv_none hitem]
                  rfl
                | cons w va₁ =>
                  have hitem : conversion fmt va = some (.conv d c w, rest, va₁) := by
                    rw [hconv]
                    simp [Reader.lastly, Reader.peek, htakes, Reader.arg, Reader.advance,
                      Reader.pure]
                  rw [text_conv hitem]
                  simp only [if_true, convert_eq, itemText]
                  cases convText E d c w with
                  | none => rfl
                  | some cs =>
                    simp only [Option.map_some, Option.bind_some, ih _ hlen rest va₁ _ rfl,
                      Option.map_map]
                    congr 1
                    funext ds
                    exact (puts_append out cs ds p).symm
        · rw [vsnprintfLoop_lit h0 hc, text_lit h0 hc, ih fmt.length (by omega) _ _ _ rfl,
            Option.map_map]
          rfl

/-! ### The callers -/

/-- **Refinement**: every output function gets the characters of the text in order and then a
terminator, and the result is the length of the text. -/
theorem vsnprintf_eq {β : Type*} (out : OutFct β σ) (buffer : β) (maxlen : Word)
    (va : List Word) (s : σ) : vsnprintf E out (some buffer) maxlen fmt va s =
      (text E fmt va).map fun cs => (BitVec.ofNat 32 cs.length,
        out 0 buffer (if cs.length < maxlen.toNat then cs.length else (maxlen - 1).toNat) maxlen
          (puts (fun c i => out c buffer i maxlen) cs (0, s)).2) := by
  unfold vsnprintf
  simp only [vsnprintfLoop_eq, Option.map_map]
  congr 1
  funext cs
  simp only [Function.comp_apply, puts_fst, Nat.zero_add]

/-- Without a buffer the characters are only counted. -/
theorem vsnprintf_null {β : Type*} (out : OutFct β σ) (maxlen : Word) (va : List Word) (s : σ) :
    vsnprintf E out none maxlen fmt va s =
      (text E fmt va).map fun cs => (BitVec.ofNat 32 cs.length, s) := by
  have hnull : ∀ (cs : List Byte) (i : ℕ),
      (puts (fun c i => outNull c () i maxlen) cs (i, s)).2 = s := by
    intro cs
    induction cs with
    | nil => exact fun _ => rfl
    | cons c cs ih => exact fun i => ih (i + 1)
  unfold vsnprintf
  simp only [vsnprintfLoop_eq, Option.map_map]
  congr 1
  funext cs
  simp only [Function.comp_apply, puts_fst, Nat.zero_add, hnull]
  rfl

/-- **The result is the length**: it depends neither on the output function nor on the buffer
and its size, so a call without a buffer tells how many characters the next one has. -/
theorem vsnprintf_result {β σ' : Type*} (out : OutFct β σ) (out' : OutFct β σ')
    (buffer buffer' : Option β) (maxlen maxlen' : Word) (fmt : List Byte) (va : List Word) (s : σ)
    (s' : σ') : (vsnprintf E out buffer maxlen fmt va s).map Prod.fst =
      (vsnprintf E out' buffer' maxlen' fmt va s').map Prod.fst := by
  unfold vsnprintf
  simp only [vsnprintfLoop_eq, Option.map_map]
  congr 1
  funext cs
  simp only [Function.comp_apply, puts_fst]

lemma cell_inj (buffer count : Word) : ∀ i < count.toNat, ∀ j < count.toNat,
    buffer + BitVec.ofNat 64 i = buffer + BitVec.ofNat 64 j → i = j := by
  intro i hi j hj h
  have hlt := count.isLt
  have := congrArg BitVec.toNat (BitVec.add_right_inj buffer |>.mp h)
  rw [BitVec.toNat_ofNat, BitVec.toNat_ofNat, Nat.mod_eq_of_lt (by omega),
    Nat.mod_eq_of_lt (by omega)] at this
  exact this

lemma toNat_sub_one {count : Word} (h : 0 < count.toNat) :
    (count - 1).toNat = count.toNat - 1 := by
  bv_omega

lemma outBuffer_eq_store (buffer count : Word) : (fun c i => outBuffer c buffer i count) =
    store (fun i => buffer + BitVec.ofNat 64 i) count.toNat := rfl

/-- **What `snprintf` leaves in memory**: as much of the text as fits in front of a terminator,
the terminator, and every other byte as it was. The result is the length of the whole text. -/
theorem snprintf_eq {cs : List Byte} (h : text E fmt va = some cs) (buffer count : Word)
    (m : Word → Byte) : ∃ m', snprintf_ E (some buffer) count fmt va m =
        some (BitVec.ofNat 32 cs.length, m') ∧
      (∀ i (hi : i < cs.length), i + 1 < count.toNat → m' (buffer + BitVec.ofNat 64 i) = cs[i]) ∧
      (0 < count.toNat →
        m' (buffer + BitVec.ofNat 64 (min cs.length (count.toNat - 1))) = 0) ∧
      ∀ a ∉ region buffer (min (cs.length + 1) count.toNat), m' a = m a := by
  set f : ℕ → Word := fun i => buffer + BitVec.ofNat 64 i with hf
  set k := if cs.length < count.toNat then cs.length else (count - 1).toNat with hk
  have hinj := cell_inj buffer count
  have hkmin : 0 < count.toNat → k = min cs.length (count.toNat - 1) := by
    intro hpos
    rw [hk, toNat_sub_one hpos]
    split_ifs <;> omega
  have hsnprintf : snprintf_ E (some buffer) count fmt va m = some (BitVec.ofNat 32 cs.length,
      store f count.toNat 0 k (puts (store f count.toNat) cs (0, m)).2) := by
    unfold snprintf_
    rw [vsnprintf_eq, h]
    rfl
  refine ⟨_, hsnprintf, ?_, ?_, ?_⟩
  · -- The cell of a character that fits is not overwritten by the terminator.
    intro i hi hcount
    have hcell : (puts (store f count.toNat) cs (0, m)).2 (f i) = cs[i] := by
      have := puts_store_of_lt (f := f) hinj (k := 0) (m := m) hi (by omega)
      rwa [Nat.zero_add] at this
    have hne : k < count.toNat → f i ≠ f k := by
      intro hlt heq
      have hik := hinj i (by omega) k hlt heq
      have := hkmin (by omega)
      omega
    unfold store
    split_ifs with hlt
    · rw [Function.update_of_ne (hne hlt)]
      exact hcell
    · exact hcell
  · -- The terminator is in the cell behind the text, or in the last one.
    intro hpos
    have hlt : k < count.toNat := by
      have := hkmin hpos
      omega
    rw [← hkmin hpos]
    unfold store
    rw [if_pos hlt]
    exact Function.update_self _ _ _
  · -- Both stay in the cells of the buffer.
    intro a ha
    have hout : ∀ i < min (cs.length + 1) count.toNat, a ≠ f i := by
      rintro i hi rfl
      exact ha ⟨i, hi, rfl⟩
    have hbuf : (puts (store f count.toNat) cs (0, m)).2 a = m a :=
      puts_store_of_ne fun i _ hi hn => hout i (by omega)
    unfold store
    split_ifs with hlt
    · rw [Function.update_of_ne]
      · exact hbuf
      · have := hkmin (by omega)
        exact hout k (by omega)
    · exact hbuf

def emptyStrings : Env := ⟨fun _ => [0], fun _ _ _ _ => [], fun _ _ _ _ => []⟩

lemma text_character : text emptyStrings [chr '%', chr '2', chr 'c', 0] [120] =
    some [chr ' ', chr 'x'] := by
  have hconv : conversion [chr '2', chr 'c', 0] [120] =
      some (.conv ⟨{}, 2, 0⟩ (chr 'c') 120, [0], []) := by decide
  have hitem : itemText emptyStrings (.conv ⟨{}, 2, 0⟩ (chr 'c') 120) =
      some [chr ' ', chr 'x'] := by decide
  rw [text_conv hconv, hitem, text_stop]
  rfl

theorem snprintf_eq_character : ∃ m', snprintf_ emptyStrings (some 0x80000000) 2
      [chr '%', chr '2', chr 'c', 0] [120] (fun _ => 1) = some (BitVec.ofNat 32 2, m') ∧
    (∀ i (hi : i < [chr ' ', chr 'x'].length), i + 1 < (2 : Word).toNat →
      m' (0x80000000 + BitVec.ofNat 64 i) = [chr ' ', chr 'x'][i]) ∧
    (0 < (2 : Word).toNat →
      m' (0x80000000 + BitVec.ofNat 64 (min [chr ' ', chr 'x'].length ((2 : Word).toNat - 1))) =
        0) ∧
    ∀ a ∉ region 0x80000000 (min ([chr ' ', chr 'x'].length + 1) (2 : Word).toNat), m' a = 1 :=
  snprintf_eq text_character 0x80000000 2 fun _ => 1

/-- **With and without a bound**: into a buffer that is longer than the text `sprintf` writes
what `snprintf` writes. -/
theorem sprintf_eq_snprintf {cs : List Byte} (h : text E fmt va = some cs) (buffer : Word)
    {count : Word} (hcount : cs.length < count.toNat) (m : Word → Byte) :
    sprintf_ E (some buffer) fmt va m = snprintf_ E (some buffer) count fmt va m := by
  have hmax : (-1 : Word).toNat = 2 ^ 64 - 1 := rfl
  have hlt := count.isLt
  unfold sprintf_ snprintf_
  rw [vsnprintf_eq, vsnprintf_eq, h, Option.map_some, Option.map_some, outBuffer_eq_store,
    outBuffer_eq_store, puts_store_congr count.toNat (by omega) (by omega),
    if_pos (by omega), if_pos hcount]
  unfold outBuffer
  rw [if_pos (by omega), if_pos hcount]

theorem sprintf_eq_snprintf_character : sprintf_ emptyStrings (some 0x80000000)
    [chr '%', chr '2', chr 'c', 0] [120] (fun _ => 1) =
      snprintf_ emptyStrings (some 0x80000000) 3 [chr '%', chr '2', chr 'c', 0] [120] fun _ => 1 :=
  sprintf_eq_snprintf text_character 0x80000000 (by decide) fun _ => 1

/-- **What the serial port is sent**: the text without its zeros. -/
theorem printf_eq (va : List Word) (console : List Byte) : printf_ E fmt va console =
    (text E fmt va).map fun cs =>
      (BitVec.ofNat 32 cs.length, console ++ cs.filter fun c => c ≠ 0) := by
  unfold printf_
  rw [vsnprintf_eq]
  congr 1
  funext cs
  have hout : (fun c i => outChar c () i (-1)) =
      forward (fun c => decide (c ≠ 0)) fun c s => putchar c s := by
    funext c i s
    simp [outChar, forward]
  rw [hout, puts_forward]
  simp only [outChar, putchar, foldl_concat]
  rfl

/-- **A function for the serial port**: `fctprintf` calls its function with each character that
`printf` sends, in order, and returns what `printf` returns. -/
theorem fctprintf_eq_printf (fct : Byte → σ → σ) (fmt : List Byte) (va : List Word) (s : σ) :
    fctprintf E fct fmt va s =
      (printf_ E fmt va []).map fun r => (r.1, r.2.foldl (fun s c => fct c s) s) := by
  unfold fctprintf
  rw [vsnprintf_eq, printf_eq, Option.map_map]
  congr 1
  funext cs
  have hout : (fun c i => outFct c fct i (-1)) = forward (fun c => decide (c ≠ 0)) fct := by
    funext c i s
    simp [outFct, forward]
  rw [hout, puts_forward]
  rfl

end Text

/-! ### Formats in one object -/

section Formats

variable {E : Env} {fmt : List Byte} {va : List Word}

lemma itemTexts_append (is js : List Item) : itemTexts E (is ++ js) =
    (itemTexts E is).bind fun cs => (itemTexts E js).map (cs ++ ·) := by
  induction is with
  | nil => simp [itemTexts]
  | cons i is ih =>
    rw [List.cons_append, itemTexts, itemTexts, ih]
    cases itemText E i with
    | none => rfl
    | some cs =>
      cases itemTexts E is with
      | none => rfl
      | some ds =>
        cases itemTexts E js with
        | none => rfl
        | some es => simp

lemma text_append (h0 : 0 ∉ fmt) (hc : Complete fmt) (fmt₁ : List Byte) (va : List Word) :
    text E (fmt ++ fmt₁) va = (text E (fmt ++ [0]) va).bind fun cs =>
      (text E fmt₁ (va.drop (slots fmt))).map (cs ++ ·) := by
  unfold text
  by_cases hs : slots fmt ≤ va.length
  · obtain ⟨is, hparse⟩ := parse_complete h0 hc hs
    rw [hparse, hparse, parse_stop]
    cases parse fmt₁ (va.drop (slots fmt)) with
    | none => cases itemTexts E is <;> simp
    | some r =>
      simp only [Option.map_some, Option.bind_some, List.append_nil, itemTexts_append]
  · rw [parse_short h0 hc _ (by omega), parse_short h0 hc _ (by omega)]
    rfl

variable {σ β : Type*}

/-- **Nothing behind the terminator matters**: the bytes that follow a complete format in
memory change neither the output nor the result, nor whether the call reads too far. -/
theorem vsnprintf_terminator (h0 : 0 ∉ fmt) (hc : Complete fmt) (out : OutFct β σ)
    (buffer : Option β) (maxlen : Word) (junk : List Byte) (va : List Word) (s : σ) :
    vsnprintf E out buffer maxlen (fmt ++ 0 :: junk) va s =
      vsnprintf E out buffer maxlen (fmt ++ [0]) va s := by
  have htext : text E (fmt ++ 0 :: junk) va = text E (fmt ++ [0]) va := by
    rw [text_append h0 hc (0 :: junk), text_stop]
    simp
  unfold vsnprintf
  simp only [vsnprintfLoop_eq, htext]

theorem vsnprintf_terminator_hex :
    vsnprintf emptyStrings outChar (some ()) (-1) ([chr '%', chr 'x'] ++ 0 :: [chr '%']) [255] [] =
      vsnprintf emptyStrings outChar (some ()) (-1) ([chr '%', chr 'x'] ++ [0]) [255] [] :=
  vsnprintf_terminator (by decide) (by decide) outChar (some ()) (-1) [chr '%'] [255] []

/-- **One call for two**: a complete format followed by another one sends to the serial port
what two calls in a row send, the second one with the arguments that the first one leaves, and
returns the sum of their results. -/
theorem printf_append (h0 : 0 ∉ fmt) (hc : Complete fmt) (fmt₁ : List Byte) (va : List Word)
    (console : List Byte) : printf_ E (fmt ++ fmt₁) va console =
      (printf_ E (fmt ++ [0]) va console).bind fun r =>
        (printf_ E fmt₁ (va.drop (slots fmt)) r.2).map fun r₁ => (r.1 + r₁.1, r₁.2) := by
  simp only [printf_eq]
  rw [text_append h0 hc fmt₁]
  cases text E (fmt ++ [0]) va with
  | none => rfl
  | some cs =>
    cases text E fmt₁ (va.drop (slots fmt)) with
    | none => rfl
    | some ds =>
      simp only [Option.map_some, Option.bind_some, List.length_append, List.filter_append,
        List.append_assoc, BitVec.ofNat_add]

theorem printf_append_hex : printf_ emptyStrings ([chr '%', chr 'x'] ++ [chr '%', chr 'd', 0])
    [255, 1] [] = (printf_ emptyStrings ([chr '%', chr 'x'] ++ [0]) [255, 1] []).bind fun r =>
      (printf_ emptyStrings [chr '%', chr 'd', 0]
        (([255, 1] : List Word).drop (slots [chr '%', chr 'x'])) r.2).map fun r₁ =>
          (r.1 + r₁.1, r₁.2) :=
  printf_append (by decide) (by decide) [chr '%', chr 'd', 0] [255, 1] []

end Formats

end LibCheckpoint.Vsnprintf
