import LibCheckpoint.Printf

/-!
The format string: an automaton that follows the directives one character at a time, and the
parser of `_vsnprintf` that stops where the automaton is between two directives.
-/

namespace LibCheckpoint.Format

open LibCheckpoint.Bytes LibCheckpoint.Ntoa LibCheckpoint.Printf LibCheckpoint.Reader

/-! ### The automaton -/

/-- Where a format string is: outside the directives, or which field comes next. -/
inductive Phase
  | text
  | flags
  | width
  | widthDigits
  | precision
  | point
  | precisionDigits
  | length
  | long
  | short
  | last
  deriving DecidableEq

def isFlag (c : Byte) : Bool := (setFlag c {}).isSome

def lengthStep (c : Byte) : Phase :=
  if c = chr 'l' then .long
  else if c = chr 'h' then .short
  else if c = chr 't' ∨ c = chr 'j' ∨ c = chr 'z' then .last
  else .text

def precisionStep (c : Byte) : Phase := if c = chr '.' then .point else lengthStep c

def widthStep (c : Byte) : Phase :=
  if isDigit c then .widthDigits else if c = chr '*' then .precision else precisionStep c

def step : Phase → Byte → Phase
  | .text, c => if c = chr '%' then .flags else .text
  | .flags, c => if isFlag c then .flags else widthStep c
  | .width, c => widthStep c
  | .widthDigits, c => if isDigit c then .widthDigits else precisionStep c
  | .precision, c => precisionStep c
  | .point, c =>
    if isDigit c then .precisionDigits else if c = chr '*' then .length else lengthStep c
  | .precisionDigits, c => if isDigit c then .precisionDigits else lengthStep c
  | .length, c => lengthStep c
  | .long, c => if c = chr 'l' then .last else .text
  | .short, c => if c = chr 'h' then .last else .text
  | .last, _ => .text

/-- The arguments a character calls for: a specifier may take one, and so does a `*` inside a
directive. -/
def cost (q : Phase) (c : Byte) : ℕ :=
  if q = .text then 0
  else if step q c = .text then (takesArg c).toNat
  else if c = chr '*' then 1
  else 0

def scan : Scan Byte Phase := ⟨step, cost⟩

/-- The format ends outside its directives. -/
def Complete (fmt : List Byte) : Prop := scan.state .text fmt = .text

instance (fmt : List Byte) : Decidable (Complete fmt) := inferInstanceAs (Decidable (_ = _))

def slots (fmt : List Byte) : ℕ := scan.total .text fmt

/-! ### The automaton follows the fields -/

section Fields

variable {q q' : Phase} {c : Byte}

lemma acts_of_step (hq : q ≠ .text) (hq' : q' ≠ .text) (h : step q c = step q' c) :
    scan.Acts q q' c := by
  refine ⟨h, ?_⟩
  show cost q c = cost q' c
  unfold cost
  rw [if_neg hq, if_neg hq', h]

/-- A character inside a directive that is no `*` calls for nothing. -/
lemma cost_eq_zero (h : step q c ≠ .text) (hc : c ≠ chr '*') : scan.cost q c = 0 := by
  show cost q c = 0
  unfold cost
  split_ifs <;> simp_all

lemma cost_star (hq : q ≠ .text) (h : step q (chr '*') ≠ .text) : scan.cost q (chr '*') = 1 := by
  show cost q (chr '*') = 1
  unfold cost
  rw [if_neg hq, if_neg h, if_pos rfl]

lemma isDigit_ne (h : isDigit c = true) : c ≠ chr '*' := by
  rintro rfl
  simp [isDigit] at h
  exact absurd h (by decide)

lemma setFlag_isSome (flags : Flags) : (setFlag c flags).isSome = isFlag c := by
  unfold isFlag setFlag
  split_ifs <;> rfl

lemma isFlag_ne (h : isFlag c = true) : c ≠ chr '*' := by
  rintro rfl
  exact absurd h (by decide)

abbrev Follows (P : Byte → Prop) {α : Type} (m : Read Byte Word α) (q q' : Phase) : Prop :=
  Reads scan .text P m q q'

lemma follows_flagsField : Follows (fun _ => True) flagsField .flags .width := by
  apply reads_many (by decide)
  · intro flags c flags' h
    have hc : isFlag c = true := by rw [← setFlag_isSome flags, h]; rfl
    have hstep : step .flags c = .flags := if_pos hc
    exact ⟨hstep, cost_eq_zero (by rw [hstep]; decide) (isFlag_ne hc)⟩
  · intro flags c h
    have hc : ¬ isFlag c = true := by rw [← setFlag_isSome flags, h]; decide
    exact acts_of_step (by decide) (by decide) (if_neg hc)

lemma follows_atoi (hq : q ≠ .text) (hq' : q' ≠ .text)
    (hdigit : ∀ c, isDigit c = true → step q c = q)
    (hexit : ∀ c, ¬ isDigit c = true → step q c = step q' c) :
    Follows (fun _ => True) atoi q q' := by
  apply reads_many hq
  · intro i c i' h
    have hc : isDigit c = true := by
      by_contra hc
      simp [hc] at h
    have hstep := hdigit c hc
    exact ⟨hstep, cost_eq_zero (by rw [hstep]; exact hq) (isDigit_ne hc)⟩
  · intro i c h
    have hc : ¬ isDigit c = true := by
      intro hc
      simp [hc] at h
    exact acts_of_step hq hq' (hexit c hc)

lemma follows_widthField (flags : Flags) :
    Follows (fun _ => True) (widthField flags) .width .precision := by
  apply reads_peek
  intro c _
  split_ifs with hdigit hstar
  · have henter : ∀ d, d = c → scan.Acts .width .widthDigits d := by
      rintro d rfl
      exact acts_of_step (by decide) (by decide)
        ((if_pos hdigit).trans (if_pos hdigit).symm)
    have hatoi : Follows (fun _ => True) atoi .widthDigits .precision :=
      follows_atoi (by decide) (by decide) (fun d hd => if_pos hd) (fun d hd => if_neg hd)
    apply reads_bind ((hatoi.mono fun _ _ => trivial).enter henter)
    exact fun n => reads_pure _ fun d _ => ⟨rfl, rfl⟩
  · subst hstar
    have hstep : step .width (chr '*') = .precision := by decide
    apply reads_arg (cost_star (by decide) (by decide)) (by decide)
    intro a
    apply reads_pure
    exact fun d _ => acts_of_step (by decide) (by decide) (by rw [← hstep]; rfl)
  · apply reads_pure
    rintro d rfl
    exact acts_of_step (by decide) (by decide) ((if_neg hdigit).trans (if_neg hstar))

lemma follows_precisionDigits :
    Follows (fun _ => True) precisionDigits .point .length := by
  apply reads_peek
  intro c _
  split_ifs with hdigit hstar
  · have henter : ∀ d, d = c → scan.Acts .point .precisionDigits d := by
      rintro d rfl
      exact acts_of_step (by decide) (by decide)
        ((if_pos hdigit).trans (if_pos hdigit).symm)
    have hatoi : Follows (fun _ => True) atoi .precisionDigits .length :=
      follows_atoi (by decide) (by decide) (fun d hd => if_pos hd) (fun d hd => if_neg hd)
    exact (hatoi.mono fun _ _ => trivial).enter henter
  · subst hstar
    have hstep : step .point (chr '*') = .length := by decide
    apply reads_arg (cost_star (by decide) (by decide)) (by decide)
    intro a
    apply reads_pure
    exact fun d _ => acts_of_step (by decide) (by decide) (by rw [← hstep]; rfl)
  · apply reads_pure
    rintro d rfl
    exact acts_of_step (by decide) (by decide) ((if_neg hdigit).trans (if_neg hstar))

lemma follows_precisionField (flags : Flags) :
    Follows (fun _ => True) (precisionField flags) .precision .length := by
  apply reads_peek
  intro c _
  split_ifs with hpoint
  · subst hpoint
    apply reads_advance (cost_eq_zero (by decide) (by decide)) (by decide)
    apply reads_bind follows_precisionDigits
    exact fun n => reads_pure _ fun d _ => ⟨rfl, rfl⟩
  · apply reads_pure
    rintro d rfl
    exact acts_of_step (by decide) (by decide) (if_neg hpoint)

lemma follows_lengthTwice (hq : q ≠ .text) (once twice : Flags)
    (hstep : ∀ d, step q d = if d = c then .last else .text) (hc : c ≠ chr '*') :
    Follows (fun _ => True) (lengthTwice c once twice) q .last := by
  apply reads_peek
  intro d _
  split_ifs with hd
  · subst hd
    have hlast : step q d = .last := by rw [hstep, if_pos rfl]
    apply reads_advance (cost_eq_zero (by rw [hlast]; decide) hc)
    · show step q d ≠ .text
      rw [hlast]
      decide
    · apply reads_pure
      exact fun e _ => acts_of_step (by show step q d ≠ .text; rw [hlast]; decide) (by decide)
        (by show step (step q d) e = _; rw [hlast])
  · apply reads_pure
    rintro e rfl
    exact acts_of_step hq (by decide) (by rw [hstep, if_neg hd]; rfl)

lemma follows_lengthField (flags : Flags) :
    Follows (fun _ => True) (lengthField flags) .length .last := by
  apply reads_peek
  intro c _
  split_ifs with hl hh htjz
  · subst hl
    apply reads_advance (cost_eq_zero (by decide) (by decide)) (by decide)
    exact follows_lengthTwice (by decide) _ _ (fun d => rfl) (by decide)
  · subst hh
    apply reads_advance (cost_eq_zero (by decide) (by decide)) (by decide)
    exact follows_lengthTwice (by decide) _ _ (fun d => rfl) (by decide)
  · have hlast : step .length c = .last := by
      show lengthStep c = .last
      unfold lengthStep
      rw [if_neg hl, if_neg hh, if_pos htjz]
    have hc : c ≠ chr '*' := by rcases htjz with rfl | rfl | rfl <;> decide
    apply reads_advance (cost_eq_zero (by rw [hlast]; decide) hc)
    · show step .length c ≠ .text
      rw [hlast]
      decide
    · apply reads_pure
      exact fun e _ => acts_of_step (by show step .length c ≠ .text; rw [hlast]; decide)
        (by decide) (by show step (step .length c) e = _; rw [hlast])
  · apply reads_pure
    rintro d rfl
    refine acts_of_step (by decide) (by decide) ?_
    show lengthStep d = .text
    unfold lengthStep
    rw [if_neg hl, if_neg hh, if_neg htjz]

/-- **The fields of a directive**: the automaton gets to the specifier where they end. -/
theorem follows_directive : Follows (fun _ => True) directive .flags .last :=
  reads_bind follows_flagsField fun flags =>
  reads_bind (follows_widthField flags) fun w =>
  reads_bind (follows_precisionField w.1) fun p =>
  reads_bind (follows_lengthField p.1) fun _ =>
  reads_pure _ fun _ _ => ⟨rfl, rfl⟩

end Fields

/-! ### The parser -/

/-- A character to be sent as it is, or a specifier with its fields and its argument. -/
inductive Item
  | lit (c : Byte)
  | conv (d : Directive) (c : Byte) (w : Word)
  deriving DecidableEq

/-- A directive behind its `%`. -/
def conversion : Read Byte Word Item :=
  Reader.bind directive fun d => lastly takesArg (Item.conv d) Item.lit

lemma ends_conversion : Ends scan .text conversion .flags :=
  ends_bind follows_directive (fun _ => rfl) fun _ => rfl

section Parse

variable {fmt rest f : List Byte} {va va' vs : List Word}

lemma conversion_length {i : Item} (h : conversion fmt va = some (i, rest, va')) :
    rest.length < fmt.length := by
  obtain ⟨u, c, vs, rfl, -⟩ := ends_conversion.ok _ _ _ _ _ h
  rw [List.length_append, List.length_cons]
  omega

/-- The items of a format up to its terminator, and what is left of the object and of the
arguments. -/
def parse (fmt : List Byte) (va : List Word) : Option (List Item × List Byte × List Word) :=
  match fmt with
  | [] => none
  | c :: fmt =>
    if c = 0 then some ([], fmt, va)
    else if c ≠ chr '%' then (parse fmt va).map fun r => (.lit c :: r.1, r.2)
    else
      match _h : conversion fmt va with
      | none => none
      | some (i, rest, va) => (parse rest va).map fun r => (i :: r.1, r.2)
termination_by fmt.length
decreasing_by
  · exact Nat.lt_succ_self _
  · exact (conversion_length _h).trans (Nat.lt_succ_self _)

lemma parse_nil : parse [] va = none := by rw [parse]

lemma parse_stop : parse (0 :: fmt) va = some ([], fmt, va) := by
  rw [parse]
  exact if_pos rfl

lemma parse_lit {c : Byte} (h0 : c ≠ 0) (hc : c ≠ chr '%') :
    parse (c :: fmt) va = (parse fmt va).map fun r => (.lit c :: r.1, r.2) := by
  rw [parse]
  simp only [if_neg h0, if_pos hc]

lemma parse_conv {i : Item} (h : conversion fmt va = some (i, rest, va')) :
    parse (chr '%' :: fmt) va = (parse rest va').map fun r => (i :: r.1, r.2) := by
  rw [parse, if_neg (by decide), if_neg (by simp)]
  split
  · simp_all
  · simp_all

lemma parse_conv_none (h : conversion fmt va = none) : parse (chr '%' :: fmt) va = none := by
  rw [parse, if_neg (by decide), if_neg (by simp)]
  split
  · rfl
  · simp_all

/-- What the parser has read: a format that the automaton ends between two directives, with
its arguments, up to the first terminator there. -/
structure Parsed (fmt : List Byte) (va : List Word) (is : List Item) (rest : List Byte)
    (va' : List Word) (f : List Byte) (vs : List Word) : Prop where
  text : fmt = f ++ 0 :: rest
  args : va = vs ++ va'
  complete : Complete f
  count : slots f = vs.length
  first : ∀ p s, f = p ++ 0 :: s → scan.state .text p ≠ .text
  local_ : ∀ fmt₁ va₁, parse (f ++ fmt₁) (vs ++ va₁) =
    (parse fmt₁ va₁).map fun r => (is ++ r.1, r.2)

lemma parsed_stop : Parsed (0 :: fmt) va [] fmt va [] [] where
  text := rfl
  args := rfl
  complete := rfl
  count := rfl
  first p s h := by simp at h
  local_ fmt₁ va₁ := by simp

lemma Parsed.lit {is : List Item} {c : Byte} (h0 : c ≠ 0) (hc : c ≠ chr '%')
    (h : Parsed fmt va is rest va' f vs) :
    Parsed (c :: fmt) va (.lit c :: is) rest va' (c :: f) vs := by
  have hstep : scan.step .text c = .text := if_neg hc
  refine ⟨?_, h.args, ?_, ?_, ?_, fun fmt₁ va₁ => ?_⟩
  · rw [h.text]
    rfl
  · unfold Complete
    rw [Scan.state_cons, hstep]
    exact h.complete
  · unfold slots
    rw [Scan.total_cons, hstep]
    exact (Nat.zero_add _).trans h.count
  · intro p s hp
    cases p with
    | nil => exact absurd (by simpa using hp : c = 0 ∧ f = s).1 h0
    | cons d p =>
      obtain rfl : c = d := (List.cons.inj hp).1
      rw [Scan.state_cons, hstep]
      exact h.first p s (List.cons.inj hp).2
  · rw [List.cons_append, parse_lit h0 hc, h.local_, Option.map_map]
    rfl

lemma Parsed.conv {is : List Item} {u : List Byte} {c : Byte} {i : Item} {ws : List Word}
    (havoids : Avoids scan .text .flags u) (hstate : scan.state .flags (u ++ [c]) = .text)
    (htotal : scan.total .flags (u ++ [c]) = ws.length)
    (hlocal : ∀ r₁ va₁, conversion (u ++ c :: r₁) (ws ++ va₁) = some (i, r₁, va₁))
    (h : Parsed fmt va is rest va' f vs) :
    Parsed (chr '%' :: (u ++ c :: fmt)) (ws ++ va) (i :: is) rest va'
      (chr '%' :: (u ++ c :: f)) (ws ++ vs) := by
  have hsplit : u ++ c :: f = u ++ [c] ++ f := by simp
  have hstep : scan.step .text (chr '%') = .flags := rfl
  refine ⟨?_, ?_, ?_, ?_, ?_, fun fmt₁ va₁ => ?_⟩
  · simp [h.text]
  · rw [h.args, List.append_assoc]
  · unfold Complete
    rw [Scan.state_cons, hstep, hsplit, Scan.state_append, hstate]
    exact h.complete
  · unfold slots
    rw [Scan.total_cons, hstep, hsplit, Scan.total_append, hstate, htotal, List.length_append,
      ← h.count]
    exact Nat.zero_add _
  · intro p s hp
    cases p with
    | nil => exact absurd (List.cons.inj hp).1 (by decide)
    | cons d p =>
      obtain rfl : chr '%' = d := (List.cons.inj hp).1
      have hp' : u ++ [c] ++ f = p ++ 0 :: s := hsplit ▸ (List.cons.inj hp).2
      rw [Scan.state_cons, hstep]
      -- A zero inside the directive, or behind it.
      have hpre : p <+: u ++ [c] ++ f := by
        rw [hp']
        exact List.prefix_append _ _
      rcases prefix_append_cases hpre with hin | ⟨q, rfl, hq⟩
      · by_cases hfull : p = u ++ [c]
        · subst hfull
          exact absurd rfl (h.first [] s (List.append_cancel_left hp'))
        · have hu : p <+: u := by
            rcases List.prefix_concat_iff.mp hin with h1 | h1
            · exact absurd h1 hfull
            · exact h1
          by_cases h0 : p = []
          · subst h0
            decide
          · exact havoids p h0 hu
      · rw [Scan.state_append, hstate]
        apply h.first q s
        rw [List.append_assoc (u ++ [c])] at hp'
        exact List.append_cancel_left hp'
  · -- Read inside a longer format, the directive is the same.
    have hassoc : chr '%' :: (u ++ c :: f) ++ fmt₁ = chr '%' :: (u ++ c :: (f ++ fmt₁)) := by
      simp
    rw [hassoc, List.append_assoc, parse_conv (hlocal (f ++ fmt₁) (vs ++ va₁)), h.local_,
      Option.map_map]
    rfl

inductive Steps : List Byte → List Word → List Item → List Byte → List Word → Prop
  | stop (fmt : List Byte) (va : List Word) : Steps (0 :: fmt) va [] fmt va
  | lit {c : Byte} {fmt rest : List Byte} {va va' : List Word} {is : List Item} (h0 : c ≠ 0)
      (hc : c ≠ chr '%') (h : Steps fmt va is rest va') :
      Steps (c :: fmt) va (.lit c :: is) rest va'
  | conv {fmt r rest : List Byte} {va va₁ va' : List Word} {i : Item} {is : List Item}
      (hi : conversion fmt va = some (i, r, va₁)) (h : Steps r va₁ is rest va') :
      Steps (chr '%' :: fmt) va (i :: is) rest va'

lemma steps_of_parse {is : List Item} (h : parse fmt va = some (is, rest, va')) :
    Steps fmt va is rest va' := by
  induction hn : fmt.length using Nat.strong_induction_on generalizing fmt va is with
  | _ n ih =>
    cases fmt with
    | nil => simp [parse_nil] at h
    | cons c fmt =>
      rw [List.length_cons] at hn
      by_cases h0 : c = 0
      · subst h0
        rw [parse_stop] at h
        obtain ⟨rfl, rfl, rfl⟩ : [] = is ∧ fmt = rest ∧ va = va' := by simpa using h
        exact .stop fmt va
      · by_cases hc : c = chr '%'
        · subst hc
          cases hi : conversion fmt va with
          | none => rw [parse_conv_none hi] at h; simp at h
          | some x =>
            obtain ⟨i, r, va₁⟩ := x
            rw [parse_conv hi] at h
            obtain ⟨⟨is', rest', va''⟩, h', heq⟩ := Option.map_eq_some_iff.mp h
            obtain ⟨rfl, rfl, rfl⟩ : i :: is' = is ∧ rest' = rest ∧ va'' = va' := by
              simpa using heq
            have hlt := conversion_length hi
            exact .conv hi (ih r.length (by omega) h' rfl)
        · rw [parse_lit h0 hc] at h
          obtain ⟨⟨is', rest', va''⟩, h', heq⟩ := Option.map_eq_some_iff.mp h
          obtain ⟨rfl, rfl, rfl⟩ : .lit c :: is' = is ∧ rest' = rest ∧ va'' = va' := by
            simpa using heq
          exact .lit h0 hc (ih fmt.length (by omega) h' rfl)

/-- **What the parser reads.** -/
theorem parse_ok {is : List Item} (h : parse fmt va = some (is, rest, va')) :
    ∃ f vs, Parsed fmt va is rest va' f vs := by
  have hsteps := steps_of_parse h
  clear h
  induction hsteps with
  | stop fmt va => exact ⟨[], [], parsed_stop⟩
  | lit h0 hc _ ih =>
    obtain ⟨f, vs, hp⟩ := ih
    exact ⟨_, _, hp.lit h0 hc⟩
  | conv hi _ ih =>
    obtain ⟨f, vs, hp⟩ := ih
    obtain ⟨u, d, ws, rfl, rfl, havoids, hstate, htotal, hlocal⟩ := ends_conversion.ok _ _ _ _ _ hi
    exact ⟨_, _, hp.conv havoids hstate htotal hlocal⟩

/-- **Why the parser fails**: either the automaton is inside a directive at every terminator,
or there are too few arguments. -/
theorem parse_fail (h : parse fmt va = none) {f s : List Byte} (hf : fmt = f ++ 0 :: s)
    (hcomplete : Complete f) : va.length < slots f := by
  -- By induction on the format: a literal or a whole directive is taken off its front.
  induction hn : fmt.length using Nat.strong_induction_on generalizing fmt va f with
  | _ n ih =>
    cases f with
    | nil =>
      rw [hf, List.nil_append, parse_stop] at h
      simp at h
    | cons c f =>
      rw [List.cons_append] at hf
      subst hf
      rw [List.length_cons] at hn
      have h0 : c ≠ 0 := by
        rintro rfl
        rw [parse_stop] at h
        simp at h
      unfold Complete at hcomplete
      unfold slots
      by_cases hc : c = chr '%'
      · subst hc
        rw [Scan.state_cons] at hcomplete
        rw [Scan.total_cons]
        have hstep : scan.step .text (chr '%') = .flags := rfl
        have hcost : scan.cost .text (chr '%') = 0 := rfl
        rw [hstep] at hcomplete ⊢
        rw [hcost, Nat.zero_add]
        have hne : f ≠ [] := by
          rintro rfl
          simp at hcomplete
        cases hconv : conversion (f ++ 0 :: s) va with
        | none =>
          -- The directive itself has failed, for want of an argument.
          exact ends_conversion.fail _ _ hconv f hne (List.prefix_append _ _) hcomplete
        | some x =>
          obtain ⟨i, r, va₁⟩ := x
          have hlt := conversion_length hconv
          rw [parse_conv hconv, Option.map_eq_none_iff] at h
          obtain ⟨u, d, ws, htext, rfl, havoids, hstate, htotal, -⟩ :=
            ends_conversion.ok _ _ _ _ _ hconv
          have hsplit : u ++ d :: r = u ++ [d] ++ r := by simp
          rw [hsplit] at htext
          have hpre : f <+: u ++ [d] ++ r := by
            rw [← htext]
            exact List.prefix_append _ _
          -- `f` ends inside the directive, right behind it, or further on.
          rcases prefix_append_cases hpre with hin | ⟨q, rfl, -⟩
          · rcases List.prefix_concat_iff.mp hin with h1 | h1
            · subst h1
              have hr : r = 0 :: s := (List.append_cancel_left htext).symm
              rw [hr, parse_stop] at h
              simp at h
            · exact absurd hcomplete (havoids f hne h1)
          · rw [List.append_assoc (u ++ [d])] at htext
            have hr : q ++ 0 :: s = r := List.append_cancel_left htext
            rw [Scan.state_append, hstate] at hcomplete
            have := ih r.length (by omega) h hr.symm hcomplete rfl
            rw [Scan.total_append, hstate, htotal, List.length_append]
            exact Nat.add_lt_add_left this _
      · rw [parse_lit h0 hc, Option.map_eq_none_iff] at h
        have hstep : scan.step .text c = .text := if_neg hc
        have hcost : scan.cost .text c = 0 := rfl
        rw [Scan.state_cons, hstep] at hcomplete
        rw [Scan.total_cons, hstep, hcost, Nat.zero_add]
        exact ih _ (by omega) h rfl hcomplete rfl

/-- A format without zeros is read up to its terminator, or beyond it. -/
lemma Parsed.eq_of_not_mem {is : List Item} {junk : List Byte} (h0 : 0 ∉ fmt)
    (h : Parsed (fmt ++ 0 :: junk) va is rest va' f vs) (hf : Complete fmt ∨ junk = []) :
    f = fmt ∧ rest = junk := by
  have htext := h.text
  rcases List.append_eq_append_iff.mp htext with ⟨t, hft, ht⟩ | ⟨t, hft, ht⟩
  · cases t with
    | nil =>
      rw [List.append_nil] at hft
      exact ⟨hft, by simpa using ht.symm⟩
    | cons d t =>
      obtain ⟨rfl, ht⟩ := List.cons.inj ht
      rcases hf with hf | rfl
      · exact absurd hf (h.first fmt t hft)
      · simp at ht
  · cases t with
    | nil =>
      rw [List.append_nil] at hft
      exact ⟨hft.symm, by simpa using ht⟩
    | cons d t =>
      obtain ⟨rfl, -⟩ := List.cons.inj ht
      exact absurd (by rw [hft]; simp) h0

/-- **What a format asks for**: it is read without going behind its terminator if and only if
it ends outside its directives and has no fewer arguments than it calls for. -/
theorem parse_isSome_iff (h0 : 0 ∉ fmt) (va : List Word) :
    (parse (fmt ++ [0]) va).isSome ↔ Complete fmt ∧ slots fmt ≤ va.length := by
  constructor
  · intro h
    obtain ⟨⟨is, rest, va'⟩, hr⟩ := Option.isSome_iff_exists.mp h
    obtain ⟨f, vs, hp⟩ := parse_ok hr
    obtain ⟨rfl, -⟩ := hp.eq_of_not_mem h0 (Or.inr rfl)
    refine ⟨hp.complete, ?_⟩
    rw [hp.count, hp.args, List.length_append]
    omega
  · rintro ⟨hc, hs⟩
    by_contra hnone
    have := parse_fail (Option.not_isSome_iff_eq_none.mp hnone) rfl hc
    omega

/-- **Locality**: nothing behind the terminator matters, and a complete format followed by
another one is read as the one after the other. -/
theorem parse_complete (h0 : 0 ∉ fmt) (hc : Complete fmt) (hs : slots fmt ≤ va.length) :
    ∃ is, ∀ fmt₁, parse (fmt ++ fmt₁) va =
      (parse fmt₁ (va.drop (slots fmt))).map fun r => (is ++ r.1, r.2) := by
  obtain ⟨⟨is, rest, va'⟩, hr⟩ :=
    Option.isSome_iff_exists.mp ((parse_isSome_iff h0 va).mpr ⟨hc, hs⟩)
  obtain ⟨f, vs, hp⟩ := parse_ok hr
  obtain ⟨rfl, -⟩ := hp.eq_of_not_mem h0 (Or.inl hc)
  refine ⟨is, fun fmt₁ => ?_⟩
  have hdrop : va.drop (slots f) = va' := by
    rw [hp.count, hp.args]
    exact List.drop_left
  rw [hdrop, hp.args]
  exact hp.local_ fmt₁ va'

lemma slots_append (hc : Complete fmt) (fmt₁ : List Byte) :
    slots (fmt ++ fmt₁) = slots fmt + slots fmt₁ := by
  unfold slots
  rw [Scan.total_append, hc]

/-- A complete format with too few arguments is not read, whatever follows it. -/
lemma parse_short (h0 : 0 ∉ fmt) (hc : Complete fmt) (fmt₁ : List Byte)
    (hs : va.length < slots fmt) : parse (fmt ++ fmt₁) va = none := by
  by_contra hsome
  obtain ⟨⟨is, rest, va'⟩, hr⟩ := Option.ne_none_iff_exists'.mp hsome
  obtain ⟨f, vs, hp⟩ := parse_ok hr
  have hlen : va.length = slots f + va'.length := by rw [hp.args, List.length_append, hp.count]
  rcases List.append_eq_append_iff.mp hp.text with ⟨t, rfl, -⟩ | ⟨t, hft, ht⟩
  · rw [slots_append hc] at hlen
    omega
  · cases t with
    | nil =>
      rw [List.append_nil] at hft
      subst hft
      omega
    | cons d t =>
      obtain ⟨rfl, -⟩ := List.cons.inj ht
      exact h0 (by rw [hft]; simp)

def items (fmt : List Byte) (va : List Word) : List Item :=
  ((parse (fmt ++ [0]) va).map Prod.fst).getD []

/-- What every directive of a format gives holds of its items. -/
theorem forall_mem_parse {P : Item → Prop} (hlit : ∀ c, P (.lit c))
    (hconv : ∀ fmt va i rest va', conversion fmt va = some (i, rest, va') → P i)
    {is : List Item} (h : parse fmt va = some (is, rest, va')) : ∀ i ∈ is, P i := by
  have hsteps := steps_of_parse h
  clear h
  induction hsteps with
  | stop fmt va => exact fun i hi => absurd hi List.not_mem_nil
  | lit h0 hc _ ih =>
    rw [List.forall_mem_cons]
    exact ⟨hlit _, ih⟩
  | conv hi _ ih =>
    rw [List.forall_mem_cons]
    exact ⟨hconv _ _ _ _ _ hi, ih⟩

end Parse

end LibCheckpoint.Format
