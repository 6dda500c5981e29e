import Mathlib.Data.List.Basic
import Mathlib.Order.Basic

/-!
Readers of symbols and arguments, and the scans that follow them.

A reader takes symbols off a text and arguments off a list and fails when one of the two runs
out. A scan is an automaton on the symbols that also counts the arguments they call for. The
rules below show, combinator by combinator, that a reader stops where the scan says, takes the
arguments the scan has counted, depends on nothing else, and fails for no other reason.
-/

namespace LibCheckpoint.Reader

abbrev Read (β γ α : Type*) := List β → List γ → Option (α × List β × List γ)

variable {β γ α δ S : Type*}

/-! ### Combinators -/

def pure (a : α) : Read β γ α := fun w va => some (a, w, va)

def bind (m : Read β γ α) (k : α → Read β γ δ) : Read β γ δ := fun w va =>
  (m w va).bind fun r => k r.1 r.2.1 r.2.2

def peek (k : β → Read β γ α) : Read β γ α
  | [], _ => none
  | c :: w, va => k c (c :: w) va

def advance (k : Read β γ α) : Read β γ α
  | [], _ => none
  | _ :: w, va => k w va

def arg (k : γ → Read β γ α) : Read β γ α
  | _, [] => none
  | w, a :: va => k a w va

/-- Steps over symbols as long as they are accepted. -/
def many (f : α → β → Option α) (a : α) : Read β γ α
  | [], _ => none
  | c :: w, va =>
    match f a c with
    | some a => many f a w va
    | none => some (a, c :: w, va)

/-! ### Scans -/

/-- An automaton that counts the arguments its symbols call for. -/
structure Scan (β S : Type*) where
  step : S → β → S
  cost : S → β → ℕ

namespace Scan

variable (T : Scan β S)

def state (q : S) (w : List β) : S := w.foldl T.step q

def total (q : S) : List β → ℕ
  | [] => 0
  | c :: w => T.cost q c + total (T.step q c) w

@[simp] lemma state_nil (q : S) : T.state q [] = q := rfl
@[simp] lemma state_cons (q : S) (c : β) (w : List β) :
    T.state q (c :: w) = T.state (T.step q c) w := rfl
lemma state_append (q : S) (u w : List β) : T.state q (u ++ w) = T.state (T.state q u) w := by
  simp [state, List.foldl_append]

@[simp] lemma total_nil (q : S) : T.total q [] = 0 := rfl
@[simp] lemma total_cons (q : S) (c : β) (w : List β) :
    T.total q (c :: w) = T.cost q c + T.total (T.step q c) w := rfl
lemma total_append (q : S) (u w : List β) :
    T.total q (u ++ w) = T.total q u + T.total (T.state q u) w := by
  induction u generalizing q with
  | nil => simp
  | cons c u ih => simp [ih, Nat.add_assoc]

/-- Two states do the same on a symbol. -/
def Acts (q q' : S) (c : β) : Prop := T.step q c = T.step q' c ∧ T.cost q c = T.cost q' c

variable {T}

lemma Acts.trans {q q' q'' : S} {c : β} (h : T.Acts q q' c) (h' : T.Acts q' q'' c) :
    T.Acts q q'' c := ⟨h.1.trans h'.1, h.2.trans h'.2⟩

lemma Acts.state_cons {q q' : S} {c : β} (h : T.Acts q q' c) (w : List β) :
    T.state q (c :: w) = T.state q' (c :: w) := by
  rw [Scan.state_cons, Scan.state_cons, h.1]

lemma Acts.total_cons {q q' : S} {c : β} (h : T.Acts q q' c) (w : List β) :
    T.total q (c :: w) = T.total q' (c :: w) := by
  rw [Scan.total_cons, Scan.total_cons, h.1, h.2]

end Scan

/-! ### Readers that a scan follows -/

variable (T : Scan β S) (final : S)

/-- The scan does not get to its final state inside a text. -/
def Avoids (q : S) (u : List β) : Prop := ∀ p, p ≠ [] → p <+: u → T.state q p ≠ final

/-- What a reader has read: the symbols and arguments it took, and that it depends on these and
on the next symbol only. -/
structure Took (m : Read β γ α) (q q' : S) (w : List β) (va : List γ) (a : α) (r : List β)
    (va' : List γ) (u : List β) (vs : List γ) : Prop where
  text : w = u ++ r
  args : va = vs ++ va'
  count : T.total q u = vs.length
  avoids : Avoids T final q u
  exit : ∀ c ∈ r.head?, T.Acts (T.state q u) q' c
  local_ : ∀ r₁ va₁, r₁.head? = r.head? → m (u ++ r₁) (vs ++ va₁) = some (a, r₁, va₁)

/-- From a text whose first symbol satisfies `P` the reader takes what the scan takes from `q`
to a state that acts like `q'`; it fails only if no part of the text both ends the scan and
calls for no more arguments than there are. -/
structure Reads (P : β → Prop) (m : Read β γ α) (q q' : S) : Prop where
  ok : ∀ w va a r va', (∀ c ∈ w.head?, P c) → m w va = some (a, r, va') →
    ∃ u vs, Took T final m q q' w va a r va' u vs
  fail : ∀ w va, (∀ c ∈ w.head?, P c) → m w va = none →
    ∀ p, p ≠ [] → p <+: w → T.state q p = final → va.length < T.total q p

variable {T final} {P Q : β → Prop} {q q' q'' : S}

lemma Reads.mono {m : Read β γ α} (h : Reads T final P m q q') (hQ : ∀ c, Q c → P c) :
    Reads T final Q m q q' where
  ok w va a r va' hw := h.ok w va a r va' fun c hc => hQ c (hw c hc)
  fail w va hw := h.fail w va fun c hc => hQ c (hw c hc)

lemma avoids_nil (q : S) : Avoids T final q [] := fun _ hp hpre =>
  absurd (List.prefix_nil.mp hpre) hp

lemma Avoids.enter {q₀ q : S} {u : List β} (h : ∀ c ∈ u.head?, T.Acts q₀ q c)
    (hu : Avoids T final q u) : Avoids T final q₀ u := by
  intro p hp hpre
  obtain ⟨c, p, rfl⟩ := List.exists_cons_of_ne_nil hp
  obtain ⟨t, rfl⟩ := hpre
  rw [(h c rfl).state_cons]
  exact hu _ hp (List.prefix_append _ _)

/-- Where the scan starts does not matter if it does the same on the first symbol. -/
lemma Reads.enter {m : Read β γ α} {q₀ : S} (h : Reads T final P m q q')
    (hacts : ∀ c, P c → T.Acts q₀ q c) : Reads T final P m q₀ q' where
  ok w va a r va' hw hm := by
    obtain ⟨u, vs, ht⟩ := h.ok w va a r va' hw hm
    cases u with
    | nil =>
      refine ⟨[], vs, ht.text, ht.args, ht.count, avoids_nil q₀, fun c hc => ?_, ht.local_⟩
      have hw' : c ∈ w.head? := by rwa [ht.text]
      exact (hacts c (hw c hw')).trans (ht.exit c hc)
    | cons d u =>
      have hd : T.Acts q₀ q d := hacts d (hw d (by rw [ht.text]; rfl))
      refine ⟨d :: u, vs, ht.text, ht.args, ?_, ?_, ?_, ht.local_⟩
      · rw [hd.total_cons, ht.count]
      · apply ht.avoids.enter
        rintro c hc
        obtain rfl : d = c := by simpa using hc
        exact hd
      · rw [hd.state_cons]
        exact ht.exit
  fail w va hw hm p hp hpre hfin := by
    obtain ⟨c, p, rfl⟩ := List.exists_cons_of_ne_nil hp
    have hc : T.Acts q₀ q c := hacts c (hw c (by obtain ⟨t, rfl⟩ := hpre; rfl))
    rw [hc.state_cons] at hfin
    rw [hc.total_cons]
    exact h.fail w va hw hm _ hp hpre hfin

lemma avoids_cons {c : β} {u : List β} (hc : T.step q c ≠ final)
    (hu : Avoids T final (T.step q c) u) : Avoids T final q (c :: u) := by
  intro p hp hpre
  obtain ⟨d, p, rfl⟩ := List.exists_cons_of_ne_nil hp
  obtain ⟨rfl, hpre'⟩ := List.cons_prefix_cons.mp hpre
  by_cases h0 : p = []
  · subst h0
    exact hc
  · exact hu p h0 hpre'

lemma prefix_append_cases {p u r : List β} (h : p <+: u ++ r) :
    p <+: u ∨ ∃ s, p = u ++ s ∧ s <+: r := by
  rcases List.prefix_or_prefix_of_prefix h (List.prefix_append u r) with hp | ⟨s, rfl⟩
  · exact Or.inl hp
  · exact Or.inr ⟨s, rfl, (List.prefix_append_right_inj u).mp h⟩

theorem reads_pure (a : α) (h : ∀ c, P c → T.Acts q q' c) :
    Reads T final P (pure a : Read β γ α) q q' where
  ok w va b r va' hw hm := by
    obtain ⟨rfl, rfl, rfl⟩ : a = b ∧ w = r ∧ va = va' := by simpa [pure] using hm
    exact ⟨[], [], rfl, rfl, rfl, avoids_nil q, fun c hc => h c (hw c hc), fun _ _ _ => rfl⟩
  fail w va _ hm := by simp [pure] at hm

theorem reads_peek {k : β → Read β γ α} (h : ∀ c, P c → Reads T final (· = c) (k c) q q') :
    Reads T final P (peek k) q q' where
  ok w va a r va' hw hm := by
    cases w with
    | nil => simp [peek] at hm
    | cons c w =>
      obtain ⟨u, vs, ht⟩ := (h c (hw c rfl)).ok (c :: w) va a r va' (by simp) hm
      refine ⟨u, vs, ht.text, ht.args, ht.count, ht.avoids, ht.exit, fun r₁ va₁ hr => ?_⟩
      have hhead : ∃ v, u ++ r₁ = c :: v := by
        have htext := ht.text
        cases u with
        | nil =>
          rw [List.nil_append] at htext
          rw [← htext] at hr
          cases r₁ with
          | nil => simp at hr
          | cons d r₁ => exact ⟨r₁, by simpa using hr⟩
        | cons d u => exact ⟨u ++ r₁, by simp_all⟩
      obtain ⟨v, hv⟩ := hhead
      have := ht.local_ r₁ va₁ hr
      rw [hv] at this ⊢
      exact this
  fail w va hw hm p hp hpre hfin := by
    cases w with
    | nil => exact absurd (List.prefix_nil.mp hpre) hp
    | cons c w => exact (h c (hw c rfl)).fail (c :: w) va (by simp) hm p hp hpre hfin

theorem reads_advance {k : Read β γ α} {c : β} (hcost : T.cost q c = 0)
    (hc : T.step q c ≠ final) (h : Reads T final (fun _ => True) k (T.step q c) q') :
    Reads T final (· = c) (advance k) q q' where
  ok w va a r va' hw hm := by
    cases w with
    | nil => simp [advance] at hm
    | cons d w =>
      obtain rfl := hw d rfl
      obtain ⟨u, vs, ht⟩ := h.ok w va a r va' (fun _ _ => trivial) hm
      refine ⟨d :: u, vs, by rw [ht.text]; rfl, ht.args, ?_, avoids_cons hc ht.avoids, ht.exit,
        ht.local_⟩
      rw [Scan.total_cons, hcost, ht.count, Nat.zero_add]
  fail w va hw hm p hp hpre hfin := by
    cases w with
    | nil => exact absurd (List.prefix_nil.mp hpre) hp
    | cons d w =>
      obtain rfl := hw d rfl
      obtain ⟨e, p, rfl⟩ := List.exists_cons_of_ne_nil hp
      obtain ⟨rfl, hpre'⟩ := List.cons_prefix_cons.mp hpre
      have h0 : p ≠ [] := by
        rintro rfl
        exact hc hfin
      have := h.fail w va (fun _ _ => trivial) hm p h0 hpre' hfin
      rw [Scan.total_cons, hcost]
      omega

/-- A symbol that calls for an argument. -/
theorem reads_arg {k : γ → Read β γ α} {c : β} (hcost : T.cost q c = 1)
    (hc : T.step q c ≠ final) (h : ∀ a, Reads T final (fun _ => True) (k a) (T.step q c) q') :
    Reads T final (· = c) (arg fun a => advance (k a)) q q' where
  ok w va a r va' hw hm := by
    cases va with
    | nil => simp [arg] at hm
    | cons b va =>
      cases w with
      | nil => simp [arg, advance] at hm
      | cons d w =>
        obtain rfl := hw d rfl
        obtain ⟨u, vs, ht⟩ := (h b).ok w va a r va' (fun _ _ => trivial) hm
        refine ⟨d :: u, b :: vs, by rw [ht.text]; rfl, by rw [ht.args]; rfl, ?_,
          avoids_cons hc ht.avoids, ht.exit, ht.local_⟩
        rw [Scan.total_cons, hcost, ht.count, List.length_cons, Nat.add_comm]
  fail w va hw hm p hp hpre hfin := by
    cases w with
    | nil => exact absurd (List.prefix_nil.mp hpre) hp
    | cons d w =>
      obtain rfl := hw d rfl
      obtain ⟨e, p, rfl⟩ := List.exists_cons_of_ne_nil hp
      obtain ⟨rfl, hpre'⟩ := List.cons_prefix_cons.mp hpre
      rw [Scan.total_cons, hcost]
      -- Without an argument it fails at once, and the symbol has called for one.
      cases va with
      | nil => exact Nat.lt_add_right _ Nat.one_pos
      | cons b va =>
        have h0 : p ≠ [] := by
          rintro rfl
          exact hc hfin
        have := (h b).fail w va (fun _ _ => trivial) hm p h0 hpre' hfin
        rw [List.length_cons]
        omega

/-- The reader goes on where the scan is. -/
theorem reads_bind {m : Read β γ α} {k : α → Read β γ δ} (hm : Reads T final P m q q')
    (hk : ∀ a, Reads T final (fun _ => True) (k a) q' q'') :
    Reads T final P (bind m k) q q'' where
  ok w va b r va' hw h := by
    obtain ⟨⟨a, r₁, va₁⟩, h₁, h₂⟩ := Option.bind_eq_some_iff.mp h
    obtain ⟨u, vs, ht⟩ := hm.ok w va a r₁ va₁ hw h₁
    obtain ⟨u', vs', ht'⟩ := (hk a).ok r₁ va₁ b r va' (fun _ _ => trivial) h₂
    have hlocal : ∀ r₂ va₂, r₂.head? = r.head? →
        bind m k (u ++ u' ++ r₂) (vs ++ vs' ++ va₂) = some (b, r₂, va₂) := by
      intro r₂ va₂ hr
      have hhead : (u' ++ r₂).head? = r₁.head? := by
        rw [ht'.text, List.head?_append, List.head?_append, hr]
      have := ht.local_ (u' ++ r₂) (vs' ++ va₂) hhead
      simp only [bind, List.append_assoc, this, Option.bind_some]
      exact ht'.local_ r₂ va₂ hr
    have htext : w = u ++ u' ++ r := by rw [ht.text, ht'.text, List.append_assoc]
    have hargs : va = vs ++ vs' ++ va' := by rw [ht.args, ht'.args, List.append_assoc]
    -- A second reader that takes no symbol ends where the first one has ended.
    cases u' with
    | nil =>
      rw [List.append_nil] at hlocal htext
      have hr : r₁ = r := by simpa using ht'.text
      have hvs : vs' = [] := List.length_eq_zero_iff.mp ht'.count.symm
      subst hvs
      rw [List.append_nil] at hlocal hargs
      refine ⟨u, vs, htext, hargs, ht.count, ht.avoids, fun c hc => ?_, hlocal⟩
      exact (ht.exit c (hr ▸ hc)).trans (ht'.exit c hc)
    | cons c u' =>
      -- Else the scan does the same on its first symbol as in the state it is entered with.
      have hacts : T.Acts (T.state q u) q' c := ht.exit c (by rw [ht'.text]; rfl)
      refine ⟨u ++ c :: u', vs ++ vs', htext, hargs, ?_, ?_, ?_, hlocal⟩
      · rw [Scan.total_append, ht.count, hacts.total_cons, ht'.count, List.length_append]
      · intro p hp hpre
        rcases prefix_append_cases hpre with h | ⟨s, rfl, hs⟩
        · exact ht.avoids p hp h
        · by_cases h0 : s = []
          · subst h0
            rw [List.append_nil] at hp ⊢
            exact ht.avoids u hp (List.prefix_refl u)
          · obtain ⟨d, s, rfl⟩ := List.exists_cons_of_ne_nil h0
            obtain ⟨rfl, -⟩ := List.cons_prefix_cons.mp hs
            rw [Scan.state_append, hacts.state_cons]
            exact ht'.avoids _ h0 hs
      · intro d hd
        rw [Scan.state_append, hacts.state_cons]
        exact ht'.exit d hd
  fail w va hw h p hp hpre hfin := by
    cases hr : m w va with
    | none => exact hm.fail w va hw hr p hp hpre hfin
    | some x =>
      obtain ⟨a, r₁, va₁⟩ := x
      obtain ⟨u, vs, ht⟩ := hm.ok w va a r₁ va₁ hw hr
      have hk' : k a r₁ va₁ = none := by simpa [bind, hr] using h
      rw [ht.text] at hpre
      rcases prefix_append_cases hpre with hu | ⟨s, rfl, hs⟩
      · exact absurd hfin (ht.avoids p hp hu)
      · have h0 : s ≠ [] := by
          rintro rfl
          rw [List.append_nil] at hp hfin
          exact ht.avoids u hp (List.prefix_refl u) hfin
        obtain ⟨c, s, rfl⟩ := List.exists_cons_of_ne_nil h0
        have hc : c ∈ r₁.head? := by
          obtain ⟨t, rfl⟩ := hs
          rfl
        have hacts := ht.exit c hc
        rw [Scan.state_append, hacts.state_cons] at hfin
        have := (hk a).fail r₁ va₁ (fun _ _ => trivial) hk' _ h0 hs hfin
        rw [Scan.total_append, ht.count, hacts.total_cons, ht.args, List.length_append]
        omega

/-- A loop in which the scan stays where it is. -/
theorem reads_many {f : α → β → Option α} (hq : q ≠ final)
    (hstep : ∀ a c a', f a c = some a' → T.step q c = q ∧ T.cost q c = 0)
    (hexit : ∀ a c, f a c = none → T.Acts q q' c) (a : α) :
    Reads T final (fun _ => True) (many f a : Read β γ α) q q' where
  ok w va b r va' _ hm := by
    induction w generalizing a with
    | nil => simp [many] at hm
    | cons c w ih =>
      cases hf : f a c with
      | none =>
        have hmany : ∀ w va, (many f a : Read β γ α) (c :: w) va = some (a, c :: w, va) := by
          simp [many, hf]
        rw [hmany] at hm
        obtain ⟨rfl, rfl, rfl⟩ : a = b ∧ c :: w = r ∧ va = va' := by simpa using hm
        -- The loop ends, and the symbol is left to what follows it.
        refine ⟨[], [], rfl, rfl, rfl, avoids_nil q, ?_, ?_⟩
        · rintro d hd
          obtain rfl : c = d := by simpa using hd
          exact hexit a c hf
        · intro r₁ va₁ hr
          cases r₁ with
          | nil => simp at hr
          | cons d r₁ =>
            obtain rfl : d = c := by simpa using hr
            exact hmany r₁ va₁
      | some a' =>
        have hmany : ∀ w va, (many f a : Read β γ α) (c :: w) va = many f a' w va := by
          simp [many, hf]
        obtain ⟨hs, hcost⟩ := hstep a c a' hf
        rw [hmany] at hm
        -- The loop goes on, and the scan stays in its state.
        obtain ⟨u, vs, ht⟩ := ih a' (fun _ _ => trivial) hm
        refine ⟨c :: u, vs, by rw [ht.text]; rfl, ht.args, ?_, ?_, ?_, ?_⟩
        · rw [Scan.total_cons, hcost, hs, ht.count, Nat.zero_add]
        · apply avoids_cons
          · rw [hs]
            exact hq
          · rw [hs]
            exact ht.avoids
        · intro d hd
          rw [Scan.state_cons, hs]
          exact ht.exit d hd
        · intro r₁ va₁ hr
          rw [List.cons_append, hmany]
          exact ht.local_ r₁ va₁ hr
  fail w va _ hm p hp hpre hfin := by
    induction w generalizing a p with
    | nil => exact absurd (List.prefix_nil.mp hpre) hp
    | cons c w ih =>
      cases hf : f a c with
      | none => simp [many, hf] at hm
      | some a' =>
        obtain ⟨hs, hcost⟩ := hstep a c a' hf
        have hm' : (many f a' : Read β γ α) w va = none := by simpa [many, hf] using hm
        obtain ⟨d, p, rfl⟩ := List.exists_cons_of_ne_nil hp
        obtain ⟨rfl, hpre'⟩ := List.cons_prefix_cons.mp hpre
        rw [Scan.state_cons, hs] at hfin
        have h0 : p ≠ [] := by
          rintro rfl
          exact hq hfin
        have := ih a' (fun _ _ => trivial) hm' p h0 hpre' hfin
        rw [Scan.total_cons, hs]
        omega

/-! ### What a reader returns -/

/-- Every result of the reader satisfies `R`. -/
def Returns (m : Read β γ α) (R : α → Prop) : Prop :=
  ∀ w va a r va', m w va = some (a, r, va') → R a

lemma returns_true (m : Read β γ α) : Returns m fun _ => True := fun _ _ _ _ _ _ => trivial

lemma returns_pure {a : α} {R : α → Prop} (h : R a) : Returns (pure a : Read β γ α) R := by
  intro w va b r va' hm
  obtain ⟨rfl, -, -⟩ : a = b ∧ w = r ∧ va = va' := by simpa [pure] using hm
  exact h

lemma returns_bind {m : Read β γ α} {k : α → Read β γ δ} {R : α → Prop} {R' : δ → Prop}
    (hm : Returns m R) (hk : ∀ a, R a → Returns (k a) R') : Returns (bind m k) R' := by
  intro w va b r va' h
  obtain ⟨⟨a, r₁, va₁⟩, h₁, h₂⟩ := Option.bind_eq_some_iff.mp h
  exact hk a (hm _ _ _ _ _ h₁) _ _ _ _ _ h₂

lemma returns_peek {k : β → Read β γ α} {R : α → Prop} (h : ∀ c, Returns (k c) R) :
    Returns (peek k) R := by
  intro w va a r va' hm
  cases w with
  | nil => simp [peek] at hm
  | cons c w => exact h c _ _ _ _ _ hm

lemma returns_advance {k : Read β γ α} {R : α → Prop} (h : Returns k R) :
    Returns (advance k) R := by
  intro w va a r va' hm
  cases w with
  | nil => simp [advance] at hm
  | cons c w => exact h _ _ _ _ _ hm

/-! ### The last symbol -/

/-- A reader that stops right behind the symbol with which the scan gets to its final state. -/
structure Ends (T : Scan β S) (final : S) (m : Read β γ α) (q : S) : Prop where
  ok : ∀ w va a r va', m w va = some (a, r, va') → ∃ u c vs, w = u ++ c :: r ∧ va = vs ++ va' ∧
    Avoids T final q u ∧ T.state q (u ++ [c]) = final ∧ T.total q (u ++ [c]) = vs.length ∧
    ∀ r₁ va₁, m (u ++ c :: r₁) (vs ++ va₁) = some (a, r₁, va₁)
  fail : ∀ w va, m w va = none → ∀ p, p ≠ [] → p <+: w → T.state q p = final →
    va.length < T.total q p

/-- The last symbol, with an argument if it takes one. -/
def lastly (takes : β → Bool) (f : β → γ → α) (g : β → α) : Read β γ α := peek fun c =>
  if takes c then arg fun a => advance (pure (f c a)) else advance (pure (g c))

lemma lastly_ok {takes : β → Bool} {f : β → γ → α} {g : β → α} {w r : List β} {va va' : List γ}
    {a : α} (h : lastly takes f g w va = some (a, r, va')) : ∃ c vs, w = c :: r ∧ va = vs ++ va' ∧
      (takes c).toNat = vs.length ∧
      ∀ r₁ va₁, lastly takes f g (c :: r₁) (vs ++ va₁) = some (a, r₁, va₁) := by
  cases w with
  | nil => simp [lastly, peek] at h
  | cons c w =>
    cases htakes : takes c with
    | false =>
      simp only [lastly, peek, htakes, Bool.false_eq_true, if_false, advance, pure,
        Option.some_inj, Prod.mk.injEq] at h
      obtain ⟨rfl, rfl, rfl⟩ := h
      exact ⟨c, [], rfl, rfl, by rw [htakes]; rfl,
        fun r₁ va₁ => by simp [lastly, peek, htakes, advance, pure]⟩
    | true =>
      cases va with
      | nil => simp [lastly, peek, htakes, arg] at h
      | cons b va =>
        simp only [lastly, peek, htakes, if_true, arg, advance, pure, Option.some_inj,
          Prod.mk.injEq] at h
        obtain ⟨rfl, rfl, rfl⟩ := h
        exact ⟨c, [b], rfl, rfl, by rw [htakes]; rfl,
          fun r₁ va₁ => by simp [lastly, peek, htakes, arg, advance, pure]⟩

lemma lastly_fail {takes : β → Bool} {f : β → γ → α} {g : β → α} {c : β} {w : List β}
    {va : List γ} (h : lastly takes f g (c :: w) va = none) : va.length < (takes c).toNat := by
  cases htakes : takes c with
  | false => simp [lastly, peek, htakes, advance, pure] at h
  | true =>
    cases va with
    | nil => exact Nat.one_pos
    | cons b va => simp [lastly, peek, htakes, arg, advance, pure] at h

theorem ends_bind {m : Read β γ δ} {takes : β → Bool} {f : δ → β → γ → α} {g : δ → β → α}
    (hm : Reads T final (fun _ => True) m q q') (hstep : ∀ c, T.step q' c = final)
    (hcost : ∀ c, T.cost q' c = (takes c).toNat) :
    Ends T final (bind m fun d => lastly takes (f d) (g d)) q where
  ok w va a r va' h := by
    obtain ⟨⟨d, r₁, va₁⟩, h₁, h₂⟩ := Option.bind_eq_some_iff.mp h
    obtain ⟨u, vs, ht⟩ := hm.ok w va d r₁ va₁ (fun _ _ => trivial) h₁
    have hend : lastly takes (f d) (g d) r₁ va₁ = some (a, r, va') := h₂
    obtain ⟨c, vs', rfl, rfl, hlen, hlast⟩ := lastly_ok hend
    have hacts : T.Acts (T.state q u) q' c := ht.exit c rfl
    -- The first reader stops before `c`, which the scan then takes to its final state.
    refine ⟨u, c, vs ++ vs', ht.text, by rw [ht.args, List.append_assoc], ht.avoids, ?_, ?_, ?_⟩
    · rw [Scan.state_append, hacts.state_cons, Scan.state_cons, hstep]
      rfl
    · rw [Scan.total_append, ht.count, hacts.total_cons, Scan.total_cons, hcost, hlen,
        List.length_append]
      rfl
    · intro r₂ va₂
      have := ht.local_ (c :: r₂) (vs' ++ va₂) rfl
      simp only [bind, List.append_assoc, this, Option.bind_some]
      exact hlast r₂ va₂
  fail w va h p hp hpre hfin := by
    cases hr : m w va with
    | none => exact hm.fail w va (fun _ _ => trivial) hr p hp hpre hfin
    | some x =>
      obtain ⟨d, r₁, va₁⟩ := x
      obtain ⟨u, vs, ht⟩ := hm.ok w va d r₁ va₁ (fun _ _ => trivial) hr
      rw [ht.text] at hpre
      rcases prefix_append_cases hpre with hu | ⟨s, rfl, hs⟩
      · exact absurd hfin (ht.avoids p hp hu)
      · have h0 : s ≠ [] := by
          rintro rfl
          rw [List.append_nil] at hp hfin
          exact ht.avoids u hp (List.prefix_refl u) hfin
        obtain ⟨c, s, rfl⟩ := List.exists_cons_of_ne_nil h0
        obtain ⟨t, rfl⟩ := hs
        have hacts := ht.exit c rfl
        -- There is a symbol, so it is the argument that is missing.
        have hshort : va₁.length < (takes c).toNat :=
          lastly_fail (f := f d) (g := g d) (w := s ++ t) (by simpa [bind, hr] using h)
        rw [Scan.total_append, ht.count, hacts.total_cons, Scan.total_cons, hcost, ht.args,
          List.length_append]
        omega

end LibCheckpoint.Reader
