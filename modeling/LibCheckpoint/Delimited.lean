import Mathlib.Data.List.Flatten
import Mathlib.Data.List.Nodup

/-!
Texts that tell what they were printed from, whatever stands behind them.
-/

namespace LibCheckpoint.Delimited

variable {α β γ δ ι : Type*}

/-- Two texts that begin alike, whatever follows, end together, and are printed from values that
are related by `R`. -/
def Tells (f : α → List β) (R : α → α → Prop) : Prop :=
  ∀ ⦃a b : α⦄ ⦃s t : List β⦄, f a ++ s = f b ++ t → R a b ∧ s = t

variable {f g : α → List β} {R S : α → α → Prop}

lemma Tells.mono (h : Tells f R) (hRS : ∀ a b, R a b → S a b) : Tells f S := fun a b _ _ heq =>
  ⟨hRS a b (h heq).1, (h heq).2⟩

lemma Tells.comp (h : Tells f R) (v : δ → α) :
    Tells (fun x => f (v x)) fun x y => R (v x) (v y) := fun _ _ _ _ heq => h heq

/-! ### One text -/

lemma tells_const (cs : List β) : Tells (fun _ : α => cs) fun _ _ => True :=
  fun _ _ _ _ heq => ⟨trivial, List.append_cancel_left heq⟩

lemma tells_of_length (hlen : ∀ a b, (f a).length = (f b).length)
    (hR : ∀ a b, f a = f b → R a b) : Tells f R := by
  intro a b s t heq
  obtain ⟨hf, hst⟩ := List.append_inj heq (hlen a b)
  exact ⟨hR a b hf, hst⟩

lemma tells_of_stop {stop : β} (hstop : ∀ a, stop ∉ f a) (hR : ∀ a b, f a = f b → R a b) :
    Tells (fun a => f a ++ [stop]) R := by
  have hcut : ∀ u v s t : List β, stop ∉ u → stop ∉ v → u ++ [stop] ++ s = v ++ [stop] ++ t →
      u = v ∧ s = t := by
    intro u
    induction u with
    | nil =>
      intro v s t _ hv heq
      cases v with
      | nil => exact ⟨rfl, by simpa using heq⟩
      | cons d v =>
        have hd : stop = d := by simpa using congrArg List.head? heq
        exact absurd (hd ▸ List.mem_cons_self) hv
    | cons c u ih =>
      intro v s t hu hv heq
      cases v with
      | nil =>
        have hc : c = stop := by simpa using congrArg List.head? heq
        exact absurd (hc ▸ List.mem_cons_self) hu
      | cons d v =>
        obtain ⟨rfl, htail⟩ : c = d ∧ u ++ [stop] ++ s = v ++ [stop] ++ t := by simpa using heq
        obtain ⟨rfl, hst⟩ := ih v s t (fun h => hu (List.mem_cons_of_mem _ h))
          (fun h => hv (List.mem_cons_of_mem _ h)) htail
        exact ⟨rfl, hst⟩
  intro a b s t heq
  obtain ⟨hf, hst⟩ := hcut _ _ s t (hstop a) (hstop b) heq
  exact ⟨hR a b hf, hst⟩

/-! ### One text behind another -/

lemma Tells.append (hf : Tells f R) (hg : Tells g S) :
    Tells (fun a => f a ++ g a) fun a b => R a b ∧ S a b := by
  intro a b s t heq
  rw [List.append_assoc, List.append_assoc] at heq
  obtain ⟨hR, hrest⟩ := hf heq
  obtain ⟨hS, hst⟩ := hg hrest
  exact ⟨⟨hR, hS⟩, hst⟩

lemma Tells.after (hf : Tells f R) (cs : List β) : Tells (fun a => cs ++ f a) R :=
  ((tells_const cs).append hf).mono fun _ _ h => h.2

lemma Tells.before (hf : Tells f R) (cs : List β) : Tells (fun a => f a ++ cs) R :=
  (hf.append (tells_const cs)).mono fun _ _ h => h.1

/-- A text whose end shows by what is the same behind it for all values. -/
lemma Tells.append_after {cs : List β} (hf : Tells (fun a => f a ++ cs) R) (hg : Tells g S) :
    Tells (fun a => f a ++ (cs ++ g a)) fun a b => R a b ∧ S a b := by
  simpa only [List.append_assoc] using hf.append hg

lemma tells_flatMap {f : ι → α → List β} {R : ι → α → α → Prop} {l : List ι}
    (h : ∀ i ∈ l, Tells (f i) (R i)) :
    Tells (fun a => l.flatMap fun i => f i a) fun a b => ∀ i ∈ l, R i a b := by
  induction l with
  | nil => exact fun a b s t heq => ⟨by simp, heq⟩
  | cons i l ih =>
    have hi := h i List.mem_cons_self
    have hl := ih fun j hj => h j (List.mem_cons_of_mem _ hj)
    simp only [List.flatMap_cons, List.forall_mem_cons]
    exact hi.append hl

/-! ### A list that leaves lines out -/

section Sparse

variable {z : γ} {v : ι → α → γ} {line : ι → γ → List β} {close : List β} {l l' : List ι}

/-- Each line begins with what tells its index, its value and where it ends, and with something
else than what stands behind the list. -/
structure Distinct (line : ι → γ → List β) (close : List β) (l : List ι) : Prop where
  eq : ∀ i ∈ l, ∀ j ∈ l, ∀ x y s t, line i x ++ s = line j y ++ t → i = j ∧ x = y ∧ s = t
  ne : ∀ i ∈ l, ∀ x s t, line i x ++ s ≠ close ++ t

lemma Distinct.mono (h : Distinct line close l) (hsub : l' ⊆ l) : Distinct line close l' where
  eq i hi j hj := h.eq i (hsub hi) j (hsub hj)
  ne i hi := h.ne i (hsub hi)

variable [DecidableEq γ]

/-- The lines of the indices whose value is not `z`. -/
def lines (z : γ) (v : ι → α → γ) (line : ι → γ → List β) (l : List ι) (a : α) : List β :=
  l.flatMap fun i => if v i a ≠ z then line i (v i a) else []

/-- Lines that begin with the line of an index are not those of a list without it. -/
lemma Distinct.lines_ne {i : ι} (h : Distinct line close (i :: l)) (hi : i ∉ l)
    (x : γ) (s t : List β) (a : α) : line i x ++ s ≠ lines z v line l a ++ close ++ t := by
  induction l with
  | nil => exact h.ne i List.mem_cons_self x s t
  | cons j l ih =>
    have hij : i ≠ j := fun heq => hi (heq ▸ List.mem_cons_self)
    unfold lines at ih ⊢
    rw [List.flatMap_cons]
    split_ifs with hj
    · rw [List.append_assoc, List.append_assoc]
      exact fun heq => hij (h.eq i List.mem_cons_self j (by simp) x _ s _ heq).1
    · exact ih (h.mono (List.cons_subset_cons i (List.subset_cons_self j l)))
        fun hmem => hi (List.mem_cons_of_mem _ hmem)

/-- **A list that leaves lines out tells all its values**: an index without a line has the value
`z`. -/
theorem tells_lines (hl : l.Nodup) (h : Distinct line close l) :
    Tells (fun a => lines z v line l a ++ close) fun a b => ∀ i ∈ l, v i a = v i b := by
  induction l with
  | nil =>
    intro a b s t heq
    exact ⟨by simp, List.append_cancel_left heq⟩
  | cons i l ih =>
    obtain ⟨hi, hl⟩ := List.nodup_cons.mp hl
    intro a b s t heq
    have hcons : ∀ a, lines z v line (i :: l) a =
        (if v i a ≠ z then line i (v i a) else []) ++ lines z v line l a := fun a =>
      List.flatMap_cons ..
    simp only [hcons] at heq
    by_cases ha : v i a = z <;> by_cases hb : v i b = z
    · simp only [ha, hb, ne_eq, not_true_eq_false, if_false, List.nil_append] at heq
      obtain ⟨hrest, hst⟩ := ih hl (h.mono (List.subset_cons_self i l)) heq
      exact ⟨List.forall_mem_cons.mpr ⟨ha.trans hb.symm, hrest⟩, hst⟩
    · simp only [ha, hb, ne_eq, not_true_eq_false, not_false_eq_true, if_false, if_true,
        List.nil_append, List.append_assoc] at heq
      rw [← List.append_assoc] at heq
      exact absurd heq.symm (h.lines_ne hi _ _ _ a)
    · simp only [ha, hb, ne_eq, not_true_eq_false, not_false_eq_true, if_false, if_true,
        List.nil_append, List.append_assoc] at heq
      rw [← List.append_assoc (lines z v line l b)] at heq
      exact absurd heq (h.lines_ne hi _ _ _ b)
    · simp only [ha, hb, ne_eq, not_false_eq_true, if_true, List.append_assoc] at heq
      obtain ⟨-, hv, hrest⟩ := h.eq i List.mem_cons_self i List.mem_cons_self _ _ _ _ heq
      rw [← List.append_assoc, ← List.append_assoc] at hrest
      obtain ⟨htail, hst⟩ := ih hl (h.mono (List.subset_cons_self i l)) hrest
      exact ⟨List.forall_mem_cons.mpr ⟨hv, htail⟩, hst⟩

end Sparse

end LibCheckpoint.Delimited
