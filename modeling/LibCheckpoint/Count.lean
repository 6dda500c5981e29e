import Mathlib.Algebra.BigOperators.Fin
import Mathlib.Algebra.Order.BigOperators.Group.Finset
import Mathlib.Data.Fintype.BigOperators

/-!
How many threads satisfy a local predicate, and how that number moves when one thread
changes its state.
-/

namespace LibCheckpoint.Count

open Finset

variable {ι τ : Type*} [Fintype ι]

/-- The number of threads whose local state satisfies `p`. -/
def count (p : τ → Bool) (l : ι → τ) : ℕ := ∑ i, (p (l i)).toNat

lemma count_eq_card (p : τ → Bool) (l : ι → τ) :
    count p l = (univ.filter fun i => p (l i) = true).card := by
  rw [count, card_filter]
  refine sum_congr rfl fun i _ => ?_
  cases p (l i) <;> rfl

lemma count_mono {p q : τ → Bool} {l : ι → τ} (h : ∀ i, p (l i) = true → q (l i) = true) :
    count p l ≤ count q l := by
  refine sum_le_sum fun i _ => ?_
  have := h i
  revert this
  cases p (l i) <;> cases q (l i) <;> simp

lemma count_congr {p q : τ → Bool} {l : ι → τ} (h : ∀ i, p (l i) = q (l i)) :
    count p l = count q l := by
  simp [count, h]

lemma count_le_card (p : τ → Bool) (l : ι → τ) : count p l ≤ Fintype.card ι := by
  rw [count_eq_card]
  exact card_le_univ _

lemma count_pos {p : τ → Bool} {l : ι → τ} {i : ι} (h : p (l i) = true) : 0 < count p l := by
  rw [count_eq_card, card_pos]
  exact ⟨i, by simp [h]⟩

lemma exists_of_count_pos {p : τ → Bool} {l : ι → τ} (h : 0 < count p l) :
    ∃ i, p (l i) = true := by
  rw [count_eq_card, card_pos] at h
  obtain ⟨i, hi⟩ := h
  exact ⟨i, by simpa using hi⟩

lemma count_eq_zero {p : τ → Bool} {l : ι → τ} (h : ∀ i, p (l i) = false) : count p l = 0 := by
  simp [count, h]

lemma count_eq_card_of_all {p : τ → Bool} {l : ι → τ} (h : ∀ i, p (l i) = true) :
    count p l = Fintype.card ι := by
  simp [count, h]

lemma all_of_count_eq_card {p : τ → Bool} {l : ι → τ} (h : count p l = Fintype.card ι) (i : ι) :
    p (l i) = true := by
  rw [count_eq_card, ← card_univ] at h
  have := (card_filter_eq_iff (s := univ) (p := fun i => p (l i) = true)).mp h
  exact this i (mem_univ i)

lemma count_add {p q r : τ → Bool} {l : ι → τ}
    (h : ∀ c, (p c).toNat = (q c).toNat + (r c).toNat) : count p l = count q l + count r l := by
  simp [count, h, sum_add_distrib]

/-- Two threads that both satisfy a predicate that at most one satisfies are the same. -/
lemma eq_of_count_le_one {p : τ → Bool} {l : ι → τ} (h : count p l ≤ 1) {i j : ι}
    (hi : p (l i) = true) (hj : p (l j) = true) : i = j := by
  rw [count_eq_card, card_le_one] at h
  exact h i (by simp [hi]) j (by simp [hj])

variable [DecidableEq ι]

/-- **One thread moves**: the number changes by what that thread contributes. -/
theorem count_update (p : τ → Bool) (l : ι → τ) (i : ι) (c : τ) :
    count p (Function.update l i c) + (p (l i)).toNat = count p l + (p c).toNat := by
  unfold count
  rw [← add_sum_erase univ _ (mem_univ i), ← add_sum_erase univ (fun j => (p (l j)).toNat)
    (mem_univ i)]
  have : ∑ j ∈ univ.erase i, (p (Function.update l i c j)).toNat =
      ∑ j ∈ univ.erase i, (p (l j)).toNat :=
    sum_congr rfl fun j hj => by rw [Function.update_of_ne (ne_of_mem_erase hj)]
  rw [this, Function.update_self]
  omega

end LibCheckpoint.Count
