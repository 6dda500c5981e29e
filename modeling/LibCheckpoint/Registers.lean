import Mathlib.Data.List.Induction

/-!
Writes of registers, in the order of a list.

What a write does to the registers is arbitrary: it may change others than the written one, and
it may drop a part of the value. A list of writes is followed through in terms of a state that
the registers show.
-/

namespace LibCheckpoint.Registers

variable {S T R W : Type*} (write : S → R → W → S) (val : R → W)

/-- The writes of the registers of a list, with given values. -/
def writes (rs : List R) (s : S) : S := rs.foldl (fun s r => write s r (val r)) s

@[simp] lemma writes_nil (s : S) : writes write val [] s = s := rfl
@[simp] lemma writes_cons (r : R) (rs : List R) (s : S) :
    writes write val (r :: rs) s = writes write val rs (write s r (val r)) := rfl
lemma writes_append (rs qs : List R) (s : S) :
    writes write val (rs ++ qs) s = writes write val qs (writes write val rs s) := by
  simp [writes, List.foldl_append]

variable {write val}

/-- **The simulation rule**: when the state of one machine shows that of another before and after
each write of a list, it does after all of them. -/
theorem writes_shows {write' : T → R → W → T} {P : S → T → Prop} {rs : List R}
    (h : ∀ r ∈ rs, ∀ s t, P s t → P (write s r (val r)) (write' t r (val r)))
    {s : S} {t : T} (hs : P s t) : P (writes write val rs s) (writes write' val rs t) := by
  induction rs generalizing s t with
  | nil => exact hs
  | cons r rs ih =>
    exact ih (fun q hq => h q (List.mem_cons_of_mem r hq)) (h r List.mem_cons_self s t hs)

lemma writes_keep {β : Type*} {K : S → β} {rs : List R}
    (h : ∀ r ∈ rs, ∀ s, K (write s r (val r)) = K s) (s : S) : K (writes write val rs s) = K s := by
  induction rs generalizing s with
  | nil => rfl
  | cons r rs ih =>
    rw [writes_cons, ih fun q hq => h q (List.mem_cons_of_mem r hq)]
    exact h r List.mem_cons_self s

lemma writes_filter {p : R → Bool} (h : ∀ r s, p r = false → write s r (val r) = s) (rs : List R)
    (s : S) : writes write val rs s = writes write val (rs.filter p) s := by
  induction rs generalizing s with
  | nil => rfl
  | cons r rs ih =>
    cases hp : p r with
    | true => rw [List.filter_cons_of_pos hp, writes_cons, writes_cons, ih]
    | false => rw [List.filter_cons_of_neg (by simp [hp]), writes_cons, h r s hp, ih]

/-- **A register of a list** has its value after the writes, if it takes it and the writes of the
others leave it alone. -/
theorem writes_get {write : (R → W) → R → W → R → W} {x : R} {rs : List R} (hx : x ∈ rs)
    (hself : ∀ f, write f x (val x) x = val x)
    (hother : ∀ r ∈ rs, r ≠ x → ∀ f, write f r (val r) x = f x) (f : R → W) :
    writes write val rs f x = val x := by
  induction rs using List.reverseRecOn with
  | nil => cases hx
  | append_singleton rs r ih =>
    rw [writes_append, writes_cons, writes_nil]
    by_cases hr : r = x
    · subst hr
      exact hself _
    · rw [hother r (by simp) hr]
      refine ih ?_ fun q hq => hother q (List.mem_append_left _ hq)
      rcases List.mem_append.mp hx with h | h
      · exact h
      · exact absurd (List.mem_singleton.mp h).symm hr

end LibCheckpoint.Registers
