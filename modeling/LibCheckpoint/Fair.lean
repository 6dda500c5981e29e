import LibCheckpoint.Interleave
import Mathlib.Data.DFinsupp.WellFounded

/-!
Fair schedules: what must come, however the threads are interleaved.

Threads that spin take steps without getting anywhere, so the number of the steps of a run says
nothing. The rule of this module counts with a rank of the thread that no step raises: as long as
the goal is not reached, some thread is ready to lower its own, and stays so until its turn.
-/

namespace LibCheckpoint.Fair

open LibCheckpoint.Interleave

variable {ι σ τ α ρ : Type*}

/-- Every thread gets its turn again and again. -/
def IsFair (f : ℕ → ι) : Prop := ∀ i n, ∃ m, n ≤ m ∧ f m = i

def first (f : ℕ → ι) (n : ℕ) : List ι := (List.range n).map f

lemma first_add (f : ℕ → ι) (n m : ℕ) : first f (n + m) = first f n ++ first (f <| n + ·) m := by
  simp [first, List.range_add]

lemma IsFair.shift {f : ℕ → ι} (h : IsFair f) (n : ℕ) : IsFair (f <| n + ·) := by
  intro i k
  obtain ⟨m, hm, hi⟩ := h i (n + k)
  obtain ⟨d, rfl⟩ := Nat.exists_eq_add_of_le (show n ≤ m by omega)
  exact ⟨d, by omega, hi⟩

lemma isFair_mod {N : ℕ} [NeZero N] : IsFair fun n => Fin.ofNat N n := by
  intro i n
  refine ⟨i + N * n, ?_, Fin.ext ?_⟩
  · have := Nat.le_mul_of_pos_left n (Nat.pos_of_ne_zero (NeZero.ne N))
    omega
  · simp [Fin.ofNat, Nat.mod_eq_of_lt i.isLt]

variable [DecidableEq ι] (T : Threads σ τ α ρ)

lemma run_first_one (s : St ι σ τ) (f : ℕ → ι) : run T s (first f 1) = next T s (f 0) := rfl

lemma run_first_add (s : St ι σ τ) (f : ℕ → ι) (n m : ℕ) :
    run T s (first f (n + m)) = run T (run T s (first f n)) (first (f <| n + ·) m) := by
  rw [first_add, run_append]

/-- The threads get nearer to a goal: in the states of an invariant no step raises the rank of its
thread; before the goal some thread is `ready`, which it remains while the others spin; and when it
acts, its rank falls, or it is ready still, with a shorter way to go. -/
structure Descent {β : Type*} [Preorder β] (P goal : St ι σ τ → Prop)
    (ready : St ι σ τ → ι → Prop) (rank : τ → β) (way : τ → ℕ) : Prop where
  keep : ∀ s i, P s → P (next T s i)
  le : ∀ s i, P s → rank ((next T s i).loc i) ≤ rank (s.loc i)
  starts : ∀ s, P s → ¬ goal s → ∃ k, ready s k
  acts : ∀ s k, P s → ready s k → rank ((next T s k).loc k) < rank (s.loc k) ∨
    ready (next T s k) k ∧ way ((next T s k).loc k) < way (s.loc k)
  stays : ∀ s i k, P s → i ≠ k → ready s k →
    rank ((next T s i).loc i) < rank (s.loc i) ∨ ready (next T s i) k

def ranks {β : Type*} (rank : τ → β) (s : St ι σ τ) (i : ι) : β := rank (s.loc i)

namespace Descent

variable {β : Type*} [Preorder β] {P goal : St ι σ τ → Prop} {ready : St ι σ τ → ι → Prop}
  {rank : τ → β} {way : τ → ℕ} {T} {s : St ι σ τ} {f : ℕ → ι}

variable (h : Descent T P goal ready rank way)
include h

lemma ranks_next (hs : P s) (i : ι) : ranks rank (next T s i) ≤ ranks rank s := by
  intro j
  by_cases hj : j = i
  · subst hj
    exact h.le s j hs
  · exact le_of_eq (congrArg rank (next_loc_of_ne T s hj))

lemma ranks_lt (hs : P s) {i : ι} (hi : rank ((next T s i).loc i) < rank (s.loc i)) :
    ranks rank (next T s i) < ranks rank s :=
  Pi.lt_def.mpr ⟨h.ranks_next hs i, i, hi⟩

lemma turn_self {k : ι} (hs : P s) (hk : ready s k) :
    ranks rank (next T s k) < ranks rank s ∨
      ready (next T s k) k ∧ way ((next T s k).loc k) < way (s.loc k) ∧
        ranks rank (next T s k) ≤ ranks rank s :=
  (h.acts s k hs hk).imp (h.ranks_lt hs) fun ⟨hr, hw⟩ => ⟨hr, hw, h.ranks_next hs k⟩

lemma keep_run (hs : P s) (w : List ι) : P (run T s w) := run_inv T hs h.keep w

/-- Up to the turn of a ready thread: some rank has fallen, or the thread has gone some way. -/
lemma turn {k : ι} {m : ℕ} (hs : P s) (hk : ready s k) (hm : f m = k) :
    ∃ n, ranks rank (run T s (first f n)) < ranks rank s ∨
      ready (run T s (first f n)) k ∧ way ((run T s (first f n)).loc k) < way (s.loc k) ∧
        ranks rank (run T s (first f n)) ≤ ranks rank s := by
  induction m generalizing s f with
  | zero => exact ⟨1, by rw [run_first_one, hm]; exact h.turn_self hs hk⟩
  | succ m ih =>
    by_cases h0 : f 0 = k
    · exact ⟨1, by rw [run_first_one, h0]; exact h.turn_self hs hk⟩
    · have hle := h.ranks_next hs (f 0)
      rcases h.stays s (f 0) k hs h0 hk with hlt | hk'
      · exact ⟨1, .inl (h.ranks_lt hs hlt)⟩
      · obtain ⟨n, hn⟩ := ih (f := (f <| 1 + ·)) (h.keep s (f 0) hs) hk'
          (by rw [Nat.add_comm]; exact hm)
        have hrun : run T s (first f (1 + n)) =
            run T (next T s (f 0)) (first (f <| 1 + ·) n) := run_first_add T s f 1 n
        refine ⟨1 + n, ?_⟩
        rw [hrun]
        rcases hn with hlt | ⟨hr, hw, hn⟩
        · exact .inl (hlt.trans_le hle)
        · rw [next_loc_of_ne T s (Ne.symm h0)] at hw
          exact .inr ⟨hr, hw, hn.trans hle⟩

lemma falls {k : ι} (hf : IsFair f) (hs : P s) (hk : ready s k) :
    ∃ n, ranks rank (run T s (first f n)) < ranks rank s := by
  induction hd : way (s.loc k) using Nat.strong_induction_on generalizing s f with
  | _ d ih =>
    obtain ⟨m, -, hm⟩ := hf k 0
    obtain ⟨n, hlt | ⟨hr, hw, hn⟩⟩ := h.turn hs hk hm
    · exact ⟨n, hlt⟩
    · obtain ⟨n', hlt⟩ := ih _ (hd ▸ hw) (hf.shift n) (h.keep_run hs _) hr rfl
      exact ⟨n + n', by rw [run_first_add]; exact hlt.trans_le hn⟩

/-- **The rule of fair schedules**: with ranks that cannot fall for ever, every fair schedule
reaches the goal. -/
theorem eventually [Finite ι] [WellFoundedLT β] (hf : IsFair f) (hs : P s) :
    ∃ n, goal (run T s (first f n)) := by
  induction hr : ranks rank s using WellFoundedLT.induction generalizing s f with
  | _ r ih =>
    by_cases hgoal : goal s
    · exact ⟨0, hgoal⟩
    · obtain ⟨k, hk⟩ := h.starts s hs hgoal
      obtain ⟨n, hn⟩ := h.falls hf hs hk
      obtain ⟨n', hn'⟩ := ih _ (hr ▸ hn) (hf.shift n) (h.keep_run hs _) rfl
      exact ⟨n + n', by rw [run_first_add]; exact hn'⟩

end Descent

end LibCheckpoint.Fair
