import Mathlib.Logic.Function.Basic
import Mathlib.Logic.Function.Iterate
import Mathlib.Data.List.Induction

/-!
Threads that share one store, interleaved one atomic action at a time.

A thread is an automaton: it announces an action, the store performs the action and
answers, and the thread resumes with the answer. A schedule is the list of the threads in
the order in which they act, so the reachable states are the runs of the schedules.
-/

namespace LibCheckpoint.Interleave

/-- The automaton of a thread and the store it acts on. -/
structure Threads (σ τ α ρ : Type*) where
  act : τ → α
  perform : α → σ → σ × ρ
  resume : τ → ρ → τ

/-- The store, and the local state of every thread. -/
structure St (ι σ τ : Type*) where
  mem : σ
  loc : ι → τ

variable {ι σ τ α ρ : Type*} [DecidableEq ι] (T : Threads σ τ α ρ)

def answer (s : St ι σ τ) (i : ι) : ρ := (T.perform (T.act (s.loc i)) s.mem).2

def next (s : St ι σ τ) (i : ι) : St ι σ τ :=
  ⟨(T.perform (T.act (s.loc i)) s.mem).1,
    Function.update s.loc i (T.resume (s.loc i) (answer T s i))⟩

def run (s : St ι σ τ) (w : List ι) : St ι σ τ := w.foldl (next T) s

/-- A thread on its own, fed with the answers of some environment. -/
def feed (c : τ) (rs : List ρ) : τ := rs.foldl T.resume c

@[simp] lemma run_nil (s : St ι σ τ) : run T s [] = s := rfl
@[simp] lemma run_cons (s : St ι σ τ) (i : ι) (w : List ι) :
    run T s (i :: w) = run T (next T s i) w := rfl
lemma run_append (s : St ι σ τ) (u w : List ι) : run T s (u ++ w) = run T (run T s u) w := by
  simp [run, List.foldl_append]
lemma run_concat (s : St ι σ τ) (w : List ι) (i : ι) :
    run T s (w ++ [i]) = next T (run T s w) i := by
  simp [run_append]

@[simp] lemma feed_nil (c : τ) : feed T c [] = c := rfl
@[simp] lemma feed_cons (c : τ) (r : ρ) (rs : List ρ) :
    feed T c (r :: rs) = feed T (T.resume c r) rs := rfl
lemma feed_append (c : τ) (rs qs : List ρ) : feed T c (rs ++ qs) = feed T (feed T c rs) qs := by
  simp [feed, List.foldl_append]

@[simp] lemma next_loc_self (s : St ι σ τ) (i : ι) :
    (next T s i).loc i = T.resume (s.loc i) (answer T s i) := by
  simp [next]

lemma next_loc_of_ne (s : St ι σ τ) {i j : ι} (h : j ≠ i) : (next T s i).loc j = s.loc j := by
  simp [next, h]

/-- **The invariant rule**: what holds at first and is kept by every step holds after every
schedule. -/
theorem run_inv {P : St ι σ τ → Prop} {s : St ι σ τ} (h : P s)
    (hstep : ∀ t i, P t → P (next T t i)) (w : List ι) : P (run T s w) := by
  induction w generalizing s with
  | nil => exact h
  | cons i w ih => exact ih (hstep s i h)

/-- The invariant rule for one schedule: only its own steps have to keep the invariant. -/
theorem run_inv_along {P : St ι σ τ → Prop} {s : St ι σ τ} {w : List ι} (h : P s)
    (hstep : ∀ u i v, w = u ++ i :: v → P (run T s u) → P (next T (run T s u) i)) :
    ∀ u v, w = u ++ v → P (run T s u) := by
  intro u
  induction u using List.reverseRecOn with
  | nil => exact fun _ _ => h
  | append_singleton u i ih =>
    intro v hw
    rw [List.append_assoc, List.singleton_append] at hw
    rw [run_concat]
    exact hstep u i v hw (ih _ hw)

/-- What holds of a thread at first and is kept by every answer holds whatever it is fed. -/
theorem feed_inv {P : τ → Prop} {c : τ} (h : P c) (hstep : ∀ d r, P d → P (T.resume d r))
    (rs : List ρ) : P (feed T c rs) := by
  induction rs generalizing c with
  | nil => exact h
  | cons r rs ih => exact ih (hstep c r h)

/-- Inside a run every thread has been fed with some answers. -/
theorem run_loc_feed (s : St ι σ τ) (w : List ι) (i : ι) :
    ∃ rs, (run T s w).loc i = feed T (s.loc i) rs := by
  induction w generalizing s with
  | nil => exact ⟨[], rfl⟩
  | cons j w ih =>
    obtain ⟨rs, h⟩ := ih (next T s j)
    by_cases hij : i = j
    · subst hij
      exact ⟨answer T s i :: rs, by simpa using h⟩
    · exact ⟨rs, by rw [run_cons, h, next_loc_of_ne T s hij]⟩

/-- A local invariant of the threads holds of each of them after every schedule. -/
theorem run_local {P : ι → τ → Prop} {s : St ι σ τ} (h : ∀ i, P i (s.loc i))
    (hstep : ∀ i d r, P i d → P i (T.resume d r)) (w : List ι) (i : ι) :
    P i ((run T s w).loc i) := by
  obtain ⟨rs, hrs⟩ := run_loc_feed T s w i
  rw [hrs]
  exact feed_inv T (h i) (hstep i) rs

/-- **The countdown rule**: what every turn of a thread brings nearer is there after so many turns
of it. -/
theorem run_countdown {P : ℕ → τ → Prop} (hstep : ∀ n c r, P n c → P (n - 1) (T.resume c r))
    {s : St ι σ τ} {i : ι} {n : ℕ} (h : P n (s.loc i)) (w : List ι) :
    P (n - w.count i) ((run T s w).loc i) := by
  induction w generalizing s n with
  | nil => exact h
  | cons j w ih =>
    by_cases hij : j = i
    · subst hij
      have hnext : P (n - 1) ((next T s j).loc j) := by
        rw [next_loc_self]
        exact hstep n _ _ h
      rw [List.count_cons_self, Nat.add_comm, ← Nat.sub_sub]
      exact ih hnext
    · rw [List.count_cons_of_ne hij]
      exact ih (by rwa [next_loc_of_ne T s (Ne.symm hij)])

/-- **The first time**: what is false of a thread at first and true of it after a schedule has
become true in one of its own steps. -/
theorem run_first {P : τ → Prop} {s : St ι σ τ} {w : List ι} {i : ι} (h : ¬ P (s.loc i))
    (hw : P ((run T s w).loc i)) : ∃ u v, w = u ++ i :: v ∧ ¬ P ((run T s u).loc i) ∧
      P ((next T (run T s u) i).loc i) := by
  induction w generalizing s with
  | nil => exact absurd hw h
  | cons j w ih =>
    by_cases hj : P ((next T s j).loc i)
    · have hji : j = i := by
        by_contra hne
        rw [next_loc_of_ne T s (Ne.symm hne)] at hj
        exact h hj
      subst hji
      exact ⟨[], w, rfl, h, hj⟩
    · obtain ⟨u, v, rfl, hu, hv⟩ := ih hj hw
      exact ⟨j :: u, v, rfl, hu, hv⟩

/-! ### One thread alone -/

def alone (p : σ × τ) : σ × τ :=
  let a := T.perform (T.act p.2) p.1
  (a.1, T.resume p.2 a.2)

lemma run_replicate (s : St ι σ τ) (i : ι) (n : ℕ) : run T s (List.replicate n i) =
    ⟨((alone T)^[n] (s.mem, s.loc i)).1,
      Function.update s.loc i ((alone T)^[n] (s.mem, s.loc i)).2⟩ := by
  induction n generalizing s with
  | zero => simp
  | succ n ih =>
    rw [List.replicate_succ, run_cons, ih, Function.iterate_succ_apply, next_loc_self]
    simp [next, alone, answer]

/-! ### Threads seen through a map -/

/-- The state with every thread seen through a map. -/
def St.map {τ' : Type*} (f : τ → τ') (s : St ι σ τ) : St ι σ τ' := ⟨s.mem, fun i => f (s.loc i)⟩

lemma next_eq_alone (s : St ι σ τ) (i : ι) : next T s i =
    ⟨(alone T (s.mem, s.loc i)).1, Function.update s.loc i (alone T (s.mem, s.loc i)).2⟩ := rfl

lemma next_local {P : τ → Prop} (hkeep : ∀ m c, P c → P (alone T (m, c)).2) {s : St ι σ τ}
    (hs : ∀ i, P (s.loc i)) (i j : ι) : P ((next T s i).loc j) := by
  by_cases hj : j = i
  · subst hj
    rw [next_loc_self]
    exact hkeep s.mem _ (hs j)
  · rw [next_loc_of_ne T s hj]
    exact hs j

/-- **The projection rule**: if every step of a thread is, through the map, the step of another
thread or no step at all, then every run is a run of the others, with some turns left out. -/
theorem run_map {τ' α' ρ' : Type*} {T' : Threads σ τ' α' ρ'} {f : τ → τ'} {P : τ → Prop}
    (hkeep : ∀ m c, P c → P (alone T (m, c)).2)
    (hstep : ∀ m c, P c → ((alone T (m, c)).1 = m ∧ f (alone T (m, c)).2 = f c) ∨
      alone T' (m, f c) = ((alone T (m, c)).1, f (alone T (m, c)).2))
    {s : St ι σ τ} (hs : ∀ i, P (s.loc i)) (w : List ι) :
    ∃ v, v.Sublist w ∧ (run T s w).map f = run T' (s.map f) v := by
  induction w generalizing s with
  | nil => exact ⟨[], List.Sublist.refl _, rfl⟩
  | cons i w ih =>
    have hs' := next_local T hkeep hs i
    have hloc : (next T s i).map f = ⟨(alone T (s.mem, s.loc i)).1,
        Function.update (s.map f).loc i (f (alone T (s.mem, s.loc i)).2)⟩ := by
      rw [next_eq_alone, St.map]
      congr 1
      funext j
      by_cases hj : j = i <;> simp [hj, St.map]
    obtain ⟨v, hv, hrun⟩ := ih hs'
    rcases hstep s.mem (s.loc i) (hs i) with ⟨hmem, hf⟩ | hact
    · -- the turn is left out
      have hsame : (next T s i).map f = s.map f := by
        rw [hloc, hmem, hf]
        exact congrArg (St.mk s.mem) (Function.update_eq_self i (s.map f).loc)
      exact ⟨v, hv.cons i, by rw [run_cons, hrun, hsame]⟩
    · have hnext : (next T s i).map f = next T' (s.map f) i := by
        rw [hloc, next_eq_alone]
        simp only [St.map, hact]
      exact ⟨i :: v, hv.cons_cons i, by rw [run_cons, run_cons, hrun, hnext]⟩

/-! ### One thread amid others -/

/-- A thread whose store is changed by others before each of its steps. -/
def amid (p : σ × τ) (gs : List (σ → σ)) : σ × τ := gs.foldl (fun p g => alone T (g p.1, p.2)) p

@[simp] lemma amid_nil (p : σ × τ) : amid T p [] = p := rfl
@[simp] lemma amid_cons (p : σ × τ) (g : σ → σ) (gs : List (σ → σ)) :
    amid T p (g :: gs) = amid T (alone T (g p.1, p.2)) gs := rfl

lemma amid_replicate_id (p : σ × τ) (n : ℕ) :
    amid T p (List.replicate n id) = (alone T)^[n] p := by
  induction n generalizing p with
  | zero => rfl
  | succ n ih => exact ih _

/-- **The two-run rule**: two threads that take the same steps from the states that satisfy an
invariant of the first one are in the same state after every run. -/
theorem amid_eq {T T' : Threads σ τ α ρ} {P : σ × τ → Prop} {R : (σ → σ) → Prop}
    (hstep : ∀ m c g, R g → P (m, c) →
      P (alone T (g m, c)) ∧ alone T' (g m, c) = alone T (g m, c))
    {p : σ × τ} (hp : P p) {gs : List (σ → σ)} (hgs : ∀ g ∈ gs, R g) :
    amid T' p gs = amid T p gs := by
  induction gs generalizing p with
  | nil => rfl
  | cons g gs ih =>
    obtain ⟨hnext, heq⟩ := hstep p.1 p.2 g (hgs g List.mem_cons_self) hp
    rw [amid_cons, amid_cons, heq]
    exact ih hnext fun g hg => hgs g (List.mem_cons_of_mem _ hg)

end LibCheckpoint.Interleave
