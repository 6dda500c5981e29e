import LibCheckpoint.Interleave
import LibCheckpoint.Bytes
import Mathlib.Logic.Relation

/-!
Spinlocks: `spinlock_lock` and `spinlock_unlock` on words that harts share.

A hart runs a program of which only the calls are seen. Which call comes next is part of an event,
so the runs are those of all programs, with any number of harts and locks.
-/

namespace LibCheckpoint.Spinlock

open LibCheckpoint.Bytes LibCheckpoint.Interleave

variable {ι L : Type*}

/-! ### Owners -/

/-- What locks are for: each of them has one owner at most. -/
abbrev Owners (ι L : Type*) := L → Option ι

/-- **One change of the owners**: a lock without an owner is taken, or the owner of a lock gives it
back. -/
inductive Change [DecidableEq L] (o : Owners ι L) : Owners ι L → Prop
  | keep : Change o o
  | take (i : ι) (l : L) (h : o l = none) : Change o (Function.update o l (some i))
  | release (i : ι) (l : L) (h : o l = some i) : Change o (Function.update o l none)

/-! ### The functions -/

inductive Call (L : Type*)
  | spinlockLock (l : L)
  | spinlockUnlock (l : L)
  deriving DecidableEq

/-- The atomic accesses and the fences of the functions, and the program around them. -/
inductive Pc (L : Type*)
  | program
  -- `spinlock_lock`, and `spinlock_trylock` with the old value of the word
  | read (l : L)
  | swap (l : L)
  | mb (l : L) (res : Word)
  -- `spinlock_unlock`
  | unlock (l : L)
  | set (l : L)
  deriving DecidableEq

/-- `owned` are the locks that the hart has taken by a swap that has returned zero and not given
back by a store of zero; `inside` are those of them for which `spinlock_lock` has returned. -/
structure Hart (L : Type*) where
  pc : Pc L
  owned : L → Bool
  inside : L → Bool

inductive Act (L : Type*)
  | tau
  | load (l : L)
  | swap (l : L) (w : Word)
  | store (l : L) (w : Word)
  deriving DecidableEq

variable [DecidableEq ι] [DecidableEq L]

def perform : Act L → (L → Word) → (L → Word) × Word
  | .tau, m => (m, 0)
  | .load l, m => (m, m l)
  | .swap l w, m => (Function.update m l w, m l)
  | .store l w, m => (Function.update m l w, 0)

def act (c : Hart L) : Act L :=
  match c.pc with
  | .read l => .load l
  | .swap l => .swap l (-1)
  | .set l => .store l 0
  | _ => .tau

/-- The hart after its action has returned `r`; in its program it makes the given call. -/
def resume (call : Option (Call L)) (c : Hart L) (r : Word) : Hart L :=
  match c.pc with
  | .program =>
    match call with
    | some (.spinlockLock l) => { c with pc := .read l }
    | some (.spinlockUnlock l) => { c with pc := .unlock l }
    | none => c
  | .read l => if r != 0 then c else { c with pc := .swap l }
  | .swap l =>
    { c with
      pc := .mb l r
      owned := if r = 0 then Function.update c.owned l true else c.owned }
  | .mb l res =>
    if res != 0 then { c with pc := .read l }
    else { c with pc := .program, inside := Function.update c.inside l true }
  | .unlock l => { c with pc := .set l }
  | .set l =>
    { c with
      pc := .program
      owned := Function.update c.owned l false
      inside := Function.update c.inside l false }

def harts (call : Option (Call L)) : Threads (L → Word) (Hart L) (Act L) Word where
  act := act
  perform := perform
  resume := resume call

abbrev State (ι L : Type*) := St ι (L → Word) (Hart L)

/-- A hart is to act; if it is in its program, it may make a call. -/
structure Event (ι L : Type*) where
  hart : ι
  call : Option (Call L)

def step (s : State ι L) (e : Event ι L) : State ι L := next (harts e.call) s e.hart

def runs (s : State ι L) (es : List (Event ι L)) : State ι L := es.foldl step s

structure AtStart (s : State ι L) : Prop where
  word : ∀ l, s.mem l = 0
  pc : ∀ i, (s.loc i).pc = .program
  owned : ∀ i l, (s.loc i).owned l = false
  inside : ∀ i l, (s.loc i).inside l = false

/-- If the hart calls `spinlock_unlock`, it has acquired that lock and not released it yet. -/
def Allowed (s : State ι L) (e : Event ι L) : Prop :=
  ∀ l, (s.loc e.hart).pc = .program → e.call = some (.spinlockUnlock l) →
    (s.loc e.hart).inside l = true

/-- The programs of a run call `spinlock_unlock` for locks that they have acquired only. -/
def Disciplined (s : State ι L) (es : List (Event ι L)) : Prop :=
  ∀ u e v, es = u ++ e :: v → Allowed (runs s u) e

/-- **Mutual exclusion** in a state: one hart at most is between its return from `spinlock_lock`
and the store of `spinlock_unlock`; the word of a lock tells whether it has an owner; and a swap
that fails changes neither. -/
structure Exclusive (s : State ι L) : Prop where
  inside : ∀ l i j, (s.loc i).inside l = true → (s.loc j).inside l = true → i = j
  word : ∀ l, s.mem l ≠ 0 ↔ ∃ i, (s.loc i).owned l = true
  failed : ∀ e l, (s.loc e.hart).pc = .swap l → s.mem l ≠ 0 →
    (step s e).mem l ≠ 0 ∧ ∀ i, ((step s e).loc i).owned = (s.loc i).owned ∧
      ((step s e).loc i).inside = (s.loc i).inside

/-! ### One step -/

variable {s : State ι L} {e : Event ι L} {es : List (Event ι L)} {o : Owners ι L}

lemma runs_append (u v : List (Event ι L)) : runs s (u ++ v) = runs (runs s u) v := by
  simp [runs, List.foldl_append]

lemma runs_concat (es : List (Event ι L)) (e : Event ι L) :
    runs s (es ++ [e]) = step (runs s es) e := by
  simp [runs, List.foldl_append]

/-- **Who writes what**: the word of a lock is written by the swap and by the store. -/
lemma step_mem (s : State ι L) (e : Event ι L) : (step s e).mem =
    match (s.loc e.hart).pc with
    | .swap l => Function.update s.mem l (-1)
    | .set l => Function.update s.mem l 0
    | _ => s.mem := by
  cases hp : (s.loc e.hart).pc <;> simp [step, next, harts, act, hp, perform]

lemma step_loc_self (s : State ι L) (e : Event ι L) : (step s e).loc e.hart =
    resume e.call (s.loc e.hart) (answer (harts e.call) s e.hart) :=
  next_loc_self _ _ _

lemma step_loc_of_ne (s : State ι L) {i : ι} (h : i ≠ e.hart) : (step s e).loc i = s.loc i :=
  next_loc_of_ne _ _ h

omit [DecidableEq ι] in
lemma answer_swap {l : L} (hp : (s.loc e.hart).pc = .swap l) :
    answer (harts e.call) s e.hart = s.mem l := by
  simp [answer, harts, act, hp, perform]

/-- The locks that a hart owns change at the swap and at the store. -/
lemma step_owned (s : State ι L) (e : Event ι L) : ((step s e).loc e.hart).owned =
    match (s.loc e.hart).pc with
    | .swap l => if s.mem l = 0 then Function.update (s.loc e.hart).owned l true
        else (s.loc e.hart).owned
    | .set l => Function.update (s.loc e.hart).owned l false
    | _ => (s.loc e.hart).owned := by
  rw [step_loc_self]
  cases hp : (s.loc e.hart).pc with
  | swap l => simp only [resume, hp, answer_swap hp]
  | program => simp only [resume, hp]; split <;> rfl
  | read l => simp only [resume, hp]; split <;> rfl
  | mb l res => simp only [resume, hp]; split <;> rfl
  | unlock l => simp only [resume, hp]
  | set l => simp only [resume, hp]

/-! ### The owners in a run -/

/-- The state has these owners: they are the harts that say so, and the word of a lock is zero if
and only if it has none. -/
structure Represents (o : Owners ι L) (s : State ι L) : Prop where
  word : ∀ l, s.mem l = 0 ↔ o l = none
  owned : ∀ i l, (s.loc i).owned l = true ↔ o l = some i

structure Ok (c : Hart L) : Prop where
  inside : ∀ l, c.inside l = true → c.owned l = true
  mb : ∀ l, c.pc = .mb l 0 → c.owned l = true
  unlock : ∀ l, c.pc = .unlock l ∨ c.pc = .set l → c.inside l = true

omit [DecidableEq ι] [DecidableEq L] in
lemma AtStart.represents (h : AtStart s) : Represents (fun _ => none) s where
  word l := by simp [h.word l]
  owned i l := by simp [h.owned i l]

omit [DecidableEq ι] [DecidableEq L] in
lemma AtStart.ok (h : AtStart s) (i : ι) : Ok (s.loc i) where
  inside l hl := by rw [h.inside i l] at hl; cases hl
  mb l hp := by rw [h.pc i] at hp; cases hp
  unlock l hp := by rw [h.pc i] at hp; rcases hp with hp | hp <;> cases hp

omit [DecidableEq ι] in
lemma Represents.update (h : Represents o s) {t : State ι L} {l : L} {w : Word} {x : Option ι}
    (hmem : t.mem = Function.update s.mem l w) (hw : w = 0 ↔ x = none)
    (hne : ∀ i k, k ≠ l → (t.loc i).owned k = (s.loc i).owned k)
    (hl : ∀ i, (t.loc i).owned l = true ↔ x = some i) :
    Represents (Function.update o l x) t where
  word k := by
    by_cases hk : k = l
    · subst hk
      simpa [hmem] using hw
    · rw [hmem, Function.update_of_ne hk, Function.update_of_ne hk, h.word k]
  owned i k := by
    by_cases hk : k = l
    · subst hk
      simpa using hl i
    · rw [hne i k hk, Function.update_of_ne hk, h.owned i k]

lemma Represents.swap_free (h : Represents o s) {l : L} (hp : (s.loc e.hart).pc = .swap l)
    (h0 : s.mem l = 0) : Represents (Function.update o l (some e.hart)) (step s e) := by
  have hself := step_owned s e
  simp only [hp, h0, if_true] at hself
  refine h.update (w := -1) (by rw [step_mem, hp]) (by simp) (fun i k hk => ?_) fun i => ?_
  · by_cases hi : i = e.hart
    · rw [hi, hself, Function.update_of_ne hk]
    · rw [step_loc_of_ne s hi]
  · by_cases hi : i = e.hart
    · simp [hi, hself]
    · have hnone : o l = none := (h.word l).mp h0
      rw [step_loc_of_ne s hi, h.owned i l, hnone]
      simpa using Ne.symm hi

/-- **A swap that fails** keeps the owners, although it writes the word. -/
lemma Represents.swap_held (h : Represents o s) {l : L} (hp : (s.loc e.hart).pc = .swap l)
    (h0 : s.mem l ≠ 0) : Represents o (step s e) := by
  have hself := step_owned s e
  simp only [hp, h0, if_false] at hself
  have hsome : o l ≠ none := fun hnone => h0 ((h.word l).mpr hnone)
  have howned (i : ι) : ((step s e).loc i).owned = (s.loc i).owned := by
    by_cases hi : i = e.hart
    · rw [hi, hself]
    · rw [step_loc_of_ne s hi]
  have hrep := h.update (t := step s e) (l := l) (w := -1) (x := o l) (by rw [step_mem, hp])
    (by simp [hsome]) (fun i k _ => by rw [howned]) fun i => by rw [howned, h.owned i l]
  rwa [Function.update_eq_self] at hrep

lemma Represents.set (h : Represents o s) {l : L} (hp : (s.loc e.hart).pc = .set l)
    (ho : o l = some e.hart) : Represents (Function.update o l none) (step s e) := by
  have hself := step_owned s e
  simp only [hp] at hself
  refine h.update (w := 0) (by rw [step_mem, hp]) (by simp) (fun i k hk => ?_) fun i => ?_
  · by_cases hi : i = e.hart
    · rw [hi, hself, Function.update_of_ne hk]
    · rw [step_loc_of_ne s hi]
  · by_cases hi : i = e.hart
    · simp [hi, hself]
    · rw [step_loc_of_ne s hi, h.owned i l, ho]
      simpa using Ne.symm hi

lemma Represents.other (h : Represents o s)
    (hp : ∀ l, (s.loc e.hart).pc ≠ .swap l ∧ (s.loc e.hart).pc ≠ .set l) :
    Represents o (step s e) := by
  have hmem : (step s e).mem = s.mem := by
    rw [step_mem]
    split
    · exact absurd ‹_› (hp _).1
    · exact absurd ‹_› (hp _).2
    · rfl
  have howned (i : ι) : ((step s e).loc i).owned = (s.loc i).owned := by
    by_cases hi : i = e.hart
    · rw [hi, step_owned]
      split
      · exact absurd ‹_› (hp _).1
      · exact absurd ‹_› (hp _).2
      · rfl
    · rw [step_loc_of_ne s hi]
  exact ⟨fun l => by rw [hmem, h.word l], fun i l => by rw [howned, h.owned i l]⟩

/-- **One step of the functions is one change of the owners**, at most. -/
theorem Represents.step (h : Represents o s) (hok : Ok (s.loc e.hart)) :
    ∃ o', Change o o' ∧ Represents o' (step s e) := by
  by_cases hswap : ∃ l, (s.loc e.hart).pc = .swap l
  · obtain ⟨l, hp⟩ := hswap
    by_cases h0 : s.mem l = 0
    · exact ⟨_, .take e.hart l ((h.word l).mp h0), h.swap_free hp h0⟩
    · exact ⟨o, .keep, h.swap_held hp h0⟩
  · by_cases hset : ∃ l, (s.loc e.hart).pc = .set l
    · obtain ⟨l, hp⟩ := hset
      have ho : o l = some e.hart := (h.owned _ l).mp (hok.inside l (hok.unlock l (.inr hp)))
      exact ⟨_, .release e.hart l ho, h.set hp ho⟩
    · exact ⟨o, .keep, h.other fun l => ⟨fun hp => hswap ⟨l, hp⟩, fun hp => hset ⟨l, hp⟩⟩⟩

/-- A hart that unlocks what it has locked stays inside as an owner only. -/
lemma Ok.resume {call : Option (Call L)} {c : Hart L} (h : Ok c) (r : Word)
    (hcall : ∀ l, c.pc = .program → call = some (.spinlockUnlock l) → c.inside l = true) :
    Ok (resume call c r) := by
  unfold Spinlock.resume
  cases hp : c.pc with
  | program =>
    rcases hc : call with _ | l | l
    · exact h
    · exact ⟨h.inside, by simp, by simp⟩
    · refine ⟨h.inside, by simp, fun k hk => ?_⟩
      obtain rfl : l = k := by simpa using hk
      exact hcall l hp hc
  | read l =>
    dsimp only
    split
    · exact h
    · exact ⟨h.inside, by simp, by simp⟩
  | swap l =>
    refine ⟨fun k hk => ?_, fun k hk => ?_, by simp⟩
    · -- Who is inside a lock owns it: a swap can only add an owner.
      have hown := h.inside k hk
      by_cases hkl : k = l <;> by_cases hr : r = 0 <;> simp_all
    · obtain ⟨rfl, rfl⟩ : l = k ∧ r = 0 := by simpa using hk
      simp
  | mb l res =>
    dsimp only
    split_ifs with hres
    · exact ⟨h.inside, by simp, by simp⟩
    · -- The swap has found zero, so the hart comes inside as the owner.
      obtain rfl : res = 0 := by simpa using hres
      refine ⟨fun k (hk : Function.update c.inside l true k = true) => ?_, by simp, by simp⟩
      by_cases hkl : k = l
      · subst hkl
        exact h.mb k hp
      · rw [Function.update_of_ne hkl] at hk
        exact h.inside k hk
  | unlock l =>
    refine ⟨h.inside, by simp, fun k hk => ?_⟩
    obtain rfl : l = k := by simpa using hk
    exact h.unlock l (.inl hp)
  | set l =>
    refine ⟨fun k (hk : Function.update c.inside l false k = true) => ?_, by simp, by simp⟩
    by_cases hkl : k = l
    · subst hkl
      simp at hk
    · rw [Function.update_of_ne hkl] at hk
      exact (Function.update_of_ne hkl _ _).trans (h.inside k hk)

lemma Ok.step (h : ∀ i, Ok (s.loc i)) (he : Allowed s e) (i : ι) : Ok ((step s e).loc i) := by
  by_cases hi : i = e.hart
  · subst hi
    rw [step_loc_self]
    exact (h _).resume _ he
  · rw [step_loc_of_ne s hi]
    exact h i

lemma disciplined_append (u v : List (Event ι L)) :
    Disciplined s (u ++ v) ↔ Disciplined s u ∧ Disciplined (runs s u) v := by
  constructor
  · intro h
    refine ⟨fun u' e v' hu => h u' e (v' ++ v) (by simp [hu]), fun u' e v' hv => ?_⟩
    rw [← runs_append]
    exact h (u ++ u') e v' (by simp [hv])
  · rintro ⟨hu, hv⟩ u' e v' huv
    rcases List.append_eq_append_iff.mp huv with ⟨w, rfl, hw⟩ | ⟨w, hw, hv'⟩
    · rw [runs_append]
      exact hv w e v' hw
    · cases w with
      | nil =>
        rw [List.append_nil] at hw
        subst hw
        exact hv [] e v' hv'.symm
      | cons e' w =>
        obtain ⟨rfl, rfl⟩ := List.cons.inj hv'
        exact hu u' e w hw

lemma disciplined_singleton : Disciplined s [e] ↔ Allowed s e := by
  constructor
  · exact fun h => h [] e [] rfl
  · intro h u e' v hes
    cases u with
    | nil =>
      obtain ⟨rfl, -⟩ := List.cons.inj hes
      exact h
    | cons _ u => simp at hes

/-- **The owners in a run**: as long as the programs unlock what they have locked, every state has
owners, and they have become that by single changes. -/
theorem represents_runs (h : AtStart s) (hd : Disciplined s es) :
    (∃ o, Relation.ReflTransGen Change (fun _ => none) o ∧ Represents o (runs s es)) ∧
      ∀ i, Ok ((runs s es).loc i) := by
  induction es using List.reverseRecOn with
  | nil => exact ⟨⟨_, .refl, h.represents⟩, h.ok⟩
  | append_singleton es e ih =>
    obtain ⟨hes, he⟩ := (disciplined_append _ _).mp hd
    obtain ⟨⟨o, hchain, ho⟩, hok⟩ := ih hes
    obtain ⟨o', hchange, ho'⟩ := ho.step (e := e) (hok _)
    rw [runs_concat]
    exact ⟨⟨o', hchain.tail hchange, ho'⟩, Ok.step hok (disciplined_singleton.mp he)⟩

omit [DecidableEq ι] [DecidableEq L] in
lemma Represents.owner_unique (h : Represents o s) {l : L} {i j : ι}
    (hi : (s.loc i).owned l = true) (hj : (s.loc j).owned l = true) : i = j := by
  rw [h.owned] at hi hj
  exact Option.some.inj (hi.symm.trans hj)

omit [DecidableEq ι] [DecidableEq L] in
lemma Represents.word_ne_zero_iff (h : Represents o s) (l : L) :
    s.mem l ≠ 0 ↔ ∃ i, (s.loc i).owned l = true := by
  rw [ne_eq, h.word l, ← ne_eq, Option.ne_none_iff_exists']
  simp only [h.owned]

/-- A swap that fails changes no hart but for the point at which its own is. -/
lemma failed_swap {l : L} (hp : (s.loc e.hart).pc = .swap l) (h0 : s.mem l ≠ 0) :
    (step s e).mem l ≠ 0 ∧ ∀ i, ((step s e).loc i).owned = (s.loc i).owned ∧
      ((step s e).loc i).inside = (s.loc i).inside := by
  refine ⟨by simp [step_mem, hp], fun i => ?_⟩
  by_cases hi : i = e.hart
  · subst hi
    rw [step_loc_self, answer_swap hp]
    simp only [Spinlock.resume, hp, if_neg h0, and_self]
  · rw [step_loc_of_ne s hi]
    exact ⟨rfl, rfl⟩

lemma Represents.exclusive (h : Represents o s) (hok : ∀ i, Ok (s.loc i)) : Exclusive s where
  inside l i j hi hj := h.owner_unique ((hok i).inside l hi) ((hok j).inside l hj)
  word := h.word_ne_zero_iff
  failed _ _ hp h0 := failed_swap hp h0

/-- **Spinlocks exclude each other's critical sections**: for any harts and locks, in every state of
every run of programs that unlock what they have locked. -/
theorem exclusive_runs (h : AtStart s) (hd : Disciplined s es) : Exclusive (runs s es) := by
  obtain ⟨⟨o, -, ho⟩, hok⟩ := represents_runs h hd
  exact ho.exclusive hok

/-! ### What a hart can do next -/

lemma disciplined_of_none (h : ∀ e ∈ es, e.call = none) : Disciplined s es := by
  rintro u e v rfl l - hcall
  rw [h e (by simp)] at hcall
  cases hcall

section
variable {i : ι} {l : L}

lemma runs_read (hp : (s.loc i).pc = .read l) : runs s [⟨i, none⟩] = ⟨s.mem,
    Function.update s.loc i
      { s.loc i with pc := if s.mem l = 0 then .swap l else .read l }⟩ := by
  by_cases h0 : s.mem l = 0
  · simp [runs, step, next, answer, harts, act, hp, perform, resume, h0]
  · simp only [runs, step, next, answer, harts, act, hp, perform, resume, List.foldl_cons,
      List.foldl_nil, bne_iff_ne, ne_eq, h0, not_false_eq_true, if_true, if_false]
    rw [← hp]

/-- `spinlock_trylock`, and what `spinlock_lock` makes of its result. -/
lemma runs_trylock (hp : (s.loc i).pc = .swap l) : runs s [⟨i, none⟩, ⟨i, none⟩] =
    ⟨Function.update s.mem l (-1), Function.update s.loc i
      (if s.mem l = 0 then ⟨.program, Function.update (s.loc i).owned l true,
        Function.update (s.loc i).inside l true⟩
      else { s.loc i with pc := .read l })⟩ := by
  by_cases h0 : s.mem l = 0
  · simp [runs, step, next, answer, harts, act, hp, perform, resume, h0]
  · have hne : s.mem l ≠ 0#64 := h0
    simp [runs, step, next, answer, harts, act, hp, perform, resume, hne]

lemma runs_set (hp : (s.loc i).pc = .set l) : runs s [⟨i, none⟩] =
    ⟨Function.update s.mem l 0, Function.update s.loc i ⟨.program,
      Function.update (s.loc i).owned l false, Function.update (s.loc i).inside l false⟩⟩ := by
  simp [runs, step, next, harts, act, hp, perform, resume]

end

lemma exists_call {i : ι} {p : Pc L} (hp : (s.loc i).pc = .program)
    (h : p = .program ∨ ∃ l, p = .read l ∨ p = .set l ∧ (s.loc i).inside l = true) :
    ∃ es, Disciplined s es ∧
      runs s es = ⟨s.mem, Function.update s.loc i { s.loc i with pc := p }⟩ := by
  rcases h with rfl | ⟨l, rfl | ⟨rfl, hin⟩⟩
  · refine ⟨[], fun u e v hu => by simp at hu, ?_⟩
    rw [← hp, Function.update_eq_self]
    rfl
  · refine ⟨[⟨i, some (.spinlockLock l)⟩], disciplined_singleton.mpr ?_, ?_⟩
    · intro k _ hcall
      cases hcall
    · simp [runs, step, next, answer, harts, act, hp, perform, resume]
  · refine ⟨[⟨i, some (.spinlockUnlock l)⟩] ++ [⟨i, none⟩], ?_, ?_⟩
    · refine (disciplined_append _ _).mpr ⟨disciplined_singleton.mpr ?_,
        disciplined_singleton.mpr ?_⟩
      · intro k _ hcall
        cases hcall
        exact hin
      · intro k _ hcall
        cases hcall
    · simp [runs, step, next, answer, harts, act, hp, perform, resume]

/-! ### Two harts at one lock -/

/-- Whether a run is disciplined can be seen by running it. -/
instance decidableDisciplined [Fintype L] (s : State ι L) :
    (es : List (Event ι L)) → Decidable (Disciplined s es)
  | [] => isTrue fun u e v h => by simp at h
  | e :: es =>
    have hsplit : Disciplined s (e :: es) ↔ Allowed s e ∧ Disciplined (step s e) es := by
      rw [← List.singleton_append, disciplined_append, disciplined_singleton]
      rfl
    have : Decidable (Allowed s e) := inferInstanceAs (Decidable (∀ l, _ → _ → _))
    have : Decidable (Disciplined (step s e) es) := decidableDisciplined _ es
    decidable_of_iff _ hsplit.symm

def start (ι L : Type*) : State ι L :=
  ⟨fun _ => 0, fun _ => ⟨.program, fun _ => false, fun _ => false⟩⟩

omit [DecidableEq ι] [DecidableEq L] in
lemma start_atStart : AtStart (start ι L) where
  word _ := rfl
  pc _ := rfl
  owned _ _ := rfl
  inside _ _ := rfl

/-- Both harts find the lock free, the second one comes too late, and waits for the first one. -/
def contended : List (Event Bool Unit) :=
  [⟨false, some (.spinlockLock ())⟩, ⟨true, some (.spinlockLock ())⟩, ⟨false, none⟩, ⟨true, none⟩,
    ⟨false, none⟩, ⟨true, none⟩, ⟨false, none⟩, ⟨true, none⟩, ⟨true, none⟩,
    ⟨false, some (.spinlockUnlock ())⟩, ⟨false, none⟩, ⟨false, none⟩, ⟨true, none⟩, ⟨true, none⟩,
    ⟨true, none⟩]

theorem exclusive_runs_contended : Exclusive (runs (start Bool Unit) contended) :=
  exclusive_runs start_atStart (by decide)

example : ((runs (start Bool Unit) contended).loc true).inside () = true := by decide

end LibCheckpoint.Spinlock
