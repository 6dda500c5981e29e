import LibCheckpoint.Spinlock
import LibCheckpoint.Reset

/-!
The harts of the restorer as harts with two spinlocks, that of `mt_printf` and that of the barrier.

Forgetting everything but the locks, a step of the restorer is a few steps of the functions, so
what holds of all programs that use spinlocks holds of the restorer.
-/

namespace LibCheckpoint.Locks

open LibCheckpoint.Bytes LibCheckpoint.Restorer LibCheckpoint.Interleave LibCheckpoint.Phase
open LibCheckpoint.Effect LibCheckpoint.Count LibCheckpoint.Barrier LibCheckpoint.Reset
open LibCheckpoint.Spinlock hiding Pc Hart Act act perform resume harts

/-! ### What the locks see of a hart -/

inductive Lock
  | mtPrintfLock | globashRestoreLock
  deriving DecidableEq

def Lock.var : Lock → Var
  | .mtPrintfLock => .mtPrintfLock
  | .globashRestoreLock => .globashRestoreLock

def lockPc : Pc → Spinlock.Pc Lock
  | .mtPrintf _ (.lock .read) => .read .mtPrintfLock
  | .mtPrintf _ (.lock .swap) => .swap .mtPrintfLock
  | .mtPrintf _ .unlock => .set .mtPrintfLock
  | .lockGlobash .read => .read .globashRestoreLock
  | .lockGlobash .swap => .swap .globashRestoreLock
  | .unlockGlobash => .set .globashRestoreLock
  | _ => .program

def holds (c : Hart) : Lock → Bool
  | .mtPrintfLock => holdsPrint c
  | .globashRestoreLock => holdsGlobash c

def lockHart (c : Hart) : Spinlock.Hart Lock := ⟨lockPc c.pc, holds c, holds c⟩

variable (cfg : Cfg) {M : ℕ}

def lockState (s : Sys M) : State (Fin M) Lock :=
  ⟨fun l => s.mem.get cfg.link l.var, fun i => lockHart (s.loc i)⟩

/-! ### A step of the restorer -/

section
variable (c : Hart) (m : Shared) (r : Word)

/-- The words of the locks are written at the points that the functions name. -/
lemma get_var (h : booting c = false) : (fun l => (after cfg c m).get cfg.link (Lock.var l)) =
    match lockPc c.pc with
    | .swap l => Function.update (fun l => m.get cfg.link l.var) l (-1)
    | .set l => Function.update (fun l => m.get cfg.link l.var) l 0
    | _ => fun l => m.get cfg.link l.var := by
  funext l
  have hprint := get_mtPrintfLock cfg c m h
  have hglobash := get_globashRestoreLock cfg c m h
  cases hp : c.pc with
  | mtPrintf s p =>
    rcases p with (_ | _) | _ | _ <;> cases l <;> simp_all [lockPc, Lock.var, printPt]
  | lockGlobash p => cases p <;> cases l <;> simp_all [lockPc, Lock.var, printPt]
  | _ => cases l <;> simp_all [lockPc, Lock.var, printPt]

lemma answer_lock {l : Lock} (h : lockPc c.pc = .read l ∨ lockPc c.pc = .swap l) :
    (perform cfg.link (act cfg c) m).2 = m.get cfg.link l.var := by
  cases hp : c.pc with
  | mtPrintf s p =>
    rcases p with (_ | _) | _ | _ <;> cases l <;> simp_all [lockPc, Lock.var, act, perform]
  | lockGlobash p => cases p <;> cases l <;> simp_all [lockPc, Lock.var, act, perform]
  | _ => simp_all [lockPc]

/-- The locks that a hart holds change at the swap and at the store. -/
lemma holds_resume : holds (resume cfg c r) =
    match lockPc c.pc with
    | .swap l => if r = 0 then Function.update (holds c) l true else holds c
    | .set l => Function.update (holds c) l false
    | _ => holds c := by
  have hprint := holdsPrint_resume cfg c r
  have hglobash := holdsGlobash_resume cfg c r
  funext l
  cases hp : c.pc with
  | mtPrintf s p =>
    rcases p with (_ | _) | _ | _ <;> cases l <;> by_cases hr : r = 0 <;>
      simp_all [lockPc, holds, printPt, holdsPrint]
  | lockGlobash p =>
    cases p <;> cases l <;> by_cases hr : r = 0 <;>
      simp_all [lockPc, holds, printPt, holdsGlobash]
  | _ => cases l <;> simp_all [lockPc, holds, printPt]

lemma holds_of_set {l : Lock} (h : lockPc c.pc = .set l) : holds c l = true := by
  cases hp : c.pc with
  | mtPrintf s p =>
    rcases p with (_ | _) | _ | _ <;> cases l <;> simp_all [lockPc, holds, printPt, holdsPrint]
  | lockGlobash p => cases p <;> simp_all [lockPc]
  | unlockGlobash => cases l <;> simp_all [lockPc, holds, holdsGlobash]
  | _ => simp_all [lockPc]

lemma lockPc_cases (p : Pc) : lockPc p = .program ∨
    ∃ l, lockPc p = .read l ∨ lockPc p = .swap l ∨ lockPc p = .set l := by
  cases p with
  | mtPrintf s p => rcases p with (_ | _) | _ | _ <;> simp [lockPc]
  | lockGlobash p => cases p <;> simp [lockPc]
  | _ => simp [lockPc]

lemma lockPc_eq_swap {p : Pc} {l : Lock} : lockPc p = .swap l ↔
    (l = .mtPrintfLock ∧ ∃ s, p = .mtPrintf s (.lock .swap)) ∨
      (l = .globashRestoreLock ∧ p = .lockGlobash .swap) := by
  cases p with
  | mtPrintf s p => rcases p with (_ | _) | _ | _ <;> cases l <;> simp [lockPc]
  | lockGlobash p => cases p <;> cases l <;> simp [lockPc]
  | _ => simp [lockPc]

lemma lockPc_resume {l : Lock} :
    (lockPc c.pc = .read l → lockPc (resume cfg c r).pc = if r = 0 then .swap l else .read l) ∧
    (lockPc c.pc = .swap l → lockPc (resume cfg c r).pc = if r = 0 then .program else .read l) := by
  by_cases hr : r = 0 <;> cases hp : c.pc with
  | mtPrintf s p => rcases p with (_ | _) | _ | _ <;> simp_all [lockPc, resume]
  | lockGlobash p => cases p <;> simp_all [lockPc, resume]
  | _ => simp [lockPc]

lemma lockPc_resume_ne (h : lockPc c.pc = .program ∨ ∃ k, lockPc c.pc = .set k) (l : Lock) :
    lockPc (resume cfg c r).pc ≠ .swap l := by
  have hglobash := not_returned cfg c (p := .lockGlobash .swap) rfl
  have hprint (s : Site) := not_returned cfg c (p := .mtPrintf s (.lock .swap)) rfl
  rw [ne_eq, lockPc_eq_swap]
  unfold resume
  split <;> (try split) <;> simp_all [lockPc]

/-- Behind a step from the program or from the store, a hart is in its program or at the first
access of a function, the second one with a lock that it holds. -/
lemma lockPc_resume_call (h : lockPc c.pc = .program ∨ ∃ k, lockPc c.pc = .set k) :
    lockPc (resume cfg c r).pc = .program ∨ ∃ l, lockPc (resume cfg c r).pc = .read l ∨
      lockPc (resume cfg c r).pc = .set l ∧ holds (resume cfg c r) l = true := by
  rcases lockPc_cases (resume cfg c r).pc with hp | ⟨l, hp | hp | hp⟩
  · exact .inl hp
  · exact .inr ⟨l, .inl hp⟩
  · exact absurd hp (lockPc_resume_ne cfg c r h l)
  · exact .inr ⟨l, .inr ⟨hp, holds_of_set _ hp⟩⟩

end

variable {cfg} {s : Sys M} {i : Fin M}

lemma lockState_loc (j : Fin M) : (lockState cfg s).loc j = lockHart (s.loc j) := rfl

variable (cfg) in
lemma lockState_next_loc (s : Sys M) (i : Fin M) : (lockState cfg (next (harts cfg) s i)).loc =
    Function.update (lockState cfg s).loc i
      (lockHart (resume cfg (s.loc i) (answer (harts cfg) s i))) := by
  funext j
  by_cases hj : j = i
  · subst hj
    rw [lockState_loc, next_loc_resume, Function.update_self]
  · rw [lockState_loc, next_loc_of_ne _ _ hj, Function.update_of_ne hj, lockState_loc]

lemma lockState_next (hb : booting (s.loc i) = false) :
    lockState cfg (next (harts cfg) s i) =
      ⟨match lockPc (s.loc i).pc with
        | .swap l => Function.update (lockState cfg s).mem l (-1)
        | .set l => Function.update (lockState cfg s).mem l 0
        | _ => (lockState cfg s).mem,
      Function.update (lockState cfg s).loc i
        (lockHart (resume cfg (s.loc i) (answer (harts cfg) s i)))⟩ := by
  rw [← lockState_next_loc]
  unfold lockState
  rw [next_mem, get_var cfg _ _ hb]

variable (cfg) in
/-- **A step of the restorer is a few steps of the functions**: what they do to the locks is the
same. -/
theorem exists_runs_next (hb : booting (s.loc i) = false) :
    ∃ es, Disciplined (lockState cfg s) es ∧
      runs (lockState cfg s) es = lockState cfg (next (harts cfg) s i) := by
  have hholds := holds_resume cfg (s.loc i) (answer (harts cfg) s i)
  have hmove (l : Lock) := lockPc_resume cfg (s.loc i) (answer (harts cfg) s i) (l := l)
  have hcall := lockPc_resume_call cfg (s.loc i) (answer (harts cfg) s i)
  have hanswer (l : Lock) := answer_lock cfg (s.loc i) s.mem (l := l)
  rw [lockState_next hb]
  set c' := resume cfg (s.loc i) (answer (harts cfg) s i)
  rcases lockPc_cases (s.loc i).pc with hp | ⟨l, hp | hp | hp⟩
  · -- the program goes on, up to a call
    simp only [hp] at hholds ⊢
    have hhart : lockHart c' = { lockHart (s.loc i) with pc := lockPc c'.pc } := by
      simp only [lockHart, hholds]
    rw [hhart]
    refine exists_call (p := lockPc c'.pc) hp ?_
    have hin := hcall (.inl hp)
    rwa [hholds] at hin
  · -- the read
    have hword : answer (harts cfg) s i = (lockState cfg s).mem l := hanswer l (.inl hp)
    refine ⟨[⟨i, none⟩], disciplined_of_none (by simp), ?_⟩
    rw [runs_read hp]
    simp only [hp] at hholds ⊢
    simp only [lockState_loc, lockHart, hholds, (hmove l).1 hp, hword]
  · -- `spinlock_trylock`
    have hword : answer (harts cfg) s i = (lockState cfg s).mem l := hanswer l (.inr hp)
    refine ⟨[⟨i, none⟩, ⟨i, none⟩], disciplined_of_none (by simp), ?_⟩
    rw [runs_trylock hp]
    simp only [hp] at hholds ⊢
    simp only [lockState_loc, lockHart, hholds, (hmove l).2 hp, hword]
    split_ifs <;> rfl
  · -- the store, and what the program does behind it
    simp only [hp] at hholds ⊢
    have hset := runs_set (s := lockState cfg s) (i := i) (l := l) hp
    have hin := hcall (.inr ⟨l, hp⟩)
    rw [hholds] at hin
    obtain ⟨es, hd, hes⟩ := exists_call (s := runs (lockState cfg s) [⟨i, none⟩]) (i := i)
      (p := lockPc c'.pc) (by simp [hset]) (by simpa [hset, lockState_loc, lockHart] using hin)
    refine ⟨[⟨i, none⟩] ++ es, ?_, ?_⟩
    · exact (disciplined_append _ _).mpr ⟨disciplined_of_none (by simp), hd⟩
    · rw [runs_append, hes, hset]
      simp only [Function.update_self, Function.update_idem, lockState_loc, lockHart, hholds]

/-! ### The runs -/

/-- The state is that of some programs that unlock what they have locked. -/
def Simulated (cfg : Cfg) (s : Sys M) : Prop :=
  ∃ es, Disciplined (start (Fin M) Lock) es ∧ runs (start (Fin M) Lock) es = lockState cfg s

lemma Simulated.next (h : Simulated cfg s) (hb : booting (s.loc i) = false) :
    Simulated cfg (next (harts cfg) s i) := by
  obtain ⟨es, hd, hes⟩ := h
  obtain ⟨es', hd', hes'⟩ := exists_runs_next cfg hb
  rw [← hes] at hd' hes'
  exact ⟨es ++ es', (disciplined_append _ _).mpr ⟨hd, hd'⟩, by rw [runs_append, hes']⟩

variable {N : ℕ}

lemma boot_lockHart (h : Boot cfg N s) (j : Fin M) :
    lockHart (s.loc j) = ⟨.program, fun _ => false, fun _ => false⟩ := by
  have hpc : lockPc (s.loc j).pc = .program ∧ printPt (s.loc j).pc = none := by
    by_cases hj : j.val = 0
    · rcases h.clearing j hj with hp | ⟨k, hp, -⟩ | ⟨hp, -⟩ <;> simp [hp, lockPc, printPt]
    · rcases h.waiting j hj with hp | hp <;> simp [hp, lockPc, printPt]
  have hholds : holds (s.loc j) = fun _ => false := by
    funext l
    cases l with
    | mtPrintfLock => simp [holds, holdsPrint, hpc.2]
    | globashRestoreLock => simp [holds, holdsGlobash, h.stage_eq_zero j]
  rw [lockHart, hpc.1, hholds]

/-- The step that ends the boot phase leaves the locks free. -/
lemma simulated_of_boot (h : Boot cfg N s) (hi : Inv cfg N (next (harts cfg) s i)) :
    Simulated cfg (next (harts cfg) s i) := by
  set c' := resume cfg (s.loc i) (answer (harts cfg) s i) with hc'
  have hpc : lockPc (s.loc i).pc = .program := congrArg Spinlock.Hart.pc (boot_lockHart h i)
  have hnone (j : Fin M) : holds (s.loc j) = fun _ => false :=
    congrArg Spinlock.Hart.owned (boot_lockHart h j)
  have hholds : holds c' = fun _ => false := by
    have hres := holds_resume cfg (s.loc i) (answer (harts cfg) s i)
    rw [hpc, hnone] at hres
    exact hres
  have hfree (j : Fin M) (l : Lock) : holds ((next (harts cfg) s i).loc j) l = false :=
    forall_next i (P := fun c => holds c l = false) (fun j => by rw [hnone])
      (by rw [← hc', hholds]) j
  have hcount (l : Lock) : count (fun c => holds c l) (next (harts cfg) s i).loc =
      if (next (harts cfg) s i).mem.get cfg.link l.var = 0 then 0 else 1 := by
    cases l with
    | mtPrintfLock => exact hi.print
    | globashRestoreLock => exact hi.globash
  -- Nobody holds a lock, so the invariant says that the words are zero.
  have hword (l : Lock) : (next (harts cfg) s i).mem.get cfg.link l.var = 0 := by
    by_contra hne
    have hone := hcount l
    rw [if_neg hne, count_eq_zero fun j => hfree j l] at hone
    cases hone
  -- The step goes on to the first message, whose call begins with the read of the lock.
  have hcall := lockPc_resume_call cfg (s.loc i) (answer (harts cfg) s i) (.inl hpc)
  obtain ⟨es, hd, hes⟩ := exists_call (s := start (Fin M) Lock) (i := i) (p := lockPc c'.pc) rfl
    (by simpa [← hc', hholds, start] using hcall)
  refine ⟨es, hd, hes.trans ?_⟩
  have hloc : (lockState cfg s).loc = (start (Fin M) Lock).loc := funext (boot_lockHart h)
  have hmem : (lockState cfg (next (harts cfg) s i)).mem = fun _ => 0 := funext hword
  have hhart : lockHart c' = ⟨lockPc c'.pc, fun _ => false, fun _ => false⟩ := by
    rw [lockHart, hholds]
  have hnext := lockState_next_loc cfg s i
  rw [hloc, ← hc', hhart] at hnext
  exact (congrArg₂ St.mk hmem hnext).symm

/-- **The restorer uses its locks as a program should**: from the end of the boot phase on. -/
theorem simulated_run (h : AtReset cfg N s) (hM : M < 2 ^ 31) (hN : N ≤ M) (w : List (Fin M)) :
    Boot cfg N (run (harts cfg) s w) ∨
      Inv cfg N (run (harts cfg) s w) ∧ Simulated cfg (run (harts cfg) s w) := by
  refine run_inv _ (P := fun t => Boot cfg N t ∨ Inv cfg N t ∧ Simulated cfg t) (.inl h.boot)
    (fun t i ht => ?_) w
  rcases ht with hboot | ⟨hinv, hsim⟩
  · rcases hboot.next hM i with hnext | hnext
    · exact .inl hnext
    · exact .inr ⟨hnext, simulated_of_boot hboot hnext⟩
  · exact .inr ⟨hinv.next i (by omega) (by omega), hsim.next (hinv.settled i)⟩

/-- **The locks of the restorer exclude each other's holders**: once the BSS is cleared, one hart at
most prints, one at most is inside the barrier, and the words of the locks tell whether one is. -/
theorem exclusive_locks (h : AtReset cfg N s) (hM : M < 2 ^ 31) (hN : N ≤ M) (w : List (Fin M)) :
    Boot cfg N (run (harts cfg) s w) ∨ Exclusive (lockState cfg (run (harts cfg) s w)) := by
  rcases simulated_run h hM hN w with hboot | ⟨-, es, hd, hes⟩
  · exact .inl hboot
  · obtain ⟨⟨o, -, ho⟩, hok⟩ := represents_runs start_atStart hd
    rw [hes] at ho hok
    exact .inr (ho.exclusive hok)

/-- One hart at the barrier, the other one behind it. -/
theorem exclusive_locks_dirtySys :
    Boot (smallCfg (countRam 2)) 2 (run (harts (smallCfg (countRam 2))) dirtySys
      (List.replicate 400 0 ++ List.replicate 400 1)) ∨
    Exclusive (lockState (smallCfg (countRam 2)) (run (harts (smallCfg (countRam 2))) dirtySys
      (List.replicate 400 0 ++ List.replicate 400 1))) :=
  exclusive_locks dirtySys_atReset (by decide) (by decide) _

end LibCheckpoint.Locks
