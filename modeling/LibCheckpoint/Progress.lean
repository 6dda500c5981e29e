import LibCheckpoint.Barrier

/-!
The barrier from the point where every hart has reached it: one hart stores the clock, and the
harts never block each other.
-/

namespace LibCheckpoint.Progress

open LibCheckpoint.Bytes LibCheckpoint.Rv64 LibCheckpoint.Layout LibCheckpoint.Restorer
open LibCheckpoint.Interleave LibCheckpoint.Phase LibCheckpoint.Effect LibCheckpoint.Count
open LibCheckpoint.Barrier

variable {M : ℕ} (cfg : Cfg) (N : ℕ)

/-- Every hart is about to take `globash_restore_lock`, and nobody has done so yet. -/
structure AtBarrier (s : Sys M) : Prop where
  pc : ∀ i, (s.loc i).pc = .lockGlobash .read
  allCpuNum : ∀ i, (s.loc i).allCpuNum = BitVec.ofNat 32 N
  vars : ∀ x, x ≠ .bssLock → s.mem.get cfg.link x = 0
  io : s.mem.io = []

def mtimeStores (m : Shared) : ℕ := (m.io.filter fun e => e.1 = mtimeReg).length

/-- The invariant of the barrier, and the clock: as often as it has been written, a hart has
written it. -/
structure ClockInv (s : Sys M) : Prop extends Inv cfg N s where
  inside : ∀ i, 2 ≤ stage (s.loc i).pc
  storesOk : ∀ i, storesOk cfg (s.loc i)
  clock : mtimeStores s.mem = count (mtimeDone cfg) s.loc
  source : ∀ e ∈ s.mem.io,
    ∃ k, e = (mtimeReg, cfg.ld (cfg.layout (s.loc k).cpuId).mtimeCptAddr)

variable {cfg N} {s : Sys M}

lemma AtBarrier.clockInv (h : AtBarrier cfg N s) : ClockInv cfg N s where
  toInv := Inv.fresh (fun i => by simp [h.pc i]) (fun i => by simp [booting, h.pc i])
    (fun i => by simp [holdsPrint, printPt, h.pc i]) h.vars (fun i hi => by simp [h.pc i] at hi)
    fun i _ => h.allCpuNum i
  inside i := by simp [h.pc i]
  storesOk i q code hq := by simp [h.pc i] at hq
  clock := by
    rw [count_eq_zero fun i => by simp [mtimeDone, h.pc i], mtimeStores, h.io]
    rfl
  source := by simp [h.io]

lemma mtimeStores_after (c : Hart) (m : Shared) :
    mtimeStores (after cfg c m) = mtimeStores m + (storesMtime (act cfg c)).toNat := by
  unfold after
  cases act cfg c with
  | io a w =>
    by_cases h : a = mtimeReg <;> simp [perform, mtimeStores, storesMtime, h]
  | _ => simp [perform, mtimeStores, storesMtime, Shared.set]

lemma ClockInv.next (h : ClockInv cfg N s) (hM : M < 2 ^ 64) (hN : N < 2 ^ 31) (i : Fin M) :
    ClockInv cfg N (next (harts cfg) s i) where
  toInv := h.toInv.next i hM hN
  inside := forall_next i (P := fun c => 2 ≤ stage c.pc) h.inside
    ((h.inside i).trans (stage_mono cfg _ _))
  storesOk := forall_next i (P := Effect.storesOk cfg) h.storesOk
    (storesOk_resume cfg _ _ (h.storesOk i))
  clock := by
    have hc := count_next cfg s i (mtimeDone cfg)
    have hd := mtimeDone_resume cfg _ (answer (harts cfg) s i) (h.storesOk i) (h.branch i)
      (.inl (h.inside i))
    rw [next_mem, mtimeStores_after, h.clock]
    omega
  source := by
    simp only [next_cpuId]
    rw [next_mem, after_io]
    intro e he
    split at he
    · rename_i a w ha
      rcases List.mem_cons.mp he with rfl | he
      · exact ⟨i, io_inside cfg _ (h.storesOk i) (h.inside i) ha⟩
      · exact h.source e he
    · exact h.source e he

lemma ClockInv.run (h : ClockInv cfg N s) (hM : M < 2 ^ 64) (hN : N < 2 ^ 31)
    (w : List (Fin M)) : ClockInv cfg N (run (harts cfg) s w) :=
  run_inv _ h (fun _ i ht => ht.next hM hN i) w

/-! ### Steps that lead nowhere -/

/-- The answer `r` leaves the hart spinning: the condition of its loop is still false, or its
swap has failed. A hart at one of its ends is idle too. -/
def idle (c : Hart) (r : Word) : Bool :=
  match c.pc with
  | .waitBssLock => r == 0
  | .mtPrintf _ (.lock _) | .lockGlobash _ => r != 0
  | .waitRelease => r != 1
  | .stopped | .gone _ | .nemuSignal _ | .stuck => true
  | _ => false

/-- Inside the barrier a hart is idle in a lock or in the wait loop only. -/
lemma idle_cases {c : Hart} {r : Word} (h : idle c r = true) (h2 : 2 ≤ stage c.pc)
    (h9 : stage c.pc < 9) :
    ((∃ p, c.pc = .lockGlobash p) ∧ r ≠ 0) ∨ ((∃ site p, c.pc = .mtPrintf site (.lock p)) ∧ r ≠ 0) ∨
      (c.pc = .waitRelease ∧ r ≠ 1) := by
  cases hp : c.pc with
  | mtPrintf site p =>
    cases p with
    | lock p => exact .inr (.inl ⟨⟨site, p, rfl⟩, by simpa [idle, hp] using h⟩)
    | _ => simp [idle, hp] at h
  | lockGlobash p => exact .inl ⟨⟨p, rfl⟩, by simpa [idle, hp] using h⟩
  | waitRelease => exact .inr (.inr ⟨rfl, by simpa [idle, hp] using h⟩)
  | waitBssLock | stopped | nemuSignal => simp [hp] at h2
  | gone | stuck => simp [hp] at h9
  | _ => simp [idle, hp] at h

/-! ### Some hart can go on -/

section

variable (h : ClockInv cfg N s)
include h

/-- While a hart owns `globash_restore_lock`, it or the owner of `mt_printf_lock` can go on. -/
lemma ClockInv.advance_owner {j : Fin M} (hj : holdsGlobash (s.loc j) = true) :
    ∃ k, leaving (s.loc k) = false ∧ idle (s.loc k) (answer (harts cfg) s k) = false := by
  simp only [holdsGlobash, decide_eq_true_eq] at hj
  by_cases hi : idle (s.loc j) (answer (harts cfg) s j) = true
  · rcases idle_cases hi (by omega) (by omega) with ⟨⟨p, hp⟩, -⟩ | ⟨⟨site, p, hp⟩, hr⟩ | ⟨hp, -⟩
    · simp [hp] at hj
    · have hlock : s.mem.get cfg.link .mtPrintfLock ≠ 0 := by
        cases p <;> simpa [answer, act, hp, perform] using hr
      have hpos : 0 < count holdsPrint s.loc := by rw [h.print, if_neg hlock]; omega
      obtain ⟨k, hk⟩ := exists_of_count_pos hpos
      have h2 := h.inside k
      simp only [holdsPrint, printPt_eq, decide_eq_true_eq] at hk
      refine ⟨k, ?_, ?_⟩
      · rcases hk with ⟨site, hk⟩ | ⟨site, hk⟩ <;> cases site <;>
          simp_all [leaving, siteStage]
      · rcases hk with ⟨site, hk⟩ | ⟨site, hk⟩ <;> simp [idle, hk]
    · simp [hp] at hj
  · exact ⟨j, by simp [leaving]; omega, by simpa using hi⟩

/-- When every hart has compared the counter, one of them releases the others. -/
lemma ClockInv.advance_released (hN : N = M) (hN1 : 1 ≤ N) (h6 : ∀ i, 6 ≤ stage (s.loc i).pc)
    {i : Fin M} (hi : leaving (s.loc i) = false) :
    ∃ k, leaving (s.loc k) = false ∧ idle (s.loc k) (answer (harts cfg) s k) = false := by
  have hall : count compared s.loc = M := by
    rw [count_eq_card_of_all fun j => by have := h6 j; simp [compared]; omega]
    simp
  have hlast : 0 < count isLast s.loc := by
    rw [h.last, if_neg (by omega), if_pos (by omega)]
    omega
  obtain ⟨l, hl⟩ := exists_of_count_pos hlast
  simp only [isLast, Bool.and_eq_true, decide_eq_true_eq] at hl
  have h6l := h6 l
  -- Either the last hart has set the flag, and `i` finds it, or it is on its way there.
  by_cases h8 : 8 ≤ stage (s.loc l).pc
  · have hflag : s.mem.get cfg.link .releaseRestore = 1 := by
      have : 0 < count released s.loc := count_pos (i := l) (by simp [released, hl.1]; omega)
      rw [h.flag, if_pos this]
    refine ⟨i, hi, ?_⟩
    have h6i := h6 i
    simp only [leaving, decide_eq_false_iff_not, not_le] at hi
    by_contra hid
    rcases idle_cases (by simpa using hid) (by omega) (by omega) with
      ⟨⟨p, hp⟩, -⟩ | ⟨⟨site, p, hp⟩, -⟩ | ⟨hp, hr⟩
    · simp [hp] at h6i
    · cases site <;> simp [hp, siteStage] at h6i
    · exact hr (by simpa [answer, act, hp, perform] using hflag)
  · refine ⟨l, by simp [leaving]; omega, ?_⟩
    by_contra hid
    rcases idle_cases (by simpa using hid) (by omega) (by omega) with
      ⟨⟨p, hp⟩, -⟩ | ⟨⟨site, p, hp⟩, -⟩ | ⟨hp, -⟩
    · simp [hp] at h6l
    · cases site <;> simp [hp, siteStage] at h6l
    · have := (h.branch l).1 hp
      simp [hl.1] at this

/-- **No deadlock**: while a hart has not left, one of them can go on. -/
theorem ClockInv.advance (hN : N = M) (hN1 : 1 ≤ N) {i : Fin M}
    (hi : leaving (s.loc i) = false) :
    ∃ k, leaving (s.loc k) = false ∧ idle (s.loc k) (answer (harts cfg) s k) = false := by
  by_cases howner : ∃ j, holdsGlobash (s.loc j) = true
  · obtain ⟨j, hj⟩ := howner
    exact h.advance_owner hj
  simp only [not_exists, Bool.not_eq_true] at howner
  by_cases h2 : ∃ j, stage (s.loc j).pc = 2
  · obtain ⟨j, hj⟩ := h2
    have hfree : s.mem.get cfg.link .globashRestoreLock = 0 := by
      have := h.globash
      rw [count_eq_zero howner] at this
      by_contra hne
      rw [if_neg hne] at this
      omega
    refine ⟨j, by simp [leaving, hj], ?_⟩
    by_contra hid
    rcases idle_cases (by simpa using hid) (by omega) (by omega) with
      ⟨⟨p, hp⟩, hr⟩ | ⟨⟨site, p, hp⟩, -⟩ | ⟨hp, -⟩
    · cases p <;> exact hr (by simpa [answer, act, hp, perform] using hfree)
    · cases site <;> simp [hp, siteStage] at hj
    · simp [hp] at hj
  · refine h.advance_released hN hN1 (fun j => ?_) hi
    have h2j := h.inside j
    have hne : stage (s.loc j).pc ≠ 2 := fun hj => h2 ⟨j, hj⟩
    have hown := howner j
    simp only [holdsGlobash, decide_eq_false_iff_not] at hown
    omega

/-- When every hart has left, the barrier is as it should be. -/
theorem ClockInv.complete (hN : N = M) (hN1 : 1 ≤ N)
    (hall : ∀ i, leaving (s.loc i) = true) :
    s.mem.get cfg.link .globalAtomicRestoreCounter = BitVec.ofNat 64 N ∧
    s.mem.get cfg.link .releaseRestore = 1 ∧ s.mem.get cfg.link .globashRestoreLock = 0 ∧
    s.mem.get cfg.link .mtPrintfLock = 0 ∧ mtimeStores s.mem = 1 := by
  have h9 (i : Fin M) : 9 ≤ stage (s.loc i).pc := by simpa [leaving] using hall i
  -- Every hart has been counted, one of them as the last, and has set the flag.
  have hcounted : count counted s.loc = M := by
    rw [count_eq_card_of_all fun i => by have := h9 i; simp [counted]; omega]
    simp
  have hcompared : count compared s.loc = M := by
    rw [count_eq_card_of_all fun i => by have := h9 i; simp [compared]; omega]
    simp
  have hlast : count isLast s.loc = 1 := by
    rw [h.last, if_neg (by omega), if_pos (by omega)]
  have hreleased : count released s.loc = count isLast s.loc :=
    count_congr fun i => by
      have := h9 i
      simp [released, isLast, show 7 ≤ stage (s.loc i).pc by omega,
        show 5 ≤ stage (s.loc i).pc by omega]
  have hdone : count (mtimeDone cfg) s.loc = count isLast s.loc :=
    count_congr fun i => by
      have := h9 i
      simp [mtimeDone_of_ne_seven cfg (s.loc i) (by omega), isLast,
        show 8 ≤ stage (s.loc i).pc by omega, show 5 ≤ stage (s.loc i).pc by omega]
  refine ⟨?_, ?_, ?_, ?_, ?_⟩
  · rw [h.counter, hcounted, hN]
  · rw [h.flag, hreleased, hlast]
    rfl
  · -- No hart is at a point at which it would own a lock.
    have hg := h.globash
    rw [count_eq_zero fun i => by have := h9 i; simp [holdsGlobash]; omega] at hg
    by_contra hne
    rw [if_neg hne] at hg
    omega
  · have hp := h.print
    rw [count_eq_zero fun i => ?_] at hp
    · by_contra hne
      rw [if_neg hne] at hp
      omega
    · by_contra hpi
      simp only [holdsPrint, printPt_eq, Bool.not_eq_false, decide_eq_true_eq] at hpi
      have := h9 i
      rcases hpi with ⟨site, hpi⟩ | ⟨site, hpi⟩ <;> cases site <;> simp [hpi, siteStage] at this
  · rw [h.clock, hdone, hlast]

end

/-- **The barrier of `N` harts**: in every state at most one hart has taken the branch that
sets the flag and stores the clock; while a hart has not left, some hart can do more than spin;
and when all have left, the counter is `N`, the flag is set, the locks are free and the clock has
been stored once. -/
theorem barrier_live {s : Sys N} (hN1 : 1 ≤ N) (hN : N < 2 ^ 31) (h : AtBarrier cfg N s)
    (w : List (Fin N)) :
    (∀ i j, isLast ((run (harts cfg) s w).loc i) = true →
      isLast ((run (harts cfg) s w).loc j) = true → i = j) ∧
    ((∃ i, leaving ((run (harts cfg) s w).loc i) = false) →
      ∃ k, leaving ((run (harts cfg) s w).loc k) = false ∧
        idle ((run (harts cfg) s w).loc k) (answer (harts cfg) (run (harts cfg) s w) k) =
          false) ∧
    ((∀ i, leaving ((run (harts cfg) s w).loc i) = true) →
      (run (harts cfg) s w).mem.get cfg.link .globalAtomicRestoreCounter =
        BitVec.ofNat 64 N ∧
      (run (harts cfg) s w).mem.get cfg.link .releaseRestore = 1 ∧
      (run (harts cfg) s w).mem.get cfg.link .globashRestoreLock = 0 ∧
      (run (harts cfg) s w).mem.get cfg.link .mtPrintfLock = 0 ∧
      mtimeStores (run (harts cfg) s w).mem = 1) := by
  have hw := h.clockInv.run (by omega) hN w
  refine ⟨fun i j => eq_of_count_le_one ?_, fun ⟨i, hi⟩ => hw.advance rfl hN1 hi,
    hw.complete rfl hN1⟩
  rw [hw.last]
  split_ifs <;> omega

lemma small_atBarrier : AtBarrier (smallCfg fun _ => 0) 2 (smallSys 2 (.lockGlobash .read) 2) where
  pc := by decide
  allCpuNum := by decide
  vars x _ := by cases x <;> decide
  io := rfl

/-- Hart `0` up to its increment; and both harts one after the other until they have left. -/
theorem barrier_live_small :
    (∃ k, leaving ((run (harts (smallCfg fun _ => 0)) (smallSys 2 (.lockGlobash .read) 2)
        [0, 0, 0]).loc k) = false ∧
      idle ((run (harts (smallCfg fun _ => 0)) (smallSys 2 (.lockGlobash .read) 2)
          [0, 0, 0]).loc k)
        (answer (harts (smallCfg fun _ => 0)) (run (harts (smallCfg fun _ => 0))
          (smallSys 2 (.lockGlobash .read) 2) [0, 0, 0]) k) = false) ∧
    mtimeStores (run (harts (smallCfg fun _ => 0)) (smallSys 2 (.lockGlobash .read) 2)
      (List.replicate 20 0 ++ List.replicate 30 1 ++ List.replicate 20 0)).mem = 1 :=
  ⟨(barrier_live (by decide) (by decide) small_atBarrier _).2.1 ⟨0, by decide +kernel⟩,
    ((barrier_live (by decide) (by decide) small_atBarrier _).2.2 (by decide +kernel)).2.2.2.2⟩

end LibCheckpoint.Progress
