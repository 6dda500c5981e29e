import LibCheckpoint.Progress

/-!
When the clock is stored before a hart leaves.

The hart that completes the counter sets `release_restore` before it calls `restore_mtime`, so
a waiting hart can leave in between; and with `all_cpu_num = 0` every hart stores the clock.
-/

namespace LibCheckpoint.Clock

open LibCheckpoint.Bytes LibCheckpoint.Rv64 LibCheckpoint.Layout LibCheckpoint.Restorer
open LibCheckpoint.Interleave LibCheckpoint.Phase LibCheckpoint.Effect LibCheckpoint.Count
open LibCheckpoint.Barrier LibCheckpoint.Progress

variable {M : ℕ} (cfg : Cfg) {N : ℕ}

/-- Whenever some hart has left, the clock has been stored from a checkpoint, and it is not
stored again up to the end of the run. -/
def ClockSafe (s : Sys M) (w : List (Fin M)) : Prop :=
  ∀ u v, w = u ++ v → ∀ i, leaving ((run (harts cfg) s u).loc i) = true →
    (∃ k, (mtimeReg, cfg.ld (cfg.layout ((run (harts cfg) s u).loc k).cpuId).mtimeCptAddr) ∈
      (run (harts cfg) s u).mem.io) ∧
    mtimeStores (run (harts cfg) s w).mem = mtimeStores (run (harts cfg) s u).mem

/-- Hart `i` finds the flag set although the clock has not been stored. -/
def EarlyPoll (s : Sys M) (i : Fin M) : Prop :=
  (s.loc i).pc = .waitRelease ∧ s.mem.get cfg.link .releaseRestore = 1 ∧ mtimeStores s.mem = 0

/-! ### Runs without an early poll -/

variable {cfg} {s : Sys M}

lemma mtimeStores_mono (cfg : Cfg) (s : Sys M) (w : List (Fin M)) :
    mtimeStores s.mem ≤ mtimeStores (run (harts cfg) s w).mem := by
  induction w generalizing s with
  | nil => exact le_rfl
  | cons i w ih =>
    refine le_trans ?_ (ih _)
    rw [next_mem, mtimeStores_after]
    omega

lemma stores_le_one (h : ClockInv cfg N s) (h1 : 1 ≤ N ∨ M = 1) : mtimeStores s.mem ≤ 1 := by
  have hle : count (mtimeDone cfg) s.loc ≤ count isLast s.loc := by
    refine count_mono fun i hi => ?_
    by_cases h7 : stage (s.loc i).pc = 7
    · have := (h.branch i).2 (.inr h7)
      simp [isLast, this, h7]
    · rw [mtimeDone_of_ne_seven cfg _ h7] at hi
      simp only [Bool.and_eq_true, decide_eq_true_eq] at hi
      simp [isLast, hi.1]
      omega
  have hM : count isLast s.loc ≤ M := by simpa using count_le_card isLast s.loc
  have hlast := h.last
  rw [h.clock]
  split_ifs at hlast <;> omega

/-- A step that is not an early poll lets a hart out only when the clock is stored. -/
lemma next_stored (h : ClockInv cfg N s) (hst : ∀ i, 8 ≤ stage (s.loc i).pc →
    0 < mtimeStores s.mem) {i : Fin M} (hi : ¬ EarlyPoll cfg s i) (j : Fin M)
    (hj : 8 ≤ stage ((next (harts cfg) s i).loc j).pc) :
    0 < mtimeStores (next (harts cfg) s i).mem := by
  suffices 0 < mtimeStores s.mem by
    rw [next_mem, mtimeStores_after]
    omega
  by_cases hji : j = i
  · subst hji
    rw [next_loc_resume] at hj
    cases stage_resume cfg (s.loc j) (answer (harts cfg) s j) with
    | stay hn => exact hst j (hn ▸ hj)
    | leave h8 => exact hst j (by omega)
    | wake hp hr =>
      by_contra h0
      refine hi ⟨hp, ?_, by omega⟩
      simpa [answer, act, hp, perform] using hr
    | clock hp h7 =>
      have hl := (h.branch j).2 (.inr h7)
      rw [h.clock]
      exact count_pos (i := j) (by simp [mtimeDone, hp, hl, stores])
    | _ => omega
  · rw [next_loc_of_ne _ _ hji] at hj
    exact hst j hj

/-- **Without an early poll the clock is safe**, when at most one hart stores it. -/
theorem clockSafe_of_not_earlyPoll (h : AtBarrier cfg N s) (hM : M < 2 ^ 64) (hN : N < 2 ^ 31)
    (h1 : 1 ≤ N ∨ M = 1) {w : List (Fin M)}
    (hw : ∀ u i v, w = u ++ i :: v → ¬ EarlyPoll cfg (run (harts cfg) s u) i) :
    ClockSafe cfg s w := by
  intro u v huv i hi
  obtain ⟨hu, hst⟩ := run_inv_along (harts cfg)
    (P := fun t => ClockInv cfg N t ∧ ∀ i, 8 ≤ stage (t.loc i).pc → 0 < mtimeStores t.mem)
    (s := s) (w := w) ⟨h.clockInv, fun i hi => by simp [h.pc i] at hi⟩
    (fun u i v huv ht => ⟨ht.1.next hM hN i, next_stored ht.1 ht.2 (hw u i v huv)⟩) u v huv
  have hpos := hst i (by simp only [leaving, decide_eq_true_eq] at hi; omega)
  constructor
  · obtain ⟨e, he⟩ := List.exists_mem_of_length_pos hpos
    obtain ⟨k, rfl⟩ := hu.source e (List.mem_of_mem_filter he)
    exact ⟨k, List.mem_of_mem_filter he⟩
  · have hle := stores_le_one (h.clockInv.run hM hN w) h1
    have hmono := mtimeStores_mono cfg (run (harts cfg) s u) v
    rw [← run_append, ← huv] at hmono
    omega

lemma not_earlyPoll_single {s : Sys 1} (h : ClockInv cfg N s) (hN : N ≤ 1) (i : Fin 1) :
    ¬ EarlyPoll cfg s i := by
  rintro ⟨hp, -⟩
  have hfalse := (h.branch i).1 hp
  have hcmp : 0 < count compared s.loc := count_pos (i := i) (by simp [compared, hp])
  have hlast : 0 < count isLast s.loc := by
    rw [h.last]
    split_ifs <;> omega
  obtain ⟨j, hj⟩ := exists_of_count_pos hlast
  rw [Subsingleton.elim j i] at hj
  simp [isLast, hfalse] at hj

/-! ### Runs with two harts -/

/-- The locks are free, and the counter, the flag and the CLINT are as given. -/
structure Free (cfg : Cfg) (k : ℕ) (flag : Word) (m : Shared) : Prop where
  globash : m.get cfg.link .globashRestoreLock = 0
  print : m.get cfg.link .mtPrintfLock = 0
  counter : m.get cfg.link .globalAtomicRestoreCounter = BitVec.ofNat 64 k
  flag : m.get cfg.link .releaseRestore = flag
  io : m.io = []

def passed (c : Hart) (last : Bool) : Hart :=
  { c with last, pc := if last then .setRelease else .waitRelease }

/-- The shared memory after a hart alone has gone through the critical section. -/
def arriveMem (cfg : Cfg) (m : Shared) : Shared :=
  let m := (m.set cfg.link .globashRestoreLock (-1)).set cfg.link .globalAtomicRestoreCounter
    (m.get cfg.link .globalAtomicRestoreCounter + 1)
  ((m.set cfg.link .mtPrintfLock (-1)).set cfg.link .mtPrintfLock 0).set cfg.link
    .globashRestoreLock 0

lemma Free.arrive {m : Shared} {k : ℕ} {flag : Word} (h : Free cfg k flag m) :
    Free cfg (k + 1) flag (arriveMem cfg m) where
  globash := by simp [arriveMem]
  print := by simp [arriveMem, Shared.get_set_of_ne]
  counter := by simp [arriveMem, Shared.get_set_of_ne, h.counter, BitVec.ofNat_add]
  flag := by simp [arriveMem, Shared.get_set_of_ne, h.flag]
  io := h.io

lemma alone_arrive {m : Shared} {c : Hart} {k : ℕ} {flag : Word}
    (hp : c.pc = .lockGlobash .read) (h : Free cfg k flag m) :
    (alone (harts cfg))^[10] (m, c) = (arriveMem cfg m, passed c
      (decide (BitVec.ofNat 64 (k + 1) = c.allCpuNum.signExtend 64 ∨ c.allCpuNum = 0))) := by
  have hk : m.get cfg.link .globalAtomicRestoreCounter + 1#64 = BitVec.ofNat 64 (k + 1) := by
    rw [h.counter, BitVec.ofNat_add]
  have hlast : (!(BitVec.ofNat 64 (k + 1) != c.allCpuNum.signExtend 64 && c.allCpuNum != 0)) =
      decide (BitVec.ofNat 64 (k + 1) = c.allCpuNum.signExtend 64 ∨ c.allCpuNum = 0) := by
    simp [bne, beq_eq_decide]
  rw [passed, ← hlast]
  simp [alone, Function.iterate_succ_apply, act, resume, perform, hp, h.globash, h.print,
    Shared.get_set_of_ne, Site.next, hk, arriveMem]

/-- Hart `i` goes through the critical section, the others wait where they are. -/
lemma run_arrive {s : Sys M} {i : Fin M} {k : ℕ} {flag : Word}
    (hp : (s.loc i).pc = .lockGlobash .read) (h : Free cfg k flag s.mem) :
    run (harts cfg) s (List.replicate 10 i) = ⟨arriveMem cfg s.mem,
      Function.update s.loc i (passed (s.loc i)
        (decide (BitVec.ofNat 64 (k + 1) = (s.loc i).allCpuNum.signExtend 64 ∨
          (s.loc i).allCpuNum = 0)))⟩ := by
  rw [run_replicate, alone_arrive hp h]

lemma arrive_iff (h : AtBarrier cfg N s) (hN : N < 2 ^ 31) {k : ℕ} (hk : k + 1 < 2 ^ 64)
    (i : Fin M) : decide (BitVec.ofNat 64 (k + 1) = (s.loc i).allCpuNum.signExtend 64 ∨
      (s.loc i).allCpuNum = 0) = decide (k + 1 = N ∨ N = 0) := by
  rw [decide_eq_decide, h.allCpuNum, signExtend_ofNat hN, ofNat_inj hk (by omega),
    show (0 : BitVec 32) = BitVec.ofNat 32 0 from rfl, ofNat_inj (by omega) (by omega)]

/-- The first `k` harts wait, the others have not moved. -/
structure Waiting (cfg : Cfg) (k : ℕ) (s t : Sys M) : Prop where
  free : Free cfg k 0 t.mem
  early : ∀ j : Fin M, j.val < k → (t.loc j).pc = .waitRelease
  late : ∀ j : Fin M, k ≤ j.val → t.loc j = s.loc j

lemma exists_waiting (h : AtBarrier cfg N s) (hN : N < 2 ^ 31) {k : ℕ} (hk : k < N)
    (hkM : k ≤ M) : ∃ w, Waiting cfg k s (run (harts cfg) s w) := by
  induction k with
  | zero =>
    exact ⟨[], ⟨h.vars _ (by decide), h.vars _ (by decide), h.vars _ (by decide),
      h.vars _ (by decide), h.io⟩, fun j hj => absurd hj (Nat.not_lt_zero _), fun _ _ => rfl⟩
  | succ k ih =>
    obtain ⟨w, hw⟩ := ih (by omega) (by omega)
    obtain ⟨i, hi⟩ : ∃ i : Fin M, i.val = k := ⟨⟨k, by omega⟩, rfl⟩
    have hloc := hw.late i hi.ge
    have hp : ((run (harts cfg) s w).loc i).pc = .lockGlobash .read := by rw [hloc, h.pc]
    refine ⟨w ++ List.replicate 10 i, ?_⟩
    rw [run_append, run_arrive hp hw.free, hloc, arrive_iff h hN (by omega)]
    refine ⟨hw.free.arrive, fun j hj => ?_, fun j hj => ?_⟩ <;> dsimp only
    · by_cases hji : j = i
      · subst hji
        simp [passed, show ¬ (k + 1 = N ∨ N = 0) by omega]
      · have : j.val ≠ k := fun he => hji (Fin.ext (he.trans hi.symm))
        rw [Function.update_of_ne hji]
        exact hw.early j (by omega)
    · have hji : j ≠ i := fun he => by omega
      rw [Function.update_of_ne hji]
      exact hw.late j (by omega)

lemma alone_wake {m : Shared} {c : Hart} (hp : c.pc = .waitRelease)
    (hr : m.get cfg.link .releaseRestore = 1) :
    ((alone (harts cfg))^[3] (m, c)).1 = m ∧
      leaving ((alone (harts cfg))^[3] (m, c)).2 = true := by
  by_cases hg : c.gates.shouldJumpToMepc = true
  · simp [alone, Function.iterate_succ_apply, act, resume, perform, hp, hr, calls, hg,
      Routine.code, Asm.restoreIntVectorJump, leaving, asmStage, Instr.store]
  · simp [alone, Function.iterate_succ_apply, act, resume, perform, hp, hr, calls, hg,
      Routine.next, leaving, asmStage]

/-- A hart that sets the flag stores the clock and leaves, whatever the others do. -/
lemma alone_release (cfg : Cfg) (m : Shared) {c : Hart} (hp : c.pc = .setRelease) :
    leaving ((alone (harts cfg))^[10] (m, c)).2 = true ∧
      ((alone (harts cfg))^[10] (m, c)).1.io =
        (mtimeReg, cfg.ld (cfg.layout c.cpuId).mtimeCptAddr) :: m.io := by
  by_cases hg : c.gates.shouldJumpToMepc = true <;>
    simp [alone, Function.iterate_succ_apply, act, resume, perform, hp, calls, hg, finish,
      Routine.code, Routine.next, withArgs, Asm.restoreMtime, Asm.restoreIntVectorJump, leaving,
      asmStage, Instr.store, Instr.exec, ea, Arch.getX_setX, Asm.t0, Asm.t1, Asm.a0, mtimeReg,
      Cfg.ld, Shared.set]

/-! ### Why one hart only -/

lemma Free.release {m : Shared} {k : ℕ} {flag : Word} (h : Free cfg k flag m) :
    Free cfg k 1 (m.set cfg.link .releaseRestore 1) where
  globash := by simp [Shared.get_set_of_ne, h.globash]
  print := by simp [Shared.get_set_of_ne, h.print]
  counter := by simp [Shared.get_set_of_ne, h.counter]
  flag := by simp
  io := h.io

lemma next_release {t : Sys M} {i : Fin M} (hp : (t.loc i).pc = .setRelease) :
    next (harts cfg) t i = ⟨t.mem.set cfg.link .releaseRestore 1,
      Function.update t.loc i { t.loc i with pc := .call .restoreMtime }⟩ := by
  simp [next, answer, act, resume, perform, hp]

/-- A hart that waits while the flag is set and the clock is not stored makes a run unsafe. -/
lemma unsafe_of_waiting {w : List (Fin M)} {k : ℕ} {y : Fin M}
    (hp : ((run (harts cfg) s w).loc y).pc = .waitRelease)
    (h : Free cfg k 1 (run (harts cfg) s w).mem) :
    ¬ ClockSafe cfg s (w ++ List.replicate 3 y) := by
  intro hsafe
  obtain ⟨hmem, hleave⟩ := alone_wake hp h.flag
  have hrun : run (harts cfg) s (w ++ List.replicate 3 y) = ⟨(run (harts cfg) s w).mem,
      Function.update (run (harts cfg) s w).loc y ((alone (harts cfg))^[3]
        ((run (harts cfg) s w).mem, (run (harts cfg) s w).loc y)).2⟩ := by
    rw [run_append, run_replicate, hmem]
  obtain ⟨⟨k, hk⟩, -⟩ := hsafe _ [] (List.append_nil _).symm y (by rw [hrun]; simpa using hleave)
  rw [hrun] at hk
  simp [h.io] at hk

/-- With a count to wait for, a waiting hart leaves between the flag and the clock. -/
lemma exists_unsafe_of_pos (h : AtBarrier cfg N s) (hN : N < 2 ^ 31) (hN1 : 1 ≤ N)
    (hNM : N ≤ M) (hM : 2 ≤ M) : ∃ w, ¬ ClockSafe cfg s w := by
  -- `N - 1` harts wait, then hart `i` is the last one and sets the flag.
  obtain ⟨w, hw⟩ := exists_waiting h hN (k := N - 1) (by omega) (by omega)
  obtain ⟨i, hi⟩ : ∃ i : Fin M, i.val = N - 1 := ⟨⟨N - 1, by omega⟩, rfl⟩
  have hloc := hw.late i hi.ge
  have hp : ((run (harts cfg) s w).loc i).pc = .lockGlobash .read := by rw [hloc, h.pc]
  have hrun := run_arrive hp hw.free
  rw [hloc, arrive_iff h hN (by omega), show decide (N - 1 + 1 = N ∨ N = 0) = true by
    simp; omega, ← run_append] at hrun
  have hrel : run (harts cfg) s (w ++ List.replicate 10 i ++ [i]) =
      ⟨(arriveMem cfg (run (harts cfg) s w).mem).set cfg.link .releaseRestore 1,
        Function.update (run (harts cfg) s w).loc i
          { passed (s.loc i) true with pc := .call .restoreMtime }⟩ := by
    rw [run_concat, hrun, next_release (by simp [passed])]
    simp
  have hfree :
      Free cfg (N - 1 + 1) 1 (run (harts cfg) s (w ++ List.replicate 10 i ++ [i])).mem := by
    rw [hrel]
    exact hw.free.arrive.release
  by_cases h1 : N = 1
  · -- hart `1` arrives after the release, finds the counter at `2` and waits
    obtain ⟨y, hy⟩ : ∃ y : Fin M, y.val = 1 := ⟨⟨1, by omega⟩, rfl⟩
    have hyi : y ≠ i := fun he => by omega
    have hyloc : (run (harts cfg) s (w ++ List.replicate 10 i ++ [i])).loc y = s.loc y := by
      rw [hrel]
      simpa [hyi] using hw.late y (by omega)
    have hrun' := run_arrive (by rw [hyloc, h.pc]) hfree
    rw [hyloc, arrive_iff h hN (by omega), show decide (N - 1 + 1 + 1 = N ∨ N = 0) = false by
      simp; omega, ← run_append] at hrun'
    refine ⟨_, unsafe_of_waiting (k := N - 1 + 1 + 1) (y := y)
      (w := w ++ List.replicate 10 i ++ [i] ++ List.replicate 10 y) ?_ ?_⟩ <;> rw [hrun']
    · simp [passed]
    · exact hfree.arrive
  · -- Hart `0` waits already, and leaves before hart `i` stores the clock.
    obtain ⟨y, hy⟩ : ∃ y : Fin M, y.val = 0 := ⟨⟨0, by omega⟩, rfl⟩
    have hyi : y ≠ i := fun he => by omega
    refine ⟨_, unsafe_of_waiting (y := y) ?_ hfree⟩
    rw [hrel]
    simpa [hyi] using hw.early y (by omega)

/-- With `all_cpu_num = 0`, a hart leaves and another one stores the clock again. -/
lemma exists_unsafe_of_zero (h : AtBarrier cfg 0 s) (hM : 2 ≤ M) : ∃ w, ¬ ClockSafe cfg s w := by
  obtain ⟨x, hx⟩ : ∃ x : Fin M, x.val = 0 := ⟨⟨0, by omega⟩, rfl⟩
  obtain ⟨y, hy⟩ : ∃ y : Fin M, y.val = 1 := ⟨⟨1, by omega⟩, rfl⟩
  have hyx : y ≠ x := fun he => by omega
  have hfree : Free cfg 0 0 s.mem := ⟨h.vars _ (by decide), h.vars _ (by decide),
    h.vars _ (by decide), h.vars _ (by decide), h.io⟩
  have hpass (k : ℕ) : decide (k = 0 ∨ (0 : ℕ) = 0) = true := by simp
  -- both harts come out of the critical section, then one after the other leaves
  obtain ⟨w, hpx, hpy⟩ : ∃ w, ((run (harts cfg) s w).loc x).pc = .setRelease ∧
      ((run (harts cfg) s w).loc y).pc = .setRelease := by
    have hx1 := run_arrive (h.pc x) hfree
    rw [arrive_iff h (by omega) (by omega), hpass] at hx1
    have hyloc : (run (harts cfg) s (List.replicate 10 x)).loc y = s.loc y := by
      rw [hx1]
      simp [hyx]
    have hy1 := run_arrive (by rw [hyloc, h.pc]) (by rw [hx1]; exact hfree.arrive)
    rw [hyloc, arrive_iff h (by omega) (by omega), hpass, ← run_append, hx1] at hy1
    refine ⟨List.replicate 10 x ++ List.replicate 10 y, ?_, ?_⟩ <;> rw [hy1] <;>
      simp [passed, Ne.symm hyx]
  have hx2 := run_replicate (harts cfg) (run (harts cfg) s w) x 10
  have hy2 := run_replicate (harts cfg) (run (harts cfg) s (w ++ List.replicate 10 x)) y 10
  rw [← run_append] at hx2 hy2
  have hyloc : ((run (harts cfg) s (w ++ List.replicate 10 x)).loc y).pc = .setRelease := by
    rw [hx2]
    simpa [hyx] using hpy
  refine ⟨w ++ List.replicate 10 x ++ List.replicate 10 y, fun hsafe => ?_⟩
  obtain ⟨-, heq⟩ := hsafe _ _ rfl x (by rw [hx2]; simpa using (alone_release cfg _ hpx).1)
  have hio := (alone_release cfg (run (harts cfg) s (w ++ List.replicate 10 x)).mem hyloc).2
  rw [hy2, mtimeStores, hio] at heq
  simp [mtimeStores] at heq

/-- **When the clock is safe**: under every schedule exactly when there is one hart; and with a
count to wait for, along every run in which no waiting hart finds the flag set before the clock
is stored. -/
theorem clock_safe_iff (hM : 1 ≤ M) (hN : N < 2 ^ 31) (hNM : N = 0 ∨ 1 ≤ N ∧ N ≤ M)
    (h : AtBarrier cfg N s) :
    ((∀ w, ClockSafe cfg s w) ↔ M = 1) ∧
    (1 ≤ N → M < 2 ^ 64 → ∀ w, (∀ u i v, w = u ++ i :: v →
      ¬ EarlyPoll cfg (run (harts cfg) s u) i) → ClockSafe cfg s w) := by
  refine ⟨⟨fun hsafe => ?_, ?_⟩, fun hN1 hM64 w hw =>
    clockSafe_of_not_earlyPoll h hM64 hN (.inl hN1) hw⟩
  · by_contra hM1
    have hM2 : 2 ≤ M := by omega
    rcases hNM with rfl | ⟨hN1, hNM⟩
    · obtain ⟨w, hw⟩ := exists_unsafe_of_zero h hM2
      exact hw (hsafe w)
    · obtain ⟨w, hw⟩ := exists_unsafe_of_pos h hN hN1 hNM hM2
      exact hw (hsafe w)
  · rintro rfl w
    refine clockSafe_of_not_earlyPoll h (by omega) hN (.inr rfl) fun u i v _ => ?_
    exact not_earlyPoll_single (h.clockInv.run (by omega) hN u) (by omega) i

theorem clock_safe_iff_small : ((∀ w, ClockSafe (smallCfg fun _ => 0)
    (smallSys 2 (.lockGlobash .read) 2) w) ↔ (2 : ℕ) = 1) :=
  (clock_safe_iff (by decide) (by decide) (by decide) small_atBarrier).1

/-- Two harts, `all_cpu_num = 2`: hart `0` waits, hart `1` sets the flag, hart `0` leaves. -/
theorem not_clockSafe_small : ¬ ∀ w, ClockSafe (smallCfg fun _ => 0)
    (smallSys 2 (.lockGlobash .read) 2) w := by
  intro h
  have hio : (run (harts (smallCfg fun _ => 0)) (smallSys 2 (.lockGlobash .read) 2)
      (List.replicate 10 0 ++ List.replicate 11 1 ++ List.replicate 3 0)).mem.io = [] := by
    decide +kernel
  obtain ⟨⟨k, hk⟩, -⟩ := h _ (List.replicate 10 0 ++ List.replicate 11 1 ++ List.replicate 3 0)
    [] (List.append_nil _).symm 0 (by decide +kernel)
  rw [hio] at hk
  exact absurd hk List.not_mem_nil

end LibCheckpoint.Clock
