import LibCheckpoint.Effect
import LibCheckpoint.Count

/-!
The invariant of the barrier: what the two locks, the counter and the release flag say about
the harts.
-/

namespace LibCheckpoint.Barrier

open LibCheckpoint.Bytes LibCheckpoint.Rv64 LibCheckpoint.Layout LibCheckpoint.Restorer
open LibCheckpoint.Interleave LibCheckpoint.Phase LibCheckpoint.Effect LibCheckpoint.Count

variable {M : ℕ} (cfg : Cfg) (N : ℕ)

/-- The invariant, from the point where no hart writes to the BSS as a whole any more. -/
structure Inv (s : Sys M) : Prop where
  settled : ∀ i, booting (s.loc i) = false
  reserve : ∀ i, stage (s.loc i).pc = 0 →
    (cfg.ld (cfg.layout (s.loc i).cpuId).csrReserve).setWidth 32 = BitVec.ofNat 32 N
  allCpuNum : ∀ i, 1 ≤ stage (s.loc i).pc → (s.loc i).allCpuNum = BitVec.ofNat 32 N
  branch : ∀ i, branchOk (s.loc i)
  globash : count holdsGlobash s.loc =
    if s.mem.get cfg.link .globashRestoreLock = 0 then 0 else 1
  print : count holdsPrint s.loc = if s.mem.get cfg.link .mtPrintfLock = 0 then 0 else 1
  counter : s.mem.get cfg.link .globalAtomicRestoreCounter =
    BitVec.ofNat 64 (count counted s.loc)
  last : count isLast s.loc =
    if N = 0 then count compared s.loc else if N ≤ count compared s.loc then 1 else 0
  flag : s.mem.get cfg.link .releaseRestore = if 0 < count released s.loc then 1 else 0
  wake : ∀ i, (s.loc i).last = false → 8 ≤ stage (s.loc i).pc →
    s.mem.get cfg.link .releaseRestore = 1

/-! ### One step -/

/-- The step of a lock: `n` threads hold it, and one thread takes it, fails to take it, gives
it back, or does something else. -/
lemma lock_step {n n' : ℕ} {b b' : Bool} {w w' : Word} (hn : n' + b.toNat = n + b'.toNat)
    (h : n = if w = 0 then 0 else 1)
    (hstep : (b = false ∧ b' = decide (w = 0) ∧ w' = -1) ∨ (b = true ∧ b' = false ∧ w' = 0) ∨
      (b' = b ∧ w' = w)) : n' = if w' = 0 then 0 else 1 := by
  have h1 : (-1 : Word) ≠ 0 := by decide
  rcases hstep with ⟨rfl, rfl, rfl⟩ | ⟨rfl, rfl, rfl⟩ | ⟨rfl, rfl⟩
  · by_cases hw : w = 0 <;> simp_all
  · simp only [Bool.toNat_true, Bool.toNat_false] at hn
    split_ifs at h <;> simp <;> omega
  · omega

lemma signExtend_ofNat {n : ℕ} (h : n < 2 ^ 31) :
    (BitVec.ofNat 32 n).signExtend 64 = BitVec.ofNat 64 n := by
  rw [BitVec.signExtend_eq_setWidth_of_msb_false]
  · exact BitVec.eq_of_toNat_eq (by simp; omega)
  · rw [BitVec.msb_eq_decide]
    simp; omega

lemma ofNat_inj {w m n : ℕ} (hm : m < 2 ^ w) (hn : n < 2 ^ w) :
    BitVec.ofNat w m = BitVec.ofNat w n ↔ m = n := by
  refine ⟨fun h => ?_, fun h => by rw [h]⟩
  simpa [Nat.mod_eq_of_lt hm, Nat.mod_eq_of_lt hn] using congrArg BitVec.toNat h

variable {cfg N} {s : Sys M} (i : Fin M)

lemma next_mem : (next (harts cfg) s i).mem = after cfg (s.loc i) s.mem := rfl

lemma count_next (cfg : Cfg) (s : Sys M) (i : Fin M) (p : Hart → Bool) :
    count p (next (harts cfg) s i).loc + (p (s.loc i)).toNat =
      count p s.loc + (p (resume cfg (s.loc i) (answer (harts cfg) s i))).toNat :=
  count_update p s.loc i _

lemma next_loc_resume :
    (next (harts cfg) s i).loc i = resume cfg (s.loc i) (answer (harts cfg) s i) :=
  next_loc_self _ _ _

lemma next_cpuId (j : Fin M) : ((next (harts cfg) s i).loc j).cpuId = (s.loc j).cpuId := by
  by_cases hj : j = i
  · subst hj
    rw [next_loc_resume, resume_cpuId]
  · rw [next_loc_of_ne _ _ hj]

lemma count_next_of_eq {p : Hart → Bool}
    (h : p (resume cfg (s.loc i) (answer (harts cfg) s i)) = p (s.loc i)) :
    count p (next (harts cfg) s i).loc = count p s.loc := by
  have := count_next cfg s i p
  rw [h] at this
  omega

lemma forall_next {P : Hart → Prop} (h : ∀ j, P (s.loc j))
    (hi : P (resume cfg (s.loc i) (answer (harts cfg) s i))) (j : Fin M) :
    P ((next (harts cfg) s i).loc j) := by
  by_cases hj : j = i
  · subst hj
    rwa [next_loc_resume]
  · rw [next_loc_of_ne _ _ hj]
    exact h j

/-- The invariant holds when nobody has come to the barrier yet. -/
lemma Inv.fresh (hstage : ∀ i, stage (s.loc i).pc ≤ 2) (hset : ∀ i, booting (s.loc i) = false)
    (hprint : ∀ i, holdsPrint (s.loc i) = false)
    (hvars : ∀ x, x ≠ .bssLock → s.mem.get cfg.link x = 0)
    (hres : ∀ i, stage (s.loc i).pc = 0 →
      (cfg.ld (cfg.layout (s.loc i).cpuId).csrReserve).setWidth 32 = BitVec.ofNat 32 N)
    (hnum : ∀ i, 1 ≤ stage (s.loc i).pc → (s.loc i).allCpuNum = BitVec.ofNat 32 N) :
    Inv cfg N s := by
  -- Every predicate of the invariant asks for a later stage, so nothing is counted yet.
  have hcount (n : ℕ) (hn : 2 < n) (p : Hart → Bool)
      (hp : ∀ c, p c = true → n ≤ stage c.pc) : count p s.loc = 0 := by
    refine count_eq_zero fun i => Bool.eq_false_iff.mpr fun hi => ?_
    have := hp _ hi
    have := hstage i
    omega
  have hcompared : count compared s.loc = 0 := hcount 5 (by omega) _ (by simp [compared])
  have hlast : count isLast s.loc = 0 := hcount 5 (by omega) _ (by simp [isLast])
  exact {
    settled := hset
    reserve := hres
    allCpuNum := hnum
    branch := fun i => by
      have := hstage i
      refine ⟨fun hp => by simp [hp] at this, fun hp => ?_⟩
      rcases hp with hp | hp
      · simp [hp] at this
      · omega
    globash := by
      rw [hvars _ (by decide), hcount 3 (by omega) _ (by simp [holdsGlobash]; omega)]
      rfl
    print := by
      rw [hvars _ (by decide), count_eq_zero hprint]
      rfl
    counter := by
      rw [hvars _ (by decide), hcount 4 (by omega) _ (by simp [counted])]
      rfl
    last := by
      rw [hlast, hcompared]
      split_ifs <;> omega
    flag := by
      rw [hvars _ (by decide), hcount 7 (by omega) _ (by simp [released])]
      rfl
    wake := fun i _ h8 => by
      have := hstage i
      omega }

variable (h : Inv cfg N s)
include h

lemma Inv.next_globash : count holdsGlobash (next (harts cfg) s i).loc =
    if (next (harts cfg) s i).mem.get cfg.link .globashRestoreLock = 0 then 0 else 1 := by
  refine lock_step (count_next cfg s i holdsGlobash) h.globash ?_
  rw [next_mem, get_globashRestoreLock cfg _ _ (h.settled i), holdsGlobash_resume]
  split_ifs with hl hu
  · refine .inl ⟨by simp [holdsGlobash, hl], ?_, rfl⟩
    simp [answer, harts, act, hl, perform]
  · exact .inr (.inl ⟨by simp [holdsGlobash, hu], rfl, rfl⟩)
  · exact .inr (.inr ⟨rfl, rfl⟩)

lemma Inv.next_print : count holdsPrint (next (harts cfg) s i).loc =
    if (next (harts cfg) s i).mem.get cfg.link .mtPrintfLock = 0 then 0 else 1 := by
  refine lock_step (count_next cfg s i holdsPrint) h.print ?_
  rw [next_mem, get_mtPrintfLock cfg _ _ (h.settled i), holdsPrint_resume]
  split_ifs with hl hu
  · obtain ⟨site, hp⟩ := printPt_eq.mp hl
    refine .inl ⟨by simp [holdsPrint, hl], ?_, rfl⟩
    simp [answer, harts, act, hp, perform]
  · exact .inr (.inl ⟨by simp [holdsPrint, hu], rfl, rfl⟩)
  · exact .inr (.inr ⟨rfl, rfl⟩)

lemma Inv.next_counter : (next (harts cfg) s i).mem.get cfg.link .globalAtomicRestoreCounter =
    BitVec.ofNat 64 (count counted (next (harts cfg) s i).loc) := by
  have hn := count_next cfg s i counted
  rw [next_mem, get_counter cfg _ _ (h.settled i), h.counter]
  rw [counted_resume] at hn
  by_cases hp : (s.loc i).pc = .count
  · have hc : counted (s.loc i) = false := by simp [counted, hp]
    simp only [hp, hc, Bool.toNat_false, decide_true, Bool.or_true, Bool.toNat_true,
      if_true] at hn ⊢
    rw [show count counted (next (harts cfg) s i).loc = count counted s.loc + 1 by omega,
      BitVec.ofNat_add]
    rfl
  · simp only [hp, decide_false, Bool.or_false, if_false] at hn ⊢
    rw [show count counted (next (harts cfg) s i).loc = count counted s.loc by omega]
    simp

lemma Inv.next_flag : (next (harts cfg) s i).mem.get cfg.link .releaseRestore =
    if 0 < count released (next (harts cfg) s i).loc then 1 else 0 := by
  have hn := count_next cfg s i released
  rw [next_mem, get_releaseRestore cfg _ _ (h.settled i)]
  have hr := released_resume cfg _ (answer (harts cfg) s i) (h.branch i)
  by_cases hp : (s.loc i).pc = .setRelease
  · have : 0 < count released (next (harts cfg) s i).loc :=
      count_pos (i := i) (by rw [next_loc_resume]; simpa [hp] using hr)
    simp [hp, this]
  · rw [count_next_of_eq i (by simpa [hp] using hr)]
    simp [hp, h.flag]

lemma Inv.next_wake (j : Fin M) (hl : ((next (harts cfg) s i).loc j).last = false)
    (h8 : 8 ≤ stage ((next (harts cfg) s i).loc j).pc) :
    (next (harts cfg) s i).mem.get cfg.link .releaseRestore = 1 := by
  rw [next_mem, get_releaseRestore cfg _ _ (h.settled i)]
  suffices s.mem.get cfg.link .releaseRestore = 1 by simp [this]
  by_cases hj : j = i
  · subst hj
    rw [next_loc_resume] at hl h8
    have hc : (s.loc j).pc ≠ .compare := by
      intro hc
      simp [resume, hc] at h8
    rw [resume_last cfg _ _ hc] at hl
    cases stage_resume cfg (s.loc j) (answer (harts cfg) s j) with
    | stay hn => exact h.wake j hl (hn ▸ h8)
    | leave h8' => exact h.wake j hl (by omega)
    | wake hp hr => simpa [answer, harts, act, hp, perform] using hr
    | clock hp h7 =>
      have := (h.branch j).2 (.inr h7)
      simp [this] at hl
    | _ => omega
  · rw [next_loc_of_ne _ _ hj] at hl h8
    exact h.wake j hl h8

/-- At most one hart is between its increment and its comparison. -/
lemma Inv.count_counted : count counted s.loc = count compared s.loc + count pending s.loc ∧
    count pending s.loc ≤ 1 := by
  refine ⟨count_add fun c => ?_, ?_⟩
  · simp only [counted, compared, pending]
    by_cases h5 : 5 ≤ stage c.pc
    · have h4 : 4 ≤ stage c.pc := by omega
      have hne : stage c.pc ≠ 4 := by omega
      simp [h5, h4, hne]
    · by_cases h4 : stage c.pc = 4
      · simp [h4]
      · have : ¬ 4 ≤ stage c.pc := by omega
        simp [h5, h4, this]
  · have hg : count holdsGlobash s.loc ≤ 1 := by
      rw [h.globash]
      split_ifs <;> omega
    refine le_trans (count_mono fun j hj => ?_) hg
    simp only [pending, decide_eq_true_eq] at hj
    simp [holdsGlobash, hj]

lemma Inv.compare_iff (hM : M < 2 ^ 64) (hN : N < 2 ^ 31) (hp : (s.loc i).pc = .compare) :
    (answer (harts cfg) s i = (s.loc i).allCpuNum.signExtend 64 ∨ (s.loc i).allCpuNum = 0) ↔
      count compared s.loc + 1 = N ∨ N = 0 := by
  have hc := h.count_counted
  have h1 : 0 < count pending s.loc := count_pos (i := i) (by simp [pending, hp])
  have hle : count counted s.loc ≤ M := by simpa using count_le_card counted s.loc
  have ha : answer (harts cfg) s i = BitVec.ofNat 64 (count compared s.loc + 1) := by
    rw [show count compared s.loc + 1 = count counted s.loc by omega, ← h.counter]
    simp [answer, harts, act, hp, perform]
  have hnum := h.allCpuNum i (by simp [hp])
  rw [ha, hnum, signExtend_ofNat hN, ofNat_inj (by omega) (by omega),
    show (0 : BitVec 32) = BitVec.ofNat 32 0 from rfl, ofNat_inj (by omega) (by omega)]

lemma Inv.next_last (hM : M < 2 ^ 64) (hN : N < 2 ^ 31) :
    count isLast (next (harts cfg) s i).loc =
      if N = 0 then count compared (next (harts cfg) s i).loc
      else if N ≤ count compared (next (harts cfg) s i).loc then 1 else 0 := by
  have hlast := h.last
  by_cases hp : (s.loc i).pc = .compare
  · have hcount := count_next cfg s i compared
    have hcount' := count_next cfg s i isLast
    rw [compared_resume] at hcount
    have hcmp := h.compare_iff i hM hN hp
    rw [isLast_resume, if_pos hp] at hcount'
    simp only [hcmp] at hcount'
    have h1 : compared (s.loc i) = false := by simp [compared, hp]
    have h2 : isLast (s.loc i) = false := by simp [isLast, hp]
    simp only [h1, h2, hp, Bool.toNat_false, decide_true, Bool.or_true, Bool.toNat_true,
      add_zero] at hcount hcount'
    by_cases hN0 : N = 0
    · simp only [hN0, if_true, or_true, decide_true, Bool.toNat_true] at *
      omega
    · simp only [hN0, or_false, if_false] at *
      by_cases hk : count compared s.loc + 1 = N
      · simp only [hk, decide_true, Bool.toNat_true] at hcount'
        rw [if_neg (by omega)] at hlast
        rw [if_pos (by omega)]
        omega
      · simp only [hk, decide_false, Bool.toNat_false] at hcount'
        split_ifs at hlast ⊢ <;> omega
  · rw [count_next_of_eq i (by rw [isLast_resume, if_neg hp]),
      count_next_of_eq i (by simp [compared_resume, hp])]
    exact hlast

/-- **The invariant is inductive.** -/
theorem Inv.next (hM : M < 2 ^ 64) (hN : N < 2 ^ 31) : Inv cfg N (next (harts cfg) s i) where
  settled := forall_next i (P := fun c => booting c = false) h.settled
    (booting_resume cfg _ _ (h.settled i))
  reserve := by
    refine forall_next i (P := fun c => stage c.pc = 0 →
      (cfg.ld (cfg.layout c.cpuId).csrReserve).setWidth 32 = BitVec.ofNat 32 N) h.reserve
      fun h0 => ?_
    rw [resume_cpuId]
    exact h.reserve i (by have := stage_mono cfg (s.loc i) (answer (harts cfg) s i); omega)
  allCpuNum := by
    refine forall_next i (P := fun c => 1 ≤ stage c.pc → c.allCpuNum = BitVec.ofNat 32 N)
      h.allCpuNum fun h1 => ?_
    by_cases hp : (s.loc i).pc = .readAllCpuNum
    · simpa [resume, hp] using h.reserve i (by simp [hp])
    · rw [resume_allCpuNum cfg _ _ hp]
      refine h.allCpuNum i ?_
      cases stage_resume cfg (s.loc i) (answer (harts cfg) s i) <;>
        first | contradiction | omega
  branch := forall_next i h.branch (branchOk_resume cfg _ _ (h.branch i))
  globash := h.next_globash i
  print := h.next_print i
  counter := h.next_counter i
  last := h.next_last i hM hN
  flag := h.next_flag i
  wake := h.next_wake i

theorem Inv.run (hM : M < 2 ^ 64) (hN : N < 2 ^ 31) (w : List (Fin M)) :
    Inv cfg N (run (harts cfg) s w) :=
  run_inv _ h (fun _ i ht => ht.next i hM hN) w

/-! ### What the invariant says -/

/-- A hart that is behind the wait loop has read the flag, or has set it. -/
lemma Inv.released_of_stage (hi : 7 ≤ stage (s.loc i).pc) :
    0 < count released s.loc := by
  cases hl : (s.loc i).last with
  | true => exact count_pos (i := i) (by simp [released, hl, hi])
  | false =>
    have h7 : stage (s.loc i).pc ≠ 7 := by
      intro h7
      have := (h.branch i).2 (.inr h7)
      simp [hl] at this
    have hr := h.wake i hl (by omega)
    rw [h.flag] at hr
    by_contra hn
    simp [hn] at hr

/-- **The barrier holds**: when some hart is behind the wait loop, `N` harts have arrived. -/
theorem Inv.arrived (hN : 1 ≤ N) (hi : 7 ≤ stage (s.loc i).pc) : N ≤ count restored s.loc := by
  obtain ⟨j, hj⟩ := exists_of_count_pos (h.released_of_stage i hi)
  simp only [released, Bool.and_eq_true, decide_eq_true_eq] at hj
  have hlast : 0 < count isLast s.loc := count_pos (i := j) (by simp [isLast, hj.1]; omega)
  have hcmp : N ≤ count compared s.loc := by
    rw [h.last, if_neg (by omega)] at hlast
    by_contra hn
    simp [hn] at hlast
  refine hcmp.trans (count_mono fun k hk => ?_)
  simp only [compared, restored, decide_eq_true_eq] at hk ⊢
  omega

end LibCheckpoint.Barrier
