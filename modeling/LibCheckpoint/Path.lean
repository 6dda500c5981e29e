import LibCheckpoint.Phase

/-!
The restore of one hart in big steps: what the routines called before the barrier do together,
and that a hart arrives with exactly that, however its steps are interleaved.
-/

namespace LibCheckpoint.Path

open LibCheckpoint.Bytes LibCheckpoint.Rv64 LibCheckpoint.Csr LibCheckpoint.Layout
open LibCheckpoint.Restorer LibCheckpoint.Interleave LibCheckpoint.Phase

variable (cfg : Cfg)

/-- The routines called before the barrier, from the given one on. -/
def before : Routine → List Routine
  | .rvhCsrRestore =>
    [.rvhCsrRestore, .rvvRestore, .restoreFloatVector, .restoreCsrVector, .restoreMtimeCmp]
  | .rvvRestore => [.rvvRestore, .restoreFloatVector, .restoreCsrVector, .restoreMtimeCmp]
  | .restoreFloatVector => [.restoreFloatVector, .restoreCsrVector, .restoreMtimeCmp]
  | .restoreCsrVector => [.restoreCsrVector, .restoreMtimeCmp]
  | .restoreMtimeCmp => [.restoreMtimeCmp]
  | _ => []

/-- A call of a routine, or its omission, as one step. -/
def callOne (cpuId : BitVec 32) (g : Gates) (a : Arch) (q : Routine) : Arch :=
  if calls g q then execs cfg.env (q.code cfg) (withArgs cfg cpuId a q) else a

def callAll (cpuId : BitVec 32) (g : Gates) (qs : List Routine) (a : Arch) : Arch :=
  qs.foldl (callOne cfg cpuId g) a

/-- The restore up to the barrier, from the call of `checkpoint_ext_check` on. -/
def restoreAll (cpuId : BitVec 32) (a : Arch) : Arch :=
  callAll cfg cpuId (cfg.gates cpuId (a.readCsr csrMisa)) (before .rvhCsrRestore) a

def early : Pc → Bool
  | .mtPrintf s _ => s = .hello
  | .nemuSignal _ => false
  | p => stage p ≤ 1

/-- What a hart that is on its way will arrive with. -/
def arrival (c : Hart) : Arch :=
  match c.pc with
  | .gcptCStart | .clearBss _ | .setBssLock | .waitBssLock | .mtPrintf _ _ | .enableGcptTrap =>
    restoreAll cfg c.cpuId { c.arch with csr := enableGcptTrap cfg c.arch.csr }
  | .multicoreDecodeRestore | .stopped | .readAllCpuNum | .extCheck =>
    restoreAll cfg c.cpuId c.arch
  | .patchJal => callAll cfg c.cpuId c.gates (before .rvhCsrRestore) c.arch
  | .call q => callAll cfg c.cpuId c.gates (before q) c.arch
  | .asm q code => callAll cfg c.cpuId c.gates (before q).tail (execs cfg.env code c.arch)
  | _ => c.arch

variable (c : Hart) (r : Word)

lemma before_eq {q : Routine} (h : callStage q = 1) : before q = q :: (before q).tail := by
  cases q <;> first | rfl | cases h

lemma next_before {q : Routine} (h : callStage q = 1) :
    (∃ q', q.next = .call q' ∧ callStage q' = 1 ∧ before q' = (before q).tail) ∨
      q.next = .lockGlobash .read ∧ (before q).tail = [] := by
  cases q <;> first
    | exact .inl ⟨_, rfl, rfl, rfl⟩
    | exact .inr ⟨rfl, rfl⟩
    | cases h

/-- The ways on from a point before the barrier: on towards it with the same outcome, into it
with that outcome, or into the report of a bad offset. -/
theorem arrival_resume (h : early c.pc = true) :
    (early (resume cfg c r).pc = true ∧ arrival cfg (resume cfg c r) = arrival cfg c) ∨
    ((resume cfg c r).pc = .lockGlobash .read ∧ (resume cfg c r).arch = arrival cfg c) ∨
    (resume cfg c r).pc = .mtPrintf .badImm (.lock .read) := by
  cases hp : c.pc with
  | call q =>
    have hq : callStage q = 1 := by
      revert h
      rw [hp]
      cases q <;> simp [early, callStage]
    -- What is still to be called begins with the routine that is called, or skipped, now.
    obtain ⟨t, ht⟩ : ∃ t, before q = q :: t := ⟨_, before_eq hq⟩
    by_cases hg : calls c.gates q = true
    · refine .inl ⟨?_, ?_⟩
      · have : asmStage q = 1 := by rcases stage_called q with h | ⟨h8, -⟩ <;> omega
        simp [resume, hp, hg, early, this]
      · simp [arrival, resume, hp, hg, ht, callAll, callOne]
    · simp only [Bool.not_eq_true] at hg
      rcases next_before hq with ⟨q', hn, h1, hb⟩ | ⟨hn, hb⟩
      · refine .inl ⟨by simp [resume, hp, hg, hn, early, h1], ?_⟩
        simp [arrival, resume, hp, hg, hn, hb, ht, callAll, callOne]
      · refine .inr (.inl ⟨by simp [resume, hp, hg, hn], ?_⟩)
        simp_all [arrival, resume, callAll, callOne]
  | asm q code =>
    have hq : asmStage q = 1 := by
      revert h
      rw [hp]
      cases q <;> simp [early, asmStage]
    cases code with
    | cons i code => exact .inl ⟨by simp [resume, hp, early, hq], by simp [arrival, resume, hp]⟩
    | nil =>
      have hf : finish cfg c q = { c with pc := q.next } := by
        cases q <;> first | rfl | cases hq
      have hc : callStage q = 1 := by rcases stage_called q with h | ⟨-, h9⟩ <;> omega
      -- Behind a routine there is the next call, or the barrier.
      rcases next_before hc with ⟨q', hn, h1, hb⟩ | ⟨hn, hb⟩
      · refine .inl ⟨by simp [resume, hp, hf, hn, early, h1], ?_⟩
        simp [arrival, resume, hp, hf, hn, hb]
      · refine .inr (.inl ⟨by simp [resume, hp, hf, hn], ?_⟩)
        simp [arrival, resume, hp, hf, hb, callAll]
  | mtPrintf s p =>
    obtain rfl : s = .hello := by simpa [early, hp] using h
    obtain ⟨q, hres, ⟨p', rfl⟩ | ⟨-, rfl⟩⟩ := resume_print cfg c r hp
    all_goals exact .inl (by simp [hres, hp, early, arrival, Site.next])
  | waitBssLock =>
    by_cases hr : r = 0
    · have hs : resume cfg c r = c := by simp only [resume, hp, hr, if_true]
      exact .inl ⟨by rw [hs, h], by rw [hs]⟩
    · refine .inl ?_
      simp only [resume, hp, hr, if_false]
      simp [early, arrival, hp]
  | gcptCStart =>
    refine .inl ?_
    simp only [resume, hp]
    split <;> simp [early, arrival, hp]
  | clearBss i =>
    refine .inl ?_
    simp only [resume, hp]
    split <;> simp [early, arrival, hp]
  | multicoreDecodeRestore =>
    refine .inl ?_
    simp only [resume, hp]
    split <;> simp [early, arrival, hp]
  | patchJal =>
    simp only [resume, hp]
    split
    · exact .inr (.inr rfl)
    · exact .inl (by simp [early, arrival, hp, callStage])
  | setBssLock | enableGcptTrap | stopped | readAllCpuNum | extCheck =>
    exact .inl (by simp [resume, hp, early, arrival, restoreAll])
  | _ => simp [early, hp] at h

lemma alone_asm (m : Shared) (c : Hart) {q : Routine} {l t : List Instr}
    (hl : l.all (fun i => !i.isStore) = true) (hp : c.pc = .asm q (l ++ t)) :
    (alone (harts cfg))^[l.length] (m, c) =
      (m, { c with arch := execs cfg.env l c.arch, pc := .asm q t }) := by
  induction l generalizing c with
  | nil =>
    rw [List.nil_append] at hp
    simp [← hp]
  | cons i l ih =>
    rw [List.all_cons, Bool.and_eq_true] at hl
    have hi : i.store c.arch = none := by
      cases i <;> first | rfl | simp [Instr.isStore] at hl
    have hstep : alone (harts cfg) (m, c) =
        (m, { c with arch := i.exec cfg.env c.arch, pc := .asm q (l ++ t) }) := by
      simp [alone, act, resume, hp, hi, perform]
    rw [List.length_cons, Function.iterate_succ_apply, hstep, ih _ hl.2 rfl]
    rfl

variable (A : Arch)

/-! ### From the barrier to the end -/

/-- The state at the end of the exit that the gates choose. -/
def atEnd (c : Hart) : Arch :=
  match c.pc with
  | .gone _ => if c.gates.shouldJumpToMepc then A else A.mret
  | _ => A

/-- The hart is where a restore with outcome `A` leads: what it executes is an end of the
routine it is in, its exit fits its gates, and at the barrier and behind it the state is `A` but
for the integer registers. -/
structure OnPath (c : Hart) : Prop where
  code : ∀ q l, c.pc = .asm q l → l <:+ q.code cfg
  jump : ((∃ l, c.pc = .asm .restoreIntVectorJump l) ∨ (∃ l, c.pc = .asm .jumpToCore l) ∨
    ∃ a, c.pc = .fetch a) → c.gates.shouldJumpToMepc = true
  mret : (c.pc = .call .restoreIntVectorMret ∨ ∃ l, c.pc = .asm .restoreIntVectorMret l) →
    c.gates.shouldJumpToMepc = false
  arrives : early c.pc = true → arrival cfg c = A
  late : 2 ≤ stage c.pc → SameButX c.arch (atEnd A c)

variable {cfg A c}

lemma late_isInt {q : Routine} (h : 2 ≤ asmStage q) : (q.code cfg).all Instr.isInt = true := by
  cases q with
  | jumpToCore => simp [Routine.code, Asm.jumpToCore, Instr.isInt]
  | restoreMtime | restoreIntVectorJump | restoreIntVectorMret =>
    simp only [Routine.code]
    decide +kernel
  | _ => simp [asmStage] at h

lemma OnPath.next_code (h : OnPath cfg A c) : ∀ q l, (resume cfg c r).pc = .asm q l →
    l <:+ q.code cfg := by
  intro q l hq
  rcases resume_asm cfg c r hq with ⟨-, -, rfl, -⟩ | ⟨i, hp, -⟩ | ⟨-, -, rfl, -⟩
  · exact List.suffix_rfl
  · exact (List.suffix_cons i l).trans (h.code q _ hp)
  · exact List.suffix_rfl

lemma resume_call_mret (h : (resume cfg c r).pc = .call .restoreIntVectorMret) :
    c.pc = .call .restoreIntVectorJump ∧ c.gates.shouldJumpToMepc = false := by
  have hs (s : Site) : s.next ≠ .call .restoreIntVectorMret := by
    cases s with
    | handler k => by_cases hk : k < 4 <;> simp [Site.next, hk]
    | _ => simp [Site.next]
  have hq (q : Routine) (hq : q.next = .call .restoreIntVectorMret) :
      q = .restoreIntVectorJump := by
    cases q <;> simp [Routine.next] at hq ⊢
  have hf (q : Routine) : (finish cfg c q).pc ≠ .call .restoreIntVectorMret := by
    cases q <;> simp [finish, Routine.next]
  unfold resume at h
  split at h <;> (try split at h) <;> simp_all
  obtain rfl := hq _ h
  simp_all [calls]

lemma resume_fetch {a : Word} (h : (resume cfg c r).pc = .fetch a) :
    c.pc = .asm .jumpToCore [] ∧ a = c.arch.getX Asm.t0 ∨ ∃ b, c.pc = .fetch b ∧ a = b + 4 := by
  have hs (s : Site) : s.next ≠ .fetch a := by
    cases s with
    | handler k => by_cases hk : k < 4 <;> simp [Site.next, hk]
    | _ => simp [Site.next]
  have hq (q : Routine) : q.next ≠ .fetch a := by cases q <;> simp [Routine.next]
  have hf (q : Routine) (hq : (finish cfg c q).pc = .fetch a) :
      q = .jumpToCore ∧ a = c.arch.getX Asm.t0 := by
    cases q <;> simp [finish, Routine.next] at hq ⊢
    exact hq.symm
  unfold resume at h
  split at h <;> (try split at h) <;> simp_all
  exact hf _ h

lemma resume_gone {a : Word} (h : (resume cfg c r).pc = .gone a) : resume cfg c r = c ∨
    (c.pc = .asm .restoreIntVectorMret [] ∧ a = c.arch.csr mepcId ∧
      (resume cfg c r).arch = c.arch.mret) ∨
    ∃ b rd off, c.pc = .fetch b ∧ decode (r.setWidth 32) = some (.jal rd off) ∧ a = b + off ∧
      (resume cfg c r).arch = c.arch.setX rd (b + 4) := by
  have hs (s : Site) : s.next ≠ .gone a := by
    cases s with
    | handler k => by_cases hk : k < 4 <;> simp [Site.next, hk]
    | _ => simp [Site.next]
  have hq (q : Routine) : q.next ≠ .gone a := by cases q <;> simp [Routine.next]
  have hf (q : Routine) (hq : (finish cfg c q).pc = .gone a) :
      q = .restoreIntVectorMret ∧ a = c.arch.csr mepcId ∧ (finish cfg c q).arch = c.arch.mret := by
    cases q <;> simp [finish, Routine.next] at hq ⊢
    exact hq.symm
  unfold resume at h ⊢
  split at h <;> (try split at h) <;> simp_all
  exact .inr ⟨(hf _ h).1, (hf _ h).2.1⟩

/-- The gates are set once, before the branches that they choose. -/
lemma gates_of_late (h : 2 ≤ stage c.pc ∨ ∃ l, c.pc = .asm .restoreMtimeCmp l) :
    (resume cfg c r).gates = c.gates := by
  refine resume_gates cfg c r fun hp => ?_
  rcases h with h | ⟨l, hl⟩
  · simp [hp] at h
  · simp [hp] at hl

lemma OnPath.next_jump (h : OnPath cfg A c)
    (hj : (∃ l, (resume cfg c r).pc = .asm .restoreIntVectorJump l) ∨
      (∃ l, (resume cfg c r).pc = .asm .jumpToCore l) ∨ ∃ a, (resume cfg c r).pc = .fetch a) :
    (resume cfg c r).gates.shouldJumpToMepc = true := by
  rcases hj with ⟨l, hl⟩ | ⟨l, hl⟩ | ⟨a, ha⟩
  · rcases resume_asm cfg c r hl with ⟨hp, hg, -⟩ | ⟨i, hp, -⟩ | ⟨-, hq, -⟩
    · rwa [gates_of_late r (.inl (by simp [hp, callStage]))]
    · rw [gates_of_late r (.inl (by simp [hp, asmStage]))]
      exact h.jump (.inl ⟨_, hp⟩)
    · cases hq
  · rcases resume_asm cfg c r hl with ⟨hp, hg, -⟩ | ⟨i, hp, -⟩ | ⟨hp, -, -⟩
    · rwa [gates_of_late r (.inl (by simp [hp, callStage]))]
    · rw [gates_of_late r (.inl (by simp [hp, asmStage]))]
      exact h.jump (.inr (.inl ⟨_, hp⟩))
    · rw [gates_of_late r (.inl (by simp [hp, asmStage]))]
      exact h.jump (.inl ⟨_, hp⟩)
  · rcases resume_fetch r ha with ⟨hp, -⟩ | ⟨b, hp, -⟩
    · rw [gates_of_late r (.inl (by simp [hp, asmStage]))]
      exact h.jump (.inr (.inl ⟨_, hp⟩))
    · rw [gates_of_late r (.inl (by simp [hp]))]
      exact h.jump (.inr (.inr ⟨_, hp⟩))

lemma OnPath.next_mret (h : OnPath cfg A c)
    (hj : (resume cfg c r).pc = .call .restoreIntVectorMret ∨
      ∃ l, (resume cfg c r).pc = .asm .restoreIntVectorMret l) :
    (resume cfg c r).gates.shouldJumpToMepc = false := by
  rcases hj with hl | ⟨l, hl⟩
  · obtain ⟨hp, hg⟩ := resume_call_mret r hl
    rwa [gates_of_late r (.inl (by simp [hp, callStage]))]
  · rcases resume_asm cfg c r hl with ⟨hp, -, -⟩ | ⟨i, hp, -⟩ | ⟨-, hq, -⟩
    · rw [gates_of_late r (.inl (by simp [hp, callStage]))]
      exact h.mret (.inl hp)
    · rw [gates_of_late r (.inl (by simp [hp, asmStage]))]
      exact h.mret (.inr ⟨_, hp⟩)
    · cases hq

lemma early_stage {p : Pc} (h : early p = true) : stage p ≤ 1 := by
  cases p with
  | mtPrintf s p =>
    obtain rfl : s = .hello := by simpa [early] using h
    simp [siteStage]
  | nemuSignal n => simp
  | _ => exact of_decide_eq_true h

lemma not_early_resume (h : early c.pc = false) :
    early (resume cfg c r).pc = false := by
  by_contra he
  have h1 := early_stage (by simpa using he)
  have hm := stage_mono cfg c r
  cases hp : c.pc with
  | mtPrintf s p =>
    have hs : s ≠ .hello := by simpa [early, hp] using h
    obtain ⟨q, hres, ⟨p', rfl⟩ | ⟨-, rfl⟩⟩ := resume_print cfg c r hp
    · simp [hres, early, hs] at he
    · rw [hres] at he
      cases s with
      | handler k => by_cases hk : k < 4 <;> simp [Site.next, hk, early] at he
      | _ => simp [Site.next, early] at he hs
  | nemuSignal n => simp [resume, hp, early] at he
  | _ =>
    have : 1 < stage c.pc := by
      rw [hp] at h ⊢
      exact not_le.mp (of_decide_eq_false h)
    omega

lemma sameButX_withArgs (cpuId : BitVec 32) (a : Arch) (q : Routine) :
    SameButX (withArgs cfg cpuId a q) a := by
  cases q <;> first
    | exact sameButX_setX _ _ _
    | exact (sameButX_setX _ _ _).trans (sameButX_setX _ _ _)
    | exact SameButX.refl _

lemma withArgs_csrReg (cpuId : BitVec 32) (a : Arch) {q : Routine}
    (hq : q = .rvhCsrRestore ∨ q = .restoreCsrVector) :
    (withArgs cfg cpuId a q).getX Asm.a0 = (cfg.layout cpuId).csrRegCptAddr := by
  rcases hq with rfl | rfl <;> simp [withArgs, Arch.getX_setX, Asm.a0]

/-- Behind the barrier a step keeps the state but for the integer registers, until `mret`. -/
lemma OnPath.next_late (h : OnPath cfg A c) (h2 : 2 ≤ stage c.pc) :
    SameButX (resume cfg c r).arch (atEnd A (resume cfg c r)) := by
  have hlate := h.late h2
  have hg : (resume cfg c r).gates = c.gates := gates_of_late r (.inl h2)
  by_cases hgone : ∃ a, (resume cfg c r).pc = .gone a
  · obtain ⟨a, ha⟩ := hgone
    -- The step is the exit itself: by `mret`, or by the jump of the stub.
    rcases resume_gone r ha with hc | ⟨hp, -, hm⟩ | ⟨b, rd, off, hp, -, -, hx⟩
    · rwa [hc]
    · have hfalse := h.mret (.inr ⟨_, hp⟩)
      simp only [atEnd, ha, hg, hfalse, hm, Bool.false_eq_true, if_false]
      simp only [atEnd, hp] at hlate
      exact hlate.mret
    · have htrue := h.jump (.inr (.inr ⟨_, hp⟩))
      simp only [atEnd, ha, hg, htrue, hx, if_true]
      simp only [atEnd, hp] at hlate
      exact (sameButX_setX _ _ _).trans hlate
  · -- Else the hart stays inside, where the exit has not changed anything yet.
    have hend : atEnd A (resume cfg c r) = A := by
      unfold atEnd
      split
      · rename_i a ha
        exact absurd ⟨a, ha⟩ hgone
      · rfl
    have hend' : atEnd A c = A := by
      unfold atEnd
      split
      · rename_i a ha
        exact absurd ⟨a, by simp [resume, ha]⟩ hgone
      · rfl
    rw [hend]
    rw [hend'] at hlate
    refine SameButX.trans ?_ hlate
    rcases resume_arch cfg c r with ha | hp | ⟨q, hp⟩ | ⟨q, code, hp⟩ | ⟨a, hp⟩
    · rw [ha]
      exact ⟨rfl, rfl, rfl, rfl, rfl⟩
    · simp [hp] at h2
    · by_cases hc : calls c.gates q = true
      · simpa [resume, hp, hc] using sameButX_withArgs c.cpuId c.arch q
      · simp [resume, hp, hc, SameButX.refl]
    · cases code with
      | nil =>
        have hf : (finish cfg c q).arch = c.arch := by
          cases q with
          | restoreIntVectorMret =>
            exact absurd ⟨_, by simp only [resume, hp, finish]; rfl⟩ hgone
          | _ => rfl
        simp [resume, hp, hf, SameButX.refl]
      | cons i l =>
        have hall : (q.code cfg).all Instr.isInt = true := late_isInt (by simpa [hp] using h2)
        have hi : i.isInt = true :=
          List.all_eq_true.mp hall i ((h.code q _ hp).subset List.mem_cons_self)
        simpa [resume, hp] using sameButX_exec cfg.env c.arch hi
    · cases hd : decode (r.setWidth 32) with
      | none => simp [resume, hp, hd, SameButX.refl]
      | some d =>
        cases d with
        | op i => simpa [resume, hp, hd] using sameButX_exec cfg.env c.arch (decode_isInt hd)
        | jal rd off => exact absurd ⟨_, by simp only [resume, hp, hd]; rfl⟩ hgone

/-- **The path is kept**: a step of a hart on the path of `A` leaves it there. -/
theorem OnPath.next (h : OnPath cfg A c) : OnPath cfg A (resume cfg c r) where
  code := h.next_code r
  jump := h.next_jump r
  mret := h.next_mret r
  arrives he := by
    by_cases hc : early c.pc = true
    · rcases arrival_resume cfg c r hc with ⟨-, ha⟩ | ⟨hp, -⟩ | hp
      · rw [ha, h.arrives hc]
      · simp [hp, early] at he
      · simp [hp, early] at he
    · rw [not_early_resume r (by simpa using hc)] at he
      cases he
  late h2 := by
    by_cases hc : 2 ≤ stage c.pc
    · exact h.next_late r hc
    · cases stage_resume cfg c r with
      | arrive hp =>
        have he : early c.pc = true := by simp [hp, early, asmStage]
        rcases arrival_resume cfg c r he with ⟨hearly, -⟩ | ⟨hp', ha⟩ | hp'
        · have := early_stage hearly
          omega
        · rw [atEnd, hp', ha, h.arrives he]
          exact SameButX.refl _
        · simp [hp', siteStage] at h2
      | _ => omega

end LibCheckpoint.Path
