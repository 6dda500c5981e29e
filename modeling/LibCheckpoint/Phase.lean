import LibCheckpoint.Restorer

/-!
How far a hart has come, and what one step of it can do to the shared variables.

Every invariant of the barrier is derived from the lemmas of this module: for each predicate
on a hart, at which points a step changes it; for each shared variable, which steps write it.
-/

namespace LibCheckpoint.Phase

open LibCheckpoint.Bytes LibCheckpoint.Rv64 LibCheckpoint.Layout LibCheckpoint.Restorer
open LibCheckpoint.Interleave

def siteStage : Site → ℕ
  | .arrive => 4
  | .hello => 0
  | .badImm | .handler _ => 1

def callStage : Routine → ℕ
  | .restoreMtime => 7
  | .restoreIntVectorJump | .restoreIntVectorMret => 8
  | .jumpToCore => 9
  | _ => 1

def asmStage : Routine → ℕ
  | .restoreMtime => 7
  | .restoreIntVectorJump | .restoreIntVectorMret | .jumpToCore => 9
  | _ => 1

/-- The stages of a hart: `0` until it has read `all_cpu_num`, `1` up to the barrier, `2` to
`6` inside it, `7` while it restores the clock, `8` when it is about to leave and `9` from
the start of `restore_int_vector_mret` or `restore_int_vector_jump` on. -/
def stage : Pc → ℕ
  | .gcptCStart | .clearBss _ | .setBssLock | .waitBssLock | .enableGcptTrap => 0
  | .mtPrintf site _ => siteStage site
  | .multicoreDecodeRestore | .stopped | .readAllCpuNum => 0
  | .extCheck | .patchJal => 1
  | .call r => callStage r
  | .asm r _ => asmStage r
  | .lockGlobash _ => 2
  | .count => 3
  | .readCount | .compare => 4
  | .unlockGlobash => 5
  | .waitRelease | .setRelease => 6
  | .fetch _ | .gone _ | .stuck => 9
  | .nemuSignal _ => 1

@[simp] lemma stage_points :
    stage .gcptCStart = 0 ∧ (∀ i, stage (.clearBss i) = 0) ∧ stage .setBssLock = 0 ∧
    stage .waitBssLock = 0 ∧ stage .enableGcptTrap = 0 ∧
    (∀ s p, stage (.mtPrintf s p) = siteStage s) ∧ stage .multicoreDecodeRestore = 0 ∧
    stage .stopped = 0 ∧ stage .readAllCpuNum = 0 ∧ stage .extCheck = 1 ∧
    stage .patchJal = 1 ∧ (∀ q, stage (.call q) = callStage q) ∧
    (∀ q code, stage (.asm q code) = asmStage q) ∧ (∀ p, stage (.lockGlobash p) = 2) ∧
    stage .count = 3 ∧ stage .readCount = 4 ∧ stage .compare = 4 ∧ stage .unlockGlobash = 5 ∧
    stage .waitRelease = 6 ∧ stage .setRelease = 6 ∧ (∀ a, stage (.fetch a) = 9) ∧
    (∀ a, stage (.gone a) = 9) ∧ stage .stuck = 9 ∧ ∀ n, stage (.nemuSignal n) = 1 := by
  repeat' apply And.intro
  all_goals intros; rfl

def holdsGlobash (c : Hart) : Bool := decide (3 ≤ stage c.pc ∧ stage c.pc ≤ 5)

def printPt : Pc → Option PrintPt
  | .mtPrintf _ p => some p
  | _ => none

def holdsPrint (c : Hart) : Bool :=
  decide (printPt c.pc = some .out ∨ printPt c.pc = some .unlock)

/-- `restore_csr_vector` and `restore_mtime_cmp` are behind the hart. -/
def restored (c : Hart) : Bool := decide (2 ≤ stage c.pc)

def counted (c : Hart) : Bool := decide (4 ≤ stage c.pc)

/-- The hart is between its increment of the counter and its comparison. -/
def pending (c : Hart) : Bool := decide (stage c.pc = 4)

def compared (c : Hart) : Bool := decide (5 ≤ stage c.pc)

/-- The hart has taken the branch that releases the others. -/
def isLast (c : Hart) : Bool := c.last && decide (5 ≤ stage c.pc)

def released (c : Hart) : Bool := c.last && decide (7 ≤ stage c.pc)

/-- The hart has begun `restore_int_vector_mret` or `restore_int_vector_jump`. -/
def leaving (c : Hart) : Bool := decide (9 ≤ stage c.pc)

/-- The hart is in the part of `gcpt_c_start` that writes the BSS. -/
def booting (c : Hart) : Bool :=
  match c.pc with
  | .gcptCStart => decide (c.cpuId = 0)
  | .clearBss _ | .setBssLock => true
  | _ => false

variable (cfg : Cfg)

def mtimeDone (c : Hart) : Bool :=
  c.last && (decide (8 ≤ stage c.pc) || match c.pc with
    | .asm .restoreMtime code => (stores cfg.env code c.arch).isEmpty
    | _ => false)

/-! ### The path of a hart -/

variable (c : Hart) (r : Word)

@[simp] lemma finish_cpuId (q : Routine) : (finish cfg c q).cpuId = c.cpuId := by
  cases q <;> rfl

@[simp] lemma resume_cpuId : (resume cfg c r).cpuId = c.cpuId := by
  unfold resume
  split <;> (try split) <;> simp only [finish_cpuId]

@[simp] lemma finish_last (q : Routine) : (finish cfg c q).last = c.last := by
  cases q <;> rfl

lemma resume_last (h : c.pc ≠ .compare) : (resume cfg c r).last = c.last := by
  unfold resume
  split <;> (try split) <;> simp_all only [finish_last, ne_eq, not_true_eq_false]

lemma finish_gates (q : Routine) : (finish cfg c q).gates = c.gates := by
  cases q <;> rfl

lemma resume_gates (h : c.pc ≠ .extCheck) : (resume cfg c r).gates = c.gates := by
  unfold resume
  split <;> (try split) <;> simp_all only [finish_gates, ne_eq, not_true_eq_false]

@[simp] lemma withArgs_hartid (cpuId : BitVec 32) (a : Arch) (q : Routine) :
    (withArgs cfg cpuId a q).hartid = a.hartid := by
  cases q <;> simp [withArgs]

@[simp] lemma finish_hartid (q : Routine) : (finish cfg c q).arch.hartid = c.arch.hartid := by
  cases q <;> rfl

@[simp] lemma resume_hartid : (resume cfg c r).arch.hartid = c.arch.hartid := by
  unfold resume
  split <;> (try split) <;> simp

lemma resume_arch : (resume cfg c r).arch = c.arch ∨ c.pc = .enableGcptTrap ∨
    (∃ q, c.pc = .call q) ∨ (∃ q code, c.pc = .asm q code) ∨ ∃ a, c.pc = .fetch a := by
  unfold resume
  split <;> (try split) <;> simp_all

/-! ### How the stage moves -/

@[simp] lemma stage_siteNext (s : Site) : stage s.next = siteStage s := by
  cases s with
  | handler k => by_cases h : k < 4 <;> simp [Site.next, siteStage, h]
  | _ => rfl

lemma stage_called (q : Routine) :
    asmStage q = callStage q ∨ callStage q = 8 ∧ asmStage q = 9 := by
  cases q <;> decide

lemma stage_skipped {g : Gates} {q : Routine} (h : calls g q = false) :
    stage q.next = callStage q := by
  cases q <;> first | rfl | simp [calls] at h

lemma stage_finish (q : Routine) : stage (finish cfg c q).pc = asmStage q ∨
    q = .restoreMtimeCmp ∧ stage (finish cfg c q).pc = 2 ∨
    q = .restoreMtime ∧ stage (finish cfg c q).pc = 8 := by
  cases q <;> simp [finish, Routine.next, asmStage, callStage]

/-- The ways in which a step that is answered `r` can lead to stage `n`. -/
inductive Moves (c : Hart) (r : Word) (n : ℕ) : Prop
  | stay (hn : n = stage c.pc)
  | read (hp : c.pc = .readAllCpuNum) (hc : stage c.pc = 0) (hn : n = 1)
  | arrive (hp : c.pc = .asm .restoreMtimeCmp []) (hc : stage c.pc = 1) (hn : n = 2)
  | lock (hp : c.pc = .lockGlobash .swap) (hr : r = 0) (hc : stage c.pc = 2) (hn : n = 3)
  | count (hp : c.pc = .count) (hc : stage c.pc = 3) (hn : n = 4)
  | compare (hp : c.pc = .compare) (hc : stage c.pc = 4) (hn : n = 5)
  | unlock (hp : c.pc = .unlockGlobash) (hc : stage c.pc = 5) (hn : n = 6)
  | release (hp : c.pc = .setRelease) (hc : stage c.pc = 6) (hn : n = 7)
  | clock (hp : c.pc = .asm .restoreMtime []) (hc : stage c.pc = 7) (hn : n = 8)
  | wake (hp : c.pc = .waitRelease) (hr : r = 1) (hc : stage c.pc = 6) (hn : n = 8)
  | leave (hc : stage c.pc = 8) (hn : n = 9)

/-- **How the stage moves**: it stays, or the hart is at one of the points where it grows. -/
theorem stage_resume : Moves c r (stage (resume cfg c r).pc) := by
  -- The steps that move the stage are taken first; the others are told by the point.
  by_cases hcall : ∃ q, c.pc = .call q
  · obtain ⟨q, hq⟩ := hcall
    by_cases hg : calls c.gates q = true
    · rcases stage_called q with h | ⟨h8, h9⟩
      · exact .stay (by simp [resume, hq, hg, h])
      · exact .leave (by simp [hq, h8]) (by simp [resume, hq, hg, h9])
    · simp only [Bool.not_eq_true] at hg
      exact .stay (by simp [resume, hq, hg, stage_skipped hg])
  by_cases hret : ∃ q, c.pc = .asm q []
  · obtain ⟨q, hq⟩ := hret
    rcases stage_finish cfg c q with h | ⟨rfl, h⟩ | ⟨rfl, h⟩
    · exact .stay (by simp [resume, hq, h])
    · exact .arrive hq (by simp [hq, asmStage]) (by simp [resume, hq, h])
    · exact .clock hq (by simp [hq, asmStage]) (by simp [resume, hq, h])
  by_cases hwake : c.pc = .waitRelease ∧ r = 1
  · exact .wake hwake.1 hwake.2 (by simp [hwake]) (by simp [resume, hwake, callStage])
  by_cases hlock : c.pc = .lockGlobash .swap ∧ r = 0
  · exact .lock hlock.1 hlock.2 (by simp [hlock]) (by simp [resume, hlock])
  cases hp : c.pc with
  | call q => exact absurd ⟨q, hp⟩ hcall
  | count => exact .count hp (by simp [hp]) (by simp [resume, hp])
  | compare => exact .compare hp (by simp [hp]) (by simp [resume, hp])
  | unlockGlobash =>
    exact .unlock hp (by simp [hp]) (by by_cases h : c.last <;> simp [resume, hp, h])
  | setRelease => exact .release hp (by simp [hp]) (by simp [resume, hp, callStage])
  | readAllCpuNum => exact .read hp (by simp [hp]) (by simp [resume, hp])
  | gcptCStart | clearBss | multicoreDecodeRestore =>
    exact .stay (by simp only [resume, hp]; split <;> simp)
  | patchJal => exact .stay (by simp only [resume, hp]; split <;> simp [siteStage, callStage])
  | waitBssLock => exact .stay (by simp only [resume, hp]; split <;> simp [hp, siteStage])
  | waitRelease =>
    have h : r ≠ 1 := fun h => hwake ⟨hp, h⟩
    exact .stay (by simp only [resume, hp, bne_iff_ne.mpr h, if_true])
  | lockGlobash p =>
    refine .stay ?_
    cases p with
    | read => simp only [resume, hp]; split <;> simp [hp]
    | swap =>
      have h : r ≠ 0 := fun h => hlock ⟨hp, h⟩
      simp only [resume, hp, h, if_false, stage_points]
  | mtPrintf s p =>
    refine .stay ?_
    rcases p with (_ | _) | _ | _
    · simp only [resume, hp]
      split <;> simp [hp]
    all_goals simp [resume, hp]
  | asm q code =>
    cases code with
    | nil => exact absurd ⟨q, hp⟩ hret
    | cons i code => exact .stay (by simp [resume, hp])
  | fetch a => exact .stay (by simp only [resume, hp]; split <;> simp)
  | _ => exact .stay (by simp [resume, hp, siteStage])

lemma stage_mono : stage c.pc ≤ stage (resume cfg c r).pc := by
  cases stage_resume cfg c r <;> omega

lemma counted_resume : counted (resume cfg c r) = (counted c || decide (c.pc = .count)) := by
  rw [Bool.eq_iff_iff]
  simp only [counted, Bool.or_eq_true, decide_eq_true_eq]
  by_cases hp : c.pc = .count
  · simp [resume, hp]
  · simp only [hp, or_false]
    cases stage_resume cfg c r <;> first | contradiction | omega

lemma compared_resume :
    compared (resume cfg c r) = (compared c || decide (c.pc = .compare)) := by
  rw [Bool.eq_iff_iff]
  simp only [compared, Bool.or_eq_true, decide_eq_true_eq]
  by_cases hp : c.pc = .compare
  · simp [resume, hp]
  · simp only [hp, or_false]
    cases stage_resume cfg c r <;> first | contradiction | omega

/-- A hart takes the lock with a successful swap and gives it back with a store. -/
lemma holdsGlobash_resume : holdsGlobash (resume cfg c r) =
    if c.pc = .lockGlobash .swap then decide (r = 0)
    else if c.pc = .unlockGlobash then false else holdsGlobash c := by
  rw [Bool.eq_iff_iff]
  split_ifs with hl hu
  · by_cases hr : r = 0
    · simp [resume, hl, hr, holdsGlobash]
    · simp only [resume, hl, hr, if_false, holdsGlobash, stage_points]; simp
  · by_cases h : c.last <;> simp [resume, hu, holdsGlobash, h]
  · simp only [holdsGlobash, decide_eq_true_eq]
    cases stage_resume cfg c r <;> first | contradiction | omega

/-- The points at which control goes on after a call. -/
def returnPoint : Pc → Bool
  | .enableGcptTrap | .compare | .call _ | .fetch _ | .gone _ | .nemuSignal _ | .stuck => true
  | .mtPrintf _ p => p = .lock .read
  | .asm q _ => q = .jumpToCore
  | .lockGlobash p => p = .read
  | .gcptCStart | .clearBss _ | .setBssLock | .waitBssLock | .multicoreDecodeRestore
  | .stopped | .readAllCpuNum | .extCheck | .patchJal | .count | .readCount | .unlockGlobash
  | .waitRelease | .setRelease => false

lemma siteNext_ne (s : Site) {p : Pc} (h : returnPoint p = false) : s.next ≠ p := by
  rintro rfl
  cases s with
  | handler k => by_cases hk : k < 4 <;> simp [Site.next, hk, returnPoint] at h
  | _ => simp [Site.next, returnPoint] at h

lemma routineNext_ne (q : Routine) {p : Pc} (h : returnPoint p = false) : q.next ≠ p := by
  rintro rfl
  cases q <;> simp [Routine.next, returnPoint] at h

lemma finish_ne (q : Routine) {p : Pc} (h : returnPoint p = false) :
    (finish cfg c q).pc ≠ p := by
  rintro rfl
  cases q <;> simp [finish, Routine.next, returnPoint] at h

lemma not_returned {p : Pc} (h : returnPoint p = false) : (∀ s : Site, s.next ≠ p) ∧
    (∀ q : Routine, q.next ≠ p) ∧ ∀ q, (finish cfg c q).pc ≠ p :=
  ⟨fun s => siteNext_ne s h, fun q => routineNext_ne q h, fun q => finish_ne cfg c q h⟩

lemma printPt_eq {p : Pc} {q : PrintPt} : printPt p = some q ↔ ∃ s, p = .mtPrintf s q := by
  unfold printPt
  split <;> simp_all

lemma holdsPrint_resume : holdsPrint (resume cfg c r) =
    if printPt c.pc = some (.lock .swap) then decide (r = 0)
    else if printPt c.pc = some .unlock then false else holdsPrint c := by
  have hout (s : Site) := not_returned cfg c (p := .mtPrintf s .out) rfl
  have hunlock (s : Site) := not_returned cfg c (p := .mtPrintf s .unlock) rfl
  rw [Bool.eq_iff_iff]
  unfold resume
  split <;> (try split) <;> simp_all [holdsPrint, printPt_eq]

lemma isLast_resume : isLast (resume cfg c r) =
    if c.pc = .compare then decide (r = c.allCpuNum.signExtend 64 ∨ c.allCpuNum = 0)
    else isLast c := by
  split_ifs with h
  · rw [Bool.eq_iff_iff]
    simp only [isLast, resume, h]
    simp
  · have h5 := compared_resume cfg c r
    simp only [compared, h, decide_false, Bool.or_false] at h5
    rw [isLast, h5, resume_last cfg c r h, isLast]

/-! ### The two branches behind the comparison -/

/-- The branch that a hart is in fits the outcome of its comparison. -/
def branchOk (c : Hart) : Prop :=
  (c.pc = .waitRelease → c.last = false) ∧ (c.pc = .setRelease ∨ stage c.pc = 7 → c.last = true)

lemma resume_branch
    (h : (resume cfg c r).pc = .waitRelease ∨ (resume cfg c r).pc = .setRelease) :
    c.pc = .unlockGlobash ∨ c.pc = .waitRelease := by
  have hwait := not_returned cfg c (p := .waitRelease) rfl
  have hset := not_returned cfg c (p := .setRelease) rfl
  unfold resume at h
  split at h <;> (try split at h) <;> simp_all

lemma branchOk_resume (h : branchOk c) : branchOk (resume cfg c r) := by
  by_cases hu : c.pc = .unlockGlobash
  · cases hl : c.last <;> simp [branchOk, resume, hu, hl]
  by_cases hc : c.pc = .compare
  · simp [branchOk, resume, hc]
  have hb := resume_branch cfg c r
  refine ⟨fun hw => ?_, fun hs => ?_⟩ <;> rw [resume_last cfg c r hc]
  · rcases hb (.inl hw) with h' | h'
    · contradiction
    · exact h.1 h'
  · rcases hs with hs | hs
    · rcases hb (.inr hs) with h' | h'
      · contradiction
      · simp only [resume, h'] at hs
        split at hs
        · simp [h'] at hs
        · simp at hs
    · cases stage_resume cfg c r with
      | stay hn => exact h.2 (.inr (hn ▸ hs))
      | release hp => exact h.2 (.inl hp)
      | _ => omega

lemma released_resume (h : branchOk c) :
    released (resume cfg c r) = (released c || decide (c.pc = .setRelease)) := by
  by_cases hp : c.pc = .setRelease
  · have := h.2 (.inl hp)
    simp [released, resume, hp, callStage, this]
  · by_cases hc : c.pc = .compare
    · simp [released, resume, hc]
    · rw [Bool.eq_iff_iff]
      simp only [released, hp, resume_last cfg c r hc, decide_false, Bool.or_false,
        Bool.and_eq_true, decide_eq_true_eq]
      refine and_congr_right fun hl => ?_
      cases stage_resume cfg c r with
      | wake hw => rw [h.1 hw] at hl; simp at hl
      | _ => first | contradiction | omega

lemma stage_eq_seven {p : Pc} (h : stage p = 7) :
    p = .call .restoreMtime ∨ ∃ code, p = .asm .restoreMtime code := by
  cases p with
  | call q => cases q <;> simp_all [callStage]
  | asm q code => cases q <;> simp_all [asmStage]
  | mtPrintf s p => cases s <;> simp_all [siteStage]
  | _ => simp at h

/-- **Inside a routine**: how a hart has come to the instructions it is at. -/
lemma resume_asm {q : Routine} {code : List Instr}
    (h : (resume cfg c r).pc = .asm q code) :
    (c.pc = .call q ∧ calls c.gates q = true ∧ code = q.code cfg ∧
      (resume cfg c r).arch = withArgs cfg c.cpuId c.arch q) ∨
    (∃ i, c.pc = .asm q (i :: code) ∧ (resume cfg c r).arch = i.exec cfg.env c.arch) ∨
    (c.pc = .asm .restoreIntVectorJump [] ∧ q = .jumpToCore ∧ code = q.code cfg ∧
      (resume cfg c r).arch = c.arch) := by
  have hs (s : Site) : s.next ≠ .asm q code := by
    cases s with
    | handler k => by_cases hk : k < 4 <;> simp [Site.next, hk]
    | _ => simp [Site.next]
  have hq (q' : Routine) : q'.next ≠ .asm q code := by
    cases q' <;> simp [Routine.next]
  have hf (q' : Routine) (hn : (finish cfg c q').pc = .asm q code) :
      q' = .restoreIntVectorJump ∧ q = .jumpToCore ∧ code = q.code cfg := by
    cases q' with
    | restoreIntVectorJump => obtain ⟨rfl, rfl⟩ := Pc.asm.inj hn; exact ⟨rfl, rfl, rfl⟩
    | _ => simp [finish, Routine.next] at hn
  unfold resume at h ⊢
  split at h <;> (try split at h) <;> simp_all
  · obtain ⟨rfl, rfl⟩ := h
    rfl
  · obtain ⟨rfl, rfl, rfl⟩ := hf _ h
    exact ⟨rfl, rfl, rfl, rfl⟩

/-- **Inside a call of `mt_printf`**: only the point of the hart changes, within the call or to the
one behind it. -/
lemma resume_print {s : Site} {p : PrintPt} (hp : c.pc = .mtPrintf s p) :
    ∃ q, resume cfg c r = { c with pc := q } ∧
      ((∃ p', q = .mtPrintf s p') ∨ p = .unlock ∧ q = s.next) := by
  rcases p with (_ | _) | _ | _
  · by_cases hr : r = 0
    · exact ⟨.mtPrintf s (.lock .swap), by simp [resume, hp, hr], .inl ⟨_, rfl⟩⟩
    · refine ⟨.mtPrintf s (.lock .read), ?_, .inl ⟨_, rfl⟩⟩
      simp only [resume, hp, hr, if_false]
      rw [← hp]
  · exact ⟨.mtPrintf s (if r = 0 then .out else .lock .read), by simp [resume, hp], .inl ⟨_, rfl⟩⟩
  · exact ⟨.mtPrintf s .unlock, by simp [resume, hp], .inl ⟨_, rfl⟩⟩
  · exact ⟨s.next, by simp [resume, hp], .inr ⟨rfl, rfl⟩⟩

/-! ### Points that are never entered again -/

lemma booting_iff : booting c = true ↔
    (c.pc = .gcptCStart ∧ c.cpuId = 0) ∨ (∃ i, c.pc = .clearBss i) ∨ c.pc = .setBssLock := by
  unfold booting
  split <;> simp_all

/-- No hart enters the part of `gcpt_c_start` that writes the BSS. -/
lemma booting_resume (h : booting c = false) : booting (resume cfg c r) = false := by
  rw [Bool.eq_false_iff, ne_eq, booting_iff] at h ⊢
  simp only [not_or, not_exists, not_and] at h ⊢
  obtain ⟨h0, h1, h2⟩ := h
  have hstart := not_returned cfg c (p := .gcptCStart) rfl
  have hclear (i : ℕ) := not_returned cfg c (p := .clearBss i) rfl
  have hbss := not_returned cfg c (p := .setBssLock) rfl
  unfold resume
  split <;> (try split) <;> simp_all

@[simp] lemma finish_allCpuNum (q : Routine) : (finish cfg c q).allCpuNum = c.allCpuNum := by
  cases q <;> rfl

lemma resume_allCpuNum (h : c.pc ≠ .readAllCpuNum) :
    (resume cfg c r).allCpuNum = c.allCpuNum := by
  unfold resume
  split <;> (try split) <;> simp_all only [finish_allCpuNum, ne_eq, not_true_eq_false]

end LibCheckpoint.Phase
