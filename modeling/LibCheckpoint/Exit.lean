import LibCheckpoint.Path
import LibCheckpoint.Barrier

/-!
The two ways out of the restorer: `mret`, and the jump through the stub of the hart.

The stub table is shared and patched while other harts run through it, so what a hart finds in
its own stub is an invariant of the machine; what it has in its registers is its own.
-/

namespace LibCheckpoint.Exit

open LibCheckpoint.Bytes LibCheckpoint.Rv64 LibCheckpoint.Csr LibCheckpoint.Asm
open LibCheckpoint.Layout LibCheckpoint.Jal LibCheckpoint.Restorer LibCheckpoint.Interleave
open LibCheckpoint.Phase LibCheckpoint.Effect LibCheckpoint.Barrier LibCheckpoint.Path

variable {M : ℕ} (cfg : Cfg)

/-! ### The stub table -/

/-- The address of word `k` of the stub of a hart. -/
def stub (cpuId : BitVec 32) (k : ℕ) : Word :=
  cfg.link.core0 + 16 * cpuId.setWidth 64 + BitVec.ofNat 64 (4 * k)

lemma stubPc_stub {i : ℕ} (hi : i < 128) :
    stubPc cfg.link.core0 (BitVec.ofNat 32 i) = stub cfg (BitVec.ofNat 32 i) 3 :=
  stubPc_eq _ (by simp; omega)

lemma stub_inj {i j k l : ℕ} (hi : i < 128) (hj : j < 128) (hk : k < 4) (hl : l < 4)
    (h : stub cfg (BitVec.ofNat 32 i) k = stub cfg (BitVec.ofNat 32 j) l) : i = j ∧ k = l := by
  unfold stub at h
  rw [BitVec.add_assoc, BitVec.add_assoc, BitVec.add_right_inj] at h
  have := congrArg BitVec.toNat h
  simp only [BitVec.toNat_add, BitVec.toNat_mul, BitVec.toNat_setWidth, BitVec.ofNat_eq_ofNat,
    BitVec.toNat_ofNat] at this
  omega

lemma stub_succ (cpuId : BitVec 32) (k : ℕ) : stub cfg cpuId k + 4 = stub cfg cpuId (k + 1) := by
  rw [stub, stub, BitVec.add_assoc, Nat.mul_succ, BitVec.ofNat_add]
  rfl

/-- The point lies behind the patch of a hart that has passed the range check. -/
def patched (p : Pc) : Bool :=
  match p with
  | .call _ | .asm _ _ => true
  | p => decide (2 ≤ stage p)

/-- The stubs as the harts find them: as assembled, but for the last word of a hart that has
patched it. -/
structure Stubs (s : Sys M) : Prop where
  cpuId : ∀ i, (s.loc i).cpuId = BitVec.ofNat 32 i
  words : ∀ i : Fin M, ∀ k < 3, s.mem.text (stub cfg (BitVec.ofNat 32 i) k) = stubWord k
  jal : ∀ i, (s.loc i).gates.shouldJumpToMepc = true → patched (s.loc i).pc = true →
    s.mem.text (stub cfg (BitVec.ofNat 32 i) 3) = jalInstr (cfg.offset (BitVec.ofNat 32 i))

variable {cfg} {s : Sys M}

lemma after_text (c : Hart) (m : Shared) : (after cfg c m).text =
    if c.pc = .patchJal ∧ c.gates.shouldJumpToMepc = true ∧ isValidImm (cfg.offset c.cpuId) = true
    then Function.update m.text (stubPc cfg.link.core0 c.cpuId) (jalInstr (cfg.offset c.cpuId))
    else m.text := by
  have hperform (a : Act) : (perform cfg.link a m).1.text = match a with
      | .patch p w => Function.update m.text p w
      | _ => m.text := by
    cases a <;> rfl
  rw [after, hperform]
  by_cases h : c.pc = .patchJal ∧ c.gates.shouldJumpToMepc = true ∧
      isValidImm (cfg.offset c.cpuId) = true
  · simp [act, h]
  · have hne (p : Word) (w : BitVec 32) : act cfg c ≠ .patch p w := by
      unfold act
      split <;> (try split) <;> simp_all
    rw [if_neg h]
    split
    · rename_i p w ha
      exact absurd ha (hne p w)
    · rfl

lemma patched_resume {c : Hart} {r : Word} (hj : (resume cfg c r).gates.shouldJumpToMepc = true)
    (hp : patched (resume cfg c r).pc = true) :
    c.gates.shouldJumpToMepc = true ∧ (patched c.pc = true ∨
      c.pc = .patchJal ∧ isValidImm (cfg.offset c.cpuId) = true) := by
  by_cases hc : c.pc = .extCheck
  · simp [resume, hc, patched] at hp
  rw [resume_gates cfg c r hc] at hj
  refine ⟨hj, ?_⟩
  by_cases hpj : c.pc = .patchJal
  · refine .inr ⟨hpj, ?_⟩
    by_contra hv
    simp only [Bool.not_eq_true] at hv
    simp [resume, hpj, hj, hv, patched, siteStage] at hp
  · refine .inl ?_
    -- No other point leads behind the patch from before it.
    by_contra hn
    cases hpc : c.pc with
    | extCheck => exact hc hpc
    | patchJal => exact hpj hpc
    | gcptCStart | clearBss i | waitBssLock | multicoreDecodeRestore =>
      simp only [resume, hpc] at hp
      split at hp <;> simp [patched, hpc, siteStage] at hp
    | mtPrintf t p =>
      have ht : siteStage t ≤ 1 := by
        cases t <;> simp_all [patched, siteStage]
      obtain ⟨q, hres, ⟨p', rfl⟩ | ⟨-, rfl⟩⟩ := resume_print cfg c r hpc
      · simp [hres, patched] at hp
        omega
      · rw [hres] at hp
        cases t with
        | handler k => by_cases hk : k < 4 <;> simp [Site.next, hk, patched, siteStage] at hp
        | arrive => simp [siteStage] at ht
        | _ => simp [Site.next, patched] at hp
    | setBssLock | enableGcptTrap | stopped | readAllCpuNum | nemuSignal =>
      simp [resume, hpc, patched, siteStage] at hp
    | _ => simp [patched, hpc] at hn

/-- **Nobody spoils a stub**: the step of a hart leaves the stubs of the others as they are. -/
lemma text_of_ne (hM : M ≤ 128) (hid : ∀ i, (s.loc i).cpuId = BitVec.ofNat 32 i) {i j : Fin M}
    {k : ℕ} (hk : k < 4) (h : i ≠ j ∨ k < 3) :
    (next (harts cfg) s j).mem.text (stub cfg (BitVec.ofNat 32 i) k) =
      s.mem.text (stub cfg (BitVec.ofNat 32 i) k) := by
  rw [next_mem, after_text]
  split_ifs with hp
  · rw [Function.update_of_ne]
    rw [hid, stubPc_stub cfg (by omega)]
    intro he
    obtain ⟨hij, hk3⟩ := stub_inj cfg (by omega) (by omega) hk (by omega) he
    rcases h with h | h
    · exact h (Fin.ext hij)
    · omega
  · rfl

lemma Stubs.next (hM : M ≤ 128) (h : Stubs cfg s) (j : Fin M) :
    Stubs cfg (next (harts cfg) s j) where
  cpuId i := by rw [next_cpuId, h.cpuId]
  words i k hk := by rw [text_of_ne hM h.cpuId (by omega) (.inr hk), h.words i k hk]
  jal i hj hp := by
    by_cases hij : i = j
    · subst hij
      rw [next_loc_resume] at hj hp
      obtain ⟨hj', hp'⟩ := patched_resume hj hp
      rw [next_mem, after_text]
      rcases hp' with hp' | ⟨hpc, hv⟩
      · rw [if_neg fun hc => by simp [hc.1, patched] at hp']
        exact h.jal i hj' hp'
      · rw [if_pos ⟨hpc, hj', hv⟩, h.cpuId, stubPc_stub cfg (by omega), Function.update_self]
    · rw [next_loc_of_ne _ _ hij] at hj hp
      rw [text_of_ne hM h.cpuId (by omega) (.inl hij)]
      exact h.jal i hj hp

variable (cfg)

/-! ### The integer registers -/

def slotX (cpuId : BitVec 32) (r : Reg) : Word :=
  cfg.ld ((cfg.layout cpuId).intRegCptAddr + BitVec.ofNat 64 (8 * r))

/-- All integer registers but those of a list hold their saved values. -/
def LoadedBut (rs : List Reg) (cpuId : BitVec 32) (a : Arch) : Prop :=
  ∀ r, r ≠ 0 → r ∉ rs → a.getX r = slotX cfg cpuId r

/-- The registers before word `k` of the stub: the stub loads `t0`, `t1` and at last its own
base register. -/
structure AtWord (cpuId : BitVec 32) (k : ℕ) (a : Arch) : Prop where
  loaded : LoadedBut cfg ([t0, t1, sp].drop k) cpuId a
  base : k < 3 → a.getX sp = (cfg.layout cpuId).intRegCptAddr

variable {cfg} (cpuId : BitVec 32) (a : Arch)

lemma ld_slot (r : Reg) (h : a.getX sp = (cfg.layout cpuId).intRegCptAddr) :
    ld64 cfg.env.ram (ea a (BitVec.ofNat 12 (r * 8)) sp) = slotX cfg cpuId r := by
  rw [ea_slot, h]
  rfl

lemma intLoads_slot (rs : List Reg) {b : Arch} (h0 : 0 ∉ rs) (hsp : sp ∉ rs)
    (hb : b.getX sp = (cfg.layout cpuId).intRegCptAddr) (r : Reg) :
    (execs cfg.env (intLoads rs) b).getX r = if r ∈ rs then slotX cfg cpuId r else b.getX r := by
  rw [getX_intLoads cfg.env rs b h0 hsp, hb]
  rfl

lemma mret_loaded : LoadedBut cfg [] cpuId
    (execs cfg.env Asm.restoreIntVectorMret (withArgs cfg cpuId a .restoreIntVectorMret)) := by
  intro r h0 _
  have hmem : ∀ q : Reg, q ∈ (1 : Reg) :: (List.finRange 32).drop 3 ↔ q ≠ 0 ∧ q ≠ sp := by
    decide
  rw [Asm.restoreIntVectorMret, execs_append, execs_append]
  set b := execs cfg.env [.mv sp a0] (withArgs cfg cpuId a .restoreIntVectorMret) with hb
  have hsp : b.getX sp = (cfg.layout cpuId).intRegCptAddr := by
    simp [hb, Instr.exec, withArgs, Arch.getX_setX, sp, a0]
  have hd := intLoads_slot cpuId (1 :: (List.finRange 32).drop 3) (by decide) (by decide) hsp
  set d := execs cfg.env (intLoads (1 :: (List.finRange 32).drop 3)) b
  have hdsp : d.getX sp = (cfg.layout cpuId).intRegCptAddr := by
    rw [hd, if_neg (by decide), hsp]
  rw [show execs cfg.env (intLoads [sp]) d =
    d.setX sp (ld64 cfg.env.ram (ea d (BitVec.ofNat 12 (sp * 8)) sp)) from rfl,
    ld_slot cpuId d sp hdsp, Arch.getX_setX]
  split_ifs with hr
  · rw [hr.1]
  · rw [hd, if_pos ((hmem r).mpr ⟨h0, fun he => hr ⟨he, by decide⟩⟩)]

lemma jump_loaded : AtWord cfg cpuId 0
    (execs cfg.env Asm.restoreIntVectorJump (withArgs cfg cpuId a .restoreIntVectorJump)) := by
  have hmem : ∀ q : Reg, q ∈ (1 : Reg) :: 3 :: 4 :: (List.finRange 32).drop 7 ↔
      q ≠ 0 ∧ q ∉ [t0, t1, sp] := by decide
  rw [Asm.restoreIntVectorJump, execs_append]
  set b := execs cfg.env [.mv sp a0] (withArgs cfg cpuId a .restoreIntVectorJump) with hb
  have hsp : b.getX sp = (cfg.layout cpuId).intRegCptAddr := by
    simp [hb, Instr.exec, withArgs, Arch.getX_setX, sp, a0]
  have hd := intLoads_slot cpuId (1 :: 3 :: 4 :: (List.finRange 32).drop 7) (by decide)
    (by decide) hsp
  refine ⟨fun r h0 hr => ?_, fun _ => ?_⟩
  · rw [hd, if_pos ((hmem r).mpr ⟨h0, hr⟩)]
  · rw [hd, if_neg (by decide), hsp]

variable {cpuId a}

lemma jumpToCore_loaded (h : AtWord cfg cpuId 0 a) (hid : a.hartid = cpuId.setWidth 64) :
    AtWord cfg cpuId 0 (execs cfg.env (Asm.jumpToCore cfg.link.core0) a) ∧
      (execs cfg.env (Asm.jumpToCore cfg.link.core0) a).getX t0 = stub cfg cpuId 0 := by
  have hget (r : Reg) (hr : r ∉ [t0, t1]) :
      (execs cfg.env (Asm.jumpToCore cfg.link.core0) a).getX r = a.getX r := by
    simp only [List.mem_cons, List.not_mem_nil, or_false, not_or] at hr
    simp [Asm.jumpToCore, Instr.exec, Arch.getX_setX, hr]
  refine ⟨⟨fun r h0 hr => ?_, fun _ => ?_⟩, ?_⟩
  · rw [hget r (by simp at hr ⊢; tauto)]
    exact h.loaded r h0 hr
  · rw [hget sp (by decide)]
    exact h.base (by omega)
  · simp [Asm.jumpToCore, Instr.exec, Arch.getX_setX, Arch.readCsr, t0, t1, mhartidId, hid, stub]
    rw [BitVec.add_comm, BitVec.add_right_inj]
    refine BitVec.eq_of_toNat_eq ?_
    simp only [BitVec.toNat_shiftLeft, BitVec.toNat_mul, BitVec.toNat_ofNat, Nat.shiftLeft_eq]
    omega

lemma AtWord.load {k : ℕ} (h : AtWord cfg cpuId k a) (hk : k < 3) {r : Reg}
    (hr : [t0, t1, sp].drop k = r :: [t0, t1, sp].drop (k + 1)) (hsp : k + 1 < 3 → r ≠ sp) :
    AtWord cfg cpuId (k + 1) ((Instr.ld r (BitVec.ofNat 12 (r * 8)) sp).exec cfg.env a) := by
  have hval := ld_slot cpuId a r (h.base hk)
  simp only [Instr.exec, hval]
  refine ⟨fun q h0 hq => ?_, fun hk' => ?_⟩
  · rw [Arch.getX_setX]
    split_ifs with he
    · rw [he.1]
    · refine h.loaded q h0 ?_
      rw [hr, List.mem_cons, not_or]
      exact ⟨fun hqr => he ⟨hqr, hqr ▸ h0⟩, hq⟩
  · rw [Arch.getX_setX, if_neg fun he => hsp hk' he.1.symm]
    exact h.base (by omega)

lemma AtWord.next {k : ℕ} (h : AtWord cfg cpuId k a) (hk : k < 3) :
    ∃ i, decode (stubWord k) = some (.op i) ∧ AtWord cfg cpuId (k + 1) (i.exec cfg.env a) := by
  interval_cases k
  · exact ⟨_, decode_stubWord_zero, h.load hk (r := t0) rfl (by decide)⟩
  · exact ⟨_, decode_stubWord_one, h.load hk (r := t1) rfl (by decide)⟩
  · exact ⟨_, decode_stubWord_two, h.load hk (r := sp) rfl (by decide)⟩

variable (cfg)

/-! ### On the way out -/

/-- What is true of the registers and the program counter of a hart that is leaving. -/
def ExitOk (c : Hart) : Prop :=
  match c.pc with
  | .call q => q ≠ .jumpToCore
  | .asm .restoreIntVectorMret l => LoadedBut cfg [] c.cpuId (execs cfg.env l c.arch)
  | .asm .restoreIntVectorJump l => AtWord cfg c.cpuId 0 (execs cfg.env l c.arch)
  | .asm .jumpToCore l => AtWord cfg c.cpuId 0 (execs cfg.env l c.arch) ∧
    (execs cfg.env l c.arch).getX t0 = stub cfg c.cpuId 0
  | .fetch a => ∃ k < 4, a = stub cfg c.cpuId k ∧ AtWord cfg c.cpuId k c.arch
  | .gone a => LoadedBut cfg [] c.cpuId c.arch ∧
    if c.gates.shouldJumpToMepc then
      a = stub cfg c.cpuId 3 + immJ (jalInstr (cfg.offset c.cpuId))
    else a = c.arch.csr mepcId
  | .stuck => False
  | _ => True

def stubAnswer (cpuId : BitVec 32) (k : ℕ) : BitVec 32 :=
  if k < 3 then stubWord k else jalInstr (cfg.offset cpuId)

variable {cfg} {A : Arch} {c : Hart} {r : Word}

lemma exitOk_called {q : Routine} (hq : q ≠ .jumpToCore) : ExitOk cfg
    { c with arch := withArgs cfg c.cpuId c.arch q, pc := .asm q (q.code cfg) } := by
  cases q with
  | restoreIntVectorMret => exact mret_loaded c.cpuId c.arch
  | restoreIntVectorJump => exact jump_loaded c.cpuId c.arch
  | jumpToCore => exact absurd rfl hq
  | _ => trivial

lemma exitOk_returned {q : Routine} (h : ExitOk cfg c) (hpath : OnPath cfg A c)
    (hid : c.pc = .asm .restoreIntVectorJump [] → c.arch.hartid = c.cpuId.setWidth 64)
    (hp : c.pc = .asm q []) : ExitOk cfg (finish cfg c q) := by
  cases q with
  | restoreIntVectorMret =>
    have hg := hpath.mret (.inr ⟨_, hp⟩)
    simp only [ExitOk, hp, execs_nil] at h
    refine ⟨h, ?_⟩
    simp [finish, hg, Arch.mret]
  | restoreIntVectorJump =>
    simp only [ExitOk, hp, execs_nil] at h
    exact jumpToCore_loaded h (hid hp)
  | jumpToCore =>
    simp only [ExitOk, hp, execs_nil] at h
    exact ⟨0, by omega, h.2, h.1⟩
  | restoreMtimeCmp => trivial
  | _ => simp [ExitOk, finish, Routine.next]

lemma exitOk_fetched {a : Word} (h : ExitOk cfg c) (hpath : OnPath cfg A c)
    (hp : c.pc = .fetch a) (hr : ∀ k < 4, c.pc = .fetch (stub cfg c.cpuId k) →
      r.setWidth 32 = stubAnswer cfg c.cpuId k) : ExitOk cfg (resume cfg c r) := by
  simp only [ExitOk, hp] at h
  obtain ⟨k, hk, rfl, hword⟩ := h
  have hr := hr k hk hp
  by_cases hk3 : k < 3
  · obtain ⟨i, hdec, hnext⟩ := hword.next hk3
    rw [stubAnswer, if_pos hk3] at hr
    simp only [resume, hp, hr, hdec, ExitOk]
    exact ⟨k + 1, by omega, stub_succ cfg _ _, hnext⟩
  · obtain rfl : k = 3 := by omega
    rw [stubAnswer, if_neg hk3] at hr
    have hg := hpath.jump (.inr (.inr ⟨_, hp⟩))
    simp only [resume, hp, hr, decode_jalInstr, ExitOk, hg, if_true, and_true]
    intro r h0 _
    simpa [Arch.getX_setX] using hword.loaded r h0 (by simp)

/-- **A hart that leaves keeps to its registers.** -/
theorem ExitOk.next (h : ExitOk cfg c) (hpath : OnPath cfg A c)
    (hid : c.pc = .asm .restoreIntVectorJump [] → c.arch.hartid = c.cpuId.setWidth 64)
    (hr : ∀ k < 4, c.pc = .fetch (stub cfg c.cpuId k) →
      r.setWidth 32 = stubAnswer cfg c.cpuId k) : ExitOk cfg (resume cfg c r) := by
  cases hp : c.pc with
  | call q =>
    simp only [ExitOk, hp] at h
    by_cases hg : calls c.gates q = true
    · simp only [resume, hp, hg, if_true]
      -- The routine begins with its first instruction.
      exact exitOk_called h
    · simp only [resume, hp, if_neg hg]
      cases q <;> first
        | exact absurd rfl hg
        | exact absurd rfl h
        | simp [Routine.next, ExitOk]
  | asm q l =>
    cases l with
    | nil =>
      rw [show resume cfg c r = finish cfg c q by simp [resume, hp]]
      exact exitOk_returned h hpath hid hp
    | cons i l =>
      rw [show resume cfg c r = { c with arch := i.exec cfg.env c.arch, pc := .asm q l } by
        simp [resume, hp]]
      cases q <;> first
        | trivial
        | (simp only [ExitOk, hp, execs_cons] at h; exact h)
  | fetch a => exact exitOk_fetched h hpath hp hr
  | gone a => simpa [resume, hp] using h
  | stuck => simp [ExitOk, hp] at h
  | mtPrintf t p =>
    obtain ⟨q, hres, ⟨p', rfl⟩ | ⟨-, rfl⟩⟩ := resume_print cfg c r hp
    · simp [hres, ExitOk]
    · rw [hres]
      cases t with
      | handler k => by_cases hk : k < 4 <;> simp [Site.next, hk, ExitOk]
      | _ => simp [Site.next, ExitOk]
  | lockGlobash p =>
    cases p <;> simp only [resume, hp] <;> split <;> simp [ExitOk, hp]
  | gcptCStart | clearBss | waitBssLock | multicoreDecodeRestore | waitRelease | unlockGlobash
  | patchJal =>
    simp only [resume, hp]
    split <;> simp [ExitOk, hp]
  | _ => simp [resume, hp, ExitOk]

variable (cfg)

/-! ### All harts -/

def modeM (cpuId : BitVec 32) : Bool :=
  cfg.ld (cfg.layout cpuId).modeCptAddr <<< 11 == mstatusMpp

/-- Every hart is at the start of `single_core_rvv_rvh_rvgc_restore`, and the stubs are as
assembled. -/
structure AtEntry (s : Sys M) : Prop where
  pc : ∀ i, (s.loc i).pc = .readAllCpuNum
  cpuId : ∀ i, (s.loc i).cpuId = BitVec.ofNat 32 i
  hartid : ∀ i, (s.loc i).arch.hartid = BitVec.ofNat 64 i
  words : ∀ i : Fin M, ∀ k < 4, s.mem.text (stub cfg (BitVec.ofNat 32 i) k) = stubWord k

/-- What a hart is restored to before the barrier. -/
def restoredArch (s : Sys M) (i : Fin M) : Arch :=
  restoreAll cfg (BitVec.ofNat 32 i) (s.loc i).arch

/-- The invariant of the harts on the way from the entry of the restore to its end. -/
structure Restoring (s₀ s : Sys M) : Prop where
  stubs : Stubs cfg s
  hartid : ∀ i, (s.loc i).arch.hartid = BitVec.ofNat 64 i
  path : ∀ i, OnPath cfg (restoredArch cfg s₀ i) (s.loc i)
  exit : ∀ i, ExitOk cfg (s.loc i)
  mode : ∀ i, ((s.loc i).pc = .readAllCpuNum ∨ (s.loc i).pc = .extCheck) ∨
    (s.loc i).gates.shouldJumpToMepc = modeM cfg (BitVec.ofNat 32 i)

variable {cfg} {s₀ s : Sys M}

lemma AtEntry.restoring (h : AtEntry cfg s) : Restoring cfg s s where
  stubs := ⟨h.cpuId, fun i k hk => h.words i k (by omega), fun i _ hp => by
    simp [h.pc i, patched] at hp⟩
  hartid := h.hartid
  path i := {
    code := by simp [h.pc i]
    jump := by simp [h.pc i]
    mret := by simp [h.pc i]
    arrives := by simp [arrival, h.pc i, h.cpuId i, restoredArch]
    late := by simp [h.pc i] }
  exit i := by simp [ExitOk, h.pc i]
  mode i := .inl (.inl (h.pc i))

lemma Restoring.answer_fetch (h : Restoring cfg s₀ s) (i : Fin M) (k : ℕ) (hk : k < 4)
    (hp : (s.loc i).pc = .fetch (stub cfg (s.loc i).cpuId k)) :
    (answer (harts cfg) s i).setWidth 32 = stubAnswer cfg (s.loc i).cpuId k := by
  have hans : (answer (harts cfg) s i).setWidth 32 =
      s.mem.text (stub cfg (s.loc i).cpuId k) := by
    simp [answer, act, hp, perform]
  rw [hans, h.stubs.cpuId, stubAnswer]
  split_ifs with hk3
  · exact h.stubs.words i k hk3
  · obtain rfl : k = 3 := by omega
    exact h.stubs.jal i ((h.path i).jump (.inr (.inr ⟨_, hp⟩))) (by simp [patched, hp])

lemma Restoring.next (hM : M ≤ 128) (h : Restoring cfg s₀ s) (j : Fin M) :
    Restoring cfg s₀ (next (harts cfg) s j) := by
  have hid : (s.loc j).arch.hartid = (s.loc j).cpuId.setWidth 64 := by
    rw [h.hartid, h.stubs.cpuId]
    exact BitVec.eq_of_toNat_eq (by simp; omega)
  refine ⟨h.stubs.next hM j, fun i => ?_, fun i => ?_, fun i => ?_, fun i => ?_⟩ <;>
    by_cases hij : i = j <;>
    first
      | (subst hij; rw [next_loc_resume])
      | rw [next_loc_of_ne _ _ hij]
  · rw [resume_hartid, h.hartid]
  · exact h.hartid i
  · exact (h.path i).next _
  · exact h.path i
  · exact (h.exit i).next (h.path i) (fun _ => hid) fun k hk hp => h.answer_fetch i k hk hp
  · exact h.exit i
  · by_cases hc : (s.loc i).pc = .extCheck
    · refine .inr ?_
      simp [resume, hc, h.stubs.cpuId, Cfg.gates, checkpointExtCheck, modeM]
    · rw [resume_gates cfg _ _ hc]
      rcases h.mode i with (hp | hp) | hm
      · simp [resume, hp]
      · exact absurd hp hc
      · exact .inr hm
  · exact h.mode i

lemma Restoring.run (hM : M ≤ 128) (h : Restoring cfg s₀ s) (w : List (Fin M)) :
    Restoring cfg s₀ (run (harts cfg) s w) :=
  run_inv _ h (fun _ i ht => ht.next hM i) w

/-! ### Every exit ends -/

/-- A bound for the steps that a hart at its exit has left. -/
def todo (cfg : Cfg) (c : Hart) : ℕ :=
  match c.pc with
  | .call .restoreIntVectorJump => 40
  | .call .restoreIntVectorMret => 34
  | .asm .restoreIntVectorMret l => l.length + 1
  | .asm .restoreIntVectorJump l => l.length + 10
  | .asm .jumpToCore l => l.length + 5
  | .fetch a => (stub cfg c.cpuId 3 - a).toNat / 4 + 1
  | _ => 0

lemma todo_fetch (c : Hart) {k : ℕ} (hk : k < 4) (hp : c.pc = .fetch (stub cfg c.cpuId k)) :
    todo cfg c = 4 - k := by
  have : (stub cfg c.cpuId 3 - stub cfg c.cpuId k).toNat = 12 - 4 * k := by
    simp only [stub, BitVec.toNat_sub, BitVec.toNat_add, BitVec.toNat_ofNat]
    omega
  simp only [todo, hp, this]
  omega

lemma gone_of_todo {c : Hart} (h : ExitOk cfg c) (h8 : 8 ≤ stage c.pc) (ht : todo cfg c = 0) :
    ∃ a, c.pc = .gone a := by
  cases hp : c.pc with
  | gone a => exact ⟨a, rfl⟩
  | call q => cases q <;> simp [hp, ExitOk, callStage, todo] at h h8 ht
  | asm q l => cases q <;> simp [hp, asmStage, todo] at h8 ht
  | fetch a => simp [hp, todo] at ht
  | mtPrintf t p => cases t <;> simp [hp, siteStage] at h8
  | stuck => simp [hp, ExitOk] at h
  | _ => simp [hp] at h8

/-- A step of a hart at its exit leaves it with less to do. -/
lemma todo_resume {c : Hart} {r : Word} (h : ExitOk cfg c) (h8 : 8 ≤ stage c.pc)
    (hr : ∀ k < 4, c.pc = .fetch (stub cfg c.cpuId k) →
      r.setWidth 32 = stubAnswer cfg c.cpuId k) (hgone : ∀ a, c.pc ≠ .gone a) :
    todo cfg (resume cfg c r) < todo cfg c := by
  cases hp : c.pc with
  | gone a => exact absurd hp (hgone a)
  | call q =>
    have hjump : (Asm.restoreIntVectorJump).length = 29 := by decide
    have hmret : (Asm.restoreIntVectorMret).length = 32 := by decide
    cases q with
    | restoreIntVectorJump =>
      by_cases hg : calls c.gates .restoreIntVectorJump = true
      · simp [resume, hp, hg, todo, Routine.code, hjump]
      · simp [resume, hp, hg, todo, Routine.next]
    | restoreIntVectorMret => simp [resume, hp, calls, todo, Routine.code, hmret]
    | jumpToCore => simp [hp, ExitOk] at h
    | _ => simp [hp, callStage] at h8
  | asm q l =>
    cases l with
    | cons i l =>
      have ht : todo cfg (resume cfg c r) + 1 = todo cfg c := by
        cases q with
        | restoreIntVectorMret | restoreIntVectorJump | jumpToCore =>
          simp [resume, hp, todo]
          try omega
        | _ => simp [hp, asmStage] at h8
      omega
    | nil =>
      cases q with
      | restoreIntVectorMret => simp [resume, hp, finish, todo]
      | restoreIntVectorJump => simp [resume, hp, finish, todo, Routine.code, Asm.jumpToCore]
      | jumpToCore =>
        -- `jr t0` leads to the first of the four words of the stub.
        simp only [ExitOk, hp, execs_nil] at h
        have hf : todo cfg (resume cfg c r) = 4 :=
          todo_fetch _ (k := 0) (by omega) (by simp [resume, hp, finish, h.2])
        have hc : todo cfg c = 5 := by simp [todo, hp]
        omega
      | _ => simp [hp, asmStage] at h8
  | fetch a =>
    simp only [ExitOk, hp] at h
    obtain ⟨k, hk, rfl, hword⟩ := h
    have hr := hr k hk hp
    rw [todo_fetch c hk hp]
    -- The first three words are loads, the last one is the jump.
    by_cases hk3 : k < 3
    · obtain ⟨i, hdec, -⟩ := hword.next hk3
      rw [stubAnswer, if_pos hk3] at hr
      have hf : todo cfg (resume cfg c r) = 4 - (k + 1) :=
        todo_fetch _ (k := k + 1) (by omega) (by
          simpa [resume, hp, hr, hdec] using stub_succ cfg c.cpuId k)
      omega
    · obtain rfl : k = 3 := by omega
      rw [stubAnswer, if_neg hk3] at hr
      have hf : (resume cfg c r).pc =
          .gone (stub cfg c.cpuId 3 + immJ (jalInstr (cfg.offset c.cpuId))) := by
        simp [resume, hp, hr, decode_jalInstr]
      simp only [todo, hf]
      omega
  | mtPrintf t p => cases t <;> simp [hp, siteStage] at h8
  | stuck => simp [hp, ExitOk] at h
  | _ => simp [hp] at h8

/-- **Every exit ends**: a hart at its exit is gone after enough steps of its own, whatever the
other harts do in between. -/
theorem Restoring.exit_ends (hM : M ≤ 128) (h : Restoring cfg s₀ s) {i : Fin M}
    (h8 : 8 ≤ stage (s.loc i).pc) {v : List (Fin M)} (hv : todo cfg (s.loc i) ≤ v.count i) :
    ∃ a, ((Interleave.run (harts cfg) s v).loc i).pc = .gone a := by
  induction v generalizing s with
  | nil => exact gone_of_todo (h.exit i) h8 (by simpa using hv)
  | cons j v ih =>
    refine ih (h.next hM j) ?_ ?_
    · by_cases hij : i = j
      · subst hij
        rw [next_loc_resume]
        exact h8.trans (stage_mono cfg _ _)
      · rwa [next_loc_of_ne _ _ hij]
    · by_cases hij : i = j
      · subst hij
        rw [next_loc_resume]
        rw [List.count_cons_self] at hv
        by_cases hg : ∃ a, (s.loc i).pc = .gone a
        · obtain ⟨a, ha⟩ := hg
          simp [resume, ha, todo]
        · have := todo_resume (h.exit i) h8 (fun k hk hp => h.answer_fetch i k hk hp)
            fun a ha => hg ⟨a, ha⟩
          omega
      · rw [next_loc_of_ne _ _ hij]
        rwa [List.count_cons_of_ne (Ne.symm hij)] at hv

/-! ### The end of a hart -/

lemma todo_le {A : Arch} {c : Hart} (hpath : OnPath cfg A c) (h : ExitOk cfg c) :
    todo cfg c ≤ 40 := by
  have hjump : (Asm.restoreIntVectorJump).length = 29 := by decide
  have hmret : (Asm.restoreIntVectorMret).length = 32 := by decide
  cases hp : c.pc with
  | call q => cases q <;> simp [todo, hp]
  | asm q l =>
    have hle := (hpath.code q l hp).length_le
    cases q with
    | restoreIntVectorMret | restoreIntVectorJump =>
      simp only [Routine.code, hjump, hmret] at hle
      simp only [todo, hp]
      omega
    | jumpToCore =>
      simp only [Routine.code, Asm.jumpToCore, List.length_cons, List.length_nil] at hle
      simp only [todo, hp]
      omega
    | _ => simp [todo, hp]
  | fetch a =>
    simp only [ExitOk, hp] at h
    obtain ⟨k, hk, rfl, -⟩ := h
    rw [todo_fetch c hk hp]
    omega
  | _ => simp [todo, hp]

def targetPc (cfg : Cfg) (cpuId : BitVec 32) : Word := cfg.ld (cfg.layout cpuId).pcCptAddr

def distance (cfg : Cfg) (cpuId : BitVec 32) : ℤ :=
  (targetPc cfg cpuId - stubLast cfg.link.core0 cpuId).toInt

/-- A target in range passes the check, and the word that is patched leads to it. -/
lemma jump_target {cpuId : BitVec 32} (hid : cpuId.toNat < 128)
    (hr : inRange (distance cfg cpuId)) : isValidImm (cfg.offset cpuId) = true ∧
      (2 ∣ (targetPc cfg cpuId).toNat →
        stub cfg cpuId 3 + immJ (jalInstr (cfg.offset cpuId)) = targetPc cfg cpuId) := by
  have hoff : cfg.offset cpuId =
      (targetPc cfg cpuId - stubLast cfg.link.core0 cpuId).setWidth 32 := by
    rw [Cfg.offset, stubPc_eq _ (by omega)]
    rfl
  refine ⟨?_, fun heven => ?_⟩
  · rw [hoff, isValidImm_iff]
    exact ⟨0, by rwa [mul_zero, sub_zero]⟩
  · have hd : 2 ∣ (targetPc cfg cpuId - stubLast cfg.link.core0 cpuId).toNat := by
      have := cfg.link.aligned
      simp only [stubLast, BitVec.toNat_sub, BitVec.toNat_add, BitVec.toNat_mul,
        BitVec.toNat_setWidth, BitVec.ofNat_eq_ofNat, BitVec.toNat_ofNat]
      omega
    have hlast : stub cfg cpuId 3 = stubLast cfg.link.core0 cpuId := rfl
    rw [hoff, (immJ_eq_iff hr).mpr hd, hlast, BitVec.add_comm, BitVec.sub_add_cancel]

lemma Restoring.gates_gone (h : Restoring cfg s₀ s) {i : Fin M} {a : Word}
    (hp : (s.loc i).pc = .gone a) :
    (s.loc i).gates.shouldJumpToMepc = modeM cfg (BitVec.ofNat 32 i) := by
  rcases h.mode i with (h | h) | hmode
  · simp [hp] at h
  · simp [hp] at h
  · exact hmode

lemma Restoring.gone_jump (hM : M ≤ 128) (h : Restoring cfg s₀ s) {i : Fin M} {a : Word}
    (hp : (s.loc i).pc = .gone a) (hm : modeM cfg (BitVec.ofNat 32 i) = true)
    (heven : 2 ∣ (targetPc cfg (BitVec.ofNat 32 i)).toNat)
    (hr : inRange (distance cfg (BitVec.ofNat 32 i))) : a = targetPc cfg (BitVec.ofNat 32 i) := by
  have hexit := h.exit i
  simp only [ExitOk, hp, h.gates_gone hp, hm, if_true, h.stubs.cpuId] at hexit
  rw [hexit.2]
  exact (jump_target (by simp; omega) hr).2 heven

lemma Restoring.gone_mret (h : Restoring cfg s₀ s) {i : Fin M} {a : Word}
    (hp : (s.loc i).pc = .gone a) (hm : modeM cfg (BitVec.ofNat 32 i) = false) :
    a = (restoredArch cfg s₀ i).csr mepcId ∧
      (s.loc i).arch.priv = mpp ((restoredArch cfg s₀ i).csr mstatusId) := by
  have hg : (s.loc i).gates.shouldJumpToMepc = false := (h.gates_gone hp).trans hm
  have hexit := h.exit i
  simp only [ExitOk, hp, hg, Bool.false_eq_true, if_false] at hexit
  have hlate := (h.path i).late (by simp [hp])
  simp only [atEnd, hp, hg, Bool.false_eq_true, if_false] at hlate
  refine ⟨?_, hlate.priv⟩
  rw [hexit.2, hlate.csr, Arch.mret_csr_of_ne _ (by decide)]

/-- **Both ways out**: no step of a hart changes the stub of another one, and a target in range
passes the check; a hart at its exit is gone after forty steps of its own; and when it is gone,
its registers are those of its checkpoint, and it is at the saved `pc` of an M-mode checkpoint in
range, or at the restored `mepc` with the privilege that `mstatus.MPP` names. -/
theorem exits (hM : M ≤ 128) (h : AtEntry cfg s) (w : List (Fin M)) (i : Fin M) :
    (∀ j ≠ i, ∀ k < 4, (next (harts cfg) (run (harts cfg) s w) j).mem.text
        (stub cfg (BitVec.ofNat 32 i) k) =
      (run (harts cfg) s w).mem.text (stub cfg (BitVec.ofNat 32 i) k)) ∧
    (inRange (distance cfg (BitVec.ofNat 32 i)) →
      isValidImm (cfg.offset (BitVec.ofNat 32 i)) = true) ∧
    (8 ≤ stage ((run (harts cfg) s w).loc i).pc → ∀ v : List (Fin M), 40 ≤ v.count i →
      ∃ a, ((run (harts cfg) s (w ++ v)).loc i).pc = .gone a) ∧
    ∀ a, ((run (harts cfg) s w).loc i).pc = .gone a →
      (∀ r : Reg, r ≠ 0 →
        ((run (harts cfg) s w).loc i).arch.getX r = slotX cfg (BitVec.ofNat 32 i) r) ∧
      (modeM cfg (BitVec.ofNat 32 i) = true → 2 ∣ (targetPc cfg (BitVec.ofNat 32 i)).toNat →
        inRange (distance cfg (BitVec.ofNat 32 i)) → a = targetPc cfg (BitVec.ofNat 32 i)) ∧
      (modeM cfg (BitVec.ofNat 32 i) = false → a = (restoredArch cfg s i).csr mepcId ∧
        ((run (harts cfg) s w).loc i).arch.priv =
          mpp ((restoredArch cfg s i).csr mstatusId)) := by
  have hw := h.restoring.run hM w
  refine ⟨fun j hj k hk => text_of_ne hM hw.stubs.cpuId hk (.inl (Ne.symm hj)),
    fun hr => (jump_target (by simp; omega) hr).1, fun h8 v hv => ?_,
    fun a ha => ⟨fun r hr => ?_, hw.gone_jump hM ha, hw.gone_mret ha⟩⟩
  · rw [run_append]
    exact hw.exit_ends hM h8 ((todo_le (hw.path i) (hw.exit i)).trans hv)
  · have := hw.exit i
    simp only [ExitOk, ha, hw.stubs.cpuId] at this
    exact this.1 r hr (by simp)

/-! ### A run of two harts -/

/-- Hart `0` comes from M-mode at `0x80002000`, hart `1` from U-mode at `0`. -/
def exitRam (a : Word) : Byte :=
  if a = 0x800ECDC0 then 3 else if a = 0x800ECDB9 then 0x20 else if a = 0x800ECDBB then 0x80
  else if a = 0x800EDDE8 then 5 else countRam 2 a

def exitSys : Sys 2 :=
  { smallSys 2 .readAllCpuNum 0 with
    mem := { bss := fun _ => 0
             text := fun a => stubWord (((a - smallLink.core0).toNat / 4) % 4)
             io := [] } }

lemma exitSys_atEntry : AtEntry (smallCfg exitRam) exitSys where
  pc := by decide
  cpuId := by decide
  hartid := by decide
  words := by decide +kernel

/-- Hart `0` waits, hart `1` passes the barrier and leaves, then hart `0` goes on. -/
def exitRun (n : ℕ) : List (Fin 2) :=
  List.replicate 300 0 ++ List.replicate 350 1 ++ List.replicate n 0

theorem exits_exitSys :
    isValidImm ((smallCfg exitRam).offset (BitVec.ofNat 32 (0 : Fin 2))) = true ∧
    (∃ a, ((run (harts (smallCfg exitRam)) exitSys
      (exitRun 1 ++ List.replicate 40 0)).loc 0).pc = .gone a) ∧
    (∀ r : Reg, r ≠ 0 → ((run (harts (smallCfg exitRam)) exitSys (exitRun 50)).loc 0).arch.getX r =
      slotX (smallCfg exitRam) (BitVec.ofNat 32 (0 : Fin 2)) r) ∧
    0x80002000 = targetPc (smallCfg exitRam) (BitVec.ofNat 32 (0 : Fin 2)) ∧
    0 = (restoredArch (smallCfg exitRam) exitSys 1).csr mepcId := by
  have h0 := exits (by decide) exitSys_atEntry (exitRun 1) 0
  have h0' := exits (by decide) exitSys_atEntry (exitRun 50) 0
  have h1 := exits (by decide) exitSys_atEntry (exitRun 50) 1
  have hr : inRange (distance (smallCfg exitRam) (BitVec.ofNat 32 (0 : Fin 2))) := by
    unfold inRange
    decide +kernel
  have hgone0 : ((run (harts (smallCfg exitRam)) exitSys (exitRun 50)).loc 0).pc =
      .gone 0x80002000 := by decide +kernel
  have hgone1 : ((run (harts (smallCfg exitRam)) exitSys (exitRun 50)).loc 1).pc = .gone 0 := by
    decide +kernel
  exact ⟨h0.2.1 hr, h0.2.2.1 (by decide +kernel) _ (by decide), (h0'.2.2.2 _ hgone0).1,
    (h0'.2.2.2 _ hgone0).2.1 (by decide +kernel) (by decide +kernel) hr,
    ((h1.2.2.2 _ hgone1).2.2 (by decide +kernel)).1⟩

end LibCheckpoint.Exit
