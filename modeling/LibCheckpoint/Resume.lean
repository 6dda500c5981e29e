import LibCheckpoint.Privilege

/-!
The whole state in which a hart resumes: what the restorer has taken from the checkpoint, and what
it has left as it was.
-/

namespace LibCheckpoint.Resume

open LibCheckpoint.Bytes LibCheckpoint.Rv64 LibCheckpoint.Csr LibCheckpoint.Asm
open LibCheckpoint.Registers LibCheckpoint.Layout LibCheckpoint.Restorer LibCheckpoint.Interleave
open LibCheckpoint.Phase LibCheckpoint.Path LibCheckpoint.Exit LibCheckpoint.Vector
open LibCheckpoint.Solo LibCheckpoint.Host LibCheckpoint.Status LibCheckpoint.Jal

variable {cfg : Cfg} {cpuId : BitVec 32} {a : Arch}

/-! ### Closed gates -/

lemma restoreAll_keep {β : Type*} {K : Arch → β}
    (h : ∀ q, callStage q = 1 → ∀ b,
      K (callOne cfg cpuId (cfg.gates cpuId (a.readCsr csrMisa)) b q) = K b) :
    K (restoreAll cfg cpuId a) = K a := by
  unfold restoreAll callAll
  simp only [before, List.foldl_cons, List.foldl_nil]
  rw [h .restoreMtimeCmp rfl, h .restoreCsrVector rfl, h .restoreFloatVector rfl,
    h .rvvRestore rfl, h .rvhCsrRestore rfl]

lemma code_floatKept {q : Routine} (h1 : callStage q = 1) (hq : q ≠ .restoreFloatVector) (r : Reg) :
    (q.code cfg).all (floatKept r) = true := by
  cases q with
  | restoreFloatVector => exact absurd rfl hq
  | rvhCsrRestore =>
    change Asm.rvhCsrRestore.all (floatKept r) = true
    revert r
    decide +kernel
  | rvvRestore =>
    change Asm.rvvRestore.all (floatKept r) = true
    revert r
    decide +kernel
  | restoreCsrVector =>
    change Asm.restoreCsrVector.all (floatKept r) = true
    revert r
    decide +kernel
  | restoreMtimeCmp => rfl
  | _ => cases h1

lemma execs_f {r : Reg} {l : List Instr} (h : l.all (floatKept r) = true) (b : Arch) :
    (execs cfg.env l b).f r = b.f r := by
  induction l generalizing b with
  | nil => rfl
  | cons i l ih =>
    rw [List.all_cons, Bool.and_eq_true] at h
    rw [execs_cons, ih h.2, exec_f h.1]

lemma f_restoreAll (h : (cfg.gates cpuId (a.readCsr csrMisa)).rvfCouldRestore = false) (r : Reg) :
    (restoreAll cfg cpuId a).f r = a.f r := by
  refine restoreAll_keep (K := fun b => b.f r) fun q h1 b => ?_
  by_cases hq : q = .restoreFloatVector
  · subst hq
    have hclosed : calls (cfg.gates cpuId (a.readCsr csrMisa)) .restoreFloatVector = false := h
    rw [callOne, hclosed, if_neg (by decide)]
  · unfold callOne
    split_ifs
    · rw [execs_f (code_floatKept h1 hq r)]
      exact congrFun (sameButX_withArgs cpuId b q).f r
    · rfl

lemma sameVector_restoreAll (hV : KeepsVector cfg.env)
    (h : (cfg.gates cpuId (a.readCsr csrMisa)).rvvCouldRestore = false) :
    SameVector (restoreAll cfg cpuId a) a := by
  have hcall (q : Routine) (h1 : callStage q = 1) (b : Arch) :
      SameVector (callOne cfg cpuId (cfg.gates cpuId (a.readCsr csrMisa)) b q) b := by
    by_cases hq : q = .rvvRestore
    · subst hq
      have hclosed : calls (cfg.gates cpuId (a.readCsr csrMisa)) .rvvRestore = false := h
      rw [callOne, hclosed, if_neg (by decide)]
      exact ⟨rfl, fun _ _ => rfl⟩
    · exact sameVector_callOne hV _ hq h1
  refine ⟨restoreAll_keep (K := fun b => b.v) fun q h1 b => (hcall q h1 b).v, fun c hc => ?_⟩
  exact restoreAll_keep (K := fun b => b.csr c) fun q h1 b => (hcall q h1 b).csr c hc

/-! ### The state at the transfer -/

/-- The host has a CSR as one of its own: it keeps the legal values that are written to it, and no
other write of the restorer changes it. -/
def Plain (E : Env) (legal : CsrNum → Word → Prop) (x : CsrNum) : Prop :=
  ∃ hx : x ∉ freeCsrs, (Rule.plain x hx legal).Obeyed E

/-- **What a hart resumes with**, of the state `c₀` at the entry: the registers of its checkpoint,
those of a unit if the gate of the unit was open; the CSRs of the lists, the second one if the gate
of the hypervisor was open; `mstatus`, as the way out leaves it; where it goes, and its privilege.
What no open gate asks for is what it was at the entry. -/
structure Resumed (cfg : Cfg) (legal : CsrNum → Word → Prop) (cpuId : BitVec 32) (g : Gates)
    (c₀ c : Arch) (target : Word) : Prop where
  x : ∀ r : Reg, r ≠ 0 → c.getX r = slotX cfg cpuId r
  f : ∀ r, c.f r = if g.rvfCouldRestore then slotF cfg cpuId r else c₀.f r
  v : ∀ r, c.v r = if g.rvvCouldRestore then slotV cfg cpuId r else c₀.v r
  csr : ∀ x, Plain cfg.env legal x → legal x (cfg.slotCsr cpuId x) →
    c.csr x = if x ∈ Rule.order g.rvhCouldRestore then cfg.slotCsr cpuId x else c₀.csr x
  mstatus : c.csr mstatusId = if modeM cfg cpuId then cfg.slotCsr cpuId mstatusId
    else mretStatus (cfg.slotCsr cpuId mstatusId)
  priv : c.priv = if modeM cfg cpuId then c₀.priv else mpp (cfg.slotCsr cpuId mstatusId)
  jump : modeM cfg cpuId = true → 2 ∣ (targetPc cfg cpuId).toNat → inRange (distance cfg cpuId) →
    target = targetPc cfg cpuId
  mret : modeM cfg cpuId = false → Plain cfg.env legal mepcId →
    legal mepcId (cfg.slotCsr cpuId mepcId) → target = cfg.slotCsr cpuId mepcId

variable {M : ℕ} {s : Sys M} {legal : CsrNum → Word → Prop}

lemma csr_restoreAll {x : CsrNum} (hx : Plain cfg.env legal x)
    (hlegal : legal x (cfg.slotCsr cpuId x)) : (restoreAll cfg cpuId a).csr x =
      if x ∈ Rule.order (cfg.gates cpuId (a.readCsr csrMisa)).rvhCouldRestore
      then cfg.slotCsr cpuId x else a.csr x := by
  obtain ⟨hfree, hobeyed⟩ := hx
  have hlist : ∀ c ∈ writtenCsrs, (Rule.plain x hfree legal).legal c (cfg.slotCsr cpuId c) := by
    intro c _ hc
    rwa [hc]
  have hshow : (restoreAll cfg cpuId a).csr x = _ :=
    Rule.shows_restoreAll (s := a.csr x) hlist hobeyed rfl
  split_ifs with hmem
  · rwa [Rule.plain_of_mem hmem] at hshow
  · rwa [Rule.plain_of_not_mem hmem] at hshow

lemma priv_restoreAll : (restoreAll cfg cpuId a).priv = a.priv := by
  refine restoreAll_keep (K := fun b => b.priv) fun q _ b => ?_
  unfold callOne
  split_ifs
  · have hexecs : ∀ (l : List Instr) (b : Arch), (execs cfg.env l b).priv = b.priv := by
      intro l
      induction l with
      | nil => exact fun _ => rfl
      | cons i l ih => exact fun b => (ih _).trans (exec_priv _ _ _)
    exact (hexecs _ _).trans (sameButX_withArgs cpuId b q).priv
  · rfl

/-- **The restore is complete**: a hart that has left is in the state of its checkpoint as far as
its gates are open and the host keeps what is written, and in the state of the entry otherwise. -/
theorem resumed_gone (hE : StatusHost cfg.env (legal mstatusId)) (hV : KeepsVector cfg.env)
    (hM : M ≤ 128) {s₀ : Sys M} (hw : Restoring cfg s₀ s) {i : Fin M}
    (hsaved : legal mstatusId (cfg.slotCsr (BitVec.ofNat 32 i) mstatusId)) {target : Word}
    (hp : (s.loc i).pc = .gone target) :
    Resumed cfg legal (BitVec.ofNat 32 i)
      (cfg.gates (BitVec.ofNat 32 i) ((s₀.loc i).arch.readCsr csrMisa)) (s₀.loc i).arch
      (s.loc i).arch target := by
  set c := s.loc i with hc
  have hcpu : c.cpuId = BitVec.ofNat 32 i := hw.stubs.cpuId i
  have hlate := (hw.path i).late (by simp [← hc, hp])
  obtain ⟨A, hA⟩ : ∃ A, A = restoredArch cfg s₀ i := ⟨_, rfl⟩
  rw [← hc, atEnd, hp, ← hA] at hlate
  have hgate : c.gates.shouldJumpToMepc = modeM cfg (BitVec.ofNat 32 i) := hw.gates_gone hp
  simp only [hgate] at hlate
  -- `mret` changes nothing but `mstatus` and the privilege.
  have hf : c.arch.f = A.f := by rw [hlate.f]; split_ifs <;> rfl
  have hv : c.arch.v = A.v := by rw [hlate.v]; split_ifs <;> rfl
  have hcsr : ∀ x ≠ mstatusId, c.arch.csr x = A.csr x := by
    intro x hx
    rw [hlate.csr]
    split_ifs
    · rfl
    · exact A.mret_csr_of_ne hx
  have hne : ∀ {x}, Plain cfg.env legal x → x ≠ mstatusId := by
    rintro x ⟨hfree, -⟩ rfl
    exact hfree (by decide)
  have hstatus : A.csr mstatusId = cfg.slotCsr (BitVec.ofNat 32 i) mstatusId := by
    rw [hA]
    exact (part_mstatus (hE.setsStatus hsaved)).restoreAll _ rfl
  -- Integer, float and vector registers, the CSRs, `mstatus`, the privilege, and the two targets.
  refine ⟨fun r hr => ?_, fun r => ?_, fun r => ?_, fun x hx hlegal => ?_, ?_, ?_, ?_, ?_⟩
  · have hexit := hw.exit i
    simp only [← hc, ExitOk, hp, hcpu] at hexit
    exact hexit.1 r hr (by simp)
  · rw [hf, hA]
    split_ifs with hg
    · exact (part_float r).restoreAll _ hg
    · exact f_restoreAll (by simpa using hg) r
  · rw [hv, hA]
    split_ifs with hg
    · exact (part_vector hV r).restoreAll _ hg
    · exact congrFun (sameVector_restoreAll hV (by simpa using hg)).v r
  · rw [hcsr x (hne hx), hA]
    exact csr_restoreAll hx hlegal
  · rw [hlate.csr]
    split_ifs
    · exact hstatus
    · rw [← hstatus]
      exact Function.update_self mstatusId _ A.csr
  · rw [hlate.priv]
    split_ifs
    · rw [hA]
      exact priv_restoreAll
    · rw [← hstatus]
      rfl
  · exact hw.gone_jump hM hp
  · intro hm hx hlegal
    rw [(hw.gone_mret hp hm).1]
    refine (csr_restoreAll hx hlegal).trans (if_pos ?_)
    have hmem : ∀ rvh, mepcId ∈ Rule.order rvh := by decide +kernel
    exact hmem _

/-! ### From `gcpt_c_start` on -/

structure AtStart (cfg : Cfg) (s : Sys M) : Prop where
  pc : ∀ i, (s.loc i).pc = .gcptCStart
  cpuId : ∀ i, (s.loc i).cpuId = BitVec.ofNat 32 i
  hartid : ∀ i, (s.loc i).arch.hartid = BitVec.ofNat 64 i
  words : ∀ i : Fin M, ∀ k < 4, s.mem.text (stub cfg (BitVec.ofNat 32 i) k) = stubWord k

def entered (cfg : Cfg) (a : Arch) : Arch := { a with csr := enableGcptTrap cfg a.csr }

/-- The hart with the way out that its checkpoint asks for. -/
def settle (cfg : Cfg) (c : Hart) : Hart :=
  { c with gates := { c.gates with shouldJumpToMepc := modeM cfg c.cpuId } }

/-- The hart is before the extension check, or it knows its way out. -/
def Settled (cfg : Cfg) (c : Hart) : Prop :=
  (stage c.pc = 0 ∨ c.pc = .extCheck) ∨ c.gates.shouldJumpToMepc = modeM cfg c.cpuId

lemma settle_eq {c : Hart} (h : c.gates.shouldJumpToMepc = modeM cfg c.cpuId) :
    settle cfg c = c := by
  rw [settle, ← h]

lemma Settled.resume {c : Hart} (h : Settled cfg c) (r : Word) :
    Settled cfg (resume cfg c r) := by
  by_cases hext : c.pc = .extCheck
  · exact .inr (by simp [Restorer.resume, hext, Cfg.gates, checkpointExtCheck, modeM])
  rcases h with (h0 | h1) | hm
  · cases stage_resume cfg c r with
    | stay hn => exact .inl (.inl (hn.trans h0))
    | read hp => exact .inl (.inr (by simp [Restorer.resume, hp]))
    | _ => omega
  · exact absurd h1 hext
  · exact .inr (by rw [resume_gates cfg c r hext, hm, resume_cpuId])

/-- Before the extension check the gates are not looked at, and afterwards they are right. -/
lemma settle_step {c : Hart} (h : Settled cfg c) : act cfg (settle cfg c) = act cfg c ∧
    ∀ r, resume cfg (settle cfg c) r = settle cfg (resume cfg c r) := by
  by_cases hext : c.pc = .extCheck
  · -- The check itself sets the gate that `settle` has set before.
    refine ⟨by simp [act, settle, hext], fun r => ?_⟩
    simp [resume, settle, hext, Cfg.gates, checkpointExtCheck, modeM]
  rcases h with (h0 | h1) | hm
  · -- Before the check no step reads the gates.
    obtain ⟨pc, arch, cpuId, gates, allCpuNum, last⟩ := c
    cases pc with
    | mtPrintf site p =>
      rcases p with (_ | _) | _ | _ <;> refine ⟨rfl, fun r => ?_⟩
      · simp only [resume, settle]
        split_ifs <;> rfl
      · rfl
      · rfl
      · rfl
    | waitBssLock =>
      refine ⟨rfl, fun r => ?_⟩
      simp only [resume, settle]
      split_ifs <;> rfl
    | gcptCStart | clearBss | multicoreDecodeRestore =>
      exact ⟨by simp only [act, settle], fun r => rfl⟩
    | setBssLock | enableGcptTrap | stopped | readAllCpuNum =>
      exact ⟨by simp only [act, settle], fun r => by simp only [resume, settle]⟩
    | call q =>
      have hq : callStage q ≠ 0 := by cases q <;> decide
      exact absurd h0 hq
    | asm q code =>
      have hq : asmStage q ≠ 0 := by cases q <;> decide
      exact absurd h0 hq
    | _ => exact absurd h0 (Nat.succ_ne_zero _)
  · exact absurd h1 hext
  · rw [settle_eq hm]
    refine ⟨rfl, fun r => (settle_eq ?_).symm⟩
    rw [resume_gates cfg c r hext, hm, resume_cpuId]

def enteredSys (cfg : Cfg) (s : Sys M) : Sys M :=
  s.map fun c => { c with arch := entered cfg c.arch }

lemma AtStart.restoring (h : AtStart cfg s) :
    Restoring cfg (enteredSys cfg s) (s.map (settle cfg)) where
  stubs := ⟨h.cpuId, fun i k hk => h.words i k (by omega), fun i _ hp => by
    have hpc : ((s.map (settle cfg)).loc i).pc = .gcptCStart := h.pc i
    simp [hpc, patched] at hp⟩
  hartid := h.hartid
  path i := by
    have hpc : ((s.map (settle cfg)).loc i).pc = .gcptCStart := h.pc i
    have hcpu : ((s.map (settle cfg)).loc i).cpuId = BitVec.ofNat 32 i := h.cpuId i
    exact {
      code := by simp [hpc]
      jump := by simp [hpc]
      mret := by simp [hpc]
      arrives := fun _ => by
        simp only [arrival, hpc, hcpu]
        rfl
      late := by simp [hpc] }
  exit i := by
    have hpc : ((s.map (settle cfg)).loc i).pc = .gcptCStart := h.pc i
    simp [ExitOk, hpc]
  mode i := .inr (congrArg (modeM cfg) (h.cpuId i))

/-- In a run of all harts, each of them is on its way as if the others were not booting still. -/
lemma AtStart.restoring_run (h : AtStart cfg s) (hM : M ≤ 128) (w : List (Fin M)) :
    Restoring cfg (enteredSys cfg s) ((run (harts cfg) s w).map (settle cfg)) := by
  have hs (i : Fin M) : Settled cfg (s.loc i) := .inl (.inl (by rw [h.pc i]; rfl))
  have hstep (m : Shared) (c : Hart) (hc : Settled cfg c) :
      alone (harts cfg) (m, settle cfg c) =
        ((alone (harts cfg) (m, c)).1, settle cfg (alone (harts cfg) (m, c)).2) := by
    obtain ⟨hact, hres⟩ := settle_step hc
    simp only [alone, harts_act, harts_perform, harts_resume, hact, hres]
  obtain ⟨v, -, hv⟩ := run_map (harts cfg) (fun _ _ hc => hc.resume _)
    (fun m c hc => .inr (hstep m c hc)) hs w
  rw [hv]
  exact h.restoring.run hM v

/-- **The restore is complete, from `gcpt_c_start` on**: in every run of all harts, whatever the
order in which they boot, a hart that has left is in the state of its checkpoint as far as its gates
are open and the host keeps what is written, and in the state of its start otherwise. -/
theorem resumed_run (hE : StatusHost cfg.env (legal mstatusId)) (hV : KeepsVector cfg.env)
    (hM : M ≤ 128) (h : AtStart cfg s) {i : Fin M}
    (hsaved : legal mstatusId (cfg.slotCsr (BitVec.ofNat 32 i) mstatusId)) {w : List (Fin M)}
    {target : Word} (hp : ((run (harts cfg) s w).loc i).pc = .gone target) :
    Resumed cfg legal (BitVec.ofNat 32 i)
      (cfg.gates (BitVec.ofNat 32 i) ((entered cfg (s.loc i).arch).readCsr csrMisa))
      (entered cfg (s.loc i).arch) ((run (harts cfg) s w).loc i).arch target :=
  resumed_gone hE hV hM (h.restoring_run hM w) hsaved hp

def soloStart (f : CsrFile) : Sys 1 where
  mem := (soloSys f).mem
  loc i := { (soloSys f).loc i with pc := .gcptCStart }

lemma soloStart_atStart (f : CsrFile) : AtStart unitsCfg (soloStart f) where
  pc _ := rfl
  cpuId _ := rfl
  hartid _ := rfl
  words := (soloSys_atEntry _ _ f).words

/-- One hart with all four extensions, and a checkpoint of a guest with both units on. -/
theorem resumed_run_units : Resumed unitsCfg (fun _ _ => True) (BitVec.ofNat 32 (0 : Fin 1))
    (unitsCfg.gates (BitVec.ofNat 32 (0 : Fin 1))
      ((entered unitsCfg ((soloStart unitsFile).loc 0).arch).readCsr csrMisa))
    (entered unitsCfg ((soloStart unitsFile).loc 0).arch)
    ((run (harts unitsCfg) (soloStart unitsFile) (List.replicate 700 0)).loc 0).arch 0 :=
  resumed_run unitsCfg_status unitsCfg_keepsVector (by decide) (soloStart_atStart _)
    (i := 0) trivial (w := List.replicate 700 0) (by decide +kernel)

end LibCheckpoint.Resume
