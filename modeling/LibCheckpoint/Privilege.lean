import LibCheckpoint.Status

/-!
The privilege of the loads and stores of the restorer behind its write of `mstatus`.

With `mstatus.MPRV` set they have the privilege that `mstatus.MPP` names, although the hart is in
machine mode: they are translated, and checked against the PMP entries, accordingly.
-/

namespace LibCheckpoint.Privilege

open LibCheckpoint.Bytes LibCheckpoint.Rv64 LibCheckpoint.Csr LibCheckpoint.Asm
open LibCheckpoint.Registers LibCheckpoint.Layout LibCheckpoint.Restorer LibCheckpoint.Interleave
open LibCheckpoint.Phase LibCheckpoint.Path LibCheckpoint.Exit LibCheckpoint.Solo
open LibCheckpoint.Host LibCheckpoint.Status LibCheckpoint.Barrier

def mprv (mstatus : Word) : Bool := mstatus.getLsbD 17

def effective (a : Arch) : BitVec 2 :=
  if mprv (a.csr mstatusId) then mpp (a.csr mstatusId) else a.priv

variable {M : ℕ}

/-- The next step of a hart loads or stores: it is in compiled code, whose variables are on the
stack, or at an instruction that loads or stores. -/
def accesses (s : Sys M) (i : Fin M) : Prop :=
  match (s.loc i).pc with
  | .asm _ (x :: _) => x.isLoad = true ∨ x.isStore = true
  | .fetch a => ∃ x, decode (s.mem.text a) = some (.op x) ∧ x.isLoad = true
  | .asm _ [] | .stopped | .nemuSignal _ | .gone _ | .stuck => False
  | _ => True

def statusWritten (p : Pc) : Bool := behind statusKept .restoreCsrVector p

/-! ### A memory that is seen by privilege -/

/-- What loads see of a memory, by their privilege and by the CSRs of the hart; machine mode sees
the memory itself. -/
structure View where
  see : BitVec 2 → CsrFile → (Word → Byte) → Word → Byte
  machine : ∀ f m, see 3 f m = m

variable (cfg : Cfg) (view : View)

/-- The machine as a hart sees it that has written the saved `mstatus`. -/
def seen (c : Hart) : Cfg :=
  if statusWritten c.pc then
    { cfg with env := { cfg.env with ram := view.see (effective c.arch) c.arch.csr cfg.env.ram } }
  else cfg

/-- The harts, one of which sees the memory by the privilege of its loads. -/
def viewed (cpuId : BitVec 32) : Threads Shared Hart Act Word where
  act := act cfg
  perform := perform cfg.link
  resume c r := if c.cpuId = cpuId then resume (seen cfg view c) c r else resume cfg c r

/-- **What a hart restores behind its write of `mstatus`**: each of its loads and stores has machine
privilege, and however other privileges see the memory, the later CSRs of the list are written
with their slots, and the hart leaves with the saved integer registers. -/
structure Restores (s : Sys M) (i : Fin M) : Prop where
  machine : ∀ w, statusWritten ((run (harts cfg) s w).loc i).pc = true →
    accesses (run (harts cfg) s w) i → effective ((run (harts cfg) s w).loc i).arch = 3
  csrs : ∀ view w, let c := (run (viewed cfg view (BitVec.ofNat 32 i)) s w).loc i
    behind Instr.isInt .restoreCsrVector c.pc = true → (∀ p, c.pc ≠ .gone p) →
      ∃ f, c.arch.csr =
        writes cfg.env.csrw (cfg.slotCsr (BitVec.ofNat 32 i)) (laterCsrs.map Prod.snd) f
  x : ∀ view w, let c := (run (viewed cfg view (BitVec.ofNat 32 i)) s w).loc i
    ∀ p, c.pc = .gone p → ∀ r ≠ 0, c.arch.getX r = slotX cfg (BitVec.ofNat 32 i) r

variable {cfg view} {s : Sys M} {i : Fin M}

/-! ### The slot loads behind `mstatus` -/

/-- The code of `restore_csr_vector` up to its first load behind the write of `mstatus`. -/
def toFirstLoad : List Instr := beforeMstatus ++ .csrw mstatusId t1 :: slotAddr 0x302

def behindFirstLoad : List Instr :=
  .csrw 0x302 t1 :: laterCsrs.tail.flatMap csrsRestore ++ [.li a0 1]

lemma restoreCsrVector_firstLoad :
    restoreCsrVector = toFirstLoad ++ .ld t1 0 t2 :: behindFirstLoad := by
  have hlater : laterCsrs = ("medeleg", 0x302) :: laterCsrs.tail := by decide +kernel
  rw [restoreCsrVector_split, toFirstLoad, behindFirstLoad, afterMstatus, hlater]
  simp only [List.flatMap_cons, csrsRestore_eq, slotLoad, List.append_assoc, List.cons_append,
    List.nil_append, List.tail_cons]

lemma part_laterCsrs (cpuId : BitVec 32) : Part cfg cpuId
    (fun a => ∃ f, a.csr = writes cfg.env.csrw (cfg.slotCsr cpuId) (laterCsrs.map Prod.snd) f) True
    .restoreCsrVector Instr.isInt where
  notX a b h := by rw [h.csr]
  keep i a h := by rw [(sameButX_exec cfg.env a h).csr]
  first := rfl
  sets a := by
    have hbase : (withArgs cfg cpuId a .restoreCsrVector).getX a0 =
        (cfg.layout cpuId).csrRegCptAddr := withArgs_csrReg cpuId a (.inr rfl)
    have hcsr := csr_behindMstatus cfg.env (withArgs cfg cpuId a .restoreCsrVector)
    rw [hbase] at hcsr
    exact eq_true ⟨_, hcsr⟩
  later p hp := by
    obtain rfl : p = .restoreMtimeCmp := by
      cases p <;> first | rfl | simp [done] at hp
    rfl
  last := by decide

/-! ### Privilege and `mstatus` -/

lemma priv_resume (c : Hart) (r : Word) : (∃ p, (resume cfg c r).pc = .gone p) ∨
    (resume cfg c r).arch.priv = c.arch.priv := by
  have hargs (q : Routine) : (withArgs cfg c.cpuId c.arch q).priv = c.arch.priv :=
    (sameButX_withArgs c.cpuId c.arch q).priv
  have hfinish (q : Routine) : (∃ p, (finish cfg c q).pc = .gone p) ∨
      (finish cfg c q).arch.priv = c.arch.priv := by
    cases q with
    | restoreIntVectorMret => exact .inl ⟨_, rfl⟩
    | _ => exact .inr rfl
  unfold resume
  split <;> (try split) <;> first
    | exact hfinish _
    | exact .inl ⟨_, rfl⟩
    | exact .inr rfl
    | exact .inr (hargs _)
    | exact .inr (exec_priv _ _ _)

variable (cfg s) in
lemma priv_run (i : Fin M) (w : List (Fin M)) :
    (∃ p, ((run (harts cfg) s w).loc i).pc = .gone p) ∨
      ((run (harts cfg) s w).loc i).arch.priv = (s.loc i).arch.priv := by
  refine run_local (harts cfg) (P := fun i c => (∃ p, c.pc = .gone p) ∨
    c.arch.priv = (s.loc i).arch.priv) (fun _ => .inr rfl) (fun i c r hc => ?_) w i
  rcases hc with ⟨p, hp⟩ | hc
  · exact .inl ⟨p, by simp [resume, hp]⟩
  · exact (priv_resume c r).imp_right fun h => h.trans hc

variable {v : Word} (hE : SetsStatus cfg.env (cfg.slotCsr (BitVec.ofNat 32 i) mstatusId) v)
  (hM : M ≤ 128) (h : AtEntry cfg s)
include hE hM h

omit hM in
/-- Behind its write, the saved `mstatus` decides on the privilege. -/
lemma effective_run (hpriv : (s.loc i).arch.priv = 3) {w : List (Fin M)}
    (hp : statusWritten ((run (harts cfg) s w).loc i).pc = true)
    (hgone : ∀ p, ((run (harts cfg) s w).loc i).pc ≠ .gone p) :
    effective ((run (harts cfg) s w).loc i).arch =
      if mprv v then mpp v else 3 := by
  have hstatus := (part_mstatus hE).run (h.pc i) (h.cpuId i) rfl hp
    (.inr fun p hg => absurd hg (hgone p))
  have hpriv' : ((run (harts cfg) s w).loc i).arch.priv = 3 := by
    rcases priv_run cfg s i w with ⟨p, hg⟩ | hsame
    · exact absurd hg (hgone p)
    · exact hsame.trans hpriv
  rw [effective, hstatus, hpriv']

omit hM in
lemma effective_machine (hpriv : (s.loc i).arch.priv = 3)
    (hcond : badImm cfg (BitVec.ofNat 32 i) = true ∨ ¬ (mprv v = true ∧ mpp v ≠ 3))
    {w : List (Fin M)}
    (hp : statusWritten ((run (harts cfg) s w).loc i).pc = true)
    (hgone : ∀ p, ((run (harts cfg) s w).loc i).pc ≠ .gone p) :
    effective ((run (harts cfg) s w).loc i).arch = 3 := by
  rcases hcond with hbad | hcond
  · -- the write is not reached
    rw [← h.cpuId i] at hbad
    rcases (way_run cfg i (h.pc i) w).2 with ⟨hs, -, -⟩ | ⟨-, -, -, -, -, hok⟩ |
      ⟨-, -, -, -, -, -, -, -, -, hok⟩ | ⟨-, -, -, hok⟩
    · rw [statusWritten, behind_startPoint hs] at hp
      cases hp
    all_goals simp [hok] at hbad
  · rw [effective_run hE h hpriv hp hgone]
    split_ifs with hmprv
    · by_contra hmpp
      exact hcond ⟨hmprv, hmpp⟩
    · rfl

omit hE hM h in
lemma seen_eq {c : Hart} (hc : statusWritten c.pc = true → effective c.arch = 3) :
    seen cfg view c = cfg := by
  unfold seen
  split_ifs with hp
  · rw [hc hp, view.machine]
  · rfl

lemma run_viewed (hpriv : (s.loc i).arch.priv = 3)
    (hcond : badImm cfg (BitVec.ofNat 32 i) = true ∨ ¬ (mprv v = true ∧ mpp v ≠ 3))
    (view : View) (w : List (Fin M)) :
    run (viewed cfg view (BitVec.ofNat 32 i)) s w = run (harts cfg) s w := by
  induction w using List.reverseRecOn with
  | nil => rfl
  | append_singleton w j ih =>
    have hstep (r : Word) : (viewed cfg view (BitVec.ofNat 32 i)).resume
        ((run (harts cfg) s w).loc j) r = resume cfg ((run (harts cfg) s w).loc j) r := by
      by_cases hj : ((run (harts cfg) s w).loc j).cpuId = BitVec.ofNat 32 i
      · obtain rfl : i = j := by
          rw [(way_run cfg j (h.pc j) w).1, h.cpuId, ofNat_inj (by omega) (by omega)] at hj
          exact (Fin.ext hj).symm
        by_cases hgone : ∃ p, ((run (harts cfg) s w).loc i).pc = .gone p
        · obtain ⟨p, hp⟩ := hgone
          simp [viewed, resume, hp]
        · simp only [not_exists] at hgone
          have hseen : seen cfg view ((run (harts cfg) s w).loc i) = cfg :=
            seen_eq fun hp => effective_machine hE h hpriv hcond hp hgone
          simp [viewed, hseen]
      · simp only [viewed, hj, if_false]
    rw [run_concat, run_concat, ih, next, next]
    simp only [answer, hstep]
    rfl

/-! ### The runs -/

omit hM in
lemma machine_status (hpriv : (s.loc i).arch.priv = 3) (hs : Restores cfg s i)
    (hbad : badImm cfg (BitVec.ofNat 32 i) = false) :
    ¬ (mprv v = true ∧ mpp v ≠ 3) := by
  rintro ⟨hmprv, hmpp⟩
  rw [← h.cpuId i] at hbad
  obtain ⟨w, hw⟩ := exists_run i (h.pc i) hbad (q := .restoreCsrVector) rfl rfl
    (l := toFirstLoad) restoreCsrVector_firstLoad (by decide +kernel)
  have hpc : ((run (harts cfg) s w).loc i).pc =
      .asm .restoreCsrVector (.ld t1 0 t2 :: behindFirstLoad) := by rw [hw]; rfl
  have hwritten : statusWritten ((run (harts cfg) s w).loc i).pc = true := by
    rw [hpc]
    decide +kernel
  have hmachine := hs.machine w hwritten (by rw [accesses, hpc]; exact .inl rfl)
  rw [effective_run hE h hpriv hwritten (by simp [hpc]), if_pos hmprv] at hmachine
  exact hmpp hmachine

/-- **When the loads keep machine privilege**: if and only if `mstatus`, as saved and written, does
not have `MPRV` set with another privilege in `MPP`, or the hart stops at a bad offset. -/
theorem restores_iff (hpriv : (s.loc i).arch.priv = 3) : Restores cfg s i ↔
    badImm cfg (BitVec.ofNat 32 i) = true ∨ ¬ (mprv v = true ∧ mpp v ≠ 3) := by
  constructor
  · intro hs
    by_cases hbad : badImm cfg (BitVec.ofNat 32 i) = true
    · exact .inl hbad
    · exact .inr (machine_status hE h hpriv hs (by simpa using hbad))
  · intro hcond
    refine ⟨fun w hp hacc => ?_, fun view w => ?_, fun view w => ?_⟩
    · refine effective_machine hE h hpriv hcond hp fun p hgone => ?_
      rw [accesses, hgone] at hacc
      exact hacc
    · rw [run_viewed hE hM h hpriv hcond view w]
      intro c hc hgone
      exact of_eq_true ((part_laterCsrs (BitVec.ofNat 32 i)).run (h.pc i) (h.cpuId i) rfl hc
        (.inr fun p hp => absurd hp (hgone p)))
    · rw [run_viewed hE hM h hpriv hcond view w]
      intro c p hp r hr
      have hexit := (h.restoring.run hM w).exit i
      rw [ExitOk, hp, (h.restoring.run hM w).stubs.cpuId] at hexit
      exact hexit.1 r hr (by simp)

omit hE hM h

/-! ### A run of one hart -/

def machineRam (mstatus : Word) (a : Word) : Byte :=
  if a = 0x800ECDC0 then 3 else if a = 0x800ECDB9 then 0x20 else if a = 0x800ECDBB then 0x80
  else slotRam (fun c => if c = mstatusId then mstatus else 0) a

def machineCfg (mstatus : Word) : Cfg := updateHost (machineRam mstatus)

lemma machineCfg_setsStatus (mstatus w : Word) : SetsStatus (machineCfg mstatus).env w w :=
  updateHost_setsStatus _ w

lemma machineCfg_atEntry (mstatus : Word) : AtEntry (machineCfg mstatus) (soloSys fun _ => 0) :=
  soloSys_atEntry _ _ _

theorem restores_iff_small : Restores (machineCfg 0x21800) (soloSys fun _ => 0) 0 :=
  (restores_iff (machineCfg_setsStatus _ _) (by decide) (machineCfg_atEntry _) rfl).mpr
    (.inr (by decide +kernel))

/-- With `MPRV` set and user mode in `MPP` the later slots are loaded in user mode. -/
theorem not_restores_small : ¬ ∀ (cfg : Cfg) (M : ℕ) (s : Sys M) (i : Fin M),
    SetsStatus cfg.env (cfg.slotCsr (BitVec.ofNat 32 i) mstatusId)
      (cfg.slotCsr (BitVec.ofNat 32 i) mstatusId) → M ≤ 128 → AtEntry cfg s →
      (s.loc i).arch.priv = 3 → Restores cfg s i := by
  intro h
  have hs := h (machineCfg 0x20000) 1 (soloSys fun _ => 0) 0 (machineCfg_setsStatus _ _)
    (by decide) (machineCfg_atEntry _) rfl
  have hstatus := machine_status (machineCfg_setsStatus _ _) (machineCfg_atEntry _) rfl hs
    (by decide +kernel)
  revert hstatus
  decide +kernel

end LibCheckpoint.Privilege
