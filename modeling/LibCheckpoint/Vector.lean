import LibCheckpoint.Exit

/-!
The vector state that a hart leaves with: what of it comes from the checkpoint, and what is still
what the hart had at the entry.
-/

namespace LibCheckpoint.Vector

open LibCheckpoint.Bytes LibCheckpoint.Rv64 LibCheckpoint.Csr LibCheckpoint.Asm
open LibCheckpoint.Layout LibCheckpoint.Restorer LibCheckpoint.Interleave LibCheckpoint.Phase
open LibCheckpoint.Path LibCheckpoint.Exit

def vectorCsrs : List CsrNum := [vstartId, vxsatId, vxrmId, vlId, vtypeId]

/-- The CSRs that the routines write with `csrw` and `csrs`. -/
def writtenCsrs : List CsrNum := csrFcsr :: (csrs ++ hcsrs).map Prod.snd

/-- A write of one of the CSRs of the restorer leaves the vector CSRs as they are. -/
def KeepsVector (E : Env) : Prop :=
  ∀ c ∈ writtenCsrs, ∀ x ∈ vectorCsrs, ∀ f w, E.csrw f c w x = f x

/-! ### Scalar instructions -/

/-- Two states with the same vector registers and vector CSRs. -/
structure SameVector (a b : Arch) : Prop where
  v : a.v = b.v
  csr : ∀ x ∈ vectorCsrs, a.csr x = b.csr x

lemma SameVector.trans {a b c : Arch} (h : SameVector a b) (h' : SameVector b c) :
    SameVector a c :=
  ⟨h.v.trans h'.v, fun x hx => (h.csr x hx).trans (h'.csr x hx)⟩

/-- The instruction is no vector instruction, and writes no other CSR than those of the
restorer. -/
def scalar : Instr → Bool
  | .csrw c _ | .csrs c _ => decide (c ∈ writtenCsrs)
  | .vsetvl _ _ _ | .vl1re64 _ _ => false
  | _ => true

variable {E : Env}

lemma sameVector_of_sameButX {a b : Arch} (h : SameButX a b) : SameVector a b :=
  ⟨h.v, fun x _ => by rw [h.csr]⟩

lemma sameVector_exec (hE : KeepsVector E) (a : Arch) {i : Instr} (h : scalar i = true) :
    SameVector (i.exec E a) a := by
  cases i with
  | csrw c rs | csrs c rs =>
    exact ⟨rfl, fun x hx => hE c (of_decide_eq_true h) x hx _ _⟩
  | vsetvl | vl1re64 => cases h
  | fld => exact ⟨rfl, fun _ _ => rfl⟩
  | _ => exact sameVector_of_sameButX (sameButX_exec E a rfl)

lemma sameVector_execs (hE : KeepsVector E) {code : List Instr} (h : code.all scalar = true)
    (a : Arch) : SameVector (execs E code a) a := by
  induction code generalizing a with
  | nil => exact ⟨rfl, fun _ _ => rfl⟩
  | cons i code ih =>
    rw [List.all_cons, Bool.and_eq_true] at h
    exact (ih h.2 _).trans (sameVector_exec hE a h.1)

/-! ### What the routines restore -/

variable {cfg : Cfg} (cpuId : BitVec 32) (a : Arch)

variable (cfg) in
def slotV (r : Reg) : BitVec 128 :=
  ld128 cfg.env.ram ((cfg.layout cpuId).vectorRegCptAddr + BitVec.ofNat 64 (16 * r))

variable (cfg) in
/-- What `rvv_restore` makes of the vector state `a`. -/
structure RvvRestored (a b : Arch) : Prop where
  v : ∀ r, b.v r = slotV cfg cpuId r
  vl : b.csr vlId = (vsetvl (cfg.slotCsr cpuId vlId) (cfg.slotCsr cpuId vtypeId)).1
  vtype : b.csr vtypeId = (vsetvl (cfg.slotCsr cpuId vlId) (cfg.slotCsr cpuId vtypeId)).2
  vstart : b.csr vstartId = 0
  vxsat : b.csr vxsatId = a.csr vxsatId
  vxrm : b.csr vxrmId = a.csr vxrmId

variable {cpuId a}

lemma RvvRestored.congr {a a' b b' : Arch} (h : RvvRestored cfg cpuId a b) (ha : SameVector a a')
    (hb : SameVector b' b) : RvvRestored cfg cpuId a' b' where
  v r := by rw [hb.v, h.v]
  vl := by rw [hb.csr _ (by decide), h.vl]
  vtype := by rw [hb.csr _ (by decide), h.vtype]
  vstart := by rw [hb.csr _ (by decide), h.vstart]
  vxsat := by rw [hb.csr _ (by decide), h.vxsat, ha.csr _ (by decide)]
  vxrm := by rw [hb.csr _ (by decide), h.vxrm, ha.csr _ (by decide)]

/-- **`rvv_restore`**: the registers and the configuration come from the checkpoint; `vstart` is
reset, the fixed-point CSRs are not touched. -/
lemma rvvRestored_rvvRestore (hE : KeepsVector cfg.env) : RvvRestored cfg cpuId a
    (execs cfg.env Asm.rvvRestore (withArgs cfg cpuId a .rvvRestore)) := by
  set a' := withArgs cfg cpuId a .rvvRestore with ha'
  have hpost : [restoreMstatusState t3, Instr.li a0 1].all scalar = true := by decide
  have hargs : SameVector a' a :=
    sameVector_of_sameButX (sameButX_withArgs cpuId a .rvvRestore)
  have hpre : SameVector (execs cfg.env vsDirty a') a' :=
    sameVector_execs hE (by decide) a'
  have hbase := vsDirty_base cfg.env a'
  rw [show a'.getX a0 = (cfg.layout cpuId).csrRegCptAddr by
      simp [ha', withArgs, Arch.getX_setX, a0, a1],
    show a'.getX a1 = (cfg.layout cpuId).vectorRegCptAddr by
      simp [ha', withArgs, Arch.getX_setX, a1]] at hbase
  rw [Asm.rvvRestore, execs_append, execs_append, execs_append, ← vsDirty]
  set b := execs cfg.env vsDirty a'
  obtain ⟨h1, hv, hcsr⟩ :=
    slots_vsetvl cfg.env vtypeId vlId b (b := execs cfg.env vectorConfig b) rfl
  set d := execs cfg.env vectorConfig b
  rw [hbase.1] at hcsr
  obtain ⟨hlv, hlcsr⟩ := vectorLoads_eq (E := cfg.env) (cfg.layout cpuId).vectorRegCptAddr
    (List.finRange 32) 0 d (by decide) (by rw [h1, hbase.2]; simp) (by rw [hcsr]; simp)
  have hmain : RvvRestored cfg cpuId b (execs cfg.env (vectorLoads (List.finRange 32)) d) := by
    refine ⟨fun r => ?_, ?_, ?_, ?_, ?_, ?_⟩
    · rw [hlv, if_pos (List.mem_finRange r)]
      rfl
    all_goals
      rw [hlcsr, hcsr]
      rfl
  exact hmain.congr (hpre.trans hargs) (sameVector_execs hE hpost _)

lemma sameVector_callOne (hE : KeepsVector cfg.env) (g : Gates) {q : Routine} (hq : q ≠ .rvvRestore)
    (h1 : callStage q = 1) : SameVector (callOne cfg cpuId g a q) a := by
  have hcode : (q.code cfg).all scalar = true := by
    cases q with
    | rvvRestore => exact absurd rfl hq
    | rvhCsrRestore | restoreFloatVector | restoreCsrVector | restoreMtimeCmp =>
      simp only [Routine.code]
      decide +kernel
    | _ => cases h1
  unfold callOne
  split_ifs
  · exact (sameVector_execs hE hcode _).trans
      (sameVector_of_sameButX (sameButX_withArgs cpuId a q))
  · exact ⟨rfl, fun _ _ => rfl⟩

lemma rvvRestored_restoreAll (hE : KeepsVector cfg.env)
    (hg : (cfg.gates cpuId (a.readCsr csrMisa)).rvvCouldRestore = true) :
    RvvRestored cfg cpuId a (restoreAll cfg cpuId a) := by
  unfold restoreAll
  set g := cfg.gates cpuId (a.readCsr csrMisa)
  have hscalar (b : Arch) (q : Routine) (hq : q ≠ .rvvRestore) (h1 : callStage q = 1) :
      SameVector (callOne cfg cpuId g b q) b := sameVector_callOne hE g hq h1
  set b := callOne cfg cpuId g a .rvhCsrRestore with hb
  have h1 : SameVector b a := hscalar a .rvhCsrRestore (by decide) rfl
  have h2 : RvvRestored cfg cpuId b (callOne cfg cpuId g b .rvvRestore) := by
    rw [callOne, calls, hg, if_pos rfl]
    exact rvvRestored_rvvRestore hE
  set d := callOne cfg cpuId g b .rvvRestore with hd
  exact h2.congr h1 ((hscalar _ .restoreMtimeCmp (by decide) rfl).trans
    ((hscalar _ .restoreCsrVector (by decide) rfl).trans
      (hscalar d .restoreFloatVector (by decide) rfl)))

lemma sameVector_mret (a : Arch) : SameVector a.mret a :=
  ⟨rfl, fun x hx => a.mret_csr_of_ne (by rintro rfl; revert hx; decide)⟩

/-! ### At the transfer -/

/-- What the saved configuration has to be like: unsupported with no elements, or supported with
room for its elements. -/
def Consistent (vl vtype : Word) : Prop :=
  vtype.msb = true ∧ vl = 0 ∨ ∃ m, vlmax vtype = some m ∧ vl.toNat ≤ m

lemma vlmax_eq_none {vtype : Word} (h : vtype.msb = true) : vlmax vtype = none := by
  have : vtype >>> 8 ≠ 0 := by
    intro h0
    have := congrArg BitVec.toNat h0
    rw [BitVec.msb_eq_decide] at h
    simp [Nat.shiftRight_eq_div_pow] at this h
    omega
  rw [vlmax, if_neg fun h0 => this h0.1]

/-- `vsetvl` on a consistent configuration sets it, but for stray bits beside `vill`. -/
lemma vsetvl_consistent {vl vtype : Word} (h : Consistent vl vtype) :
    vsetvl vl vtype = (vl, if vtype.msb then vill else vtype) := by
  rcases h with ⟨hv, rfl⟩ | ⟨m, hm, hle⟩
  · simp [vsetvl, vlmax_eq_none hv, hv]
  · have hv : vtype.msb = false := by
      by_contra hv
      rw [vlmax_eq_none (by simpa using hv)] at hm
      cases hm
    simp [vsetvl, hm, hle, hv]

variable (cfg cpuId) in
def VectorRestored (a : Arch) : Prop :=
  (∀ r, a.v r = slotV cfg cpuId r) ∧ ∀ x ∈ vectorCsrs, a.csr x = cfg.slotCsr cpuId x

lemma RvvRestored.iff {b : Arch} (h : RvvRestored cfg cpuId a b)
    (hc : Consistent (cfg.slotCsr cpuId vlId) (cfg.slotCsr cpuId vtypeId)) :
    VectorRestored cfg cpuId b ↔ cfg.slotCsr cpuId vstartId = 0 ∧
      cfg.slotCsr cpuId vxsatId = a.csr vxsatId ∧ cfg.slotCsr cpuId vxrmId = a.csr vxrmId ∧
      ((cfg.slotCsr cpuId vtypeId).msb = true → cfg.slotCsr cpuId vtypeId = vill) := by
  have hvl := h.vl
  have hvtype := h.vtype
  rw [vsetvl_consistent hc] at hvl hvtype
  simp only [VectorRestored, h.v, implies_true, true_and, vectorCsrs, List.forall_mem_cons,
    List.not_mem_nil, false_implies, and_true, h.vstart, h.vxsat, h.vxrm, hvl, hvtype]
  refine and_congr eq_comm (and_congr eq_comm (and_congr eq_comm ?_))
  by_cases hv : (cfg.slotCsr cpuId vtypeId).msb = true
  · rw [if_pos hv]
    exact ⟨fun he _ => he.symm, fun he => (he hv).symm⟩
  · rw [if_neg hv]
    exact ⟨fun _ he => absurd he hv, fun _ => rfl⟩

variable {M : ℕ} {s : Sys M}

/-- **What is restored of the vector state**: when a hart whose checkpoint allows to restore it is
gone, its vector state is that of the checkpoint if and only if the saved `vstart` is `0`, the
saved fixed-point CSRs are what the hart had at the entry, and a saved `vtype` with `vill` has no
other bit. -/
theorem vectorRestored_iff (hE : KeepsVector cfg.env) (hM : M ≤ 128) (h : AtEntry cfg s)
    {i : Fin M} {w : List (Fin M)} {p : Word} (hp : ((run (harts cfg) s w).loc i).pc = .gone p)
    (hg : (cfg.gates (BitVec.ofNat 32 i) ((s.loc i).arch.readCsr csrMisa)).rvvCouldRestore = true)
    (hc : Consistent (cfg.slotCsr (BitVec.ofNat 32 i) vlId)
      (cfg.slotCsr (BitVec.ofNat 32 i) vtypeId)) :
    VectorRestored cfg (BitVec.ofNat 32 i) ((run (harts cfg) s w).loc i).arch ↔
      cfg.slotCsr (BitVec.ofNat 32 i) vstartId = 0 ∧
      cfg.slotCsr (BitVec.ofNat 32 i) vxsatId = (s.loc i).arch.csr vxsatId ∧
      cfg.slotCsr (BitVec.ofNat 32 i) vxrmId = (s.loc i).arch.csr vxrmId ∧
      ((cfg.slotCsr (BitVec.ofNat 32 i) vtypeId).msb = true →
        cfg.slotCsr (BitVec.ofNat 32 i) vtypeId = vill) := by
  have hrestored := rvvRestored_restoreAll hE hg
  refine RvvRestored.iff (hrestored.congr ⟨rfl, fun _ _ => rfl⟩ ?_) hc
  have hlate := ((h.restoring.run hM w).path i).late (by simp [hp])
  refine (sameVector_of_sameButX hlate).trans ?_
  simp only [atEnd, hp]
  split_ifs
  · exact ⟨rfl, fun _ _ => rfl⟩
  · exact sameVector_mret _

/-! ### A run of one hart -/

/-- A checkpoint with the vector extension on, five elements of 16 bits, and one byte of `vxrm`; the
vector registers hold the lowest bytes of their own addresses. -/
def vectorRam (vxrm : Byte) (a : Word) : Byte :=
  if a = 0x800EF7FA then 0x20 else if a = 0x800EF7F1 then 2 else if a = 0x800EE040 then vxrm
  else if a = 0x800F40F0 then 5 else if a = 0x800F40F8 then 8
  else if (a - 0x800FDFF8).toNat < 512 then a.setWidth 8
  else countRam 1 a

def vectorSys : Sys 1 where
  mem := exitSys.mem
  loc i :=
    let c := (smallSys 1 .readAllCpuNum 0).loc i
    { c with arch := { c.arch with csr := fun x => if x = csrMisa then misaV else 0 } }

lemma vectorSys_atEntry (vxrm : Byte) : AtEntry (smallCfg (vectorRam vxrm)) vectorSys where
  pc := by decide
  cpuId := by decide
  hartid := by decide
  words := by
    have h : ∀ i : Fin 1, ∀ k < 4, vectorSys.mem.text (stub (smallCfg fun _ => 0)
        (BitVec.ofNat 32 i) k) = stubWord k := by decide +kernel
    exact h

lemma smallCfg_keepsVector (ram : Word → Byte) : KeepsVector (smallCfg ram).env := by
  have hapart : (writtenCsrs.all fun c => c ∉ vectorCsrs) = true := by decide +kernel
  intro c hc x hx f w
  have hne : x ≠ c := by
    rintro rfl
    exact of_decide_eq_true (List.all_eq_true.mp hapart x hc) hx
  exact Function.update_of_ne hne _ _

theorem vectorRestored_iff_small :
    VectorRestored (smallCfg (vectorRam 0)) (BitVec.ofNat 32 (0 : Fin 1))
      ((run (harts (smallCfg (vectorRam 0))) vectorSys (List.replicate 500 0)).loc 0).arch :=
  (vectorRestored_iff (smallCfg_keepsVector _) (by decide) (vectorSys_atEntry 0) (i := 0)
    (w := List.replicate 500 0) (p := 0) (by decide +kernel) (by decide +kernel)
    (.inr ⟨8, by decide +kernel, by decide +kernel⟩)).mpr (by decide +kernel)

/-- A saved rounding mode that the hart does not have at the entry is lost. -/
theorem not_vectorRestored_small :
    ¬ ∀ (cfg : Cfg) (M : ℕ) (s : Sys M) (i : Fin M) (w : List (Fin M)) (p : Word),
      KeepsVector cfg.env → M ≤ 128 → AtEntry cfg s →
      ((run (harts cfg) s w).loc i).pc = .gone p →
      (cfg.gates (BitVec.ofNat 32 i) ((s.loc i).arch.readCsr csrMisa)).rvvCouldRestore = true →
      Consistent (cfg.slotCsr (BitVec.ofNat 32 i) vlId) (cfg.slotCsr (BitVec.ofNat 32 i) vtypeId) →
      VectorRestored cfg (BitVec.ofNat 32 i) ((run (harts cfg) s w).loc i).arch := by
  intro h
  have hall := h (smallCfg (vectorRam 1)) 1 vectorSys 0 (List.replicate 500 0) 0
    (smallCfg_keepsVector _) (by decide) (vectorSys_atEntry 1) (by decide +kernel)
    (by decide +kernel) (.inr ⟨8, by decide +kernel, by decide +kernel⟩)
  have hvxrm := hall.2 vxrmId (by decide)
  revert hvxrm
  decide +kernel

end LibCheckpoint.Vector
