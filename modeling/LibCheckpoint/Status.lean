import LibCheckpoint.Host
import LibCheckpoint.Solo

/-!
`mstatus` during the restore: the floating-point unit and the vector unit are on whenever they are
used, and `mstatus` itself comes through.

`rvv_restore` and `restore_float_vector` switch their unit on and put back what they have found;
`restore_csr_vector` switches the floating-point unit on for `fcsr` and `frm`, and then writes the
saved `mstatus`.
-/

namespace LibCheckpoint.Status

open LibCheckpoint.Bytes LibCheckpoint.Rv64 LibCheckpoint.Csr LibCheckpoint.Asm
open LibCheckpoint.Registers LibCheckpoint.Layout LibCheckpoint.Restorer LibCheckpoint.Interleave
open LibCheckpoint.Phase LibCheckpoint.Path LibCheckpoint.Exit LibCheckpoint.Vector
open LibCheckpoint.Solo LibCheckpoint.Host

/-! ### `mstatus` behind its write -/

def csrFree : Instr → Bool
  | .csrw _ _ | .csrs _ _ => false
  | _ => true

variable {E : Env} {a : Arch} {cfg : Cfg} {cpuId : BitVec 32}

lemma mstatus_exec {i : Instr} (h : csrFree i = true) :
    (i.exec E a).csr mstatusId = a.csr mstatusId := by
  cases i with
  | csrw | csrs => cases h
  | vsetvl rd rs rt =>
    simp only [Instr.exec, Arch.setCsr, Arch.setX_csr]
    rw [Function.update_of_ne (show mstatusId ≠ vstartId by decide),
      Function.update_of_ne (show mstatusId ≠ vtypeId by decide),
      Function.update_of_ne (show mstatusId ≠ vlId by decide)]
  | vl1re64 vd rs =>
    simp only [Instr.exec, Arch.setCsr]
    exact Function.update_of_ne (show mstatusId ≠ vstartId by decide) _ _
  | fld => rfl
  | _ => rw [(sameButX_exec E a rfl).csr]

/-- A write of `w` to `mstatus` leaves `v` there, and the writes behind it in the list keep it. -/
structure SetsStatus (E : Env) (w v : Word) : Prop where
  sets : ∀ f, E.csrw f mstatusId w mstatusId = v
  keep : ∀ c ∈ laterCsrs.map Prod.snd, ∀ v f, E.csrw f c v mstatusId = f mstatusId

/-- **`restore_csr_vector`** leaves in `mstatus` what its write has left there. -/
lemma mstatus_restoreCsrVector {v : Word} (a : Arch)
    (hE : SetsStatus E (ld64 E.ram (slot (a.getX a0) mstatusId)) v) :
    (execs E restoreCsrVector a).csr mstatusId = v := by
  rw [csr_behindMstatus,
    writes_keep (K := fun f : CsrFile => f mstatusId) fun c hc f => hE.keep c hc _ f]
  exact hE.sets _

/-- The instruction writes no CSR but those behind `mstatus` in the list. -/
def statusKept : Instr → Bool
  | .csrw c _ | .csrs c _ => c ∈ laterCsrs.map Prod.snd
  | _ => true

lemma part_mstatus {v : Word} (hE : SetsStatus cfg.env (cfg.slotCsr cpuId mstatusId) v) :
    Part cfg cpuId (fun a => a.csr mstatusId) v .restoreCsrVector statusKept where
  notX a b h := congrFun h.csr mstatusId
  keep i a h := by
    cases i with
    | csrw c rs | csrs c rs => exact hE.keep c (of_decide_eq_true h) _ _
    | _ => exact mstatus_exec rfl
  first := rfl
  sets a := by
    have hbase : (withArgs cfg cpuId a .restoreCsrVector).getX a0 =
        (cfg.layout cpuId).csrRegCptAddr := withArgs_csrReg cpuId a (.inr rfl)
    exact mstatus_restoreCsrVector (E := cfg.env) (withArgs cfg cpuId a .restoreCsrVector)
      (by rw [hbase]; exact hE)
  later p hp := by
    obtain rfl : p = .restoreMtimeCmp := by
      cases p <;> first | rfl | simp [done] at hp
    rfl
  last := by decide

/-! ### Units -/

def fs (mstatus : Word) : BitVec 2 := mstatus.extractLsb' 13 2

def vs (mstatus : Word) : BitVec 2 := mstatus.extractLsb' 9 2

def fpCsrs : List CsrNum := [csrFcsr, 0x002]

/-- The unit that an instruction needs is on. -/
def UnitOn (i : Instr) (a : Arch) : Prop :=
  match i with
  | .vsetvl _ _ _ | .vl1re64 _ _ => vs (a.csr mstatusId) ≠ 0
  | .fld _ _ _ => fs (a.csr mstatusId) ≠ 0
  | .csrw c _ | .csrs c _ => c ∈ fpCsrs → fs (a.csr mstatusId) ≠ 0
  | _ => True

/-- A host with both units: a legal `mstatus` reads back, a unit that is switched on is on, and the
other writes of the restorer keep `mstatus`, but for the status of the floating-point unit, which
a write of `fcsr` or `frm` does not switch off. -/
structure StatusHost (E : Env) (legal : Word → Prop) : Prop where
  readsBack : ∀ w, legal w → ∀ f, E.csrw f mstatusId w mstatusId = w
  fsOn : ∀ w, fs w ≠ 0 → ∀ f, fs (E.csrw f mstatusId w mstatusId) ≠ 0
  vsOn : ∀ w, vs w ≠ 0 → ∀ f, vs (E.csrw f mstatusId w mstatusId) ≠ 0
  fp : ∀ c ∈ fpCsrs, ∀ w f, fs (f mstatusId) ≠ 0 → fs (E.csrw f c w mstatusId) ≠ 0
  keep : ∀ c ∈ writtenCsrs, c ≠ mstatusId → c ∉ fpCsrs → ∀ w f,
    E.csrw f c w mstatusId = f mstatusId

def unitFree : Instr → Bool
  | .vsetvl _ _ _ | .vl1re64 _ _ | .fld _ _ _ => false
  | .csrw c _ | .csrs c _ => c ∉ fpCsrs
  | _ => true

variable {legal : Word → Prop}

lemma StatusHost.setsStatus (hE : StatusHost E legal) {w : Word} (hw : legal w) :
    SetsStatus E w w where
  sets := hE.readsBack w hw
  keep c hc v f := by
    have hall : ((laterCsrs.map Prod.snd).all fun c =>
      c ∈ writtenCsrs ∧ c ≠ mstatusId ∧ c ∉ fpCsrs) = true := by decide +kernel
    obtain ⟨hw, hne, hfp⟩ := of_decide_eq_true (List.all_eq_true.mp hall c hc)
    exact hE.keep c hw hne hfp v f

lemma unitOn_of_unitFree {i : Instr} (a : Arch) (h : unitFree i = true) : UnitOn i a := by
  cases i with
  | csrw | csrs => exact fun hc => absurd hc (of_decide_eq_true h)
  | vsetvl | vl1re64 | fld => cases h
  | _ => trivial

lemma field_on (w m : Word) {k : ℕ} (hm : m.extractLsb' k 2 = 3) :
    (w ||| m).extractLsb' k 2 ≠ 0 := by
  have hor : ∀ x : BitVec 2, x ||| 3 ≠ 0 := by decide
  rw [BitVec.extractLsb'_or, hm]
  exact hor _

/-! ### `rvv_restore` -/

/-- The instruction needs the vector unit at most. -/
def vectorOnly : Instr → Bool
  | .csrw _ _ | .csrs _ _ | .fld _ _ _ => false
  | _ => true

lemma vectorOnly_step {i : Instr} (a : Arch) (h : vectorOnly i = true)
    (ha : vs (a.csr mstatusId) ≠ 0) : UnitOn i a ∧ vs ((i.exec E a).csr mstatusId) ≠ 0 := by
  have hfree : csrFree i = true := by cases i <;> first | rfl | cases h
  refine ⟨?_, by rwa [mstatus_exec hfree]⟩
  cases i with
  | csrw | csrs | fld => cases h
  | vsetvl | vl1re64 => exact ha
  | _ => trivial

/-- The part of `rvv_restore` that uses the vector unit. -/
def vectorPart : List Instr := vectorConfig ++ vectorLoads (List.finRange 32)

lemma rvvRestore_eq :
    rvvRestore = vsDirty ++ vectorPart ++ [restoreMstatusState t3, .li a0 1] := by
  simp only [rvvRestore, vsDirty, vectorPart, List.append_assoc]

lemma vsDirty_mstatus (a : Arch) : (execs E vsDirty a).getX t3 = a.csr mstatusId ∧
    (execs E vsDirty a).csr = E.csrw a.csr mstatusId (a.csr mstatusId ||| mstatusVsDirty) := by
  have hhart : mstatusId ≠ mhartidId := by decide
  simp only [vsDirty, storeMstatusState, execs_cons, execs_nil, Instr.exec, Arch.getX_setX,
    Arch.setX_csr, Arch.readCsr, hhart, if_false]
  simp [Arch.getX, Arch.setX, t0, t1, t3]

/-- **`rvv_restore`** uses the vector unit while it is on. -/
lemma unitOn_rvvRestore (hE : StatusHost E legal) (a : Arch) : along E UnitOn rvvRestore a := by
  rw [rvvRestore_eq, along_append, along_append]
  have hon : vs ((execs E vsDirty a).csr mstatusId) ≠ 0 := by
    rw [(vsDirty_mstatus a).2]
    exact hE.vsOn _ (field_on _ _ (by decide)) _
  have hpart : vectorPart.all vectorOnly = true := by decide +kernel
  exact ⟨⟨along_of_all E (fun i b => unitOn_of_unitFree b) (by decide) a,
    (along_inv E (fun i b => vectorOnly_step b) hpart hon).1⟩,
    along_of_all E (fun i b => unitOn_of_unitFree b) (by decide) _⟩

/-- **`rvv_restore`** leaves `mstatus` as it has found it. -/
lemma mstatus_rvvRestore (hE : StatusHost E legal) (a : Arch) (ha : legal (a.csr mstatusId)) :
    (execs E rvvRestore a).csr mstatusId = a.csr mstatusId := by
  have hkeep : vectorPart.all (fun i => i.dest ≠ some t3) = true := by decide +kernel
  have ht3 := (getX_execs_of_ne E hkeep (execs E vsDirty a)).trans (vsDirty_mstatus a).1
  rw [rvvRestore_eq, execs_append, execs_append, execs_cons, execs_cons, execs_nil,
    restoreMstatusState, Instr.exec, Instr.exec, Arch.setX_csr, ht3]
  exact hE.readsBack _ ha _

/-! ### `restore_float_vector` -/

/-- The instruction needs the floating-point unit at most. -/
def floatOnly : Instr → Bool
  | .csrw c _ => c ≠ mstatusId ∧ c ∈ writtenCsrs
  | .csrs _ _ | .vsetvl _ _ _ | .vl1re64 _ _ => false
  | _ => true

lemma floatOnly_step (hE : StatusHost E legal) {i : Instr} (a : Arch) (h : floatOnly i = true)
    (ha : fs (a.csr mstatusId) ≠ 0) : UnitOn i a ∧ fs ((i.exec E a).csr mstatusId) ≠ 0 := by
  cases i with
  | csrw c rs =>
    obtain ⟨hne, hc⟩ := of_decide_eq_true h
    refine ⟨fun _ => ha, ?_⟩
    by_cases hfp : c ∈ fpCsrs
    · exact hE.fp c hfp _ _ ha
    · change fs (E.csrw a.csr c (a.getX rs) mstatusId) ≠ 0
      rwa [hE.keep c hc hne hfp]
  | csrs | vsetvl | vl1re64 => cases h
  | fld => exact ⟨ha, ha⟩
  | _ => exact ⟨trivial, by rwa [mstatus_exec rfl]⟩

def fsDirty : List Instr :=
  [.mv t0 a0, storeMstatusState t3, .li t1 mstatusFsDirty, .csrs mstatusId t1]

def floatPart : List Instr :=
  (List.finRange 32).map fun r => .fld r (BitVec.ofNat 12 (r * 8)) t0

lemma restoreFloatVector_eq :
    restoreFloatVector = fsDirty ++ floatPart ++ [restoreMstatusState t3, .li a0 1] := rfl

lemma fsDirty_mstatus (a : Arch) : (execs E fsDirty a).getX t3 = a.csr mstatusId ∧
    (execs E fsDirty a).getX t0 = a.getX a0 ∧
    (execs E fsDirty a).csr = E.csrw a.csr mstatusId (a.csr mstatusId ||| mstatusFsDirty) := by
  have hhart : mstatusId ≠ mhartidId := by decide
  simp only [fsDirty, storeMstatusState, execs_cons, execs_nil, Instr.exec, Arch.getX_setX,
    Arch.setX_csr, Arch.readCsr, hhart, if_false]
  simp [Arch.getX, Arch.setX, t0, t1, t3, a0]

lemma unitOn_restoreFloatVector (hE : StatusHost E legal) (a : Arch) :
    along E UnitOn restoreFloatVector a := by
  rw [restoreFloatVector_eq, along_append, along_append]
  have hon : fs ((execs E fsDirty a).csr mstatusId) ≠ 0 := by
    rw [(fsDirty_mstatus a).2.2]
    exact hE.fsOn _ (field_on _ _ (by decide)) _
  have hpart : floatPart.all floatOnly = true := by decide +kernel
  exact ⟨⟨along_of_all E (fun i b => unitOn_of_unitFree b) (by decide) a,
    (along_inv E (fun i b => floatOnly_step hE b) hpart hon).1⟩,
    along_of_all E (fun i b => unitOn_of_unitFree b) (by decide) _⟩

/-- **`restore_float_vector`** leaves `mstatus` as it has found it. -/
lemma mstatus_restoreFloatVector (hE : StatusHost E legal) (a : Arch)
    (ha : legal (a.csr mstatusId)) :
    (execs E restoreFloatVector a).csr mstatusId = a.csr mstatusId := by
  have hkeep : floatPart.all (fun i => i.dest ≠ some t3) = true := by decide +kernel
  have ht3 := (getX_execs_of_ne E hkeep (execs E fsDirty a)).trans (fsDirty_mstatus a).1
  rw [restoreFloatVector_eq, execs_append, execs_append, execs_cons, execs_cons, execs_nil,
    restoreMstatusState, Instr.exec, Instr.exec, Arch.setX_csr, ht3]
  exact hE.readsBack _ ha _

/-! ### `restore_csr_vector` -/

/-- The part of `restore_csr_vector` from the write of `fcsr` to the load of `mstatus`. -/
def fpPart : List Instr :=
  .csrw csrFcsr t1 :: .mv t0 a0 :: earlierCsrs.flatMap csrsRestore ++ slotLoad mstatusId t1

def fsOnPart : List Instr :=
  [.mv t0 a0] ++ slotLoad csrFcsr t1 ++ [.li t0 mstatusFs, .csrs mstatusId t0]

lemma beforeMstatus_eq : beforeMstatus = fsOnPart ++ fpPart := by
  simp only [beforeMstatus, fcsrRestore_eq, fsOnPart, fpPart, List.append_assoc, List.cons_append,
    List.nil_append]

lemma fsOnPart_mstatus (a : Arch) : (execs E fsOnPart a).csr =
    E.csrw a.csr mstatusId (a.csr mstatusId ||| mstatusFs) := by
  rw [fsOnPart, execs_append, execs_append, execs_slotLoad]
  simp [Instr.exec, Arch.getX_setX, t0, a0]

lemma unitOn_restoreCsrVector (hE : StatusHost E legal) (a : Arch) :
    along E UnitOn restoreCsrVector a := by
  rw [restoreCsrVector_split, beforeMstatus_eq, along_append, along_append]
  have hon : fs ((execs E fsOnPart a).csr mstatusId) ≠ 0 := by
    rw [fsOnPart_mstatus]
    exact hE.fsOn _ (field_on _ _ (by decide)) _
  have hpart : fpPart.all floatOnly = true := by decide +kernel
  exact ⟨⟨along_of_all E (fun i b => unitOn_of_unitFree b) (by decide +kernel) a,
    (along_inv E (fun i b => floatOnly_step hE b) hpart hon).1⟩,
    along_of_all E (fun i b => unitOn_of_unitFree b) (by decide +kernel) _⟩

/-! ### On the way to the barrier -/

lemma unitFree_of_isInt {i : Instr} (h : i.isInt = true) : unitFree i = true := by
  cases i <;> first | rfl | cases h

/-- **Every instruction finds its unit on**, in all routines before the barrier. -/
lemma unitOn_code (hE : StatusHost cfg.env legal) {q : Routine} (h1 : callStage q = 1) (a : Arch) :
    along cfg.env UnitOn (q.code cfg) a := by
  cases q with
  | rvhCsrRestore =>
    have hall : Asm.rvhCsrRestore.all unitFree = true := by decide +kernel
    exact along_of_all cfg.env (fun i b => unitOn_of_unitFree b) hall a
  | rvvRestore => exact unitOn_rvvRestore hE a
  | restoreFloatVector => exact unitOn_restoreFloatVector hE a
  | restoreCsrVector => exact unitOn_restoreCsrVector hE a
  | restoreMtimeCmp => exact along_of_all cfg.env (fun i b => unitOn_of_unitFree b) rfl a
  | _ => cases h1

lemma mstatus_callAll (hE : StatusHost cfg.env legal) (g : Gates) {qs : List Routine}
    (hqs : qs ⊆ done .restoreCsrVector) (ha : legal (a.csr mstatusId)) :
    (callAll cfg cpuId g qs a).csr mstatusId = a.csr mstatusId := by
  induction qs generalizing a with
  | nil => rfl
  | cons q qs ih =>
    have hq : (callOne cfg cpuId g a q).csr mstatusId = a.csr mstatusId := by
      have hsame : SameButX (withArgs cfg cpuId a q) a := sameButX_withArgs cpuId a q
      have hargs := congrFun hsame.csr mstatusId
      unfold callOne
      split_ifs
      · refine Eq.trans ?_ hargs
        have hmem := hqs List.mem_cons_self
        simp only [done, List.mem_cons, List.not_mem_nil, or_false] at hmem
        rcases hmem with rfl | rfl | rfl
        · have hkeep : ∀ c ∈ hcsrs.map Prod.snd,
              c ∈ writtenCsrs ∧ c ≠ mstatusId ∧ c ∉ fpCsrs := by
            have hall : ((hcsrs.map Prod.snd).all fun c =>
              c ∈ writtenCsrs ∧ c ≠ mstatusId ∧ c ∉ fpCsrs) = true := by decide +kernel
            exact fun c hc => of_decide_eq_true (List.all_eq_true.mp hall c hc)
          rw [show Routine.code cfg .rvhCsrRestore = Asm.rvhCsrRestore from rfl, csr_rvhCsrRestore]
          exact writes_keep (K := fun f : CsrFile => f mstatusId) (fun c hc f =>
            hE.keep c (hkeep c hc).1 (hkeep c hc).2.1 (hkeep c hc).2.2 _ f) _
        · exact mstatus_rvvRestore hE _ (by rwa [hargs])
        · exact mstatus_restoreFloatVector hE _ (by rwa [hargs])
      · rfl
    have ih' := ih (a := callOne cfg cpuId g a q) (fun x hx => hqs (List.mem_cons_of_mem _ hx))
      (by rwa [hq])
    exact ih'.trans hq

/-! ### What is set on the way -/

def slotF (cfg : Cfg) (cpuId : BitVec 32) (r : Reg) : Word :=
  cfg.ld ((cfg.layout cpuId).floatRegCptAddr + BitVec.ofNat 64 (8 * r))

def floatKept (r : Reg) : Instr → Bool
  | .fld q _ _ => q ≠ r
  | _ => true

lemma exec_f {r : Reg} {i : Instr} (h : floatKept r i = true) : (i.exec E a).f r = a.f r := by
  cases i with
  | fld q off rs => exact Function.update_of_ne (Ne.symm (of_decide_eq_true h)) _ _
  | vsetvl | vl1re64 => simp [Instr.exec, Arch.setCsr, Arch.setV]
  | csrw | csrs => rfl
  | _ => rw [(sameButX_exec E a rfl).f]

lemma floatLoads_f (rs : List Reg) (a : Arch) (r : Reg) :
    (execs E (rs.map fun r => .fld r (BitVec.ofNat 12 (r * 8)) t0) a).f r =
      if r ∈ rs then ld64 E.ram (a.getX t0 + BitVec.ofNat 64 (8 * r)) else a.f r := by
  induction rs generalizing a with
  | nil => simp
  | cons q rs ih =>
    rw [List.map_cons, execs_cons, ih]
    by_cases hr : r ∈ rs
    · rw [if_pos hr, if_pos (List.mem_cons_of_mem _ hr)]
      rfl
    · by_cases hq : r = q
      · subst hq
        simp [hr, Instr.exec, Arch.setF, ea_slot]
      · simp [hr, hq, Instr.exec, Arch.setF]

lemma f_restoreFloatVector (a : Arch) (r : Reg) : (execs E restoreFloatVector a).f r =
    ld64 E.ram (a.getX a0 + BitVec.ofNat 64 (8 * r)) := by
  have hend (b : Arch) : (execs E [restoreMstatusState t3, .li a0 1] b).f r = b.f r := by
    simp [Instr.exec, restoreMstatusState]
  rw [restoreFloatVector_eq, execs_append, execs_append, hend, floatPart, floatLoads_f,
    if_pos (List.mem_finRange r), (fsDirty_mstatus a).2.1]

lemma part_float (r : Reg) : Part cfg cpuId (fun a => a.f r) (slotF cfg cpuId r)
    .restoreFloatVector (floatKept r) where
  notX a b h := congrFun h.f r
  keep i a h := exec_f h
  first := rfl
  sets a := by
    have hbase : (withArgs cfg cpuId a .restoreFloatVector).getX a0 =
        (cfg.layout cpuId).floatRegCptAddr := by
      simp [withArgs, Arch.getX_setX, a0]
    have h := f_restoreFloatVector (E := cfg.env) (withArgs cfg cpuId a .restoreFloatVector) r
    rw [hbase] at h
    exact h
  later p hp := by
    cases p with
    | restoreCsrVector =>
      change Asm.restoreCsrVector.all (floatKept r) = true
      revert r
      decide +kernel
    | restoreMtimeCmp => rfl
    | _ => simp [done] at hp
  last := by decide

def vectorKept (r : Reg) : Instr → Bool
  | .vl1re64 q _ => q ≠ r
  | _ => true

lemma part_vector (hV : KeepsVector cfg.env) (r : Reg) : Part cfg cpuId (fun a => a.v r)
    (slotV cfg cpuId r) .rvvRestore (vectorKept r) where
  notX a b h := congrFun h.v r
  keep i a h := by
    cases i with
    | vl1re64 q rs => exact Function.update_of_ne (Ne.symm (of_decide_eq_true h)) _ _
    | vsetvl => simp [Instr.exec, Arch.setCsr]
    | csrw | csrs | fld => rfl
    | _ => rw [(sameButX_exec cfg.env a rfl).v]
  first := rfl
  sets a := (rvvRestored_rvvRestore hV).v r
  later p hp := by
    cases p with
    | restoreCsrVector =>
      change Asm.restoreCsrVector.all (vectorKept r) = true
      revert r
      decide +kernel
    | restoreFloatVector =>
      change Asm.restoreFloatVector.all (vectorKept r) = true
      revert r
      decide +kernel
    | restoreMtimeCmp => rfl
    | _ => simp [done] at hp
  last := by decide

/-- The instruction changes neither `vl` nor `vtype`. -/
def configKept : Instr → Bool
  | .vsetvl _ _ _ => false
  | .csrw c _ | .csrs c _ => c ∈ writtenCsrs
  | _ => true

lemma part_config (hV : KeepsVector cfg.env) : Part cfg cpuId
    (fun a => (a.csr vlId, a.csr vtypeId))
    (vsetvl (cfg.slotCsr cpuId vlId) (cfg.slotCsr cpuId vtypeId)) .rvvRestore configKept where
  notX a b h := by rw [h.csr]
  keep i a h := by
    cases i with
    | vl1re64 vd rs =>
      simp only [Instr.exec, Arch.setCsr, Arch.setV]
      rw [Function.update_of_ne (by decide), Function.update_of_ne (by decide)]
    | vsetvl => cases h
    | csrw c rs | csrs c rs =>
      have hc := hV c (of_decide_eq_true h)
      exact Prod.ext (hc _ (by decide) _ _) (hc _ (by decide) _ _)
    | fld => rfl
    | _ => rw [(sameButX_exec cfg.env a rfl).csr]
  first := rfl
  sets a := Prod.ext (rvvRestored_rvvRestore hV).vl (rvvRestored_rvvRestore hV).vtype
  later p hp := by
    cases p with
    | restoreCsrVector | restoreFloatVector =>
      simp only [Routine.code]
      decide +kernel
    | restoreMtimeCmp => rfl
    | _ => simp [done] at hp
  last := by decide

/-! ### The runs -/

variable {M : ℕ} {s : Sys M}

lemma unitOn_run (hE : StatusHost cfg.env legal) (i : Fin M) (hp : (s.loc i).pc = .readAllCpuNum)
    {w : List (Fin M)} {q : Routine} {x : Instr} {l : List Instr}
    (hpc : ((run (harts cfg) s w).loc i).pc = .asm q (x :: l)) :
    UnitOn x ((run (harts cfg) s w).loc i).arch := by
  rcases (way_run cfg i hp w).2 with ⟨hs, -, -⟩ | ⟨q', hc, -, -, -, -⟩ |
    ⟨q', u, l', hq, h1, hcode, ha, -, -, -⟩ | ⟨h2, -, hcode, -⟩
  · simp [hpc, startPoint] at hs
  · simp [hpc] at hc
  · obtain ⟨rfl, rfl⟩ := Pc.asm.inj (hpc.symm.trans hq)
    have hall := unitOn_code hE (callStage_of_asmStage h1)
      (withArgs cfg (s.loc i).cpuId (atCall cfg (s.loc i) q).arch q)
    rw [hcode, along_append] at hall
    rw [ha]
    exact hall.2.1
  · have hlate : (q.code cfg).all Instr.isInt = true := late_isInt (by simpa [hpc] using h2)
    have hx := List.all_eq_true.mp hlate x ((hcode q _ hpc).subset List.mem_cons_self)
    exact unitOn_of_unitFree _ (unitFree_of_isInt hx)

/-- `mstatus` is that of the entry when `rvv_restore` or `restore_float_vector` is called and when
it returns. -/
lemma mstatus_kept (hE : StatusHost cfg.env legal) (i : Fin M)
    (hp : (s.loc i).pc = .readAllCpuNum) (hentry : legal ((s.loc i).arch.csr mstatusId))
    {w : List (Fin M)} {q : Routine} (hq : q = .rvvRestore ∨ q = .restoreFloatVector)
    (hpc : ((run (harts cfg) s w).loc i).pc = .call q ∨
      ((run (harts cfg) s w).loc i).pc = .asm q []) :
    ((run (harts cfg) s w).loc i).arch.csr mstatusId = (s.loc i).arch.csr mstatusId := by
  have hdone : done q ⊆ done .restoreCsrVector := by
    rcases hq with rfl | rfl <;> decide
  have hcall : (atCall cfg (s.loc i) q).arch.csr mstatusId = (s.loc i).arch.csr mstatusId :=
    mstatus_callAll hE _ hdone hentry
  rcases (way_run cfg i hp w).2 with ⟨hs, -, -⟩ | ⟨q', hc, -, ha, -, -⟩ |
    ⟨q', u, l', hc, h1, hcode, ha, -, -, -⟩ | ⟨h2, -, -, -⟩
  · rcases hpc with hpc | hpc <;> simp [hpc, startPoint] at hs
  · obtain rfl : q = q' := by
      rcases hpc with hpc | hpc
      · exact Pc.call.inj (hpc.symm.trans hc)
      · simp [hpc] at hc
    rw [ha, hcall]
  · -- The routine itself leaves `mstatus` as it has found it.
    obtain ⟨rfl, rfl⟩ : q = q' ∧ [] = l' := by
      rcases hpc with hpc | hpc
      · simp [hpc] at hc
      · exact Pc.asm.inj (hpc.symm.trans hc)
    rw [List.append_nil] at hcode
    have hsame : SameButX (withArgs cfg (s.loc i).cpuId (atCall cfg (s.loc i) q).arch q)
        (atCall cfg (s.loc i) q).arch := sameButX_withArgs _ _ q
    have hargs := congrFun hsame.csr mstatusId
    rw [ha, inside, ← hcall, ← hargs]
    subst hcode
    rcases hq with rfl | rfl
    · exact mstatus_rvvRestore hE _ (by rwa [hargs, hcall])
    · exact mstatus_restoreFloatVector hE _ (by rwa [hargs, hcall])
  · rcases hpc with hpc | hpc <;> rcases hq with rfl | rfl <;> simp [hpc, callStage, asmStage] at h2

/-- **The units are on when they are used, and nothing leaks.** In every run: `rvv_restore` and
`restore_float_vector` leave `mstatus` as they have found it; every instruction finds its unit on;
behind its write `mstatus` is the saved one, up to `mret`; and behind their loads the registers of
the two units are the saved ones. -/
theorem units_on (hE : StatusHost cfg.env legal) (hV : KeepsVector cfg.env) (i : Fin M)
    (hp : (s.loc i).pc = .readAllCpuNum) (hid : (s.loc i).cpuId = BitVec.ofNat 32 i)
    (hentry : legal ((s.loc i).arch.csr mstatusId))
    (hsaved : legal (cfg.slotCsr (BitVec.ofNat 32 i) mstatusId)) (w : List (Fin M)) :
    let c := (run (harts cfg) s w).loc i
    (∀ q, q = .rvvRestore ∨ q = .restoreFloatVector → c.pc = .call q ∨ c.pc = .asm q [] →
      c.arch.csr mstatusId = (s.loc i).arch.csr mstatusId) ∧
    (∀ q x l, c.pc = .asm q (x :: l) → UnitOn x c.arch) ∧
    (behind statusKept .restoreCsrVector c.pc = true →
      (∀ p, c.pc = .gone p → c.gates.shouldJumpToMepc = true) →
      c.arch.csr mstatusId = cfg.slotCsr (BitVec.ofNat 32 i) mstatusId) ∧
    ((gatesOf cfg (s.loc i)).rvvCouldRestore = true →
      (∀ r, behind (vectorKept r) .rvvRestore c.pc = true →
        c.arch.v r = slotV cfg (BitVec.ofNat 32 i) r) ∧
      (behind configKept .rvvRestore c.pc = true → (c.arch.csr vlId, c.arch.csr vtypeId) =
        vsetvl (cfg.slotCsr (BitVec.ofNat 32 i) vlId)
          (cfg.slotCsr (BitVec.ofNat 32 i) vtypeId))) ∧
    ((gatesOf cfg (s.loc i)).rvfCouldRestore = true → ∀ r,
      behind (floatKept r) .restoreFloatVector c.pc = true →
        c.arch.f r = slotF cfg (BitVec.ofNat 32 i) r) := by
  intro c
  refine ⟨fun q hq hpc => mstatus_kept hE i hp hentry hq hpc,
    fun q x l hpc => unitOn_run hE i hp hpc, fun hb hgone => ?_, fun hg => ⟨fun r hb => ?_,
      fun hb => ?_⟩, fun hg r hb => ?_⟩
  · exact (part_mstatus (hE.setsStatus hsaved)).run hp hid rfl hb (.inr hgone)
  · exact (part_vector hV r).run hp hid hg hb (.inl fun a => rfl)
  · exact (part_config hV).run hp hid hg hb (.inl fun a => by
      rw [a.mret_csr_of_ne (c := vlId) (by decide), a.mret_csr_of_ne (c := vtypeId) (by decide)])
  · exact (part_float r).run hp hid hg hb (.inl fun a => rfl)

/-! ### A run of one hart -/

def unitsFile (c : CsrNum) : Word := if c = csrMisa then 0x2000A8 else 0

/-- A checkpoint of a guest with all four extensions, and both units on. -/
def unitsSlots (c : CsrNum) : Word :=
  if c = csrMisa then 0x2000A8 else if c = mstatusId then 0x8000002200 else 0

lemma updateHost_status (ram : Word → Byte) : StatusHost (updateHost ram).env fun _ => True where
  readsBack w _ f := by simp
  fsOn w hw f := by simpa using hw
  vsOn w hw f := by simpa using hw
  fp c hc w f hf := by
    have hne : mstatusId ≠ c := by rintro rfl; revert hc; decide
    rwa [updateHost_csrw, Function.update_of_ne hne]
  keep c _ hne _ w f := by rw [updateHost_csrw, Function.update_of_ne (Ne.symm hne)]

lemma updateHost_setsStatus (ram : Word → Byte) (w : Word) : SetsStatus (updateHost ram).env w w :=
  (updateHost_status ram).setsStatus trivial

def unitsCfg : Cfg := updateHost (slotRam unitsSlots)

lemma unitsCfg_status : StatusHost unitsCfg.env fun _ => True := updateHost_status _

lemma unitsCfg_keepsVector : KeepsVector unitsCfg.env := smallCfg_keepsVector _

/-- The hart at the `mret` with which it leaves. -/
theorem units_on_small :
    ((run (harts unitsCfg) (soloSys unitsFile) (List.replicate 574 0)).loc 0).arch.csr mstatusId =
      0x8000002200 ∧
    ((run (harts unitsCfg) (soloSys unitsFile) (List.replicate 574 0)).loc 0).arch.f 1 = 0 := by
  obtain ⟨-, -, hstatus, -, hfloat⟩ := units_on unitsCfg_status unitsCfg_keepsVector 0 rfl
    (s := soloSys unitsFile) rfl trivial trivial (List.replicate 574 0)
  have hpc : ((run (harts unitsCfg) (soloSys unitsFile) (List.replicate 574 0)).loc 0).pc =
      .asm .restoreIntVectorMret [] := by decide +kernel
  rw [hpc] at hstatus hfloat
  have hbehind (k : Instr → Bool) (q : Routine) :
      behind k q (.asm .restoreIntVectorMret []) = true :=
    decide_eq_true (.inr (.inr (by decide)))
  exact ⟨(hstatus (hbehind _ _) nofun).trans (by decide +kernel),
    (hfloat (by decide +kernel) 1 (hbehind _ _)).trans (by decide +kernel)⟩

end LibCheckpoint.Status