import LibCheckpoint.Csr
import LibCheckpoint.Registers

/-!
The assembly routines of `restore.S`.

A routine is the straight line of its instructions. The instruction that ends it (`ret`,
`mret` or a jump) is not part of the line: where control goes next belongs to the caller.
-/

namespace LibCheckpoint.Asm

open LibCheckpoint.Bytes LibCheckpoint.Rv64 LibCheckpoint.Csr LibCheckpoint.Registers

abbrev sp : Reg := 2
abbrev t0 : Reg := 5
abbrev t1 : Reg := 6
abbrev t2 : Reg := 7
abbrev a0 : Reg := 10
abbrev a1 : Reg := 11
abbrev t3 : Reg := 28

/-- The macro `CSRS_RESTORE`: load the slot of a CSR into `t1` and write it. -/
def csrsRestore (p : String × CsrNum) : List Instr :=
  [.li t2 (p.2.setWidth 64), .slli t2 t2 3, .add t2 t0 t2, .ld t1 0 t2, .csrw p.2 t1]

def storeMstatusState (reg : Reg) : Instr := .csrr reg mstatusId
def restoreMstatusState (reg : Reg) : Instr := .csrw mstatusId reg

def fcsrRestore : List Instr :=
  [.mv t0 a0, .li t2 (csrFcsr.setWidth 64), .slli t2 t2 3, .add t2 t0 t2, .ld t1 0 t2,
   .li t0 mstatusFs, .csrs mstatusId t0, .csrw csrFcsr t1]

def restoreCsrVector : List Instr :=
  fcsrRestore ++ [.mv t0 a0] ++ csrs.flatMap csrsRestore ++ [.li a0 1]

def rvhCsrRestore : List Instr := [.mv t0 a0] ++ hcsrs.flatMap csrsRestore ++ [.li a0 1]

/-- The loads of `rvv_restore` into the registers of a list, in order: `a1` is bumped by
the size of a register before each but the first. -/
def vectorLoads : List Reg → List Instr
  | [] => []
  | r :: rs => [.addi a1 a1 (if r = 0 then 0 else 16), .vl1re64 r a1] ++ vectorLoads rs

def vectorConfig : List Instr :=
  [.li t2 (vtypeId.setWidth 64), .slli t2 t2 3, .add t2 t0 t2, .ld t1 0 t2,
   .li t2 (vlId.setWidth 64), .slli t2 t2 3, .add t2 t0 t2, .ld t2 0 t2,
   .vsetvl t2 t2 t1]

def rvvRestore : List Instr :=
  [.mv t0 a0, storeMstatusState t3, .li t1 mstatusVsDirty, .csrs mstatusId t1] ++
  vectorConfig ++ vectorLoads (List.finRange 32) ++ [restoreMstatusState t3, .li a0 1]

def restoreMtime : List Instr :=
  [.li t0 ((clintMmio + clintMtime).signExtend 64), .mv t1 a0, .ld t1 0 t1, .sd t1 0 t0,
   .li a0 1]

def restoreMtimeCmp : List Instr :=
  [.mv t0 a0, .mv t1 a1, .ld t1 0 t1, .sd t1 0 t0, .li a0 1]

def restoreFloatVector : List Instr :=
  [.mv t0 a0, storeMstatusState t3, .li t1 mstatusFsDirty, .csrs mstatusId t1] ++
  (List.finRange 32).map (fun r => .fld r (BitVec.ofNat 12 (r * 8)) t0) ++
  [restoreMstatusState t3, .li a0 1]

/-- `ld x<r>, (r*8)(sp)` for the registers of a list. -/
def intLoads (rs : List Reg) : List Instr :=
  rs.map fun r => .ld r (BitVec.ofNat 12 (r * 8)) sp

/-- `restore_int_vector_mret` up to its `mret`. -/
def restoreIntVectorMret : List Instr :=
  [.mv sp a0] ++ intLoads (1 :: (List.finRange 32).drop 3) ++ intLoads [sp]

/-- `restore_int_vector_jump` up to its jump to `jump_to_core`: `x5` and `x6` are left to
the stub of the hart. -/
def restoreIntVectorJump : List Instr :=
  [.mv sp a0] ++ intLoads (1 :: 3 :: 4 :: (List.finRange 32).drop 7)

/-- `jump_to_core` up to its `jr t0`. -/
def jumpToCore (core0 : Word) : List Instr :=
  [.csrr t0 mhartidId, .slli t0 t0 4, .li t1 core0, .add t0 t0 t1]

/-! ### Loads from the CSR image -/

def slotAddr (c : CsrNum) : List Instr := [.li t2 (c.setWidth 64), .slli t2 t2 3, .add t2 t0 t2]

def slotLoad (c : CsrNum) (rd : Reg) : List Instr := slotAddr c ++ [.ld rd 0 t2]

lemma csrsRestore_eq (p : String × CsrNum) :
    csrsRestore p = slotLoad p.2 t1 ++ [.csrw p.2 t1] := rfl

lemma ea_zero (a : Arch) (r : Reg) : ea a 0 r = a.getX r := by
  simp [ea]

variable (E : Env)

lemma execs_slotAddr (c : CsrNum) (a : Arch) :
    execs E (slotAddr c) a = a.setX t2 (slot (a.getX t0) c) := by
  simp [slotAddr, Instr.exec, Arch.getX_setX, slot, t0, t2]

lemma execs_slotLoad (c : CsrNum) (rd : Reg) (a : Arch) :
    execs E (slotLoad c rd) a =
      (a.setX t2 (slot (a.getX t0) c)).setX rd (ld64 E.ram (slot (a.getX t0) c)) := by
  rw [slotLoad, execs_append, execs_slotAddr, execs_cons, execs_nil, Instr.exec, ea_zero,
    Arch.getX_setX, if_pos ⟨rfl, by decide⟩]

lemma readsIn_slotLoad {S : Set Word} {c : CsrNum} (rd : Reg) {a : Arch}
    (h : region (slot (a.getX t0) c) 8 ⊆ S) : readsIn E S (slotLoad c rd) a := by
  rw [slotLoad, readsIn_append, execs_slotAddr]
  refine ⟨readsIn_of_noLoad E S rfl a, ?_, trivial⟩
  rw [Instr.reads, ea_zero, Arch.getX_setX, if_pos ⟨rfl, by decide⟩]
  exact h

lemma csrsRestore_base (p : String × CsrNum) (a : Arch) :
    (execs E (csrsRestore p) a).getX t0 = a.getX t0 :=
  getX_execs_of_ne E rfl a

lemma readsIn_csrs {S : Set Word} {base : Word} (h : ∀ c, region (slot base c) 8 ⊆ S)
    (ps : List (String × CsrNum)) (a : Arch) (ha : a.getX t0 = base) :
    readsIn E S (ps.flatMap csrsRestore) a := by
  induction ps generalizing a with
  | nil => trivial
  | cons p ps ih =>
    rw [List.flatMap_cons, readsIn_append]
    refine ⟨?_, ih _ ((csrsRestore_base E p a).trans ha)⟩
    rw [csrsRestore_eq, readsIn_append]
    exact ⟨readsIn_slotLoad E t1 (by rw [ha]; exact h _), readsIn_of_noLoad E S rfl _⟩

/-! ### Writes of the CSR lists -/

lemma csr_csrsRestore (p : String × CsrNum) (a : Arch) : (execs E (csrsRestore p) a).csr =
    E.csrw a.csr p.2 (ld64 E.ram (slot (a.getX t0) p.2)) := by
  rw [csrsRestore_eq, execs_append, execs_slotLoad, execs_cons, execs_nil, Instr.exec]
  simp [Arch.getX_setX, t1]

lemma csr_csrsRestores {base : Word} (ps : List (String × CsrNum)) (a : Arch)
    (ha : a.getX t0 = base) : (execs E (ps.flatMap csrsRestore) a).csr =
      writes E.csrw (fun c => ld64 E.ram (slot base c)) (ps.map Prod.snd) a.csr := by
  induction ps generalizing a with
  | nil => rfl
  | cons p ps ih =>
    rw [List.flatMap_cons, execs_append, ih _ ((csrsRestore_base E p a).trans ha),
      csr_csrsRestore, ha]
    rfl

lemma fcsrRestore_eq : fcsrRestore = [.mv t0 a0] ++ slotLoad csrFcsr t1 ++
    [.li t0 mstatusFs, .csrs mstatusId t0, .csrw csrFcsr t1] := rfl

/-- The part of `restore_csr_vector` before the CSR list switches the floating-point unit on and
writes `fcsr`. -/
lemma csr_fcsrRestore (a : Arch) : (execs E fcsrRestore a).csr =
    E.csrw (E.csrw a.csr mstatusId (a.csr mstatusId ||| mstatusFs)) csrFcsr
      (ld64 E.ram (slot (a.getX a0) csrFcsr)) := by
  rw [fcsrRestore_eq, execs_append, execs_append, execs_slotLoad]
  simp [Instr.exec, Arch.getX, Arch.setX, t0, t1, t2, a0]

/-- **`restore_csr_vector`**: `fcsr`, then the CSRs of the list. -/
lemma csr_restoreCsrVector (a : Arch) : (execs E restoreCsrVector a).csr =
    writes E.csrw (fun c => ld64 E.ram (slot (a.getX a0) c)) (csrs.map Prod.snd)
      (execs E fcsrRestore a).csr := by
  have hargs : (execs E [.mv t0 a0] (execs E fcsrRestore a)).getX t0 = a.getX a0 := by
    have ha0 : (execs E fcsrRestore a).getX a0 = a.getX a0 := getX_execs_of_ne E rfl a
    simp [Instr.exec, Arch.getX_setX, ha0, t0]
  rw [restoreCsrVector, execs_append, execs_append, execs_append,
    (sameButX_execs E rfl _).csr, csr_csrsRestores E _ _ hargs]
  rfl

/-- **`rvh_csr_restore`**: the CSRs of the list. -/
lemma csr_rvhCsrRestore (a : Arch) : (execs E rvhCsrRestore a).csr =
    writes E.csrw (fun c => ld64 E.ram (slot (a.getX a0) c)) (hcsrs.map Prod.snd) a.csr := by
  have hargs : (execs E [.mv t0 a0] a).getX t0 = a.getX a0 := by
    simp [Instr.exec, Arch.getX_setX, t0]
  rw [rvhCsrRestore, execs_append, execs_append, (sameButX_execs E rfl _).csr,
    csr_csrsRestores E _ _ hargs]
  rfl

/-- Inside the block of a CSR, the CSR has been written at its end only. -/
lemma csr_block {p : String × CsrNum} {u v : List Instr} (h : csrsRestore p = u ++ v) (a : Arch) :
    (execs E u a).csr = a.csr ∨ u = csrsRestore p := by
  have hload (w x : List Instr) (hw : slotLoad p.2 t1 = w ++ x) : (execs E w a).csr = a.csr := by
    have hint : (slotLoad p.2 t1).all Instr.isInt = true := rfl
    rw [hw, List.all_append, Bool.and_eq_true] at hint
    exact (sameButX_execs E hint.1 a).csr
  have hcases := h
  rw [csrsRestore_eq, List.append_eq_append_iff] at hcases
  rcases hcases with ⟨w, rfl, hw⟩ | ⟨w, hw, -⟩
  · rcases w with _ | ⟨i, w⟩
    · exact .inl (hload _ [] (by simp))
    · simp only [List.cons_append, List.cons.injEq, List.nil_eq, List.append_eq_nil_iff] at hw
      obtain ⟨rfl, rfl, rfl⟩ := hw
      exact .inr (csrsRestore_eq p).symm
  · exact .inl (hload u w hw)

/-- Between two instructions of the blocks of a list, the CSRs of an initial part of it have been
written. -/
lemma csr_prefix {base : Word} {tail u l : List Instr} (htail : tail.all Instr.isInt = true)
    (ps : List (String × CsrNum)) (hu : ps.flatMap csrsRestore ++ tail = u ++ l) (a : Arch)
    (ha : a.getX t0 = base) : ∃ k, (execs E u a).csr =
      writes E.csrw (fun c => ld64 E.ram (slot base c)) ((ps.take k).map Prod.snd) a.csr := by
  induction ps generalizing a u with
  | nil =>
    refine ⟨0, (sameButX_execs E ?_ a).csr⟩
    rw [List.flatMap_nil, List.nil_append] at hu
    rw [hu, List.all_append, Bool.and_eq_true] at htail
    exact htail.1
  | cons p ps ih =>
    have hp := csr_csrsRestore E p a
    rw [ha] at hp
    rw [List.flatMap_cons, List.append_assoc, List.append_eq_append_iff] at hu
    rcases hu with ⟨v, rfl, hv⟩ | ⟨v, hv, -⟩
    · obtain ⟨k, hcsr⟩ := ih hv _ ((csrsRestore_base E p a).trans ha)
      exact ⟨k + 1, by rw [execs_append, hcsr, hp]; rfl⟩
    · rcases csr_block E hv a with h | rfl
      · exact ⟨0, h⟩
      · exact ⟨1, hp⟩

/-! ### `restore_csr_vector` around its write of `mstatus` -/

/-- The CSRs of the list before `mstatus`, and those behind it. -/
def earlierCsrs : List (String × CsrNum) := csrs.takeWhile fun p => p.2 ≠ mstatusId
def laterCsrs : List (String × CsrNum) := (csrs.dropWhile fun p => p.2 ≠ mstatusId).tail

def beforeMstatus : List Instr :=
  fcsrRestore ++ [.mv t0 a0] ++ earlierCsrs.flatMap csrsRestore ++ slotLoad mstatusId t1

def afterMstatus : List Instr := laterCsrs.flatMap csrsRestore ++ [.li a0 1]

lemma restoreCsrVector_split :
    restoreCsrVector = beforeMstatus ++ .csrw mstatusId t1 :: afterMstatus := by
  have hcsrs : csrs = earlierCsrs ++ ("mstatus", mstatusId) :: laterCsrs := by decide +kernel
  simp only [restoreCsrVector, hcsrs, List.flatMap_append, List.flatMap_cons, beforeMstatus,
    afterMstatus, csrsRestore_eq, List.append_assoc, List.cons_append, List.nil_append]

lemma csr_afterMstatus {base : Word} (a : Arch) (ha : a.getX t0 = base) :
    (execs E afterMstatus a).csr =
      writes E.csrw (fun c => ld64 E.ram (slot base c)) (laterCsrs.map Prod.snd) a.csr := by
  rw [afterMstatus, execs_append, (sameButX_execs E rfl _).csr, csr_csrsRestores E _ _ ha]

lemma regs_beforeMstatus (a : Arch) :
    (execs E beforeMstatus a).getX t0 = a.getX a0 ∧
      (execs E beforeMstatus a).getX t1 = ld64 E.ram (slot (a.getX a0) mstatusId) := by
  have ha0 : (execs E fcsrRestore a).getX a0 = a.getX a0 := getX_execs_of_ne E rfl a
  have hmv : (execs E [.mv t0 a0] (execs E fcsrRestore a)).getX t0 = a.getX a0 := by
    simp [Instr.exec, Arch.getX_setX, ha0, t0]
  have hlist : (earlierCsrs.flatMap csrsRestore).all (fun i => i.dest ≠ some t0) = true := by
    decide +kernel
  have ht0 := (getX_execs_of_ne E hlist (execs E [.mv t0 a0] (execs E fcsrRestore a))).trans hmv
  rw [beforeMstatus, execs_append, execs_append, execs_append, execs_slotLoad, ht0]
  simp [Arch.getX_setX, t0, t1, t2]
  exact ht0

/-- **`restore_csr_vector`** behind its write of `mstatus`: the CSRs of the rest of the list. -/
lemma csr_behindMstatus (a : Arch) : (execs E restoreCsrVector a).csr =
    writes E.csrw (fun c => ld64 E.ram (slot (a.getX a0) c)) (laterCsrs.map Prod.snd)
      (E.csrw (execs E beforeMstatus a).csr mstatusId
        (ld64 E.ram (slot (a.getX a0) mstatusId))) := by
  obtain ⟨ht0, ht1⟩ := regs_beforeMstatus E a
  have hbase :
      ((Instr.csrw mstatusId t1).exec E (execs E beforeMstatus a)).getX t0 = a.getX a0 := by
    rw [getX_exec_of_ne E (by simp [Instr.dest]), ht0]
  rw [restoreCsrVector_split, execs_append, execs_cons, csr_afterMstatus E _ hbase]
  rw [Instr.exec, ht1]

/-! ### The stub table -/

/-- The word `NOP` that the stub of every hart ends with before it is patched. -/
def nop : BitVec 32 := 0x00000013

/-- Word `k` of a stub `core<n>` as assembled by `create_label`. -/
def stubWord (k : ℕ) : BitVec 32 :=
  match k with
  | 0 => encodeLd 5 40 2
  | 1 => encodeLd 6 48 2
  | 2 => encodeLd 2 16 2
  | _ => nop

lemma decode_stubWord_zero : decode (stubWord 0) = some (.op (.ld 5 40 sp)) := by decide
lemma decode_stubWord_one : decode (stubWord 1) = some (.op (.ld 6 48 sp)) := by decide
lemma decode_stubWord_two : decode (stubWord 2) = some (.op (.ld 2 16 sp)) := by decide

/-! ### The vector registers -/

def vsDirty : List Instr :=
  [.mv t0 a0, storeMstatusState t3, .li t1 mstatusVsDirty, .csrs mstatusId t1]

lemma vsDirty_base (a : Arch) : (execs E vsDirty a).getX t0 = a.getX a0 ∧
    (execs E vsDirty a).getX a1 = a.getX a1 := by
  constructor
  · rw [vsDirty, execs_cons, getX_execs_of_ne E rfl]
    simp [Instr.exec, Arch.getX_setX, t0]
  · exact getX_execs_of_ne E rfl a

lemma slots_vsetvl (c d : CsrNum) (a : Arch) {b : Arch}
    (hb : b = execs E (slotLoad c t1 ++ slotLoad d t2 ++ [.vsetvl t2 t2 t1]) a) :
    b.getX a1 = a.getX a1 ∧ b.v = a.v ∧ b.csr =
      let r := vsetvl (ld64 E.ram (slot (a.getX t0) d)) (ld64 E.ram (slot (a.getX t0) c))
      Function.update (Function.update (Function.update a.csr vlId r.1) vtypeId r.2)
        vstartId 0 := by
  subst hb
  have ht0 : (execs E (slotLoad c t1) a).getX t0 = a.getX t0 := getX_execs_of_ne E rfl a
  rw [execs_append, execs_append, execs_slotLoad E d, ht0, execs_slotLoad]
  generalize ld64 E.ram (slot (a.getX t0) c) = w, ld64 E.ram (slot (a.getX t0) d) = x
  refine ⟨?_, ?_, ?_⟩
  · rw [getX_execs_of_ne E rfl]
    simp [Arch.getX_setX, t1, t2, a1]
  · simp [Instr.exec, Arch.setCsr]
  · simp [Instr.exec, Arch.setCsr, Arch.getX_setX, t0, t1, t2]

lemma getX_bump {base : Word} {r : Reg} {a : Arch}
    (ha : a.getX a1 = base + BitVec.ofNat 64 (16 * (r - 1))) :
    ((Instr.addi a1 a1 (if r = 0 then 0 else 16)).exec E a).getX a1 =
      base + BitVec.ofNat 64 (16 * r) := by
  rw [Instr.exec, Arch.getX_setX, if_pos ⟨rfl, by decide⟩, ha]
  by_cases hr : r = 0
  · simp [hr]
  · have hr0 : r.val ≠ 0 := fun h => hr (Fin.ext h)
    rw [if_neg hr, BitVec.add_assoc, show BitVec.signExtend 64 (16 : BitVec 12) =
      BitVec.ofNat 64 16 by decide, ← BitVec.ofNat_add]
    congr 2
    omega

/-- The loads of consecutive registers, with the base at the image of the one before them. -/
lemma vectorLoads_eq (base : Word) (rs : List Reg) (k : ℕ) (a : Arch)
    (hrs : rs.map Fin.val = List.range' k rs.length)
    (ha : a.getX a1 = base + BitVec.ofNat 64 (16 * (k - 1))) (h0 : a.csr vstartId = 0) :
    (∀ q, (execs E (vectorLoads rs) a).v q =
      if q ∈ rs then ld128 E.ram (base + BitVec.ofNat 64 (16 * q)) else a.v q) ∧
    (execs E (vectorLoads rs) a).csr = a.csr := by
  induction rs generalizing k a with
  | nil => simp [vectorLoads]
  | cons r rs ih =>
    rw [List.map_cons, List.length_cons, List.range'_succ, List.cons.injEq] at hrs
    obtain ⟨rfl, hrs⟩ := hrs
    have hbump := getX_bump E ha
    set d := (Instr.addi a1 a1 (if r = 0 then 0 else 16)).exec E a with hd
    set b := (Instr.vl1re64 r a1).exec E d with hb
    have hbv : b.v = Function.update a.v r (ld128 E.ram (base + BitVec.ofNat 64 (16 * r))) := by
      rw [hb, Instr.exec, hbump, hd, Instr.exec]
      simp [Arch.setV, Arch.setCsr]
    have hbcsr : b.csr = a.csr := by
      have : b.csr = Function.update a.csr vstartId 0 := by
        simp [hb, hd, Instr.exec, Arch.setV, Arch.setCsr]
      rw [this, ← h0, Function.update_eq_self]
    obtain ⟨hv, hcsr⟩ := ih (r + 1) b hrs hbump (by rw [hbcsr, h0])
    rw [show execs E (vectorLoads (r :: rs)) a = execs E (vectorLoads rs) b from rfl]
    refine ⟨fun q => ?_, hcsr.trans hbcsr⟩
    rw [hv, hbv, Function.update_apply]
    by_cases hq : q ∈ rs
    · simp [hq]
    · by_cases hqr : q = r <;> simp [hq, hqr]

lemma readsIn_vectorLoads {S : Set Word} {base : Word}
    (h : ∀ r : Reg, region (base + BitVec.ofNat 64 (16 * r)) 16 ⊆ S) (rs : List Reg) (k : ℕ)
    (a : Arch) (hrs : rs.map Fin.val = List.range' k rs.length)
    (ha : a.getX a1 = base + BitVec.ofNat 64 (16 * (k - 1))) :
    readsIn E S (vectorLoads rs) a := by
  induction rs generalizing k a with
  | nil => trivial
  | cons r rs ih =>
    rw [List.map_cons, List.length_cons, List.range'_succ, List.cons.injEq] at hrs
    obtain ⟨rfl, hrs⟩ := hrs
    have hbump := getX_bump E ha
    refine ⟨Set.empty_subset _, ?_, ih (r + 1) _ hrs hbump⟩
    rw [Instr.reads, hbump]
    exact h r

/-! ### The integer registers -/

lemma ea_slot (a : Arch) (r q : Reg) :
    ea a (BitVec.ofNat 12 (r * 8)) q = a.getX q + BitVec.ofNat 64 (8 * r) := by
  have : (BitVec.ofNat 12 (r * 8)).signExtend 64 = BitVec.ofNat 64 (8 * r) := by
    revert r
    decide
  rw [ea, this]

lemma getX_intLoads (rs : List Reg) (a : Arch) (h0 : 0 ∉ rs) (hsp : sp ∉ rs) (r : Reg) :
    (execs E (intLoads rs) a).getX r =
      if r ∈ rs then ld64 E.ram (a.getX sp + BitVec.ofNat 64 (8 * r)) else a.getX r := by
  induction rs generalizing a with
  | nil => simp [intLoads]
  | cons q rs ih =>
    simp only [List.mem_cons, not_or] at h0 hsp
    have hsp' : (Instr.exec E a (.ld q (BitVec.ofNat 12 (q * 8)) sp)).getX sp = a.getX sp := by
      simp only [Instr.exec, Arch.getX_setX]
      rw [if_neg fun h => hsp.1 h.1]
    simp only [intLoads, List.map_cons, execs_cons] at ih ⊢
    rw [ih _ h0.2 hsp.2, hsp']
    by_cases hr : r ∈ rs
    · simp [hr]
    · by_cases hq : r = q
      · subst hq
        simp [Instr.exec, Arch.getX_setX, ea_slot, Ne.symm h0.1, hr]
      · simp [hr, hq, Instr.exec, Arch.getX_setX]

end LibCheckpoint.Asm
