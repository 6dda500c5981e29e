import LibCheckpoint.Solo

/-!
What a hart reads of the checkpoint: its own fields only, but for the source of its
`mtimecmp`, whose offset is applied twice.
-/

namespace LibCheckpoint.Isolation

open LibCheckpoint.Bytes LibCheckpoint.Rv64 LibCheckpoint.Csr LibCheckpoint.Asm
open LibCheckpoint.Layout LibCheckpoint.Jal LibCheckpoint.Restorer LibCheckpoint.Interleave
open LibCheckpoint.Phase LibCheckpoint.Effect LibCheckpoint.Path LibCheckpoint.Exit
open LibCheckpoint.Solo

variable (cfg : Cfg)

/-! ### The fields of a hart -/

def fields (cpuId : BitVec 32) : Set Word :=
  let m := cfg.layout cpuId
  region m.pcCptAddr 8 ∪ region m.modeCptAddr 8 ∪ region m.mtimeCptAddr 8 ∪
    region m.mtimeCmpCptAddr 8 ∪ region m.csrReserve 8 ∪ region m.intRegCptAddr (32 * 8) ∪
    region m.floatRegCptAddr (32 * 8) ∪ region m.csrRegCptAddr (4096 * 8) ∪
    region m.vectorRegCptAddr (32 * 16)

def cmpSource (cpuId : BitVec 32) : Set Word :=
  region (mtimecmpSource (cfg.layout cpuId) cpuId) 8

variable {cfg} {cpuId : BitVec 32}

lemma scalar_fields : region (cfg.layout cpuId).pcCptAddr 8 ⊆ fields cfg cpuId ∧
    region (cfg.layout cpuId).modeCptAddr 8 ⊆ fields cfg cpuId ∧
    region (cfg.layout cpuId).mtimeCptAddr 8 ⊆ fields cfg cpuId ∧
    region (cfg.layout cpuId).mtimeCmpCptAddr 8 ⊆ fields cfg cpuId ∧
    region (cfg.layout cpuId).csrReserve 8 ⊆ fields cfg cpuId := by
  refine ⟨?_, ?_, ?_, ?_, ?_⟩ <;>
    exact fun x hx => by simp [fields, hx]

lemma slot_fields (c : CsrNum) :
    region (slot (cfg.layout cpuId).csrRegCptAddr c) 8 ⊆ fields cfg cpuId := by
  have hslot : slot (cfg.layout cpuId).csrRegCptAddr c =
      (cfg.layout cpuId).csrRegCptAddr + BitVec.ofNat 64 (8 * c.toNat) := by
    rw [slot, BitVec.add_right_inj]
    refine BitVec.eq_of_toNat_eq ?_
    simp only [BitVec.toNat_shiftLeft, BitVec.toNat_setWidth, BitVec.toNat_ofNat,
      Nat.shiftLeft_eq]
    omega
  rw [hslot]
  refine (region_sub _ (n := 4096 * 8) (by omega)).trans fun x hx => ?_
  simp [fields, hx]

lemma int_fields (r : Reg) :
    region ((cfg.layout cpuId).intRegCptAddr + BitVec.ofNat 64 (8 * r)) 8 ⊆ fields cfg cpuId := by
  refine (region_sub _ (n := 32 * 8) (by omega)).trans fun x hx => ?_
  simp [fields, hx]

lemma float_fields (r : Reg) :
    region ((cfg.layout cpuId).floatRegCptAddr + BitVec.ofNat 64 (8 * r)) 8 ⊆
      fields cfg cpuId := by
  refine (region_sub _ (n := 32 * 8) (by omega)).trans fun x hx => ?_
  simp [fields, hx]

lemma vector_fields (r : Reg) :
    region ((cfg.layout cpuId).vectorRegCptAddr + BitVec.ofNat 64 (16 * r)) 16 ⊆
      fields cfg cpuId := by
  refine (region_sub _ (n := 32 * 16) (by omega)).trans fun x hx => ?_
  simp [fields, hx]

/-! ### The loads of the routines -/

section
variable (a : Arch)

lemma readsIn_rvhCsrRestore : readsIn cfg.env (fields cfg cpuId) Asm.rvhCsrRestore
    (withArgs cfg cpuId a .rvhCsrRestore) := by
  rw [Asm.rvhCsrRestore, readsIn_append, readsIn_append]
  refine ⟨⟨readsIn_of_noLoad _ _ rfl _, readsIn_csrs _ slot_fields _ _ ?_⟩,
    readsIn_of_noLoad _ _ rfl _⟩
  simp [withArgs, Instr.exec, Arch.getX_setX, t0, a0]

lemma readsIn_restoreCsrVector : readsIn cfg.env (fields cfg cpuId) Asm.restoreCsrVector
    (withArgs cfg cpuId a .restoreCsrVector) := by
  set b := withArgs cfg cpuId a .restoreCsrVector with hb
  have hb0 : b.getX a0 = (cfg.layout cpuId).csrRegCptAddr := by
    simp [hb, withArgs, Arch.getX_setX, a0]
  have hmv (d : Arch) (hd : d.getX a0 = (cfg.layout cpuId).csrRegCptAddr) :
      (execs cfg.env [.mv t0 a0] d).getX t0 = (cfg.layout cpuId).csrRegCptAddr := by
    rw [← hd]
    simp [Instr.exec, Arch.getX_setX, t0, a0]
  rw [Asm.restoreCsrVector, readsIn_append, readsIn_append, readsIn_append]
  refine ⟨⟨⟨?_, readsIn_of_noLoad _ _ rfl _⟩, readsIn_csrs _ slot_fields _ _ ?_⟩,
    readsIn_of_noLoad _ _ rfl _⟩
  · rw [fcsrRestore_eq, readsIn_append, readsIn_append]
    refine ⟨⟨readsIn_of_noLoad _ _ rfl _, readsIn_slotLoad _ _ ?_⟩, readsIn_of_noLoad _ _ rfl _⟩
    rw [hmv b hb0]
    exact slot_fields _
  · rw [execs_append]
    exact hmv _ ((getX_execs_of_ne _ (by decide) _).trans hb0)

lemma readsIn_rvvRestore : readsIn cfg.env (fields cfg cpuId) Asm.rvvRestore
    (withArgs cfg cpuId a .rvvRestore) := by
  set b := withArgs cfg cpuId a .rvvRestore with hb
  have hb0 : b.getX a0 = (cfg.layout cpuId).csrRegCptAddr := by
    simp [hb, withArgs, Arch.getX_setX, a0, a1]
  have hb1 : b.getX a1 = (cfg.layout cpuId).vectorRegCptAddr := by
    simp [hb, withArgs, Arch.getX_setX, a1]
  have hconfig : vectorConfig = slotLoad vtypeId t1 ++ slotLoad vlId t2 ++ [.vsetvl t2 t2 t1] := by
    simp only [vectorConfig, slotLoad, slotAddr, List.cons_append, List.nil_append]
  obtain ⟨ht0, ha1⟩ := vsDirty_base cfg.env b
  rw [Asm.rvvRestore, ← vsDirty, readsIn_append, readsIn_append, readsIn_append]
  refine ⟨⟨⟨readsIn_of_noLoad _ _ rfl _, ?_⟩, ?_⟩, readsIn_of_noLoad _ _ rfl _⟩
  · rw [hconfig, readsIn_append, readsIn_append]
    refine ⟨⟨readsIn_slotLoad _ _ ?_, readsIn_slotLoad _ _ ?_⟩, readsIn_of_noLoad _ _ rfl _⟩
    · rw [ht0, hb0]
      exact slot_fields _
    · rw [getX_execs_of_ne _ (by decide), ht0, hb0]
      exact slot_fields _
  · refine readsIn_vectorLoads _ vector_fields _ 0 _ (by decide) ?_
    rw [execs_append, getX_execs_of_ne _ (by decide), ha1, hb1]
    simp

lemma readsIn_restoreFloatVector : readsIn cfg.env (fields cfg cpuId) Asm.restoreFloatVector
    (withArgs cfg cpuId a .restoreFloatVector) := by
  have hloads (rs : List Reg) (b : Arch) (hb : b.getX t0 = (cfg.layout cpuId).floatRegCptAddr) :
      readsIn cfg.env (fields cfg cpuId)
        (rs.map fun r => .fld r (BitVec.ofNat 12 (r * 8)) t0) b := by
    induction rs generalizing b with
    | nil => trivial
    | cons r rs ih =>
      refine ⟨?_, ih _ ((getX_exec_of_ne _ (by simp [Instr.dest])).trans hb)⟩
      rw [Instr.reads, ea_slot, hb]
      exact float_fields r
  rw [Asm.restoreFloatVector, readsIn_append, readsIn_append]
  refine ⟨⟨readsIn_of_noLoad _ _ rfl _, hloads _ _ ?_⟩, readsIn_of_noLoad _ _ rfl _⟩
  simp [withArgs, storeMstatusState, Instr.exec, Arch.getX, Arch.setX, t0, t1, t3, a0]

lemma readsIn_intLoads (rs : List Reg) (hsp : sp ∉ rs) (b : Arch)
    (hb : b.getX sp = (cfg.layout cpuId).intRegCptAddr) :
    readsIn cfg.env (fields cfg cpuId) (intLoads rs) b := by
  induction rs generalizing b with
  | nil => trivial
  | cons r rs ih =>
    simp only [List.mem_cons, not_or] at hsp
    refine ⟨?_, ih hsp.2 _ ((getX_exec_of_ne _ ?_).trans hb)⟩
    · rw [Instr.reads, ea_slot, hb]
      exact int_fields r
    · simpa [Instr.dest] using Ne.symm hsp.1

/-- **What a routine loads**: bytes of the fields of the hart, and the source of `mtimecmp`. -/
lemma readsIn_called {q : Routine}
    (hcmp : q = .restoreMtimeCmp → cmpSource cfg cpuId ⊆ fields cfg cpuId) :
    readsIn cfg.env (fields cfg cpuId) (q.code cfg) (withArgs cfg cpuId a q) := by
  have hsp (q : Routine) (hq : q = .restoreIntVectorMret ∨ q = .restoreIntVectorJump) :
      (execs cfg.env [.mv sp a0] (withArgs cfg cpuId a q)).getX sp =
        (cfg.layout cpuId).intRegCptAddr := by
    rcases hq with rfl | rfl <;> simp [withArgs, Instr.exec, Arch.getX_setX, sp, a0]
  cases q with
  | rvhCsrRestore => exact readsIn_rvhCsrRestore a
  | rvvRestore => exact readsIn_rvvRestore a
  | restoreFloatVector => exact readsIn_restoreFloatVector a
  | restoreCsrVector => exact readsIn_restoreCsrVector a
  | restoreMtimeCmp =>
    refine ⟨Set.empty_subset _, Set.empty_subset _, ?_, Set.empty_subset _, Set.empty_subset _,
      trivial⟩
    -- The only load of `restore_mtime_cmp` is the one that the hypothesis is about.
    refine Set.Subset.trans ?_ (hcmp rfl)
    rw [Instr.reads, ea_zero]
    simp [withArgs, Instr.exec, Arch.getX_setX, t0, t1, a0, a1, cmpSource]
  | restoreMtime =>
    refine ⟨Set.empty_subset _, Set.empty_subset _, ?_, Set.empty_subset _, Set.empty_subset _,
      trivial⟩
    refine Set.Subset.trans ?_ scalar_fields.2.2.1
    rw [Instr.reads, ea_zero]
    simp [withArgs, Instr.exec, Arch.getX_setX, t0, t1, a0]
  | restoreIntVectorJump =>
    simp only [Routine.code]
    rw [Asm.restoreIntVectorJump, readsIn_append]
    exact ⟨readsIn_of_noLoad _ _ rfl _, readsIn_intLoads _ (by decide) _ (hsp _ (.inr rfl))⟩
  | restoreIntVectorMret =>
    simp only [Routine.code]
    rw [Asm.restoreIntVectorMret, readsIn_append, readsIn_append]
    refine ⟨⟨readsIn_of_noLoad _ _ rfl _, readsIn_intLoads _ (by decide) _ (hsp _ (.inl rfl))⟩,
      ?_, trivial⟩
    rw [Instr.reads, ea_slot, execs_append, getX_execs_of_ne _ (by decide), hsp _ (.inl rfl)]
    exact int_fields sp
  | jumpToCore => exact readsIn_of_noLoad _ _ rfl _

end

/-! ### Two checkpoints -/

def withRam (cfg : Cfg) (ram : Word → Byte) : Cfg := { cfg with env := { cfg.env with ram } }

section
variable {ram : Word → Byte} {c : Hart} {r : Word}

lemma ld_withRam {S : Set Word} (h : AgreeOn S cfg.env.ram ram) {a : Word} (ha : region a 8 ⊆ S) :
    (withRam cfg ram).ld a = cfg.ld a :=
  (ld64_agree (h.mono ha)).symm

lemma offset_withRam (h : AgreeOn (fields cfg cpuId) cfg.env.ram ram) :
    (withRam cfg ram).offset cpuId = cfg.offset cpuId := by
  have hpc := ld_withRam h scalar_fields.1
  unfold Cfg.offset
  rw [← hpc]
  rfl

lemma gates_withRam (cfg : Cfg) (h : AgreeOn (fields cfg cpuId) cfg.env.ram ram)
    (hostMisa : Word) :
    (withRam cfg ram).gates cpuId hostMisa = cfg.gates cpuId hostMisa := by
  have hmode := ld_withRam h scalar_fields.2.1
  have hmstatus := ld_withRam h (slot_fields mstatusId)
  have hmisa := ld_withRam h (slot_fields csrMisa)
  simp only [Cfg.gates]
  rw [← hmode, ← hmstatus, ← hmisa]
  rfl

lemma act_withRam (h : AgreeOn (fields cfg c.cpuId) cfg.env.ram ram) :
    act (withRam cfg ram) c = act cfg c := by
  unfold act
  rw [offset_withRam h]
  rfl

lemma resume_withRam (h : AgreeOn (fields cfg c.cpuId) cfg.env.ram ram)
    (hasm : ∀ q l, c.pc = .asm q l → readsIn cfg.env (fields cfg c.cpuId) l c.arch)
    (hfetch : ∀ a i, c.pc = .fetch a → decode (r.setWidth 32) = some (.op i) →
      i.reads c.arch ⊆ fields cfg c.cpuId) :
    resume (withRam cfg ram) c r = resume cfg c r := by
  have hexec (i : Instr) (hi : i.reads c.arch ⊆ fields cfg c.cpuId) :
      i.exec (withRam cfg ram).env c.arch = i.exec cfg.env c.arch :=
    (exec_agree cfg.env (withRam cfg ram).env rfl (h.mono hi)).symm
  -- The checkpoint is read at four points of the C code, and by the loads.
  cases hp : c.pc with
  | readAllCpuNum =>
    have hnum := ld_withRam h scalar_fields.2.2.2.2
    simp only [resume, hp]
    rw [← hnum]
    rfl
  | extCheck => simp only [resume, hp, gates_withRam cfg h]
  | patchJal => simp only [resume, hp, offset_withRam h]
  | asm q l =>
    cases l with
    | nil =>
      simp only [resume, hp]
      cases q <;> rfl
    | cons i l => simp only [resume, hp, hexec i (hasm q _ hp).1]
  | fetch a =>
    simp only [resume, hp]
    cases hd : decode (r.setWidth 32) with
    | none => rfl
    | some d =>
      cases d with
      | jal rd off => rfl
      | op i => simp only [hexec i (hfetch a i hp hd)]
  | call q =>
    simp only [resume, hp]
    cases q <;> rfl
  | mtPrintf s p => rcases p with (_ | _) | _ | _ <;> simp only [resume, hp]
  | lockGlobash p => cases p <;> simp only [resume, hp]
  | enableGcptTrap =>
    simp only [resume, hp]
    rfl
  | clearBss | multicoreDecodeRestore =>
    simp only [resume, hp]
    rfl
  | _ => simp only [resume, hp]

end

/-! ### A hart and its stub -/

lemma reads_stubWord {k : ℕ} (hk : k < 3) {a : Arch} (h : AtWord cfg cpuId k a) {i : Instr}
    (hd : decode (stubWord k) = some (.op i)) : i.reads a ⊆ fields cfg cpuId := by
  have hslot (r : Reg) : (Instr.ld r (BitVec.ofNat 12 (r * 8)) sp).reads a ⊆ fields cfg cpuId := by
    rw [Instr.reads, ea_slot, h.base hk]
    exact int_fields r
  interval_cases k
  · obtain rfl := Fetched.op.inj (Option.some.inj (decode_stubWord_zero.symm.trans hd))
    exact hslot t0
  · obtain rfl := Fetched.op.inj (Option.some.inj (decode_stubWord_one.symm.trans hd))
    exact hslot t1
  · obtain rfl := Fetched.op.inj (Option.some.inj (decode_stubWord_two.symm.trans hd))
    exact hslot sp

/-- The words that a jump through the stub of the hart relies on. -/
structure HasStub (cfg : Cfg) (m : Shared) (c : Hart) : Prop where
  small : c.cpuId.toNat < 2 ^ 29
  hartid : c.arch.hartid = c.cpuId.setWidth 64
  words : ∀ k < 3, m.text (stub cfg c.cpuId k) = stubWord k

def unchecked (p : Pc) : Prop :=
  p = .multicoreDecodeRestore ∨ p = .stopped ∨ p = .readAllCpuNum ∨ p = .extCheck

/-- What holds of a hart on its own from `multicore_decode_restore` on. -/
structure Own (cfg : Cfg) (A : Arch) (m : Shared) (c : Hart) : Prop where
  path : OnPath cfg A c
  exit : ExitOk cfg c
  reads : ∀ q l, c.pc = .asm q l → readsIn cfg.env (fields cfg c.cpuId) l c.arch
  mode : unchecked c.pc ∨ c.gates.shouldJumpToMepc = modeM cfg c.cpuId
  hasStub : modeM cfg c.cpuId = true → HasStub cfg m c
  jal : c.gates.shouldJumpToMepc = true → patched c.pc = true →
    m.text (stub cfg c.cpuId 3) = jalInstr (cfg.offset c.cpuId)

def Undisturbed (cfg : Cfg) (cpuId : BitVec 32) (g : Shared → Shared) : Prop :=
  ∀ m, ∀ k < 4, (g m).text (stub cfg cpuId k) = m.text (stub cfg cpuId k)

section
variable {A : Arch} {m : Shared} {c : Hart}

lemma Own.disturb (h : Own cfg A m c) {g : Shared → Shared} (hg : Undisturbed cfg c.cpuId g) :
    Own cfg A (g m) c where
  path := h.path
  exit := h.exit
  reads := h.reads
  mode := h.mode
  hasStub hm := ⟨(h.hasStub hm).small, (h.hasStub hm).hartid, fun k hk => by
    rw [hg m k (by omega), (h.hasStub hm).words k hk]⟩
  jal hj hp := by rw [hg m 3 (by omega), h.jal hj hp]

lemma Own.modeM_of_jump (h : Own cfg A m c) (hp : ¬ unchecked c.pc)
    (hj : c.gates.shouldJumpToMepc = true) : modeM cfg c.cpuId = true :=
  (h.mode.resolve_left hp).symm.trans hj

lemma Own.fetched (h : Own cfg A m c) {k : ℕ} (hk : k < 4)
    (hp : c.pc = .fetch (stub cfg c.cpuId k)) :
    (perform cfg.link (act cfg c) m).2.setWidth 32 = stubAnswer cfg c.cpuId k := by
  have hj := h.path.jump (.inr (.inr ⟨_, hp⟩))
  have hm := h.modeM_of_jump (by simp [unchecked, hp]) hj
  have hans : (perform cfg.link (act cfg c) m).2.setWidth 32 = m.text (stub cfg c.cpuId k) := by
    simp [act, hp, perform]
  rw [hans, stubAnswer]
  split_ifs with hk3
  · exact (h.hasStub hm).words k hk3
  · obtain rfl : k = 3 := by omega
    exact h.jal hj (by simp [patched, hp])

lemma stub_ne_last (cpuId : BitVec 32) {k : ℕ} (hk : k < 3) :
    stub cfg cpuId k ≠ stub cfg cpuId 3 := by
  intro h
  rw [stub, stub, BitVec.add_right_inj] at h
  have := congrArg BitVec.toNat h
  simp only [BitVec.toNat_ofNat] at this
  omega

lemma Own.next_text (h : Own cfg A m c) (hm : modeM cfg c.cpuId = true) {k : ℕ} (hk : k < 3) :
    (after cfg c m).text (stub cfg c.cpuId k) = m.text (stub cfg c.cpuId k) := by
  rw [after_text]
  split_ifs
  · rw [Function.update_of_ne]
    rw [stubPc_eq _ (h.hasStub hm).small]
    exact stub_ne_last c.cpuId hk
  · rfl

lemma Own.next_jal (h : Own cfg A m c) (r : Word)
    (hj : (resume cfg c r).gates.shouldJumpToMepc = true)
    (hp : patched (resume cfg c r).pc = true) :
    (after cfg c m).text (stub cfg c.cpuId 3) = jalInstr (cfg.offset c.cpuId) := by
  obtain ⟨hj, hp | ⟨hp, hv⟩⟩ := patched_resume hj hp
  · rw [after_text, if_neg fun hc => by simp [hc.1, patched] at hp]
    exact h.jal hj hp
  · have hm := h.modeM_of_jump (by simp [unchecked, hp]) hj
    rw [after_text, if_pos ⟨hp, hj, hv⟩, stubPc_eq _ (h.hasStub hm).small]
    exact Function.update_self _ _ _

lemma Own.next_mode (h : Own cfg A m c) (r : Word) : unchecked (resume cfg c r).pc ∨
    (resume cfg c r).gates.shouldJumpToMepc = modeM cfg c.cpuId := by
  by_cases hc : c.pc = .extCheck
  · exact .inr (by simp only [resume, hc]; rfl)
  · rw [resume_gates cfg c r hc]
    rcases h.mode with (hp | hp | hp | hp) | hm
    · refine .inl ?_
      simp only [resume, hp]
      split <;> simp [unchecked]
    · exact .inl (by simp [resume, hp, unchecked])
    · exact .inl (by simp [resume, hp, unchecked])
    · exact absurd hp hc
    · exact .inr hm

/-- **A hart keeps to itself**, whatever happens between its steps. -/
lemma Own.next (hcmp : cmpSource cfg c.cpuId ⊆ fields cfg c.cpuId) (h : Own cfg A m c) :
    Own cfg A (after cfg c m) (resume cfg c (perform cfg.link (act cfg c) m).2) where
  path := h.path.next _
  exit := by
    refine h.exit.next h.path (fun hp => ?_) fun k hk hp => h.fetched hk hp
    have hmode := h.modeM_of_jump (by simp [unchecked, hp]) (h.path.jump (.inl ⟨_, hp⟩))
    exact (h.hasStub hmode).hartid
  reads q l hq := by
    rw [resume_cpuId]
    rcases resume_asm cfg c _ hq with ⟨-, -, rfl, ha⟩ | ⟨i, hp, ha⟩ | ⟨-, rfl, rfl, -⟩
    · rw [ha]
      exact readsIn_called _ fun _ => hcmp
    · rw [ha]
      exact (h.reads q _ hp).2
    · exact readsIn_of_noLoad _ _ rfl _
  mode := by
    rw [resume_cpuId]
    exact h.next_mode _
  hasStub hm := by
    rw [resume_cpuId] at hm
    refine ⟨?_, ?_, fun k hk => ?_⟩ <;> rw [resume_cpuId]
    · exact (h.hasStub hm).small
    · rw [resume_hartid, (h.hasStub hm).hartid]
    · rw [h.next_text hm hk, (h.hasStub hm).words k hk]
  jal hj hp := by
    rw [resume_cpuId]
    exact h.next_jal _ hj hp

/-- A step of the hart is the same on two checkpoints that agree on its fields. -/
lemma Own.alone_withRam {ram : Word → Byte} (hagree : AgreeOn (fields cfg c.cpuId) cfg.env.ram ram)
    (h : Own cfg A m c) :
    alone (harts (withRam cfg ram)) (m, c) = alone (harts cfg) (m, c) := by
  have hact := act_withRam hagree
  have hresume : resume (withRam cfg ram) c (perform cfg.link (act cfg c) m).2 =
      resume cfg c (perform cfg.link (act cfg c) m).2 := by
    refine resume_withRam hagree h.reads fun a i hp hd => ?_
    have hexit := h.exit
    simp only [ExitOk, hp] at hexit
    obtain ⟨k, hk, rfl, hword⟩ := hexit
    rw [h.fetched hk hp, stubAnswer] at hd
    split_ifs at hd with hk3
    · exact reads_stubWord hk3 hword hd
    · rw [decode_jalInstr] at hd
      cases hd
  simp only [alone, harts_act, harts_perform, harts_resume, hact]
  rw [show (withRam cfg ram).link = cfg.link from rfl, hresume]

end

/-! ### Noninterference -/

variable (cfg cpuId) in
/-- The start of `multicore_decode_restore`; a hart with an M-mode checkpoint has its stub. -/
structure AtStart (m : Shared) (c : Hart) : Prop where
  pc : c.pc = .multicoreDecodeRestore
  hart : c.cpuId = cpuId
  hasStub : modeM cfg cpuId = true → HasStub cfg m c

/-- Two runs of one hart: they leave the same shared memory, and the same hart when it is gone. -/
def SameRestore (p q : Shared × Hart) : Prop :=
  p.1 = q.1 ∧ ∀ a, p.2.pc = .gone a → p.2 = q.2

variable (cfg cpuId) in
/-- The restore of a hart depends on its own fields only. -/
def Noninterference : Prop :=
  ∀ ram ram', AgreeOn (fields cfg cpuId) ram ram' → ∀ m c, AtStart (withRam cfg ram) cpuId m c →
    ∀ gs, (∀ g ∈ gs, Undisturbed cfg cpuId g) →
      SameRestore (amid (harts (withRam cfg ram)) (m, c) gs)
        (amid (harts (withRam cfg ram')) (m, c) gs)

lemma AtStart.own {m : Shared} {c : Hart} (h : AtStart cfg cpuId m c) :
    Own cfg (arrival cfg c) m c where
  path := ⟨by simp [h.pc], by simp [h.pc], by simp [h.pc], fun _ => rfl, by simp [h.pc]⟩
  exit := by simp [ExitOk, h.pc]
  reads := by simp [h.pc]
  mode := .inl (.inl h.pc)
  hasStub := by rw [h.hart]; exact h.hasStub
  jal _ hp := by simp [h.pc, patched] at hp

/-- With the source of `mtimecmp` among the fields, both runs take the same steps. -/
lemma noninterference_of_subset (hcmp : cmpSource cfg cpuId ⊆ fields cfg cpuId) :
    Noninterference cfg cpuId := by
  intro ram ram' hagree m c hstart gs hgs
  have heq : amid (harts (withRam cfg ram')) (m, c) gs =
      amid (harts (withRam cfg ram)) (m, c) gs := by
    refine amid_eq (P := fun p => p.2.cpuId = cpuId ∧
      Own (withRam cfg ram) (arrival (withRam cfg ram) c) p.1 p.2) (fun m' d g hg hp => ?_)
      ⟨hstart.hart, hstart.own⟩ hgs
    obtain ⟨hid, hown⟩ := hp
    simp only at hid hown
    subst hid
    have hd := hown.disturb (g := g) hg
    exact ⟨⟨resume_cpuId _ _ _, hd.next hcmp⟩, hd.alone_withRam hagree⟩
  rw [heq]
  exact ⟨rfl, fun _ _ => rfl⟩

lemma noninterference_of_stop (hstop : cfg.stopCpu = some cpuId) : Noninterference cfg cpuId := by
  intro ram ram' hagree m c hstart gs hgs
  have heq : amid (harts (withRam cfg ram')) (m, c) gs =
      amid (harts (withRam cfg ram)) (m, c) gs := by
    refine amid_eq (P := fun p => p.2.cpuId = cpuId ∧
      (p.2.pc = .multicoreDecodeRestore ∨ p.2.pc = .stopped)) (fun m' d g hg hp => ?_)
      ⟨hstart.hart, .inl hstart.pc⟩ hgs
    obtain ⟨hid, hpc⟩ := hp
    simp only at hid hpc
    rcases hpc with hpc | hpc <;>
      simp [alone, act, resume, hpc, perform, withRam, hstop, hid]
  rw [heq]
  exact ⟨rfl, fun _ _ => rfl⟩

/-! ### The store of `mtimecmp` -/

section
variable (m : Shared) (c : Hart)

/-- The steps of a hart alone from `multicore_decode_restore` to the store of `mtimecmp`. -/
def cmpSteps (cfg : Cfg) (g : Gates) : ℕ :=
  callSteps cfg g .restoreCsrVector + (callSteps cfg g .restoreFloatVector +
    (callSteps cfg g .rvvRestore + (callSteps cfg g .rvhCsrRestore + 4)))

lemma alone_reach (hp : c.pc = .multicoreDecodeRestore) (hstop : cfg.stopCpu ≠ some c.cpuId)
    {g : Gates} (hg : cfg.gates c.cpuId (c.arch.readCsr csrMisa) = g)
    (hj : g.shouldJumpToMepc = false) : ∃ a num,
    (alone (harts cfg))^[cmpSteps cfg g] (m, c) =
      (m, { c with arch := a, gates := g, allCpuNum := num, pc := .call .restoreMtimeCmp }) := by
  have hmode : modeM cfg c.cpuId = false := by
    rw [← hg] at hj
    exact hj
  have hbad : badImm cfg c.cpuId = false := by simp [badImm, hmode]
  have hfirst : alone (harts cfg) (m, c) = (m, { c with pc := .readAllCpuNum }) := by
    simp [alone, act, resume, hp, hstop, perform]
  obtain ⟨m', hreach, hm⟩ := Solo.alone_reach m (c := { c with pc := .readAllCpuNum }) rfl hbad
    (q := .restoreMtimeCmp) rfl
  have hsteps : cmpSteps cfg g = reachSteps cfg g .restoreMtimeCmp + 1 := by
    simp only [cmpSteps, reachSteps, done, List.foldl_cons, List.foldl_nil, Nat.add_assoc]
  rw [hsteps, Function.iterate_succ_apply, hfirst]
  subst hg
  rw [hm hmode] at hreach
  exact ⟨_, _, hreach⟩

lemma alone_store (hp : c.pc = .call .restoreMtimeCmp) :
    ((alone (harts cfg))^[5] (m, c)).1.io =
      (mtimecmpReg c.cpuId, cfg.ld (mtimecmpSource (cfg.layout c.cpuId) c.cpuId)) :: m.io := by
  simp [Function.iterate_succ_apply, alone, act, resume, hp, calls, perform, Routine.code,
    Asm.restoreMtimeCmp, Instr.store, Instr.exec, withArgs, ea, Arch.getX_setX, t0, t1, a0, a1,
    Cfg.ld]

lemma alone_cmp (cfg : Cfg) (hp : c.pc = .multicoreDecodeRestore)
    (hstop : cfg.stopCpu ≠ some c.cpuId) {g : Gates}
    (hg : cfg.gates c.cpuId (c.arch.readCsr csrMisa) = g)
    (hj : g.shouldJumpToMepc = false) : ((alone (harts cfg))^[5 + cmpSteps cfg g] (m, c)).1.io =
      (mtimecmpReg c.cpuId, cfg.ld (mtimecmpSource (cfg.layout c.cpuId) c.cpuId)) :: m.io := by
  obtain ⟨a, num, hreach⟩ := alone_reach m c hp hstop hg hj
  rw [Function.iterate_add_apply, hreach, alone_store _ _ rfl]

end

lemma Noninterference.cmp_eq (h : Noninterference cfg cpuId) (hstop : cfg.stopCpu ≠ some cpuId)
    {ram ram' : Word → Byte} (hagree : AgreeOn (fields cfg cpuId) ram ram')
    (hmode : modeM (withRam cfg ram) cpuId = false) {m : Shared} {c : Hart}
    (hp : c.pc = .multicoreDecodeRestore) (hc : c.cpuId = cpuId) :
    (withRam cfg ram).ld (mtimecmpSource (cfg.layout cpuId) cpuId) =
      (withRam cfg ram').ld (mtimecmpSource (cfg.layout cpuId) cpuId) := by
  subst hc
  have hstart : AtStart (withRam cfg ram) c.cpuId m c := ⟨hp, rfl, fun hm => by simp [hmode] at hm⟩
  obtain ⟨g, hg⟩ : ∃ g, (withRam cfg ram).gates c.cpuId (c.arch.readCsr csrMisa) = g := ⟨_, rfl⟩
  have hj : g.shouldJumpToMepc = false := by rw [← hg]; exact hmode
  have hg' : (withRam cfg ram').gates c.cpuId (c.arch.readCsr csrMisa) = g :=
    (gates_withRam (withRam cfg ram) hagree _).trans hg
  have hsame := (h ram ram' hagree m c hstart (List.replicate (5 + cmpSteps cfg g) id)
    (fun g hg => by rw [List.eq_of_mem_replicate hg]; exact fun _ _ _ => rfl)).1
  rw [amid_replicate_id, amid_replicate_id] at hsame
  have hio := alone_cmp m c (withRam cfg ram) hp hstop hg hj
  have hio' := alone_cmp m c (withRam cfg ram') hp hstop hg' hj
  have heq := (hio.symm.trans (congrArg Shared.io hsame)).trans hio'
  rw [List.cons.injEq, Prod.mk.injEq] at heq
  exact heq.1.2

/-- A byte of the source outside the fields makes a difference. -/
lemma Noninterference.subset (h : Noninterference cfg cpuId)
    (hstop : cfg.stopCpu ≠ some cpuId) : cmpSource cfg cpuId ⊆ fields cfg cpuId := by
  by_contra hsub
  obtain ⟨x, hx, hxf⟩ := Set.not_subset.mp hsub
  have hagree : AgreeOn (fields cfg cpuId) (fun _ => 0) (Function.update (fun _ => 0) x 1) := by
    intro a ha
    rw [Function.update_of_ne]
    rintro rfl
    exact hxf ha
  have hmode : modeM (withRam cfg fun _ => 0) cpuId = false := by
    rw [modeM, Cfg.ld, show (withRam cfg fun _ => 0).env.ram = fun _ => 0 from rfl, ld64_zero]
    decide
  have heq := h.cmp_eq hstop hagree hmode
    (m := { bss := fun _ => 0, text := fun _ => 0, io := [] })
    (c := { pc := .multicoreDecodeRestore, cpuId
            arch := { x := fun _ => 0, f := fun _ => 0, v := fun _ => 0, csr := fun _ => 0,
                      hartid := 0, priv := 3 }
            gates := ⟨false, false, false, false⟩, allCpuNum := 0, last := false }) rfl rfl
  simp only [Cfg.ld, withRam, ld64_zero] at heq
  obtain ⟨k, hk, rfl⟩ := hx
  rw [ld64] at heq
  have hbyte := eq_zero_of_leWord heq.symm hk
  rw [Function.update_self] at hbyte
  exact absurd hbyte (by decide)

/-- **When the restore of a hart is its own**: exactly when the bytes that `restore_mtime_cmp`
loads belong to the hart, or the build stops the hart before it reads anything. -/
theorem noninterference_iff (cfg : Cfg) (cpuId : BitVec 32) : Noninterference cfg cpuId ↔
    cfg.stopCpu = some cpuId ∨ cmpSource cfg cpuId ⊆ fields cfg cpuId := by
  constructor
  · intro h
    by_cases hstop : cfg.stopCpu = some cpuId
    · exact .inl hstop
    · exact .inr (h.subset hstop)
  · rintro (hstop | hcmp)
    · exact noninterference_of_stop hstop
    · exact noninterference_of_subset hcmp

/-- Hart `0` reads its own fields only. -/
theorem noninterference_zero (cfg : Cfg) : Noninterference cfg 0 := by
  refine noninterference_of_subset fun x hx => scalar_fields.2.2.2.1 ?_
  simpa [cmpSource, mtimecmpSource] using hx

lemma not_mem_region {x a : Word} {n : ℕ} (hn : a.toNat + n ≤ 2 ^ 64)
    (h : x.toNat < a.toNat ∨ a.toNat + n ≤ x.toNat) : x ∉ region a n := by
  rintro ⟨k, hk, rfl⟩
  rw [BitVec.toNat_add, BitVec.toNat_ofNat] at h
  omega

/-- In the default layout hart `1` reads its `misc_done`. -/
theorem not_noninterference_small :
    ¬ ∀ (cfg : Cfg) (cpuId : BitVec 32), Noninterference cfg cpuId := by
  intro h
  have hsub := (h (smallCfg fun _ => 0) 1).subset (by decide)
  have hmem : (0x801ECDD8 : Word) ∈ cmpSource (smallCfg fun _ => 0) 1 := ⟨0, by decide, by decide⟩
  have hfields := hsub hmem
  simp only [fields, Set.mem_union] at hfields
  rcases hfields with (((((((h | h) | h) | h) | h) | h) | h) | h) | h <;>
    exact not_mem_region (by decide) (by decide) h

end LibCheckpoint.Isolation
