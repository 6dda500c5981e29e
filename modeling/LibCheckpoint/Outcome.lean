import LibCheckpoint.Exit

/-!
What a complete run leaves behind: the state of every hart, the stub table and the CLINT are the
same whatever the schedule was.
-/

namespace LibCheckpoint.Outcome

open LibCheckpoint.Bytes LibCheckpoint.Rv64 LibCheckpoint.Csr LibCheckpoint.Layout
open LibCheckpoint.Jal LibCheckpoint.Restorer LibCheckpoint.Interleave LibCheckpoint.Phase
open LibCheckpoint.Effect LibCheckpoint.Count LibCheckpoint.Barrier LibCheckpoint.Path
open LibCheckpoint.Exit

variable {N : ℕ} (cfg : Cfg)

/-- `N` harts at the entry of the restore of a checkpoint of `N` harts, whose fields agree on the
clock; none of the variables of the barrier has been written yet. -/
structure AtRestore (s : Sys N) : Prop extends AtEntry cfg s where
  vars : ∀ x, x ≠ .bssLock → s.mem.get cfg.link x = 0
  io : s.mem.io = []
  csrReserve : ∀ i : Fin N,
    cfg.ld (cfg.layout (BitVec.ofNat 32 i)).csrReserve = BitVec.ofNat 64 N
  mtime : ∀ i j : Fin N, cfg.ld (cfg.layout (BitVec.ofNat 32 i)).mtimeCptAddr =
    cfg.ld (cfg.layout (BitVec.ofNat 32 j)).mtimeCptAddr

def Complete (s : Sys N) : Prop := ∀ i, ∃ a, (s.loc i).pc = .gone a

/-! ### The stores to the CLINT -/

/-- What a register of the CLINT holds, if it has been stored to. -/
def clint (m : Shared) (a : Word) : Option Word := m.io.lookup a

/-- The stores of a hart are in the log once it has done them. -/
structure Logged (c : Hart) (m : Shared) : Prop where
  storesOk : storesOk cfg c
  inside : ∀ q l, c.pc = .asm q l → ∀ e ∈ routineStores cfg c.cpuId q,
    e ∈ stores cfg.env l c.arch ∨ e ∈ m.io
  cmp : 2 ≤ stage c.pc → ∀ e ∈ routineStores cfg c.cpuId .restoreMtimeCmp, e ∈ m.io
  clock : c.last = true → 8 ≤ stage c.pc →
    ∀ e ∈ routineStores cfg c.cpuId .restoreMtime, e ∈ m.io

variable {cfg} {c : Hart} {m : Shared}

lemma io_subset_after : m.io ⊆ (after cfg c m).io := by
  rw [after_io]
  split
  · exact List.subset_cons_self _ _
  · exact List.Subset.refl _

lemma Logged.mono {m' : Shared} (h : Logged cfg c m) (hm : m.io ⊆ m'.io) : Logged cfg c m' where
  storesOk := h.storesOk
  inside q l hp e he := (h.inside q l hp e he).imp id fun h' => hm h'
  cmp h2 e he := hm (h.cmp h2 e he)
  clock hl h8 e he := hm (h.clock hl h8 e he)

lemma Logged.next_inside (h : Logged cfg c m) (r : Word) {q : Routine} {l : List Instr}
    (hp : (resume cfg c r).pc = .asm q l) {e : Word × Word}
    (he : e ∈ routineStores cfg c.cpuId q) :
    e ∈ stores cfg.env l (resume cfg c r).arch ∨ e ∈ (after cfg c m).io := by
  rcases resume_asm cfg c r hp with ⟨-, -, rfl, ha⟩ | ⟨i, hpc, ha⟩ | ⟨-, rfl, rfl, -⟩
  · rw [ha, stores_called]
    exact .inl he
  · rcases h.inside q _ hpc e he with hs | hio
    · rw [ha]
      rcases List.mem_append.mp hs with hi | hl
      · refine .inr ?_
        rw [Option.mem_toList] at hi
        rw [after_io, act, hpc]
        simp [hi]
      · exact .inl hl
    · exact .inr (io_subset_after hio)
  · simp [routineStores] at he

lemma Logged.next (h : Logged cfg c m) (hb : branchOk c) (r : Word) :
    Logged cfg (resume cfg c r) (after cfg c m) where
  storesOk := storesOk_resume cfg c r h.storesOk
  inside q l hp e he := by
    rw [resume_cpuId] at he
    exact h.next_inside r hp he
  cmp h2 e he := by
    rw [resume_cpuId] at he
    by_cases hc : 2 ≤ stage c.pc
    · exact io_subset_after (h.cmp hc e he)
    · cases stage_resume cfg c r with
      | arrive hp => exact io_subset_after ((h.inside _ _ hp e he).resolve_left (by simp [stores]))
      | _ => omega
  clock hl h8 e he := by
    rw [resume_cpuId] at he
    have hcmp : c.pc ≠ .compare := fun hp => by simp [resume, hp] at h8
    rw [resume_last cfg c r hcmp] at hl
    by_cases hc : 8 ≤ stage c.pc
    · exact io_subset_after (h.clock hl hc e he)
    · cases stage_resume cfg c r with
      | clock hp => exact io_subset_after ((h.inside _ _ hp e he).resolve_left (by simp [stores]))
      | wake hp =>
        rw [hb.1 hp] at hl
        cases hl
      | _ => omega

/-! ### The invariant of a run -/

variable (cfg) in
/-- The invariant of a run from the entry of the restore: all that a hart may come to depends on
the checkpoint and on what the hart was at the entry. -/
structure Kept (s₀ s : Sys N) : Prop extends Inv cfg N s, Restoring cfg s₀ s where
  logged : ∀ i, Logged cfg (s.loc i) s.mem
  source : ∀ e ∈ s.mem.io, ∃ i : Fin N, ∃ q, e ∈ routineStores cfg (BitVec.ofNat 32 i) q
  table : ∀ a, s.mem.text a = s₀.mem.text a ∨ ∃ i : Fin N,
    modeM cfg (BitVec.ofNat 32 i) = true ∧ a = stub cfg (BitVec.ofNat 32 i) 3

variable {s₀ s : Sys N}

lemma AtRestore.kept (h : AtRestore cfg s) : Kept cfg s s where
  toInv := Inv.fresh (fun i => by simp [h.pc i]) (fun i => by simp [booting, h.pc i])
    (fun i => by simp [holdsPrint, printPt, h.pc i]) h.vars
    (fun i _ => by
      rw [h.cpuId, h.csrReserve]
      exact BitVec.eq_of_toNat_eq (by simp))
    fun i hi => by simp [h.pc i] at hi
  toRestoring := h.toAtEntry.restoring
  logged i := {
    storesOk := fun q l hp => by simp [h.pc i] at hp
    inside := fun q l hp => by simp [h.pc i] at hp
    cmp := fun h2 => by simp [h.pc i] at h2
    clock := fun _ h8 => by simp [h.pc i] at h8 }
  source := by simp [h.io]
  table a := .inl rfl

lemma Kept.next (hN : N ≤ 128) (h : Kept cfg s₀ s) (j : Fin N) :
    Kept cfg s₀ (next (harts cfg) s j) where
  toInv := h.toInv.next j (by omega) (by omega)
  toRestoring := h.toRestoring.next hN j
  logged i := by
    by_cases hij : i = j
    · subst hij
      rw [next_loc_resume]
      exact (h.logged i).next (h.branch i) _
    · rw [next_loc_of_ne _ _ hij]
      exact (h.logged i).mono io_subset_after
  source e he := by
    rw [next_mem, after_io] at he
    split at he
    · rename_i a w ha
      -- A new store is one of the routine that the hart is in.
      rcases List.mem_cons.mp he with rfl | he
      · obtain ⟨q, -, -, -, hq, -⟩ := io_routine cfg _ (h.logged j).storesOk ha
        exact ⟨j, q, by simp [← h.stubs.cpuId, hq]⟩
      · exact h.source e he
    · exact h.source e he
  table a := by
    rw [next_mem, after_text]
    split_ifs with hp
    · -- Only the patch of hart `j` changes the table, at the last word of its stub.
      by_cases ha : a = stubPc cfg.link.core0 (s.loc j).cpuId
      · refine .inr ⟨j, ?_, ?_⟩
        · rcases h.mode j with (hpc | hpc) | hm
          · simp [hp.1] at hpc
          · simp [hp.1] at hpc
          · rw [← hm, hp.2.1]
        · rw [ha, h.stubs.cpuId, stubPc_stub cfg (by omega)]
      · rw [Function.update_of_ne ha]
        exact h.table a
    · exact h.table a

lemma Kept.run (hN : N ≤ 128) (h : Kept cfg s₀ s) (w : List (Fin N)) :
    Kept cfg s₀ (run (harts cfg) s w) :=
  run_inv _ h (fun _ i ht => ht.next hN i) w

/-! ### The end of a complete run -/

lemma lookup_eq_some {l : List (Word × Word)} {a b : Word} (hl : ∀ e ∈ l, e.1 = a → e.2 = b)
    (h : (a, b) ∈ l) : l.lookup a = some b := by
  induction l with
  | nil => simp at h
  | cons e l ih =>
    obtain ⟨x, y⟩ := e
    rw [List.lookup_cons]
    by_cases hx : a = x
    · subst hx
      simpa using hl (a, y) List.mem_cons_self rfl
    · rw [show (a == x) = false by simpa using hx]
      refine ih (fun e he => hl e (List.mem_cons_of_mem _ he)) ?_
      exact (List.mem_cons.mp h).resolve_left fun he => hx (congrArg Prod.fst he)

lemma mtimecmpReg_toNat {i : ℕ} (hi : i < 128) :
    (mtimecmpReg (BitVec.ofNat 32 i)).toNat = 0x38004000 + 8 * i := by
  have hsum : (clintMmio + clintMtimecmp + BitVec.ofNat 32 i * 8).toNat = 0x38004000 + 8 * i := by
    simp only [clintMmio, clintMtimecmp, BitVec.toNat_add, BitVec.toNat_mul, BitVec.ofNat_eq_ofNat,
      BitVec.toNat_ofNat]
    omega
  rw [mtimecmpReg, BitVec.signExtend_eq_setWidth_of_msb_false]
  · rw [BitVec.toNat_setWidth, hsum]
    omega
  · rw [BitVec.msb_eq_decide, hsum]
    simp
    omega

lemma mtimecmpReg_inj {i j : ℕ} (hi : i < 128) (hj : j < 128)
    (h : mtimecmpReg (BitVec.ofNat 32 i) = mtimecmpReg (BitVec.ofNat 32 j)) : i = j := by
  have := congrArg BitVec.toNat h
  rw [mtimecmpReg_toNat hi, mtimecmpReg_toNat hj] at this
  omega

lemma mtimecmpReg_ne_mtimeReg {i : ℕ} (hi : i < 128) :
    mtimecmpReg (BitVec.ofNat 32 i) ≠ mtimeReg := by
  intro h
  have := congrArg BitVec.toNat h
  rw [mtimecmpReg_toNat hi, show mtimeReg.toNat = 0x3800BFF8 from by decide] at this
  omega

/-- The value that the checkpoint has for a register of the CLINT. -/
def clintValue (cfg : Cfg) (N : ℕ) (a w : Word) : Prop :=
  ∃ i : Fin N, (a, w) ∈ routineStores cfg (BitVec.ofNat 32 i) .restoreMtimeCmp ∨
    (a, w) ∈ routineStores cfg (BitVec.ofNat 32 i) .restoreMtime

section
variable (hN1 : 1 ≤ N) (hN : N ≤ 128) (h₀ : AtRestore cfg s₀) (h : Kept cfg s₀ s)
  (hall : Complete s)
include hN h₀

lemma clintValue_unique {a w w' : Word} (hw : clintValue cfg N a w) (hw' : clintValue cfg N a w') :
    w = w' := by
  obtain ⟨i, hi⟩ := hw
  obtain ⟨j, hj⟩ := hw'
  simp only [routineStores, List.mem_singleton, Prod.mk.injEq] at hi hj
  rcases hi with ⟨hi, rfl⟩ | ⟨hi, rfl⟩ <;> rcases hj with ⟨hj, rfl⟩ | ⟨hj, rfl⟩
  · obtain rfl : i = j := Fin.ext (mtimecmpReg_inj (by omega) (by omega) (hi.symm.trans hj))
    rfl
  · exact absurd (hi.symm.trans hj) (mtimecmpReg_ne_mtimeReg (by omega))
  · exact absurd (hj.symm.trans hi) (mtimecmpReg_ne_mtimeReg (by omega))
  · exact h₀.mtime i j

include hN1 h hall

lemma Kept.mem_io (a w : Word) : (a, w) ∈ s.mem.io ↔ clintValue cfg N a w := by
  have h9 (i : Fin N) : stage (s.loc i).pc = 9 := by
    obtain ⟨a, ha⟩ := hall i
    simp [ha]
  constructor
  · intro hio
    obtain ⟨i, q, hq⟩ := h.source _ hio
    refine ⟨i, ?_⟩
    cases q with
    | restoreMtime => exact .inr hq
    | restoreMtimeCmp => exact .inl hq
    | _ => simp [routineStores] at hq
  · rintro ⟨i, hi | hi⟩
    · rw [← h.stubs.cpuId] at hi
      exact (h.logged i).cmp (by simp [h9]) _ hi
    · have hlast : count isLast s.loc = 1 := by
        have hcompared : count compared s.loc = N := by
          rw [count_eq_card_of_all fun i => by simp [compared, h9]]
          simp
        rw [h.last, if_neg (by omega), if_pos (by omega)]
      obtain ⟨k, hk⟩ := exists_of_count_pos (p := isLast) (l := s.loc) (by omega)
      simp only [isLast, Bool.and_eq_true] at hk
      refine (h.logged k).clock hk.1 (by simp [h9]) _ ?_
      rw [h.stubs.cpuId]
      simp only [routineStores, List.mem_singleton, Prod.mk.injEq] at hi ⊢
      rw [hi.2, h₀.mtime i k]
      exact ⟨hi.1, rfl⟩

lemma Kept.clint_eq (a w : Word) : clint s.mem a = some w ↔ clintValue cfg N a w := by
  have hmem := h.mem_io hN1 hN h₀ hall
  constructor
  · intro hw
    obtain ⟨l₁, l₂, hl, -⟩ := List.lookup_eq_some_iff.mp hw
    rw [← hmem, hl]
    simp
  · intro hw
    refine lookup_eq_some (fun e he hea => ?_) ((hmem a w).mpr hw)
    subst hea
    exact clintValue_unique hN h₀ ((hmem _ _).mp he) hw

end

lemma Kept.text_eq (h : Kept cfg s₀ s) (hall : Complete s) (a : Word) :
    ((∃ i : Fin N, modeM cfg (BitVec.ofNat 32 i) = true ∧ a = stub cfg (BitVec.ofNat 32 i) 3 ∧
        s.mem.text a = jalInstr (cfg.offset (BitVec.ofNat 32 i))) ∨
      (∀ i : Fin N, modeM cfg (BitVec.ofNat 32 i) = true → a ≠ stub cfg (BitVec.ofNat 32 i) 3) ∧
        s.mem.text a = s₀.mem.text a) := by
  by_cases hex : ∃ i : Fin N, modeM cfg (BitVec.ofNat 32 i) = true ∧
      a = stub cfg (BitVec.ofNat 32 i) 3
  · obtain ⟨i, hm, rfl⟩ := hex
    obtain ⟨b, hb⟩ := hall i
    exact .inl ⟨i, hm, rfl, h.stubs.jal i (by rw [h.gates_gone hb, hm]) (by simp [hb, patched])⟩
  · exact .inr ⟨fun i hm ha => hex ⟨i, hm, ha⟩, (h.table a).resolve_right hex⟩

/-- Two harts that run the same program from the same point. -/
structure SameOutcome (c d : Hart) : Prop where
  pc : c.pc = d.pc
  x : ∀ r : Reg, c.arch.getX r = d.arch.getX r
  f : c.arch.f = d.arch.f
  v : c.arch.v = d.arch.v
  csr : c.arch.csr = d.arch.csr
  priv : c.arch.priv = d.arch.priv

lemma Kept.sameOutcome {s' : Sys N} (h : Kept cfg s₀ s) (h' : Kept cfg s₀ s') (hall : Complete s)
    (hall' : Complete s') (i : Fin N) : SameOutcome (s.loc i) (s'.loc i) := by
  obtain ⟨a, ha⟩ := hall i
  obtain ⟨a', ha'⟩ := hall' i
  have hg := (h.gates_gone ha).trans (h'.gates_gone ha').symm
  have hexit := h.exit i
  have hexit' := h'.exit i
  simp only [ExitOk, ha, ha', h.stubs.cpuId, h'.stubs.cpuId] at hexit hexit'
  have hsame : SameButX (s.loc i).arch (s'.loc i).arch := by
    have hl := (h.path i).late (by simp [ha])
    have hl' := (h'.path i).late (by simp [ha'])
    simp only [atEnd, ha, ha', hg] at hl hl'
    exact ⟨hl.f.trans hl'.f.symm, hl.v.trans hl'.v.symm, hl.csr.trans hl'.csr.symm,
      hl.hartid.trans hl'.hartid.symm, hl.priv.trans hl'.priv.symm⟩
  refine ⟨?_, fun r => ?_, hsame.f, hsame.v, hsame.csr, hsame.priv⟩
  · rw [ha, ha', Pc.gone.injEq]
    have he := hexit.2
    have he' := hexit'.2
    rw [hg, hsame.csr] at he
    split_ifs at he he' <;> rw [he, he']
  · by_cases h0 : r = 0
    · simp [h0, Arch.getX]
    · rw [hexit.1 r h0 (by simp), hexit'.1 r h0 (by simp)]

/-- **The schedule does not matter**: two complete runs from the same state end with the same
harts, the same stub table and the same CLINT. -/
theorem schedule_independent (hN1 : 1 ≤ N) (hN : N ≤ 128) (h : AtRestore cfg s)
    {w w' : List (Fin N)} (hw : Complete (run (harts cfg) s w))
    (hw' : Complete (run (harts cfg) s w')) :
    (∀ i, SameOutcome ((run (harts cfg) s w).loc i) ((run (harts cfg) s w').loc i)) ∧
    (run (harts cfg) s w).mem.text = (run (harts cfg) s w').mem.text ∧
    clint (run (harts cfg) s w).mem = clint (run (harts cfg) s w').mem := by
  have hk := h.kept.run hN w
  have hk' := h.kept.run hN w'
  refine ⟨hk.sameOutcome hk' hw hw', ?_, ?_⟩
  · funext a
    rcases hk.text_eq hw a with ⟨i, hm, ha, ht⟩ | ⟨hno, ht⟩ <;>
      rcases hk'.text_eq hw' a with ⟨j, hm', ha', ht'⟩ | ⟨hno', ht'⟩
    · obtain ⟨hij, -⟩ := stub_inj cfg (by omega) (by omega) (by omega) (by omega)
        (ha.symm.trans ha')
      rw [ht, ht', hij]
    · exact absurd ha (hno' i hm)
    · exact absurd ha' (hno j hm')
    · rw [ht, ht']
  · funext a
    refine Option.ext fun x => ?_
    rw [hk.clint_eq hN1 hN h hw, hk'.clint_eq hN1 hN h hw']

lemma exitSys_atRestore : AtRestore (smallCfg exitRam) exitSys where
  toAtEntry := exitSys_atEntry
  vars x _ := by cases x <;> decide
  io := rfl
  csrReserve := by decide +kernel
  mtime := by decide +kernel

/-- Hart `1` first, or hart `0` first: the other one stores the clock. -/
theorem schedule_independent_exitSys :
    clint (run (harts (smallCfg exitRam)) exitSys (exitRun 50)).mem =
      clint (run (harts (smallCfg exitRam)) exitSys
        (List.replicate 300 1 ++ List.replicate 350 0 ++ List.replicate 50 1)).mem :=
  (schedule_independent (by decide) (by decide) exitSys_atRestore
    (fun i => ⟨if i = 0 then 0x80002000 else 0, by revert i; decide +kernel⟩)
    (fun i => ⟨if i = 0 then 0x80002000 else 0, by revert i; decide +kernel⟩)).2.2

end LibCheckpoint.Outcome
