import LibCheckpoint.Phase

/-!
What one step of a hart does to the shared memory.

Outside the part of `gcpt_c_start` that writes the BSS, an action writes at most one of the
shared variables, and only at the points that the source names.
-/

namespace LibCheckpoint.Effect

open LibCheckpoint.Bytes LibCheckpoint.Rv64 LibCheckpoint.Layout LibCheckpoint.Restorer
open LibCheckpoint.Interleave LibCheckpoint.Phase

variable (cfg : Cfg) (c : Hart) (m : Shared)

def after : Shared := (perform cfg.link (act cfg c) m).1

/-- The variable that an action writes, and what it does to its value. -/
def writes : Act → Option (Var × (Word → Word))
  | .store x w | .swap x w => some (x, fun _ => w)
  | .add x w => some (x, (· + w))
  | _ => none

/-- The action writes a byte of `[s_bss, e_bss)`. -/
def writesBss (a : Act) : Bool :=
  match a with
  | .clear _ => true
  | a => (writes a).isSome

lemma get_perform {L : Link} {a : Act} (x : Var) (h : ∀ i, a ≠ .clear i) :
    (perform L a m).1.get L x =
      match writes a with
      | some (y, f) => if y = x then f (m.get L x) else m.get L x
      | none => m.get L x := by
  cases a with
  | clear i => exact absurd rfl (h i)
  | store y w | swap y w | add y w =>
    by_cases hy : y = x
    · subst hy
      simp [perform, writes]
    · simp [perform, writes, hy, Shared.get_set_of_ne _ _ _ (Ne.symm hy)]
  | _ => rfl

lemma act_ne_clear (h : booting c = false) (i : ℕ) : act cfg c ≠ .clear i := by
  have hb := Bool.eq_false_iff.mp h
  rw [ne_eq, booting_iff] at hb
  unfold act
  split <;> (try split) <;> simp_all

/-- **Who writes what**: the points at which a hart that is not booting writes a variable. -/
lemma writes_act (h : booting c = false) : writes (act cfg c) =
    match c.pc with
    | .mtPrintf _ (.lock .swap) => some (.mtPrintfLock, fun _ => -1)
    | .mtPrintf _ .unlock => some (.mtPrintfLock, fun _ => 0)
    | .lockGlobash .swap => some (.globashRestoreLock, fun _ => -1)
    | .count => some (.globalAtomicRestoreCounter, (· + 1))
    | .unlockGlobash => some (.globashRestoreLock, fun _ => 0)
    | .setRelease => some (.releaseRestore, fun _ => 1)
    | _ => none := by
  cases hp : c.pc with
  | mtPrintf s p => rcases p with (_ | _) | _ | _ <;> simp [act, hp, writes]
  | lockGlobash p => cases p <;> simp [act, hp, writes]
  | clearBss i => simp [booting, hp] at h
  | setBssLock => simp [booting, hp] at h
  | patchJal => simp only [act, hp]; split <;> rfl
  | asm q code =>
    cases code with
    | nil => simp [act, hp, writes]
    | cons i code => simp only [act, hp]; split <;> rfl
  | _ => simp [act, hp, writes]

lemma get_globashRestoreLock (h : booting c = false) :
    (after cfg c m).get cfg.link .globashRestoreLock =
      if c.pc = .lockGlobash .swap then -1 else if c.pc = .unlockGlobash then 0
      else m.get cfg.link .globashRestoreLock := by
  rw [after, get_perform m _ (act_ne_clear cfg c h), writes_act cfg c h]
  cases hp : c.pc with
  | mtPrintf s p => rcases p with (_ | _) | _ | _ <;> simp
  | lockGlobash p => cases p <;> simp
  | _ => simp

lemma get_releaseRestore (h : booting c = false) :
    (after cfg c m).get cfg.link .releaseRestore =
      if c.pc = .setRelease then 1 else m.get cfg.link .releaseRestore := by
  rw [after, get_perform m _ (act_ne_clear cfg c h), writes_act cfg c h]
  cases hp : c.pc with
  | mtPrintf s p => rcases p with (_ | _) | _ | _ <;> simp
  | lockGlobash p => cases p <;> simp
  | _ => simp

lemma get_counter (h : booting c = false) :
    (after cfg c m).get cfg.link .globalAtomicRestoreCounter =
      m.get cfg.link .globalAtomicRestoreCounter + if c.pc = .count then 1 else 0 := by
  rw [after, get_perform m _ (act_ne_clear cfg c h), writes_act cfg c h]
  cases hp : c.pc with
  | mtPrintf s p => rcases p with (_ | _) | _ | _ <;> simp
  | lockGlobash p => cases p <;> simp
  | _ => simp

lemma get_mtPrintfLock (h : booting c = false) :
    (after cfg c m).get cfg.link .mtPrintfLock =
      if printPt c.pc = some (.lock .swap) then -1 else if printPt c.pc = some .unlock then 0
      else m.get cfg.link .mtPrintfLock := by
  rw [after, get_perform m _ (act_ne_clear cfg c h), writes_act cfg c h]
  cases hp : c.pc with
  | mtPrintf s p => rcases p with (_ | _) | _ | _ <;> simp [printPt]
  | lockGlobash p => cases p <;> simp [printPt]
  | _ => simp [printPt]

/-! ### Stores to the CLINT -/

def routineStores (cpuId : BitVec 32) : Routine → List (Word × Word)
  | .restoreMtime => [(mtimeReg, cfg.ld (cfg.layout cpuId).mtimeCptAddr)]
  | .restoreMtimeCmp =>
    [(mtimecmpReg cpuId, cfg.ld (mtimecmpSource (cfg.layout cpuId) cpuId))]
  | _ => []

lemma stores_called (cpuId : BitVec 32) (a : Arch) (q : Routine) :
    stores cfg.env (q.code cfg) (withArgs cfg cpuId a q) = routineStores cfg cpuId q := by
  cases q with
  | restoreMtime =>
    simp [Routine.code, Asm.restoreMtime, stores, Instr.store, Instr.exec, withArgs, ea,
      Arch.getX_setX, Asm.t0, Asm.t1, Asm.a0, routineStores, mtimeReg, Cfg.ld]
  | restoreMtimeCmp =>
    simp [Routine.code, Asm.restoreMtimeCmp, stores, Instr.store, Instr.exec, withArgs, ea,
      Arch.getX_setX, Asm.t0, Asm.t1, Asm.a0, Asm.a1, routineStores, Cfg.ld]
  | jumpToCore => simp [Routine.code, Asm.jumpToCore, stores, Instr.store, routineStores]
  | _ => exact stores_of_noStore _ (by simp only [Routine.code]; decide +kernel) _

/-- The stores that a hart inside a routine has yet to do are an end of those of the routine. -/
def storesOk (c : Hart) : Prop :=
  ∀ q code, c.pc = .asm q code → stores cfg.env code c.arch <:+ routineStores cfg c.cpuId q

lemma storesOk_resume (r : Word) (h : storesOk cfg c) : storesOk cfg (resume cfg c r) := by
  intro q code hq
  rw [resume_cpuId]
  rcases resume_asm cfg c r hq with ⟨-, -, rfl, ha⟩ | ⟨i, hp, ha⟩ | ⟨-, rfl, rfl, ha⟩
  · rw [ha, stores_called]
  · rw [ha]
    exact (List.suffix_append _ _).trans (h _ _ hp)
  · rw [ha, stores_of_noStore]
    · exact List.nil_suffix
    · simp [Routine.code, Asm.jumpToCore, Instr.isStore]

def storesMtime : Act → Bool
  | .io a _ => a = mtimeReg
  | _ => false

lemma act_io {a w : Word} (h : act cfg c = .io a w) : ∃ q i code, c.pc = .asm q (i :: code) ∧
    i.store c.arch = some (a, w) := by
  unfold act at h
  split at h <;> (try split at h) <;> simp_all

lemma after_io : (after cfg c m).io = match act cfg c with
    | .io a w => (a, w) :: m.io
    | _ => m.io := by
  unfold after
  cases act cfg c <;> rfl

/-- A hart stores only what its routine is for, and only once. -/
lemma io_routine (hs : storesOk cfg c) {a w : Word} (h : act cfg c = .io a w) :
    ∃ q i code, c.pc = .asm q (i :: code) ∧ routineStores cfg c.cpuId q = [(a, w)] ∧
      stores cfg.env code (i.exec cfg.env c.arch) = [] := by
  obtain ⟨q, i, code, hp, hi⟩ := act_io cfg c h
  have hsuf := hs q (i :: code) hp
  simp only [stores, hi, Option.toList_some, List.singleton_append] at hsuf
  have hlen : (routineStores cfg c.cpuId q).length ≤ 1 := by cases q <;> simp [routineStores]
  have hle := hsuf.length_le
  rw [List.length_cons] at hle
  have hnil : stores cfg.env code (i.exec cfg.env c.arch) = [] :=
    List.eq_nil_of_length_eq_zero (by omega)
  refine ⟨q, i, code, hp, ?_, hnil⟩
  rw [hnil] at hsuf
  exact (hsuf.eq_of_length (by simp; omega)).symm

lemma io_inside (hs : storesOk cfg c) (h2 : 2 ≤ stage c.pc) {a w : Word}
    (h : act cfg c = .io a w) :
    (a, w) = (mtimeReg, cfg.ld (cfg.layout c.cpuId).mtimeCptAddr) := by
  obtain ⟨q, i, code, hp, hq, -⟩ := io_routine cfg c hs h
  cases q with
  | restoreMtime =>
    simp only [routineStores, List.cons.injEq, and_true] at hq
    exact hq.symm
  | restoreMtimeCmp => simp [hp, asmStage] at h2
  | _ => simp [routineStores] at hq

lemma mtimeDone_of_ne_seven (h : stage c.pc ≠ 7) :
    mtimeDone cfg c = (c.last && decide (8 ≤ stage c.pc)) := by
  unfold mtimeDone
  split
  · rename_i hp
    simp [hp, asmStage] at h
  · simp

lemma storesMtime_act (hs : storesOk cfg c)
    (hcmp : 2 ≤ stage c.pc ∨ mtimecmpReg c.cpuId ≠ mtimeReg)
    (h : storesMtime (act cfg c) = true) : ∃ i code, c.pc = .asm .restoreMtime (i :: code) ∧
      stores cfg.env (i :: code) c.arch ≠ [] ∧
      stores cfg.env code (i.exec cfg.env c.arch) = [] := by
  cases ha : act cfg c with
  | io a w =>
    have ham : a = mtimeReg := by simpa [ha, storesMtime] using h
    obtain ⟨q, i, code, hp, hq, hnil⟩ := io_routine cfg c hs ha
    cases q with
    | restoreMtime =>
      obtain ⟨q', i', code', hp', hi⟩ := act_io cfg c ha
      obtain ⟨rfl, rfl, rfl⟩ : q' = .restoreMtime ∧ i' = i ∧ code' = code := by
        simpa [hp] using hp'.symm
      exact ⟨i', code', hp, by simp [stores, hi], hnil⟩
    | restoreMtimeCmp =>
      simp only [routineStores, List.cons.injEq, Prod.mk.injEq, and_true] at hq
      rcases hcmp with hc | hc
      · simp [hp, asmStage] at hc
      · exact absurd (hq.1.trans ham) hc
    | _ => simp [routineStores] at hq
  | _ => simp [ha, storesMtime] at h

/-- **The clock is stored once**: a step adds to the stores of `mtime` what it adds to
`mtimeDone`. -/
lemma mtimeDone_resume (r : Word) (hs : storesOk cfg c) (hb : branchOk c)
    (hcmp : 2 ≤ stage c.pc ∨ mtimecmpReg c.cpuId ≠ mtimeReg) :
    (mtimeDone cfg (resume cfg c r)).toNat =
      (mtimeDone cfg c).toNat + (storesMtime (act cfg c)).toNat := by
  by_cases h7 : stage c.pc = 7
  · have hl := hb.2 (.inr h7)
    rcases stage_eq_seven h7 with hp | ⟨code, hp⟩
    · have := stores_called cfg c.cpuId c.arch .restoreMtime
      simp [mtimeDone, resume, act, hp, calls, asmStage, callStage, this, routineStores,
        storesMtime]
    · cases code with
      | nil => simp [mtimeDone, resume, act, hp, hl, finish, Routine.next, asmStage, callStage,
          stores, storesMtime]
      | cons i code =>
        cases hi : i.store c.arch with
        | none => simp [mtimeDone, resume, act, hp, hi, hl, asmStage, stores, storesMtime]
        | some aw =>
          obtain ⟨q, i', code', hp', hq, hnil⟩ :=
            io_routine cfg c hs (a := aw.1) (w := aw.2) (by simp [act, hp, hi])
          obtain ⟨rfl, rfl, rfl⟩ : q = .restoreMtime ∧ i' = i ∧ code' = code := by
            simpa [hp] using hp'.symm
          have ha : mtimeReg = aw.1 := by
            simp only [routineStores, List.cons.injEq, Prod.mk.injEq, and_true] at hq
            exact hq.1
          simp [mtimeDone, resume, act, hp, hi, hl, asmStage, stores, storesMtime, hnil, ha]
  · have hm : storesMtime (act cfg c) = false := by
      by_contra hm
      obtain ⟨i, code, hp, -⟩ := storesMtime_act cfg c hs hcmp (by simpa using hm)
      simp [hp, asmStage] at h7
    rw [hm, mtimeDone_of_ne_seven cfg c h7, Bool.toNat_false, add_zero]
    by_cases hp : c.pc = .setRelease
    · simp [mtimeDone, resume, hp, callStage]
    by_cases hc : c.pc = .compare
    · simp [mtimeDone, resume, hc]
    have hmv := stage_resume cfg c r
    have hn : stage (resume cfg c r).pc ≠ 7 := by
      cases hmv <;> first | contradiction | omega
    rw [mtimeDone_of_ne_seven cfg _ hn, resume_last cfg c r hc]
    cases hl : c.last with
    | false => rfl
    | true =>
      have : 8 ≤ stage (resume cfg c r).pc ↔ 8 ≤ stage c.pc := by
        cases hmv with
        | wake hw => rw [hb.1 hw] at hl; simp at hl
        | _ => first | contradiction | omega
      simp [this]

end LibCheckpoint.Effect
