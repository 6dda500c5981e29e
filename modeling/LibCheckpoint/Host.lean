import LibCheckpoint.Vector

/-!
Hosts whose CSRs obey a rule.

A rule is a state that the CSRs show and the changes that the writes of the restorer make to it.
What a rule says about single writes is followed through the routines of the restorer and
through every run of the harts.
-/

namespace LibCheckpoint.Host

open LibCheckpoint.Bytes LibCheckpoint.Rv64 LibCheckpoint.Csr LibCheckpoint.Asm
open LibCheckpoint.Registers LibCheckpoint.Layout LibCheckpoint.Restorer LibCheckpoint.Interleave
open LibCheckpoint.Phase LibCheckpoint.Path LibCheckpoint.Exit LibCheckpoint.Vector

/-- The CSRs that change otherwise than by the slot of their own: the vector configuration, and
`mstatus`. -/
def freeCsrs : List CsrNum := [vlId, vtypeId, vstartId, mstatusId]

/-- A rule for a part of the CSRs: the state that they show, what a write of a legal value makes
of it, and that the part is none of the free CSRs. -/
structure Rule (S : Type*) where
  shows : S → CsrFile → Prop
  write : S → CsrNum → Word → S
  legal : CsrNum → Word → Prop
  mstatus : ∀ w, legal mstatusId w ∧ ∀ s, write s mstatusId w = s
  unseen : ∀ c ∈ freeCsrs, ∀ w s f, shows s f → shows s (Function.update f c w)

namespace Rule

variable {S : Type*} (R : Rule S)

def Obeyed (E : Env) : Prop :=
  ∀ c ∈ writtenCsrs, ∀ w, R.legal c w → ∀ s f, R.shows s f → R.shows (R.write s c w) (E.csrw f c w)

/-- The CSRs that the restorer writes, in order; the first list depends on a gate. -/
def order (rvh : Bool) : List CsrNum :=
  (if rvh then hcsrs.map Prod.snd else []) ++ csrFcsr :: csrs.map Prod.snd

/-- What the writes of the restorer make of a state. -/
def restored (rvh : Bool) (val : CsrNum → Word) (s : S) : S := writes R.write val (order rvh) s

lemma mem_order (rvh : Bool) {c : CsrNum} (h : c ∈ order rvh) : c ∈ writtenCsrs := by
  rw [writtenCsrs, List.map_append, List.mem_cons, List.mem_append]
  rw [order, List.mem_append, List.mem_cons] at h
  cases rvh with
  | false => exact h.elim nofun (Or.imp_right .inl)
  | true => exact h.elim (fun h => .inr (.inr h)) (Or.imp_right .inl)

variable {R} {cfg : Cfg} {cpuId : BitVec 32} {s : S} {a : Arch}

/-! ### The routines -/

/-- The instruction writes no other CSR than a free one. -/
def neutral : Instr → Bool
  | .csrw c _ | .csrs c _ => c = mstatusId
  | _ => true

lemma shows_mstatus {E : Env} (hE : R.Obeyed E) {f : CsrFile} (hs : R.shows s f) (w : Word) :
    R.shows s (E.csrw f mstatusId w) := by
  have h := hE mstatusId (by decide +kernel) w (R.mstatus w).1 s f hs
  rwa [(R.mstatus w).2] at h

lemma shows_exec {E : Env} (hE : R.Obeyed E) {i : Instr} (hi : neutral i = true)
    (hs : R.shows s a.csr) : R.shows s (i.exec E a).csr := by
  cases i with
  | csrw c rs | csrs c rs =>
    obtain rfl : c = mstatusId := of_decide_eq_true hi
    exact shows_mstatus hE hs _
  | vsetvl rd rs rt =>
    simp only [Instr.exec, Arch.setCsr, Arch.setX_csr]
    exact R.unseen _ (by decide) _ _ _ (R.unseen _ (by decide) _ _ _
      (R.unseen _ (by decide) _ _ _ hs))
  | vl1re64 vd rs => exact R.unseen _ (by decide) _ _ _ hs
  | fld => exact hs
  | _ => rwa [(sameButX_exec E a rfl).csr]

lemma shows_execs {E : Env} (hE : R.Obeyed E) {code : List Instr} (h : code.all neutral = true)
    (hs : R.shows s a.csr) : R.shows s (execs E code a).csr := by
  induction code generalizing a with
  | nil => exact hs
  | cons i code ih =>
    rw [List.all_cons, Bool.and_eq_true] at h
    exact ih h.2 (shows_exec hE h.1 hs)

lemma shows_callOne (hE : R.Obeyed cfg.env) (g : Gates) {q : Routine} (hs : R.shows s a.csr)
    (hq : q = .rvvRestore ∨ q = .restoreFloatVector ∨ q = .restoreMtimeCmp) :
    R.shows s (callOne cfg cpuId g a q).csr := by
  have hcode : (q.code cfg).all neutral = true := by
    rcases hq with rfl | rfl | rfl <;>
      simp only [Routine.code] <;>
      decide +kernel
  unfold callOne
  split_ifs
  · refine shows_execs hE hcode ?_
    rwa [(sameButX_withArgs cpuId a q).csr]
  · exact hs

lemma shows_writes {E : Env} (hE : R.Obeyed E) {val : CsrNum → Word} {cs : List CsrNum}
    (hcs : ∀ c ∈ cs, c ∈ writtenCsrs ∧ R.legal c (val c)) {f : CsrFile} (hs : R.shows s f) :
    R.shows (writes R.write val cs s) (writes E.csrw val cs f) :=
  writes_shows (fun c hc => hE c (hcs c hc).1 (val c) (hcs c hc).2) hs

variable (hlegal : ∀ c ∈ writtenCsrs, R.legal c (cfg.slotCsr cpuId c))
include hlegal

lemma shows_rvhCsrRestore (hE : R.Obeyed cfg.env) (g : Gates) (hs : R.shows s a.csr) :
    R.shows (writes R.write (cfg.slotCsr cpuId)
      (if g.rvhCouldRestore then hcsrs.map Prod.snd else []) s)
      (callOne cfg cpuId g a .rvhCsrRestore).csr := by
  unfold callOne
  rw [show calls g .rvhCsrRestore = g.rvhCouldRestore from rfl]
  split_ifs
  · rw [show Routine.code cfg .rvhCsrRestore = Asm.rvhCsrRestore from rfl, csr_rvhCsrRestore,
      withArgs_csrReg cpuId a (.inl rfl), (sameButX_withArgs cpuId a .rvhCsrRestore).csr]
    refine shows_writes hE (fun c hc => ?_) hs
    have hc' : c ∈ writtenCsrs := mem_order true (List.mem_append_left _ hc)
    exact ⟨hc', hlegal c hc'⟩
  · exact hs

lemma shows_restoreCsrVector (hE : R.Obeyed cfg.env) (g : Gates) (hs : R.shows s a.csr) :
    R.shows (writes R.write (cfg.slotCsr cpuId) (csrFcsr :: csrs.map Prod.snd) s)
      (callOne cfg cpuId g a .restoreCsrVector).csr := by
  have hlist (c : CsrNum) (hc : c ∈ csrFcsr :: csrs.map Prod.snd) : c ∈ writtenCsrs :=
    mem_order false hc
  rw [callOne, if_pos (show calls g .restoreCsrVector = true from rfl),
    show Routine.code cfg .restoreCsrVector = Asm.restoreCsrVector from rfl,
    csr_restoreCsrVector, csr_fcsrRestore, withArgs_csrReg cpuId a (.inr rfl),
    (sameButX_withArgs cpuId a .restoreCsrVector).csr, writes_cons]
  have hfcsr := hlist csrFcsr List.mem_cons_self
  refine shows_writes hE (fun c hc => ?_) ?_
  · have hc' := hlist c (List.mem_cons_of_mem _ hc)
    exact ⟨hc', hlegal c hc'⟩
  · exact hE csrFcsr hfcsr _ (hlegal _ hfcsr) _ _ (shows_mstatus hE hs _)

/-- **What the restorer makes of the state of a rule**: the writes of its lists, whatever its
other instructions do. -/
theorem shows_restoreAll (hE : R.Obeyed cfg.env) (hs : R.shows s a.csr) :
    R.shows (R.restored (cfg.gates cpuId (a.readCsr csrMisa)).rvhCouldRestore (cfg.slotCsr cpuId) s)
      (restoreAll cfg cpuId a).csr := by
  unfold restoreAll restored order
  set g := cfg.gates cpuId (a.readCsr csrMisa)
  rw [writes_append]
  have h1 := shows_rvhCsrRestore hlegal hE g hs
  have hother (b : Arch) {t : S} (ht : R.shows t b.csr) (q : Routine)
      (hq : q = .rvvRestore ∨ q = .restoreFloatVector ∨ q = .restoreMtimeCmp) :
      R.shows t (callOne cfg cpuId g b q).csr := shows_callOne hE g ht hq
  have h3 := hother _ (hother _ h1 .rvvRestore (.inl rfl)) .restoreFloatVector (.inr (.inl rfl))
  have h4 := shows_restoreCsrVector hlegal hE g h3
  exact hother _ h4 .restoreMtimeCmp (.inr (.inr rfl))

omit hlegal

lemma shows_atEnd {c : Hart} (hs : R.shows s a.csr) : R.shows s (atEnd a c).csr := by
  unfold atEnd
  split
  · split_ifs
    · exact hs
    · exact R.unseen _ (by decide) _ _ _ hs
  · exact hs

/-! ### The runs -/

variable {M : ℕ} {s₀ : Sys M}

/-- **The rule in a run**: behind the barrier the CSRs of a hart show what the writes have made of
the state that they showed at the entry. -/
theorem shows_run (hM : M ≤ 128) (h : AtEntry cfg s₀) (hE : R.Obeyed cfg.env) {i : Fin M}
    (hlegal : ∀ c ∈ writtenCsrs, R.legal c (cfg.slotCsr (BitVec.ofNat 32 i) c))
    (hs : R.shows s (s₀.loc i).arch.csr) {w : List (Fin M)}
    (h2 : 2 ≤ stage ((run (harts cfg) s₀ w).loc i).pc) :
    R.shows (R.restored (cfg.gates (BitVec.ofNat 32 i)
      ((s₀.loc i).arch.readCsr csrMisa)).rvhCouldRestore (cfg.slotCsr (BitVec.ofNat 32 i)) s)
      ((run (harts cfg) s₀ w).loc i).arch.csr := by
  rw [(((h.restoring.run hM w).path i).late h2).csr]
  exact shows_atEnd (shows_restoreAll hlegal hE hs)

/-! ### A CSR of its own -/

/-- The rule of a CSR that keeps what is written to it and that no other write changes. -/
def plain (x : CsrNum) (hx : x ∉ freeCsrs) (legal : CsrNum → Word → Prop) : Rule Word where
  shows t f := f x = t
  write t c w := if c = x then w else t
  legal c w := c = x → legal x w
  mstatus w := by
    have hne : mstatusId ≠ x := by rintro rfl; exact hx (by decide)
    exact ⟨fun h => absurd h hne, fun t => if_neg hne⟩
  unseen c hc w t f h := by
    have hne : x ≠ c := by rintro rfl; exact hx hc
    exact (Function.update_of_ne hne _ _).trans h

variable {x : CsrNum} {hx : x ∉ freeCsrs} {legal : CsrNum → Word → Prop} {rvh : Bool}
  {val : CsrNum → Word} {t : Word}

lemma plain_of_mem (h : x ∈ order rvh) : (plain x hx legal).restored rvh val t = val x := by
  have hget : writes Function.update val (order rvh) (fun _ => t) x = val x :=
    writes_get h (fun f => Function.update_self x _ f)
      (fun c _ hne f => Function.update_of_ne hne.symm _ _) _
  refine (writes_shows (P := fun t (f : CsrFile) => f x = t) (fun c _ t f hf => ?_)
    rfl).symm.trans hget
  by_cases hc : c = x
  · simp [plain, hc]
  · simp [plain, hc, Ne.symm hc, hf]

lemma plain_of_not_mem (h : x ∉ order rvh) : (plain x hx legal).restored rvh val t = t := by
  refine writes_keep (K := id) (fun c hc s => ?_) t
  have hne : c ≠ x := by rintro rfl; exact h hc
  exact if_neg hne

end Rule

/-! ### A machine with one hart -/

def hostCfg (csrw : CsrFile → CsrNum → Word → CsrFile) (ram : Word → Byte) : Cfg :=
  { smallCfg ram with env := { ram, csrw } }

def updateHost (ram : Word → Byte) : Cfg := hostCfg (fun f c w => Function.update f c w) ram

@[simp] lemma updateHost_csrw (ram : Word → Byte) (f : CsrFile) (c : CsrNum) (w : Word) :
    (updateHost ram).env.csrw f c w = Function.update f c w := rfl

lemma plain_updateHost (ram : Word → Byte) (x : CsrNum) (hx : x ∉ freeCsrs) :
    (Rule.plain x hx fun _ _ => True).Obeyed (updateHost ram).env := by
  intro c _ w _ t f hf
  change Function.update f c w x = if c = x then w else t
  rw [Function.update_apply, show f x = t from hf]
  by_cases hc : c = x
  · simp [hc]
  · simp [hc, Ne.symm hc]

/-- A checkpoint of one hart with given CSRs. -/
def slotRam (val : CsrNum → Word) (a : Word) : Byte :=
  let d := a - 0x800EDFF0
  if d < 0x8000 then (val (d.extractLsb' 3 12)).extractLsb' (8 * (d.toNat % 8)) 8
  else countRam 1 a

def soloSys (f : CsrFile) : Sys 1 where
  mem := exitSys.mem
  loc i :=
    let c := (smallSys 1 .readAllCpuNum 0).loc i
    { c with arch := { c.arch with csr := f } }

lemma soloSys_atEntry (csrw : CsrFile → CsrNum → Word → CsrFile) (ram : Word → Byte)
    (f : CsrFile) : AtEntry (hostCfg csrw ram) (soloSys f) where
  pc _ := rfl
  cpuId _ := rfl
  hartid _ := rfl
  words := (vectorSys_atEntry 0).words

end LibCheckpoint.Host
