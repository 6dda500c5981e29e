import LibCheckpoint.Privilege

/-!
Interrupts while a hart is restored.

In machine mode an interrupt is taken if and only if `mstatus.MIE` is set and it is pending, enabled
in `mie` and not delegated by `mideleg`. The saved values of these CSRs are written one after
another, long before the hart leaves, and nothing switches interrupts off in between.
-/

namespace LibCheckpoint.Interrupt

open LibCheckpoint.Bytes LibCheckpoint.Rv64 LibCheckpoint.Csr LibCheckpoint.Asm
open LibCheckpoint.Registers LibCheckpoint.Layout LibCheckpoint.Restorer LibCheckpoint.Interleave
open LibCheckpoint.Phase LibCheckpoint.Path LibCheckpoint.Exit LibCheckpoint.Solo
open LibCheckpoint.Vector LibCheckpoint.Host LibCheckpoint.Status LibCheckpoint.Privilege
open LibCheckpoint.Jal

/-! ### Machines whose harts are interrupted -/

/-- The interrupts that are enabled and not delegated. -/
def enables (f : CsrFile) : Word := f csrMie &&& ~~~f csrMideleg

/-- A hart that has left is not in the restorer any more. -/
def inRestorer : Pc → Bool
  | .gone _ => false
  | _ => true

def takes (c : Hart) (pending : Word) : Bool :=
  inRestorer c.pc && mie (c.arch.csr mstatusId) && pending &&& enables c.arch.csr != 0

/-- A hart is to act while some interrupts are pending. If it has been interrupted already, its
handler writes to the variables of the restorer and to the CLINT as it likes. -/
structure Event (M : ℕ) where
  hart : Fin M
  pending : Word
  bss : ℕ → Byte
  io : List (Word × Word)

/-- The local state of a hart that has taken an interrupt is the one in which it has taken it. -/
structure Machine (M : ℕ) where
  sys : Sys M
  taken : Fin M → Bool

variable (cfg : Cfg) {M : ℕ}

def step (t : Machine M) (e : Event M) : Machine M :=
  if t.taken e.hart then
    { t with sys := { t.sys with mem := { t.sys.mem with bss := e.bss, io := e.io } } }
  else if takes (t.sys.loc e.hart) e.pending then
    { t with taken := Function.update t.taken e.hart true }
  else { t with sys := next (harts cfg) t.sys e.hart }

def runs (s : Sys M) (es : List (Event M)) : Machine M := es.foldl (step cfg) ⟨s, fun _ => false⟩

/-- **No interrupt destroys what is half restored**: whatever is pending and whenever, a hart that
is interrupted has not written the saved `mstatus` yet, and `mtvec` is that of the entry; and when
the hart leaves, its CSRs are those of the restore, and it goes to the saved `mepc` or where its
patched stub jumps to. -/
structure Uninterrupted (s : Sys M) (i : Fin M) : Prop where
  quiet : ∀ es, (runs cfg s es).taken i = true →
    statusWritten ((runs cfg s es).sys.loc i).pc = false
  mtvec : ∀ es, (runs cfg s es).taken i = true →
    ((runs cfg s es).sys.loc i).arch.csr csrMtvec = (s.loc i).arch.csr csrMtvec
  csrs : ∀ es p, let c := (runs cfg s es).sys.loc i
    c.pc = .gone p → c.arch.csr = (atEnd (restoredArch cfg s i) c).csr
  pc : ∀ es p, ((runs cfg s es).sys.loc i).pc = .gone p →
    p = if modeM cfg (BitVec.ofNat 32 i) then
        stub cfg (BitVec.ofNat 32 i) 3 + immJ (jalInstr (cfg.offset (BitVec.ofNat 32 i)))
      else (restoredArch cfg s i).csr mepcId

variable {cfg} {s : Sys M} {i : Fin M}

lemma runs_concat (es : List (Event M)) (e : Event M) :
    runs cfg s (es ++ [e]) = step cfg (runs cfg s es) e := by
  simp [runs, List.foldl_append]

variable (cfg s) in
/-- Up to its interrupt a hart is one of the restorer with some answers. -/
lemma runs_feed (es : List (Event M)) (i : Fin M) :
    ∃ rs, (runs cfg s es).sys.loc i = feed (harts cfg) (s.loc i) rs := by
  induction es using List.reverseRecOn with
  | nil => exact ⟨[], rfl⟩
  | append_singleton es e ih =>
    obtain ⟨rs, hrs⟩ := ih
    rw [runs_concat, step]
    split_ifs
    · exact ⟨rs, hrs⟩
    · exact ⟨rs, hrs⟩
    · by_cases hi : i = e.hart
      · subst hi
        refine ⟨rs ++ [answer (harts cfg) (runs cfg s es).sys e.hart], ?_⟩
        rw [feed_append, ← hrs]
        exact next_loc_self _ _ _
      · exact ⟨rs, (next_loc_of_ne _ _ hi).trans hrs⟩

lemma restoring_runs (hM : M ≤ 128) (h : AtEntry cfg s) (es : List (Event M)) :
    Restoring cfg s (runs cfg s es).sys := by
  induction es using List.reverseRecOn with
  | nil => exact h.restoring
  | append_singleton es e ih =>
    rw [runs_concat, step]
    split_ifs
    · exact ⟨⟨ih.stubs.cpuId, ih.stubs.words, ih.stubs.jal⟩, ih.hartid, ih.path, ih.exit, ih.mode⟩
    · exact ih
    · exact ih.next hM e.hart

lemma taken_enables {es : List (Event M)} (h : (runs cfg s es).taken i = true) :
    (∀ p, ((runs cfg s es).sys.loc i).pc ≠ .gone p) ∧
      mie (((runs cfg s es).sys.loc i).arch.csr mstatusId) = true ∧
      enables ((runs cfg s es).sys.loc i).arch.csr ≠ 0 := by
  induction es using List.reverseRecOn with
  | nil => cases h
  | append_singleton es e ih =>
    rw [runs_concat] at h ⊢
    unfold step at h ⊢
    split_ifs at h ⊢ with htaken htakes
    · exact ih h
    · by_cases hi : i = e.hart
      · subst hi
        simp only [takes, Bool.and_eq_true, bne_iff_ne] at htakes
        obtain ⟨⟨hin, hmie⟩, hpending⟩ := htakes
        refine ⟨fun p hp => ?_, hmie, fun h0 => hpending ?_⟩
        · dsimp only at hp
          rw [hp] at hin
          cases hin
        · dsimp only at h0
          rw [h0]
          exact BitVec.and_zero
      · exact ih ((Function.update_of_ne hi _ _).symm.trans h)
    · by_cases hi : i = e.hart
      · subst hi
        exact absurd h htaken
      · have := ih h
        rwa [← next_loc_of_ne (harts cfg) _ hi] at this

/-! ### How the host takes the saved values -/

/-- What a host makes of the saved `mstatus`, `mie` and `mideleg`. The other writes of
`restore_csr_vector` leave `mie` and `mideleg` alone, and those of the restorer `mtvec`. -/
structure EnableHost (E : Env) (val : CsrNum → Word) (v m d : Word) : Prop where
  status : SetsStatus E (val mstatusId) v
  mie : ∀ f, E.csrw f csrMie (val csrMie) csrMie = m
  mideleg : ∀ f, E.csrw f csrMideleg (val csrMideleg) csrMideleg = d
  keep : ∀ x ∈ [csrMie, csrMideleg], ∀ c ∈ csrFcsr :: csrs.map Prod.snd, c ≠ x →
    ∀ w f, E.csrw f c w x = f x
  mtvec : ∀ c ∈ writtenCsrs, c ≠ csrMtvec → ∀ w f, E.csrw f c w csrMtvec = f csrMtvec

def writesOnly (cs : List CsrNum) : Instr → Bool
  | .csrw c _ | .csrs c _ => c ∈ cs
  | _ => true

variable {E : Env} {val : CsrNum → Word} {v m d : Word}

lemma csr_execs_keep {x : CsrNum} {cs : List CsrNum} (hx : x ∉ freeCsrs)
    (hE : ∀ c ∈ cs, ∀ w f, E.csrw f c w x = f x) {code : List Instr}
    (h : code.all (writesOnly cs) = true) (a : Arch) : (execs E code a).csr x = a.csr x := by
  refine (along_inv E (P := fun _ _ => True) (I := fun b => b.csr x = a.csr x)
    (fun i b hi hb => ⟨trivial, ?_⟩) h rfl).2
  simp only [freeCsrs, List.mem_cons, List.not_mem_nil, or_false, not_or] at hx
  rw [← hb]
  cases i with
  | csrw c rs | csrs c rs => exact hE c (of_decide_eq_true hi) _ _
  | vsetvl rd rs rt =>
    simp only [Instr.exec, Arch.setCsr, Arch.setX_csr]
    rw [Function.update_of_ne hx.2.2.1, Function.update_of_ne hx.2.1, Function.update_of_ne hx.1]
  | vl1re64 vd rs => exact Function.update_of_ne hx.2.2.1 _ _
  | fld => rfl
  | _ => rw [(sameButX_exec E b rfl).csr]

def earlierWritten : List CsrNum := mstatusId :: csrFcsr :: earlierCsrs.map Prod.snd

lemma EnableHost.beforeMstatus (hE : EnableHost E val v m d) {x : CsrNum}
    (hx : x ∈ [csrMie, csrMideleg]) (w : Word) (a : Arch) :
    E.csrw (execs E beforeMstatus a).csr mstatusId w x = a.csr x := by
  have hlist : ([csrMie, csrMideleg].all fun x => x ∉ freeCsrs ∧ mstatusId ≠ x ∧
      earlierWritten.all fun c => c ∈ csrFcsr :: csrs.map Prod.snd ∧ c ≠ x) = true := by
    decide +kernel
  obtain ⟨hfree, hne, hall⟩ := of_decide_eq_true (List.all_eq_true.mp hlist x hx)
  rw [hE.keep x hx mstatusId (by decide +kernel) hne]
  have hkeep (c : CsrNum) (hc : c ∈ earlierWritten) (w : Word) (f : CsrFile) :
      E.csrw f c w x = f x := by
    obtain ⟨hc, hne⟩ := of_decide_eq_true (List.all_eq_true.mp hall c hc)
    exact hE.keep x hx c hc hne w f
  exact csr_execs_keep hfree hkeep (by decide +kernel) a

/-- `mie` and `mideleg` behind the first writes that follow `mstatus`: `mideleg` is the second of
them, and `mie` the third. -/
lemma EnableHost.later (hE : EnableHost E val v m d) (k : ℕ) (f : CsrFile) :
    let g := writes E.csrw val ((laterCsrs.take k).map Prod.snd) f
    g csrMie = (if k < 3 then f csrMie else m) ∧
      g csrMideleg = if k < 2 then f csrMideleg else d := by
  have hlater : laterCsrs = ("medeleg", 0x302) :: ("mideleg", csrMideleg) :: ("mie", csrMie) ::
      laterCsrs.drop 3 := by decide +kernel
  have hrest : ((laterCsrs.drop 3).all fun p => p.2 ∈ csrFcsr :: csrs.map Prod.snd ∧
      p.2 ≠ csrMie ∧ p.2 ≠ csrMideleg) = true := by decide +kernel
  have hmedeleg (x : CsrNum) (hx : x ∈ [csrMie, csrMideleg]) (w : Word) (f : CsrFile) :
      E.csrw f 0x302 w x = f x :=
    hE.keep x hx 0x302 (by decide +kernel) (by rintro rfl; revert hx; decide) w f
  have hmideleg (w : Word) (f : CsrFile) : E.csrw f csrMideleg w csrMie = f csrMie :=
    hE.keep csrMie (by decide) csrMideleg (by decide +kernel) (by decide) w f
  have hmie (w : Word) (f : CsrFile) : E.csrw f csrMie w csrMideleg = f csrMideleg :=
    hE.keep csrMideleg (by decide) csrMie (by decide +kernel) (by decide) w f
  rw [hlater]
  -- By how many of the first three have been written; the rest changes neither.
  rcases k with _ | _ | _ | k
  · exact ⟨rfl, rfl⟩
  · exact ⟨hmedeleg _ (by decide) _ _, hmedeleg _ (by decide) _ _⟩
  · exact ⟨(hmideleg _ _).trans (hmedeleg _ (by decide) _ _), hE.mideleg _⟩
  · have hkeep (x : CsrNum) (hx : x = csrMie ∨ x = csrMideleg) (g : CsrFile) :
        writes E.csrw val (((laterCsrs.drop 3).take k).map Prod.snd) g x = g x := by
      refine writes_keep (K := fun g : CsrFile => g x) (fun c hc g => ?_) g
      obtain ⟨p, hp, rfl⟩ := List.mem_map.mp hc
      obtain ⟨hmem, h1, h2⟩ :=
        of_decide_eq_true (List.all_eq_true.mp hrest p (List.mem_of_mem_take hp))
      rcases hx with rfl | rfl
      · exact hE.keep _ (by decide) _ hmem h1 _ _
      · exact hE.keep _ (by decide) _ hmem h2 _ _
    simp only [List.take_succ_cons, List.map_cons, writes_cons]
    rw [if_neg (by omega), if_neg (by omega), hkeep _ (.inl rfl), hkeep _ (.inr rfl)]
    exact ⟨hE.mie _, (hmie _ _).trans (hE.mideleg _)⟩

/-- Nothing is enabled when `mstatus` is written, nor when `mideleg` is, nor when `mie` is. -/
def NeverEnabled (f : CsrFile) (m d : Word) : Prop :=
  enables f = 0 ∧ f csrMie &&& ~~~d = 0 ∧ m &&& ~~~d = 0

lemma EnableHost.later_enables (hE : EnableHost E val v m d) {f : CsrFile}
    (h : NeverEnabled f m d) (k : ℕ) :
    enables (writes E.csrw val ((laterCsrs.take k).map Prod.snd) f) = 0 := by
  obtain ⟨h0, h1, h2⟩ := h
  rw [enables, (hE.later k f).1, (hE.later k f).2]
  by_cases h3 : k < 3
  · by_cases h2 : k < 2
    · rw [if_pos h3, if_pos h2]
      exact h0
    · rw [if_pos h3, if_neg h2]
      exact h1
  · rw [if_neg h3, if_neg (by omega)]
    exact h2

/-! ### The hart behind its write of `mstatus`, and before it -/

section
variable {x : Instr} {b a u l : List Instr} {p : Instr → Bool} (h : b ++ x :: a = u ++ l)
include h

lemma split_behind (hx : p x = false) (hl : l.all p = true) :
    ∃ w, u = b ++ x :: w ∧ a = w ++ l := by
  rcases List.append_eq_append_iff.mp h with ⟨w, rfl, hw⟩ | ⟨w, -, rfl⟩
  · cases w with
    | nil =>
      rw [← (show x :: a = l from hw)] at hl
      simp [hx] at hl
    | cons y w =>
      obtain ⟨rfl, rfl⟩ := List.cons.inj hw
      exact ⟨w, rfl, rfl⟩
  · simp [hx] at hl

lemma split_before (ha : a.all p = true) (hl : l.all p ≠ true) : ∃ w, b = u ++ w := by
  rcases List.append_eq_append_iff.mp h with ⟨w, rfl, hw⟩ | ⟨w, hb, -⟩
  · cases w with
    | nil => exact ⟨[], by simp⟩
    | cons y w =>
      obtain ⟨-, rfl⟩ := List.cons.inj hw
      have hsplit : (w ++ l).all p = true := ha
      rw [List.all_append, Bool.and_eq_true] at hsplit
      exact absurd hsplit.2 hl
  · exact ⟨w, hb⟩

end

variable {cpuId : BitVec 32}

variable (cfg cpuId) in
def afterStatus (a : Arch) : Arch :=
  (Instr.csrw mstatusId t1).exec cfg.env
    (execs cfg.env beforeMstatus (withArgs cfg cpuId a .restoreCsrVector))

lemma execs_afterStatus (l : List Instr) (a : Arch) :
    execs cfg.env (beforeMstatus ++ .csrw mstatusId t1 :: l)
      (withArgs cfg cpuId a .restoreCsrVector) = execs cfg.env l (afterStatus cfg cpuId a) := by
  rw [execs_append, execs_cons, afterStatus]

variable (cfg cpuId) in
lemma afterStatus_base (a : Arch) :
    (afterStatus cfg cpuId a).getX t0 = (cfg.layout cpuId).csrRegCptAddr := by
  rw [afterStatus, getX_exec_of_ne cfg.env (by simp [Instr.dest]), (regs_beforeMstatus _ _).1]
  exact withArgs_csrReg cpuId a (.inr rfl)

lemma EnableHost.afterStatus (hE : EnableHost cfg.env val v m d) {x : CsrNum}
    (hx : x ∈ [csrMie, csrMideleg]) (a : Arch) :
    (afterStatus cfg cpuId a).csr x = a.csr x :=
  (hE.beforeMstatus hx _ _).trans (congrFun (sameButX_withArgs cpuId a .restoreCsrVector).csr x)

/-- In `restore_csr_vector`, behind the write of `mstatus`, some of the later writes have been
made. -/
lemma csr_window {u l : List Instr} (hcode : restoreCsrVector = u ++ l)
    (hl : l.all statusKept = true) (a : Arch) :
    ∃ k, (execs cfg.env u (withArgs cfg cpuId a .restoreCsrVector)).csr =
      writes cfg.env.csrw (cfg.slotCsr cpuId) ((laterCsrs.take k).map Prod.snd)
        (afterStatus cfg cpuId a).csr := by
  rw [restoreCsrVector_split] at hcode
  obtain ⟨w, rfl, hw⟩ := split_behind hcode (by decide +kernel) hl
  have htail : List.all [Instr.li a0 1] Instr.isInt = true := rfl
  obtain ⟨k, hk⟩ := csr_prefix cfg.env htail laterCsrs hw _ (afterStatus_base cfg cpuId a)
  exact ⟨k, by rw [execs_afterStatus, hk]; rfl⟩

section
variable {c₀ : Hart} (hp₀ : c₀.pc = .readAllCpuNum) (hid : c₀.cpuId = cpuId)
  (hE : EnableHost cfg.env (cfg.slotCsr cpuId) v m d)
include hp₀ hid hE

lemma enables_feed (hf : NeverEnabled (atCall cfg c₀ .restoreCsrVector).arch.csr m d)
    (rs : List Word) (hp : statusWritten (feed (harts cfg) c₀ rs).pc = true)
    (hgone : ∀ p, (feed (harts cfg) c₀ rs).pc ≠ .gone p) :
    enables (feed (harts cfg) c₀ rs).arch.csr = 0 := by
  subst hid
  -- Inside `restore_csr_vector`, behind the write: some of the later CSRs have been written.
  have hwindow {u l : List Instr} (hcode : restoreCsrVector = u ++ l)
      (hl : l.all statusKept = true) (a : Arch)
      (ha : a.csr = (atCall cfg c₀ .restoreCsrVector).arch.csr) : enables (execs cfg.env u
        (withArgs cfg c₀.cpuId a .restoreCsrVector)).csr = 0 := by
    obtain ⟨k, hk⟩ := csr_window hcode hl a
    rw [hk]
    refine hE.later_enables ?_ k
    rw [NeverEnabled, enables, hE.afterStatus (by decide), hE.afterStatus (by decide), ha]
    exact hf
  -- Behind the routine `mie` and `mideleg` are the saved ones.
  have hlater (hp : behind Instr.isInt .restoreCsrVector (feed (harts cfg) c₀ rs).pc = true) :
      enables (feed (harts cfg) c₀ rs).arch.csr = 0 := by
    obtain ⟨f, hcsr⟩ := of_eq_true ((part_laterCsrs c₀.cpuId).feed hp₀ rfl rs rfl hp
      (.inr fun p hg => absurd hg (hgone p)))
    have hall := hE.later laterCsrs.length f
    rw [List.take_length] at hall
    rw [hcsr, enables, hall.1, hall.2, if_neg (by decide +kernel), if_neg (by decide +kernel)]
    exact hf.2.2
  obtain ⟨-, hway, -⟩ := way_feed cfg hp₀ rs
  rcases hway with ⟨hpc, -, -⟩ | ⟨q, hpc, -, -, -, -⟩ | ⟨q, u, l, hpc, -, hcode, ha, -, -, -⟩ |
    ⟨h2, -, -, -⟩
  · rw [statusWritten, behind_startPoint hpc] at hp
    cases hp
  · exact hlater (by rw [hpc] at hp ⊢; exact hp)
  · by_cases hq : q = .restoreCsrVector ∧ l.all statusKept = true
    · obtain ⟨rfl, hl⟩ := hq
      rw [ha]
      exact hwindow hcode hl _ rfl
    · refine hlater ?_
      rw [hpc] at hp ⊢
      exact decide_eq_true (.inr ((of_decide_eq_true hp).resolve_left hq))
  · exact hlater (behind_late h2)

lemma mstatus_feed (rs : List Word) (hp : statusWritten (feed (harts cfg) c₀ rs).pc = true)
    (hgone : ∀ p, (feed (harts cfg) c₀ rs).pc ≠ .gone p) :
    (feed (harts cfg) c₀ rs).arch.csr mstatusId = v :=
  (part_mstatus hE.status).feed hp₀ hid rs rfl hp (.inr fun p hg => absurd hg (hgone p))

lemma mtvec_feed (rs : List Word) (hp : statusWritten (feed (harts cfg) c₀ rs).pc = false) :
    (feed (harts cfg) c₀ rs).arch.csr csrMtvec = c₀.arch.csr csrMtvec := by
  subst hid
  let others := writtenCsrs.filter fun c => c ≠ csrMtvec
  have hkeep {code : List Instr} (h : code.all (writesOnly others) = true) (a : Arch) :
      (execs cfg.env code a).csr csrMtvec = a.csr csrMtvec := by
    refine csr_execs_keep (by decide) (fun c hc => ?_) h a
    obtain ⟨hc, hne⟩ := List.mem_filter.mp hc
    exact hE.mtvec c hc (of_decide_eq_true hne)
  have hearly (q : Routine) (hq : q ∈ done .restoreCsrVector) :
      (q.code cfg).all (writesOnly others) = true := by
    simp only [done, List.mem_cons, List.not_mem_nil, or_false] at hq
    rcases hq with rfl | rfl | rfl <;>
      simp only [Routine.code] <;>
      decide +kernel
  have hargs (q : Routine) (a : Arch) : (withArgs cfg c₀.cpuId a q).csr csrMtvec = a.csr csrMtvec :=
    congrFun (sameButX_withArgs c₀.cpuId a q).csr _
  -- The routines before `restore_csr_vector` write other CSRs, whichever are called.
  have hcalls (g : Gates) {qs : List Routine} (h : ∀ q ∈ qs, q ∈ done .restoreCsrVector)
      (a : Arch) : (callAll cfg c₀.cpuId g qs a).csr csrMtvec = a.csr csrMtvec := by
    induction qs generalizing a with
    | nil => rfl
    | cons q qs ih =>
      rw [callAll, List.foldl_cons]
      refine (ih (fun p hp => h p (List.mem_cons_of_mem q hp)) _).trans ?_
      unfold callOne
      split_ifs
      · rw [hkeep (hearly q (h q List.mem_cons_self)), hargs]
      · rfl
  -- The points with no write of `mstatus` yet come before it, or inside its routine.
  have hdone {q : Routine} (hq : callStage q = 1) (h : Routine.restoreCsrVector ∉ done q) :
      (∀ p ∈ done q, p ∈ done .restoreCsrVector) ∧
        (q ∈ done .restoreCsrVector ∨ q = .restoreCsrVector) := by
    cases q <;> first
      | exact ⟨by decide, by decide⟩
      | exact absurd (by decide) h
      | cases hq
  obtain ⟨-, hway, -⟩ := way_feed cfg hp₀ rs
  rcases hway with ⟨-, ha, -⟩ | ⟨q, hpc, h1, ha, -, -⟩ | ⟨q, u, l, hpc, h1, hcode, ha, -, -, -⟩ |
    ⟨h2, -, -, -⟩
  · rw [ha]
  · have hq : Routine.restoreCsrVector ∉ done q := by
      intro hmem
      rw [hpc] at hp
      exact of_decide_eq_false hp (.inl hmem)
    rw [ha]
    exact hcalls _ (hdone h1 hq).1 _
  · rw [hpc] at hp
    have hnot := of_decide_eq_false hp
    simp only [not_or, not_and] at hnot
    obtain ⟨hall, hsub⟩ := hdone (callStage_of_asmStage h1) hnot.2.1
    rw [ha]
    refine (hkeep ?_ _).trans ((hargs _ _).trans (hcalls _ hall _))
    rcases hsub with hq | rfl
    · have hcode' := hearly q hq
      rw [hcode, List.all_append, Bool.and_eq_true] at hcode'
      exact hcode'.1
    · rw [show Routine.code cfg .restoreCsrVector = Asm.restoreCsrVector from rfl,
        restoreCsrVector_split] at hcode
      -- Inside the routine, the code so far is a part of the code before the write.
      obtain ⟨w, hw⟩ := split_before hcode (by decide +kernel) (hnot.1 rfl)
      have hbefore : beforeMstatus.all (writesOnly others) = true := by decide +kernel
      rw [hw, List.all_append, Bool.and_eq_true] at hbefore
      exact hbefore.1
  · rw [statusWritten, behind_late h2] at hp
    cases hp

end

/-! ### When no interrupt is taken -/

def idle (w : List (Fin M)) : List (Event M) := w.map fun j => ⟨j, 0, fun _ => 0, []⟩

lemma runs_idle (w : List (Fin M)) :
    runs cfg s (idle w) = ⟨run (harts cfg) s w, fun _ => false⟩ := by
  induction w using List.reverseRecOn with
  | nil => rfl
  | append_singleton w j ih =>
    have hidle : idle (w ++ [j]) = idle w ++ [⟨j, 0, fun _ => 0, []⟩] := by simp [idle]
    rw [hidle, runs_concat, ih, run_concat]
    simp [step, takes]

lemma taken_idle {w : List (Fin M)} (hin : inRestorer ((run (harts cfg) s w).loc i).pc = true)
    (hmie : mie (((run (harts cfg) s w).loc i).arch.csr mstatusId) = true)
    (hen : enables ((run (harts cfg) s w).loc i).arch.csr ≠ 0) :
    runs cfg s (idle w ++ [⟨i, -1, fun _ => 0, []⟩]) =
      ⟨run (harts cfg) s w, Function.update (fun _ => false) i true⟩ := by
  have hall : (-1 : Word) = BitVec.allOnes 64 := by decide
  have htakes : takes ((run (harts cfg) s w).loc i) (-1) = true := by
    rw [takes, hin, hmie, hall, BitVec.allOnes_and]
    simpa using hen
  rw [runs_concat, runs_idle, step]
  simp only [htakes, if_true, Bool.false_eq_true, if_false]

/-- The code of `restore_csr_vector` up to some of the CSRs behind `mstatus`, and what follows. -/
def upTo (k : ℕ) : List Instr :=
  beforeMstatus ++ .csrw mstatusId t1 :: (laterCsrs.take k).flatMap csrsRestore
def beyond (k : ℕ) : List Instr := (laterCsrs.drop k).flatMap csrsRestore ++ [.li a0 1]

lemma restoreCsrVector_upTo (k : ℕ) : restoreCsrVector = upTo k ++ beyond k := by
  have hlater : laterCsrs = laterCsrs.take k ++ laterCsrs.drop k := (List.take_append_drop k _).symm
  rw [restoreCsrVector_split, upTo, beyond, afterMstatus]
  nth_rewrite 1 [hlater]
  simp only [List.flatMap_append, List.append_assoc, List.cons_append]

variable (cfg cpuId) in
lemma csr_upTo (k : ℕ) (a : Arch) :
    (execs cfg.env (upTo k) (withArgs cfg cpuId a .restoreCsrVector)).csr =
      writes cfg.env.csrw (cfg.slotCsr cpuId) ((laterCsrs.take k).map Prod.snd)
        (afterStatus cfg cpuId a).csr := by
  rw [upTo, execs_afterStatus, csr_csrsRestores cfg.env _ _ (afterStatus_base cfg cpuId a)]
  rfl

variable (hE : EnableHost cfg.env (cfg.slotCsr (BitVec.ofNat 32 i)) v m d) (h : AtEntry cfg s)
include hE h

/-- Between two of the writes that follow `mstatus` an interrupt can be taken. -/
lemma enables_upTo (hs : Uninterrupted cfg s i) (hbad : badImm cfg (BitVec.ofNat 32 i) = false)
    (hv : mie v = true) (k : ℕ) (hk : (beyond k).all statusKept = true) :
    enables (writes cfg.env.csrw (cfg.slotCsr (BitVec.ofNat 32 i)) ((laterCsrs.take k).map Prod.snd)
      (afterStatus cfg (BitVec.ofNat 32 i)
        (atCall cfg (s.loc i) .restoreCsrVector).arch).csr) = 0 := by
  by_contra hen
  have hbad' : badImm cfg (s.loc i).cpuId = false := by rw [h.cpuId]; exact hbad
  have hstore : (upTo k).all (fun i => !i.isStore) = true := by
    have hall : restoreCsrVector.all (fun i => !i.isStore) = true := by decide +kernel
    rw [restoreCsrVector_upTo k, List.all_append, Bool.and_eq_true] at hall
    exact hall.1
  -- Some run stops hart `i` there; an interrupt that is pending then would be taken.
  obtain ⟨w, hw⟩ := exists_run i (h.pc i) hbad' (q := .restoreCsrVector) rfl rfl
    (restoreCsrVector_upTo k) hstore
  have hpc : ((run (harts cfg) s w).loc i).pc = .asm .restoreCsrVector (beyond k) := by rw [hw]; rfl
  have hwritten : statusWritten ((run (harts cfg) s w).loc i).pc = true := by
    rw [hpc]
    exact decide_eq_true (.inl ⟨rfl, hk⟩)
  obtain ⟨rs, hrs⟩ := run_loc_feed (harts cfg) s w i
  have hstatus : ((run (harts cfg) s w).loc i).arch.csr mstatusId = v := by
    rw [hrs] at hwritten hpc ⊢
    exact mstatus_feed (h.pc i) (h.cpuId i) hE rs hwritten (by simp [hpc])
  have hcsr := csr_upTo cfg (BitVec.ofNat 32 i) k
    (atCall cfg (s.loc i) .restoreCsrVector).arch
  have harch : ((run (harts cfg) s w).loc i).arch = execs cfg.env (upTo k) (withArgs cfg
      (BitVec.ofNat 32 i) (atCall cfg (s.loc i) .restoreCsrVector).arch .restoreCsrVector) := by
    rw [hw, inside]
    dsimp only
    rw [h.cpuId]
  have htaken := taken_idle (s := s) (w := w) (i := i) (by rw [hpc]; rfl) (by rw [hstatus, hv])
    (by rw [harch, hcsr]; exact hen)
  have hquiet := hs.quiet (idle w ++ [⟨i, -1, fun _ => 0, []⟩])
  rw [htaken] at hquiet
  rw [hquiet (by simp)] at hwritten
  cases hwritten

lemma neverEnabled_of_uninterrupted (hs : Uninterrupted cfg s i)
    (hbad : badImm cfg (BitVec.ofNat 32 i) = false) (hv : mie v = true) :
    NeverEnabled (atCall cfg (s.loc i) .restoreCsrVector).arch.csr m d := by
  have hpoint (k : ℕ) (hk : (beyond k).all statusKept = true) :=
    enables_upTo hE h hs hbad hv k hk
  refine ⟨?_, ?_, ?_⟩
  · have h0 := hpoint 0 (by decide +kernel)
    rwa [enables, (hE.later 0 _).1, (hE.later 0 _).2, if_pos (by omega), if_pos (by omega),
      hE.afterStatus (by decide), hE.afterStatus (by decide)] at h0
  · have h2 := hpoint 2 (by decide +kernel)
    rwa [enables, (hE.later 2 _).1, (hE.later 2 _).2, if_pos (by omega), if_neg (by omega),
      hE.afterStatus (by decide)] at h2
  · have h3 := hpoint 3 (by decide +kernel)
    rwa [enables, (hE.later 3 _).1, (hE.later 3 _).2, if_neg (by omega), if_neg (by omega)] at h3

/-- **When no interrupt is taken behind the write of `mstatus`**: if and only if the saved
`mstatus` has `MIE` clear, or no interrupt is enabled and undelegated at any of the writes of
`mstatus`, `mideleg` and `mie`, or the hart stops at a bad offset. -/
theorem uninterrupted_iff (hM : M ≤ 128) : Uninterrupted cfg s i ↔
    badImm cfg (BitVec.ofNat 32 i) = true ∨ mie v = false ∨
      NeverEnabled (atCall cfg (s.loc i) .restoreCsrVector).arch.csr m d := by
  constructor
  · intro hs
    by_cases hbad : badImm cfg (BitVec.ofNat 32 i) = true
    · exact .inl hbad
    · by_cases hv : mie v = true
      · exact .inr (.inr (neverEnabled_of_uninterrupted hE h hs (by simpa using hbad) hv))
      · exact .inr (.inl (by simpa using hv))
  · intro hcond
    -- An interrupt behind the write of `mstatus` contradicts each of the three conditions.
    have hquiet (es : List (Event M)) (ht : (runs cfg s es).taken i = true) :
        statusWritten ((runs cfg s es).sys.loc i).pc = false := by
      by_contra hp
      rw [Bool.not_eq_false] at hp
      obtain ⟨hgone, hmie, hen⟩ := taken_enables ht
      obtain ⟨rs, hrs⟩ := runs_feed cfg s es i
      rw [hrs] at hp hgone hmie hen
      rcases hcond with hbad | hv | hf
      · -- A hart that stops at a bad offset writes no `mstatus`.
        rw [← h.cpuId i] at hbad
        obtain ⟨-, hway, -⟩ := way_feed cfg (h.pc i) rs
        rcases hway with ⟨hs, -, -⟩ | ⟨-, -, -, -, -, hok⟩ | ⟨-, -, -, -, -, -, -, -, -, hok⟩ |
          ⟨-, -, -, hok⟩
        · rw [statusWritten, behind_startPoint hs] at hp
          cases hp
        all_goals simp [hok] at hbad
      · -- With `MIE` clear in the saved `mstatus` none is taken.
        rw [mstatus_feed (h.pc i) (h.cpuId i) hE rs hp hgone, hv] at hmie
        cases hmie
      · -- With nothing enabled, pending interrupts do not count.
        exact hen (enables_feed (h.pc i) (h.cpuId i) hE hf rs hp hgone)
    -- So `mtvec` is that of the entry then, and the hart leaves in the state of its checkpoint.
    refine ⟨hquiet, fun es ht => ?_, fun es p => ?_, fun es p hp => ?_⟩
    · obtain ⟨rs, hrs⟩ := runs_feed cfg s es i
      have hp := hquiet es ht
      rw [hrs] at hp ⊢
      exact mtvec_feed (h.pc i) (h.cpuId i) hE rs hp
    · intro c hc
      have hpc : ((runs cfg s es).sys.loc i).pc = .gone p := hc
      exact (((restoring_runs hM h es).path i).late (by simp [hpc])).csr
    · have hr := restoring_runs hM h es
      split_ifs with hm
      · have hexit := hr.exit i
        simp only [ExitOk, hp, hr.gates_gone hp, hm, if_true, hr.stubs.cpuId] at hexit
        exact hexit.2
      · exact (hr.gone_mret hp (by simpa using hm)).1

omit hE h

/-! ### A timer interrupt -/

def timerCfg (mstatus mie : Word) : Cfg :=
  updateHost (slotRam fun c => if c = mstatusId then mstatus else if c = csrMie then mie else 0)

lemma updateHost_enables (ram : Word → Byte) (val : CsrNum → Word) :
    EnableHost (updateHost ram).env val (val mstatusId) (val csrMie) (val csrMideleg) where
  status := updateHost_setsStatus _ _
  mie f := Function.update_self csrMie _ f
  mideleg f := Function.update_self csrMideleg _ f
  keep x _ c _ hne w f := by rw [updateHost_csrw, Function.update_of_ne hne.symm]
  mtvec c _ hne w f := by rw [updateHost_csrw, Function.update_of_ne hne.symm]

lemma timerCfg_atEntry (mstatus mie : Word) : AtEntry (timerCfg mstatus mie) (soloSys fun _ => 0) :=
  soloSys_atEntry _ _ _

theorem uninterrupted_iff_small : Uninterrupted (timerCfg 0x80 0x80) (soloSys fun _ => 0) 0 :=
  (uninterrupted_iff (updateHost_enables _ _) (timerCfg_atEntry _ _) (by decide)).mpr
    (.inr (.inl (by decide +kernel)))

/-- With `MIE` set in the saved `mstatus`, and the timer interrupt in the saved `mie`. -/
theorem not_uninterrupted_small : ¬ ∀ (cfg : Cfg) (M : ℕ) (s : Sys M) (i : Fin M) (v m d : Word),
    EnableHost cfg.env (cfg.slotCsr (BitVec.ofNat 32 i)) v m d → M ≤ 128 → AtEntry cfg s →
      Uninterrupted cfg s i := by
  intro h
  have hE := updateHost_enables (slotRam fun c =>
    if c = mstatusId then 0x8 else if c = csrMie then 0x80 else 0)
    ((timerCfg 0x8 0x80).slotCsr (BitVec.ofNat 32 (0 : Fin 1)))
  have hs := h (timerCfg 0x8 0x80) 1 (soloSys fun _ => 0) 0 _ _ _ hE (by decide)
    (timerCfg_atEntry _ _)
  have hnever := neverEnabled_of_uninterrupted hE (timerCfg_atEntry _ _) hs (by decide +kernel)
    (by decide +kernel)
  have hbehind := hnever.2.2
  revert hbehind
  decide +kernel

end LibCheckpoint.Interrupt
