import LibCheckpoint.Effect

/-!
`gcpt_c_start` behind its check, in every build: restore a checkpoint or boot the payload.

The builds differ in what they check, and in where they take the checkpoint from.
-/

namespace LibCheckpoint.Payload

open LibCheckpoint.Bytes LibCheckpoint.Rv64 LibCheckpoint.Csr LibCheckpoint.Asm
open LibCheckpoint.Layout LibCheckpoint.Restorer LibCheckpoint.Interleave LibCheckpoint.Phase
open LibCheckpoint.Effect

/-- What a build hands to the branch: what `multicore_decode_restore` is called with, the outcome of
the check, and where the payload is. -/
structure Guard where
  cfg : Cfg
  passes : Bool
  targetAddress : Word

/-- The address that `boot_payload` chooses. -/
def bootTarget (startAddress payloadBin : Word) : Word :=
  if startAddress != 0x80000000 then 0x80000000 else payloadBin

/-! ### The hart -/

/-- `restorer` stands for the points of the restorer itself. -/
inductive Point
  | restorer
  | checkMagicNumber
  | disableGcptTrap
  | mtPrintf (p : PrintPt)
  | beforeBootPayload (code : List Instr)
  | payload (a : Word)
  deriving DecidableEq

structure BootHart where
  point : Point
  hart : Hart

/-- `before_boot_payload` up to its jump to `t0`. -/
def beforeBootPayload : List Instr := [.mv t0 a0, .li a1 0, .csrr a0 mhartidId]

/-- `mstatus` and `mtvec` after `disable_gcpt_trap`. -/
def disableGcptTrap (E : Env) (f : CsrFile) : CsrFile :=
  E.csrw (E.csrw f mstatusId (f mstatusId &&& ~~~mstatusMie)) csrMtvec 0

def BootHart.setArch (c : BootHart) (p : Point) (a : Arch) : BootHart :=
  ⟨p, { c.hart with arch := a }⟩

variable (g : Guard)

def Guard.act (c : BootHart) : Act :=
  match c.point with
  | .restorer => Restorer.act g.cfg c.hart
  | .mtPrintf (.lock .read) => .load .mtPrintfLock
  | .mtPrintf (.lock .swap) => .swap .mtPrintfLock (-1)
  | .mtPrintf .unlock => .store .mtPrintfLock 0
  | _ => .tau

def Guard.resume (c : BootHart) (r : Word) : BootHart :=
  match c.point with
  | .restorer =>
    ⟨if c.hart.pc = .enableGcptTrap then .checkMagicNumber else .restorer,
      Restorer.resume g.cfg c.hart r⟩
  | .checkMagicNumber => ⟨if g.passes then .restorer else .disableGcptTrap, c.hart⟩
  | .disableGcptTrap => c.setArch (.mtPrintf (.lock .read))
      { c.hart.arch with csr := disableGcptTrap g.cfg.env c.hart.arch.csr }
  | .mtPrintf (.lock .read) => if r = 0 then ⟨.mtPrintf (.lock .swap), c.hart⟩ else c
  | .mtPrintf (.lock .swap) => ⟨.mtPrintf (if r = 0 then .out else .lock .read), c.hart⟩
  | .mtPrintf .out => ⟨.mtPrintf .unlock, c.hart⟩
  | .mtPrintf .unlock =>
    c.setArch (.beforeBootPayload beforeBootPayload) (c.hart.arch.setX a0 g.targetAddress)
  | .beforeBootPayload (i :: code) =>
    c.setArch (.beforeBootPayload code) (i.exec g.cfg.env c.hart.arch)
  | .beforeBootPayload [] => ⟨.payload (c.hart.arch.getX t0), c.hart⟩
  | .payload _ => c

def Guard.harts : Threads Shared BootHart Act Word where
  act := g.act
  perform := perform g.cfg.link
  resume := g.resume

abbrev BootSys (M : ℕ) := Interleave.St (Fin M) Shared BootHart

/-! ### Where a hart can be -/

def unchecked : Pc → Bool
  | .gcptCStart | .clearBss _ | .setBssLock | .waitBssLock | .enableGcptTrap => true
  | .mtPrintf s _ => s = .hello
  | _ => false

/-- The hart has reached `multicore_decode_restore`. -/
def restores (c : BootHart) : Prop := c.point = .restorer ∧ unchecked c.hart.pc = false

def refused (c : BootHart) : Prop := c.point ≠ .restorer ∧ c.point ≠ .checkMagicNumber

/-- What a hart boots the payload with: of the state that it has come with, the trap vector and
`mstatus.MIE` are reset, and the registers of the call are set. -/
def payloadArch (a : Arch) : Arch :=
  let b := { a with csr := disableGcptTrap g.cfg.env (enableGcptTrap g.cfg a.csr) }
  (((b.setX a0 g.targetAddress).setX t0 g.targetAddress).setX a1 0).setX a0 b.hartid

structure Starts (cpuId : BitVec 32) (c : BootHart) : Prop where
  cpuId : c.hart.cpuId = cpuId
  point : c.point = .restorer
  pc : unchecked c.hart.pc = true

def ownsPrint (c : BootHart) : Bool :=
  match c.point with
  | .restorer => holdsPrint c.hart
  | .mtPrintf p => p = .out ∨ p = .unlock
  | _ => false

/-- The lock of `mt_printf` is free, or a hart owns it. -/
def PrintOk {M : ℕ} (s : BootSys M) : Prop :=
  s.mem.get g.cfg.link .mtPrintfLock ≠ 0 → ∃ j, ownsPrint (s.loc j) = true

variable {g}

/-! ### The way of one hart -/

lemma unchecked_resume {c : Hart} {r : Word} (h : unchecked (resume g.cfg c r).pc = true) :
    unchecked c.pc = true := by
  by_contra hn
  cases hp : c.pc with
  | mtPrintf s p =>
    have hs : s ≠ .hello := by simpa [unchecked, hp] using hn
    obtain ⟨q, hres, ⟨p', rfl⟩ | ⟨-, rfl⟩⟩ := resume_print g.cfg c r hp
    · simp [hres, unchecked, hs] at h
    · rw [hres] at h
      cases s with
      | handler k => by_cases hk : k < 4 <;> simp [Site.next, hk, unchecked] at h
      | _ => simp [Site.next, unchecked] at h hs
  | call q =>
    simp only [resume, hp] at h
    split at h
    · cases h
    · cases q <;> cases h
  | asm q code =>
    cases code with
    | nil => cases q <;> simp [resume, hp, finish, Routine.next, unchecked] at h
    | cons => simp [resume, hp, unchecked] at h
  | lockGlobash p =>
    cases p <;> simp only [resume, hp] at h <;> split at h <;> simp [unchecked, hp] at h
  | multicoreDecodeRestore | patchJal | unlockGlobash | waitRelease | fetch =>
    simp only [resume, hp] at h
    split at h <;> simp [unchecked, hp] at h
  | gcptCStart | clearBss | setBssLock | waitBssLock | enableGcptTrap => simp [unchecked, hp] at hn
  | _ => simp [resume, hp, unchecked] at h

lemma resume_unchecked {c : Hart} {r : Word} (h : unchecked c.pc = true) :
    (c.pc = .enableGcptTrap ∧ (resume g.cfg c r).pc = .multicoreDecodeRestore ∧
      (resume g.cfg c r).arch = { c.arch with csr := enableGcptTrap g.cfg c.arch.csr }) ∨
    (c.pc ≠ .enableGcptTrap ∧ unchecked (resume g.cfg c r).pc = true ∧
      (resume g.cfg c r).arch = c.arch) := by
  cases hp : c.pc with
  | enableGcptTrap => exact .inl ⟨rfl, by simp [resume, hp]⟩
  | mtPrintf s p =>
    obtain rfl : s = .hello := by simpa [unchecked, hp] using h
    refine .inr ⟨by simp, ?_⟩
    obtain ⟨q, hres, ⟨p', rfl⟩ | ⟨-, rfl⟩⟩ := resume_print g.cfg c r hp
    all_goals simp [hres, unchecked, Site.next]
  | gcptCStart | clearBss | waitBssLock =>
    refine .inr ⟨by simp, ?_⟩
    simp only [resume, hp]
    split <;> simp [unchecked, hp]
  | setBssLock => exact .inr ⟨by simp, by simp [resume, hp, unchecked]⟩
  | _ => simp [unchecked, hp] at h

variable (g) in
/-- Where a hart is that has failed the check, and with which state. -/
inductive Refusal (a : Arch) (c : BootHart) : Prop
  | disable (hp : c.point = .disableGcptTrap)
      (ha : c.hart.arch = { a with csr := enableGcptTrap g.cfg a.csr })
  | print (p : PrintPt) (hp : c.point = .mtPrintf p)
      (ha : c.hart.arch =
        { a with csr := disableGcptTrap g.cfg.env (enableGcptTrap g.cfg a.csr) })
  | leave (u l : List Instr) (hp : c.point = .beforeBootPayload l)
      (hcode : beforeBootPayload = u ++ l)
      (ha : c.hart.arch = execs g.cfg.env u (Arch.setX
        { a with csr := disableGcptTrap g.cfg.env (enableGcptTrap g.cfg a.csr) } a0
        g.targetAddress))
  | payload (hp : c.point = .payload g.targetAddress) (ha : c.hart.arch = payloadArch g a)

variable (g) in
/-- Where a hart is that has started with state `a`. -/
inductive BootWay (a : Arch) (c : BootHart) : Prop
  | before (hp : c.point = .restorer) (hu : unchecked c.hart.pc = true) (ha : c.hart.arch = a)
  | check (hp : c.point = .checkMagicNumber) (hpc : c.hart.pc = .multicoreDecodeRestore)
      (ha : c.hart.arch = { a with csr := enableGcptTrap g.cfg a.csr })
  | restore (hp : c.point = .restorer) (hu : unchecked c.hart.pc = false) (hv : g.passes = true)
  | refusal (h : Refusal g a c)

variable {a : Arch} {c : BootHart} (r : Word)

lemma execs_beforeBootPayload (b : Arch) : execs g.cfg.env beforeBootPayload b =
    ((b.setX t0 (b.getX a0)).setX a1 0).setX a0 b.hartid := by
  simp [beforeBootPayload, Instr.exec, Arch.readCsr]

lemma Refusal.next (h : Refusal g a c) : Refusal g a (g.resume c r) := by
  cases h with
  | disable hp ha =>
    exact .print (.lock .read) (by simp [Guard.resume, hp, BootHart.setArch])
      (by simp [Guard.resume, hp, ha, BootHart.setArch])
  | print p hp ha =>
    rcases p with (_ | _) | _ | _
    · by_cases hr : r = 0
      · exact .print (.lock .swap) (by simp [Guard.resume, hp, hr])
          (by simp [Guard.resume, hp, hr, ha])
      · have hstay : g.resume c r = c := by simp only [Guard.resume, hp, hr, if_false]
        rw [hstay]
        exact .print _ hp ha
    · exact .print (if r = 0 then .out else .lock .read) (by simp only [Guard.resume, hp])
        (by simp [Guard.resume, hp, ha])
    · exact .print .unlock (by simp [Guard.resume, hp]) (by simp [Guard.resume, hp, ha])
    · exact .leave [] beforeBootPayload (by simp [Guard.resume, hp, BootHart.setArch]) rfl
        (by simp [Guard.resume, hp, ha, BootHart.setArch])
  | leave u l hp hcode ha =>
    cases l with
    | cons i l =>
      -- One more instruction of `before_boot_payload`, or the jump at its end.
      refine .leave (u ++ [i]) l (by simp [Guard.resume, hp, BootHart.setArch]) (by simp [hcode]) ?_
      simp [Guard.resume, hp, ha, BootHart.setArch, execs_append]
    | nil =>
      rw [List.append_nil] at hcode
      rw [← hcode, execs_beforeBootPayload] at ha
      refine .payload ?_ ?_
      · simp [Guard.resume, hp, ha, Arch.getX_setX, t0, a0, a1]
      · simp [Guard.resume, hp, ha, payloadArch, Arch.getX_setX, a0]
  | payload hp ha =>
    have hstay : g.resume c r = c := by simp only [Guard.resume, hp]
    rw [hstay]
    exact .payload hp ha

lemma BootWay.next (h : BootWay g a c) : BootWay g a (g.resume c r) := by
  cases h with
  | before hp hu ha =>
    rcases resume_unchecked (r := r) hu with ⟨hpc, hnext, harch⟩ | ⟨hpc, hnext, harch⟩
    · exact .check (by simp [Guard.resume, hp, hpc]) (by simpa [Guard.resume, hp] using hnext)
        (by simp [Guard.resume, hp, harch, ha])
    · exact .before (by simp [Guard.resume, hp, hpc]) (by simpa [Guard.resume, hp] using hnext)
        (by simp [Guard.resume, hp, harch, ha])
  | check hp hpc ha =>
    by_cases hv : g.passes = true
    · exact .restore (by simp [Guard.resume, hp, hv])
        (by simp [Guard.resume, hp, hpc, unchecked]) hv
    · exact .refusal (.disable (by simp [Guard.resume, hp, hv]) (by simp [Guard.resume, hp, ha]))
  | restore hp hu hv =>
    have hne : c.hart.pc ≠ .enableGcptTrap := by
      intro he
      simp [he, unchecked] at hu
    refine .restore (by simp [Guard.resume, hp, hne]) ?_ hv
    rw [← Bool.not_eq_true] at hu ⊢
    exact fun h => hu (unchecked_resume (by simpa [Guard.resume, hp] using h))
  | refusal h => exact .refusal (h.next r)

variable (g) in
lemma bootWay_run {M : ℕ} {s : BootSys M} {i : Fin M} {cpuId : BitVec 32}
    (h : Starts cpuId (s.loc i)) (w : List (Fin M)) :
    BootWay g (s.loc i).hart.arch ((run g.harts s w).loc i) :=
  run_local g.harts (P := fun j c => j = i → BootWay g (s.loc i).hart.arch c)
    (by rintro j rfl; exact .before h.point h.pc rfl) (fun _ _ r hc hj => (hc hj).next r) w i rfl

/-! ### The way to the payload -/

section
variable (g) (m : Shared)

def bootStep (p : Shared × BootHart) : Shared × BootHart := alone g.harts p

def Reaches (p : Shared × BootHart) : Prop :=
  ∃ n a, ((bootStep g)^[n] p).2.point = .payload a

variable {g}

lemma Reaches.step {p q : Shared × BootHart} (hq : bootStep g p = q) (h : Reaches g q) :
    Reaches g p := by
  obtain ⟨n, a, h⟩ := h
  exact ⟨n + 1, a, by rw [Function.iterate_succ_apply, hq, h]⟩

variable {m}

lemma reaches_leave {l : List Instr} (hp : c.point = .beforeBootPayload l) :
    Reaches g (m, c) := by
  induction l generalizing c with
  | nil => exact ⟨1, _, by simp [bootStep, alone, Guard.harts, Guard.resume, hp]; rfl⟩
  | cons i l ih =>
    refine Reaches.step (q := (m, c.setArch (.beforeBootPayload l) (i.exec g.cfg.env c.hart.arch)))
      ?_ (ih rfl)
    simp [bootStep, alone, Guard.harts, Guard.act, Guard.resume, hp, perform]

/-- **A hart that has failed the check gets to the payload**, if the lock of `mt_printf` is free or
its own. -/
lemma Refusal.reaches (h : Refusal g a c)
    (hl : m.get g.cfg.link .mtPrintfLock = 0 ∨ ownsPrint c = true) : Reaches g (m, c) := by
  -- One step for each stage, from the last one back to the first.
  have hunlock {m : Shared} {c : BootHart} (hp : c.point = .mtPrintf .unlock) :
      Reaches g (m, c) :=
    Reaches.step (q := (m.set g.cfg.link .mtPrintfLock 0, g.resume c 0))
      (by simp [bootStep, alone, Guard.harts, Guard.act, hp, perform])
      (reaches_leave (l := beforeBootPayload) (by simp [Guard.resume, hp, BootHart.setArch]))
  have hout {m : Shared} {c : BootHart} (hp : c.point = .mtPrintf .out) : Reaches g (m, c) :=
    Reaches.step (q := (m, ⟨.mtPrintf .unlock, c.hart⟩))
      (by simp [bootStep, alone, Guard.harts, Guard.act, Guard.resume, hp, perform]) (hunlock rfl)
  have hswap {c : BootHart} (hp : c.point = .mtPrintf (.lock .swap))
      (h0 : m.get g.cfg.link .mtPrintfLock = 0) : Reaches g (m, c) :=
    Reaches.step (q := (m.set g.cfg.link .mtPrintfLock (-1), ⟨.mtPrintf .out, c.hart⟩))
      (by simp [bootStep, alone, Guard.harts, Guard.act, Guard.resume, hp, perform, h0]) (hout rfl)
  have hread {c : BootHart} (hp : c.point = .mtPrintf (.lock .read))
      (h0 : m.get g.cfg.link .mtPrintfLock = 0) : Reaches g (m, c) :=
    Reaches.step (q := (m, ⟨.mtPrintf (.lock .swap), c.hart⟩))
      (by simp [bootStep, alone, Guard.harts, Guard.act, Guard.resume, hp, perform, h0])
      (hswap rfl h0)
  cases h with
  | disable hp =>
    have h0 : m.get g.cfg.link .mtPrintfLock = 0 := by simpa [ownsPrint, hp] using hl
    exact Reaches.step (q := (m, g.resume c 0))
      (by simp [bootStep, alone, Guard.harts, Guard.act, hp, perform])
      (hread (by simp [Guard.resume, hp, BootHart.setArch]) h0)
  | print p hp =>
    rcases p with (_ | _) | _ | _
    · exact hread hp (by simpa [ownsPrint, hp] using hl)
    · exact hswap hp (by simpa [ownsPrint, hp] using hl)
    · exact hout hp
    · exact hunlock hp
  | leave u l hp => exact reaches_leave hp
  | payload hp => exact ⟨0, _, hp⟩

end

/-! ### The lock of `mt_printf` -/

/-- A step that leaves the lock taken: the hart owns it then, or another one has owned it. -/
lemma lock_step (m : Shared) (c : BootHart)
    (h : (perform g.cfg.link (g.act c) m).1.get g.cfg.link .mtPrintfLock ≠ 0) :
    ownsPrint (g.resume c (perform g.cfg.link (g.act c) m).2) = true ∨
      (m.get g.cfg.link .mtPrintfLock ≠ 0 ∧ ownsPrint c = false) := by
  cases hp : c.point with
  | restorer =>
    have hown : ownsPrint c = holdsPrint c.hart := by simp only [ownsPrint, hp]
    have hact : g.act c = act g.cfg c.hart := by simp only [Guard.act, hp]
    rw [hact] at h ⊢
    by_cases hboot : booting c.hart = true
    · -- the lock may be cleared, and is not taken
      refine .inr ⟨fun h0 => h ?_, ?_⟩
      · rcases (booting_iff _).mp hboot with ⟨hpc, -⟩ | ⟨k, hpc⟩ | hpc
        · simpa [act, hpc, perform] using h0
        · simp only [act, hpc]
          split_ifs
          · exact getW_setB_zero h0 k
          · exact h0
        · rw [act, hpc, perform, Shared.get_set_of_ne _ _ _ (by decide), h0]
      · rw [hown]
        rcases (booting_iff _).mp hboot with ⟨hpc, -⟩ | ⟨k, hpc⟩ | hpc <;>
          simp [holdsPrint, printPt, hpc]
    · rw [Bool.not_eq_true] at hboot
      change (after g.cfg c.hart m).get g.cfg.link .mtPrintfLock ≠ 0 at h
      rw [get_mtPrintfLock g.cfg c.hart m hboot] at h
      by_cases hswap : printPt c.hart.pc = some (.lock .swap)
      · obtain ⟨site, hpc⟩ := printPt_eq.mp hswap
        have hanswer : (perform g.cfg.link (act g.cfg c.hart) m).2 =
            m.get g.cfg.link .mtPrintfLock := by
          simp [act, hpc, perform]
        rw [hanswer]
        by_cases h0 : m.get g.cfg.link .mtPrintfLock = 0
        · exact .inl (by simp [Guard.resume, hp, hpc, h0, ownsPrint, resume, holdsPrint, printPt])
        · exact .inr ⟨h0, by simp [hown, holdsPrint, hswap]⟩
      · rw [if_neg hswap] at h
        by_cases hunlock : printPt c.hart.pc = some .unlock
        · simp [hunlock] at h
        · rw [if_neg hunlock] at h
          cases hhold : holdsPrint c.hart with
          | false => exact .inr ⟨h, hown.trans hhold⟩
          | true =>
            refine .inl ?_
            have hne : c.hart.pc ≠ .enableGcptTrap := by
              intro he
              simp [holdsPrint, he, printPt] at hhold
            simp [Guard.resume, hp, hne, ownsPrint, holdsPrint_resume, hswap, hunlock, hhold]
  | mtPrintf p =>
    rcases p with (_ | _) | _ | _
    · exact .inr ⟨by simpa [Guard.act, hp, perform] using h, by simp [ownsPrint, hp]⟩
    · by_cases h0 : m.get g.cfg.link .mtPrintfLock = 0
      · exact .inl (by simp [Guard.act, Guard.resume, hp, perform, h0, ownsPrint])
      · exact .inr ⟨h0, by simp [ownsPrint, hp]⟩
    · exact .inl (by simp [Guard.resume, hp, ownsPrint])
    · simp [Guard.act, hp, perform] at h
  | _ => exact .inr ⟨by simpa [Guard.act, hp, perform] using h, by simp [ownsPrint, hp]⟩

lemma PrintOk.next {M : ℕ} {s : BootSys M} (h : PrintOk g s) (j : Fin M) :
    PrintOk g (Interleave.next g.harts s j) := by
  intro hlock
  rcases lock_step s.mem (s.loc j) hlock with hj | ⟨h0, hj⟩
  · exact ⟨j, by rw [next_loc_self]; exact hj⟩
  · obtain ⟨k, hk⟩ := h h0
    have hkj : k ≠ j := by
      rintro rfl
      rw [hk] at hj
      cases hj
    exact ⟨k, by rw [next_loc_of_ne _ _ hkj, hk]⟩

variable (g) in
lemma owner_frees {c : BootHart} (m : Shared) (hc : ownsPrint c = true) :
    ∃ n, ((bootStep g)^[n] (m, c)).1.get g.cfg.link .mtPrintfLock = 0 := by
  have hunlock {m : Shared} {c : BootHart} (h : g.act c = .store .mtPrintfLock 0) :
      (bootStep g (m, c)).1.get g.cfg.link .mtPrintfLock = 0 := by
    simp [bootStep, alone, Guard.harts, h, perform]
  cases hp : c.point with
  | restorer =>
    simp only [ownsPrint, hp, holdsPrint, decide_eq_true_eq] at hc
    rcases hc with hc | hc
    · obtain ⟨site, hpc⟩ := printPt_eq.mp hc
      refine ⟨2, hunlock ?_⟩
      simp [Guard.harts, Guard.act, Guard.resume, hp, hpc, act, resume]
    · obtain ⟨site, hpc⟩ := printPt_eq.mp hc
      exact ⟨1, hunlock (by simp [Guard.act, hp, act, hpc])⟩
  | mtPrintf p =>
    simp only [ownsPrint, hp, decide_eq_true_eq] at hc
    rcases hc with rfl | rfl
    · refine ⟨2, hunlock ?_⟩
      simp [Guard.harts, Guard.act, Guard.resume, hp]
    · exact ⟨1, hunlock (by simp [Guard.act, hp])⟩
  | _ => simp [ownsPrint, hp] at hc

/-- **A hart that has failed the check can always get to the payload.** -/
lemma exists_payload {M : ℕ} {s : BootSys M} (h : PrintOk g s) {i : Fin M}
    (hi : Refusal g a (s.loc i)) :
    ∃ v b, ((run g.harts s v).loc i).point = .payload b := by
  have hfree {t : BootSys M} (ht : Refusal g a (t.loc i))
      (hl : t.mem.get g.cfg.link .mtPrintfLock = 0 ∨ ownsPrint (t.loc i) = true) :
      ∃ v b, ((run g.harts t v).loc i).point = .payload b := by
    obtain ⟨n, b, hn⟩ := ht.reaches (m := t.mem) hl
    refine ⟨List.replicate n i, b, ?_⟩
    rw [run_replicate]
    dsimp only
    rw [Function.update_self]
    exact hn
  by_cases hl : s.mem.get g.cfg.link .mtPrintfLock = 0 ∨ ownsPrint (s.loc i) = true
  · exact hfree hi hl
  · -- another hart owns the lock
    simp only [not_or] at hl
    obtain ⟨j, hj⟩ := h hl.1
    have hij : i ≠ j := by
      rintro rfl
      exact hl.2 hj
    obtain ⟨n, hn⟩ := owner_frees g s.mem hj
    have hrun := run_replicate g.harts s j n
    obtain ⟨v, b, hv⟩ := hfree (t := run g.harts s (List.replicate n j))
      (by rw [hrun]; simpa [hij] using hi) (.inl (by rw [hrun]; exact hn))
    exact ⟨List.replicate n j ++ v, b, by rw [run_append]; exact hv⟩

/-! ### Both ways -/

section
variable {M : ℕ} {s : BootSys M} {i : Fin M}

lemma BootWay.passes (h : BootWay g a c) (hr : restores c) : g.passes = true := by
  cases h with
  | before _ hu => exact absurd (hr.2.symm.trans hu) Bool.false_ne_true
  | check hp => cases hr.1.symm.trans hp
  | restore _ _ hv => exact hv
  | refusal h => cases h <;> simp_all [restores]

lemma BootWay.refusal_of_refused (h : BootWay g a c) (hr : refused c) : Refusal g a c := by
  cases h with
  | before hp => exact absurd hp hr.1
  | check hp => exact absurd hp hr.2
  | restore hp => exact absurd hp hr.1
  | refusal h => exact h

lemma BootWay.payload (h : BootWay g a c) {p : Word} (hp : c.point = .payload p) :
    p = g.targetAddress ∧ c.hart.arch = payloadArch g a := by
  have hr : refused c := by simp [refused, hp]
  cases h.refusal_of_refused hr with
  | payload hp' ha => exact ⟨Point.payload.inj (hp.symm.trans hp'), ha⟩
  | disable hp' | print _ hp' | leave _ _ hp' => cases hp.symm.trans hp'

lemma exists_run_payload {cpuId : BitVec 32} (hs : Starts cpuId (s.loc i)) (hok : PrintOk g s)
    (w : List (Fin M)) (hr : refused ((run g.harts s w).loc i)) :
    ∃ v b, ((run g.harts s (w ++ v)).loc i).point = .payload b := by
  have hok' := run_inv g.harts hok (fun t j ht => ht.next j) w
  obtain ⟨v, b, hv⟩ := exists_payload hok' ((bootWay_run g hs w).refusal_of_refused hr)
  exact ⟨v, b, by rw [run_append]; exact hv⟩

/-- The hart does not boot the payload. -/
def Passing (c : BootHart) : Prop := c.point = .restorer ∨ c.point = .checkMagicNumber

lemma Passing.resume (hv : g.passes = true) (h : Passing c) (r : Word) :
    Passing (g.resume c r) := by
  rcases h with hp | hp
  · by_cases he : c.hart.pc = .enableGcptTrap
    · exact .inr (by simp [Guard.resume, hp, he])
    · exact .inl (by simp [Guard.resume, hp, he])
  · exact .inl (by simp [Guard.resume, hp, hv])

/-- A step of such a hart is one of the restorer, but for the check. -/
lemma Passing.alone (h : Passing c) (m : Shared) :
    ((alone g.harts (m, c)).1 = m ∧ (alone g.harts (m, c)).2.hart = c.hart) ∨
      alone (Restorer.harts g.cfg) (m, c.hart) =
        ((alone g.harts (m, c)).1, (alone g.harts (m, c)).2.hart) := by
  obtain ⟨point, hart⟩ := c
  rcases h with hp | hp
  · obtain rfl : point = .restorer := hp
    exact .inr rfl
  · obtain rfl : point = .checkMagicNumber := hp
    exact .inl ⟨rfl, rfl⟩

/-- **A build whose check passes restores**: its runs are runs of the restorer. -/
lemma passing_run (hv : g.passes = true) (hs : ∀ i, Passing (s.loc i)) (w : List (Fin M)) :
    ∃ v, v.Sublist w ∧ (run g.harts s w).map BootHart.hart =
      run (Restorer.harts g.cfg) (s.map BootHart.hart) v :=
  run_map g.harts (fun _ _ h => h.resume hv _) (fun m _ h => h.alone m) hs w

end

end LibCheckpoint.Payload
