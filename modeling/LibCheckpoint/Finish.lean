import LibCheckpoint.Fair
import LibCheckpoint.Progress
import LibCheckpoint.Reset
import LibCheckpoint.Resume

/-!
From reset to the checkpointed programs: every fair schedule resumes every hart.

The harts spin at three kinds of points: at `bss_lock`, at the two locks, and at
`release_restore`. A rank of the points counts what a hart has still to do, but not how often it
spins; when all harts that have not left were spinning, nobody would hold what they wait for.
-/

namespace LibCheckpoint.Finish

open LibCheckpoint.Bytes LibCheckpoint.Rv64 LibCheckpoint.Csr LibCheckpoint.Restorer
open LibCheckpoint.Interleave LibCheckpoint.Phase LibCheckpoint.Effect LibCheckpoint.Count
open LibCheckpoint.Barrier LibCheckpoint.Progress LibCheckpoint.Reset LibCheckpoint.Exit
open LibCheckpoint.Solo LibCheckpoint.Resume LibCheckpoint.Vector LibCheckpoint.Host
open LibCheckpoint.Status LibCheckpoint.Jal LibCheckpoint.Fair

variable {M N : ℕ} {cfg : Cfg} {c : Hart} {r : Word}

/-! ### The rank -/

def callLevel : Routine → ℕ
  | .rvhCsrRestore => 21
  | .rvvRestore => 19
  | .restoreFloatVector => 17
  | .restoreCsrVector => 15
  | .restoreMtimeCmp => 13
  | .restoreMtime => 2
  | .restoreIntVectorJump | .restoreIntVectorMret | .jumpToCore => 0

/-- The points of a hart that goes through with its restore, the later the lower; the points of a
spin loop are one. -/
def level : Pc → ℕ
  | .gcptCStart => 32
  | .clearBss _ => 31
  | .setBssLock | .waitBssLock => 30
  | .mtPrintf .hello p => 27 + printLevel p
  | .enableGcptTrap => 26
  | .multicoreDecodeRestore => 25
  | .readAllCpuNum => 24
  | .extCheck => 23
  | .patchJal => 22
  | .call q => callLevel q
  | .asm q _ => callLevel q - 1
  | .lockGlobash _ => 11
  | .count => 10
  | .readCount => 9
  | .mtPrintf .arrive p => 6 + printLevel p
  | .compare => 5
  | .unlockGlobash => 4
  | .waitRelease | .setRelease => 3
  | .mtPrintf .badImm _ | .mtPrintf (.handler _) _ | .stopped | .nemuSignal _ | .fetch _ | .gone _
  | .stuck => 0
where
  printLevel : PrintPt → ℕ
    | .lock _ => 2
    | .out => 1
    | .unlock => 0

/-- What a hart has left to do at its point. -/
def ahead (cfg : Cfg) (c : Hart) : ℕ :=
  if 8 ≤ stage c.pc then todo cfg c
  else match c.pc with
    | .clearBss i => cfg.link.bssSize - i
    | .asm _ code => code.length
    | _ => 0

/-- **The rank of a hart.** -/
def rank (cfg : Cfg) (c : Hart) : ℕ ×ₗ ℕ := toLex (level c.pc, ahead cfg c)

lemma rank_lt_of_level {d : Hart} (h : level d.pc < level c.pc) : rank cfg d < rank cfg c :=
  Prod.Lex.toLex_lt_toLex.mpr (.inl h)

lemma rank_lt_of_ahead {d : Hart} (h : level d.pc = level c.pc) (ha : ahead cfg d < ahead cfg c) :
    rank cfg d < rank cfg c :=
  Prod.Lex.toLex_lt_toLex.mpr (.inr ⟨h, ha⟩)

/-- The points that a hart passes unless it is stopped, by `STOP_CPU`, a bad offset or a trap. -/
def straight : Pc → Bool
  | .stopped | .nemuSignal _ | .mtPrintf .badImm _ | .mtPrintf (.handler _) _ => false
  | _ => true

/-- The lock that a hart is about to take, and how far it is. -/
def locking : Pc → Option (Var × LockPt)
  | .mtPrintf _ (.lock p) => some (.mtPrintfLock, p)
  | .lockGlobash p => some (.globashRestoreLock, p)
  | _ => none

/-- A free lock is taken with two steps. -/
def way (c : Hart) : ℕ := if (locking c.pc).map Prod.snd = some .read then 1 else 0

/-- A step that gets a hart on lowers its rank, but for the read of a free lock. -/
inductive Falls (cfg : Cfg) (c d : Hart) : Prop
  | falls (h : rank cfg d < rank cfg c)
  | reads (x : Var) (hc : locking c.pc = some (x, .read)) (hd : locking d.pc = some (x, .swap))
      (h : rank cfg d = rank cfg c)

/-! ### At a lock -/

section

variable {x : Var} {p : LockPt}

lemma locking_cases (h : locking c.pc = some (x, p)) :
    (x = .mtPrintfLock ∧ ∃ t, c.pc = .mtPrintf t (.lock p)) ∨
      (x = .globashRestoreLock ∧ c.pc = .lockGlobash p) := by
  cases hp : c.pc with
  | mtPrintf t q =>
    cases q with
    | lock q =>
      obtain ⟨rfl, rfl⟩ := Prod.mk.inj (Option.some.inj (hp ▸ h))
      exact .inl ⟨rfl, t, rfl⟩
    | _ => simp [locking, hp] at h
  | lockGlobash q =>
    obtain ⟨rfl, rfl⟩ := Prod.mk.inj (Option.some.inj (hp ▸ h))
    exact .inr ⟨rfl, rfl⟩
  | _ => simp [locking, hp] at h

lemma locking_ne (h : locking c.pc = some (x, p)) : x ≠ .bssLock ∧ x ≠ .releaseRestore := by
  rcases locking_cases h with ⟨rfl, -⟩ | ⟨rfl, -⟩ <;> decide

/-- Both steps are answered with the word of the lock; the second one sets it. -/
lemma perform_locking (h : locking c.pc = some (x, p)) (m : Shared) :
    perform cfg.link (act cfg c) m =
      (if p = .read then m else m.set cfg.link x (-1), m.get cfg.link x) := by
  rcases locking_cases h with ⟨rfl, t, hp⟩ | ⟨rfl, hp⟩ <;> cases p <;> simp [act, hp, perform]

lemma idle_locking (h : locking c.pc = some (x, p)) : idle c r = (r != 0) := by
  rcases locking_cases h with ⟨rfl, t, hp⟩ | ⟨rfl, hp⟩ <;> simp only [idle, hp]

lemma resume_taken (h : locking c.pc = some (x, p)) (hr : r ≠ 0) :
    locking (resume cfg c r).pc = some (x, .read) ∧ level (resume cfg c r).pc = level c.pc := by
  cases p with
  | read =>
    have hstay : resume cfg c r = c := by
      rcases locking_cases h with ⟨-, t, hp⟩ | ⟨-, hp⟩ <;> simp only [resume, hp, hr, if_false]
    rw [hstay]
    exact ⟨h, rfl⟩
  | swap =>
    rcases locking_cases h with ⟨rfl, t, hp⟩ | ⟨rfl, hp⟩ <;> simp only [resume, hp, hr, if_false]
    · exact ⟨rfl, by cases t <;> rfl⟩
    · exact ⟨rfl, by trivial⟩

lemma resume_read (h : locking c.pc = some (x, .read)) :
    locking (resume cfg c 0).pc = some (x, .swap) ∧ level (resume cfg c 0).pc = level c.pc := by
  rcases locking_cases h with ⟨rfl, t, hp⟩ | ⟨rfl, hp⟩ <;> simp only [resume, hp, if_true]
  · exact ⟨rfl, by cases t <;> rfl⟩
  · exact ⟨rfl, rfl⟩

lemma resume_swap (h : locking c.pc = some (x, .swap)) (hs : straight c.pc = true) :
    level (resume cfg c 0).pc < level c.pc := by
  rcases locking_cases h with ⟨rfl, t, hp⟩ | ⟨rfl, hp⟩ <;> simp only [resume, hp, if_true]
  · cases t <;> simp_all [straight, level, level.printLevel]
  · decide

lemma rank_locking {d : Hart} {q : LockPt} (hc : locking c.pc = some (x, p))
    (hd : locking d.pc = some (x, q)) (h : level d.pc = level c.pc) : rank cfg d = rank cfg c := by
  have hzero {e : Hart} {q : LockPt} (he : locking e.pc = some (x, q)) : ahead cfg e = 0 := by
    rcases locking_cases he with ⟨-, t, hp⟩ | ⟨-, hp⟩
    · cases t <;> simp [ahead, hp, siteStage]
    · simp [ahead, hp]
  rw [rank, rank, h, hzero hc, hzero hd]

end

/-! ### How the rank falls -/

lemma rank_idle (h : idle c r = true) : rank cfg (resume cfg c r) = rank cfg c := by
  cases hx : locking c.pc with
  | some x =>
    have hr : r ≠ 0 := by simpa [idle_locking hx] using h
    obtain ⟨hd, hl⟩ : locking (resume cfg c r).pc = some (x.1, .read) ∧
        level (resume cfg c r).pc = level c.pc := resume_taken hx hr
    exact rank_locking hx hd hl
  | none =>
    cases hp : c.pc with
    | waitBssLock =>
      have hr : r = 0 := by simpa [idle, hp] using h
      simp only [resume, hp, hr, if_true]
    | waitRelease =>
      have hr : r ≠ 1 := by simpa [idle, hp] using h
      simp only [resume, hp, bne_iff_ne.mpr hr, if_true]
    | stopped | gone | nemuSignal | stuck => simp only [resume, hp]
    | mtPrintf t p =>
      cases p with
      | lock p => simp [locking, hp] at hx
      | _ => simp [idle, hp] at h
    | lockGlobash p => simp [locking, hp] at hx
    | _ => simp [idle, hp] at h

lemma level_of_late {p : Pc} (h : 8 ≤ stage p) : level p = 0 := by
  cases p with
  | mtPrintf t p => cases t <;> simp [siteStage] at h
  | call q => cases q <;> simp_all [callStage, level, callLevel]
  | asm q l => cases q <;> simp_all [asmStage, level, callLevel]
  | fetch | gone | stuck => rfl
  | _ => simp at h

lemma falls_late (h8 : 8 ≤ stage c.pc) (he : ExitOk cfg c) (hgone : ∀ a, c.pc ≠ .gone a)
    (hr : ∀ k < 4, c.pc = .fetch (stub cfg c.cpuId k) →
      r.setWidth 32 = stubAnswer cfg c.cpuId k) : rank cfg (resume cfg c r) < rank cfg c := by
  have h8' := h8.trans (stage_mono cfg c r)
  refine rank_lt_of_ahead (by rw [level_of_late h8, level_of_late h8']) ?_
  rw [ahead, ahead, if_pos h8, if_pos h8']
  exact todo_resume he h8 hr hgone

lemma falls_locking {x : Var} {p : LockPt} (hx : locking c.pc = some (x, p))
    (hs : straight c.pc = true) (h : idle c r = false) : Falls cfg c (resume cfg c r) := by
  obtain rfl : r = 0 := by simpa [idle_locking hx] using h
  cases p with
  | read =>
    obtain ⟨hd, hl⟩ : locking (resume cfg c 0).pc = some (x, .swap) ∧
        level (resume cfg c 0).pc = level c.pc := resume_read hx
    exact .reads x hx hd (rank_locking hx hd hl)
  | swap => exact .falls (rank_lt_of_level (resume_swap hx hs))

lemma rank_print {t : Site} {p : PrintPt} (hp : c.pc = .mtPrintf t p)
    (hx : locking c.pc = none) (hs : straight c.pc = true) :
    rank cfg (resume cfg c r) < rank cfg c := by
  have ht : t = .hello ∨ t = .arrive := by cases t <;> simp_all [straight]
  refine rank_lt_of_level ?_
  cases p with
  | lock p => simp [locking, hp] at hx
  | out => rcases ht with rfl | rfl <;> simp [resume, hp, level, level.printLevel]
  | unlock => rcases ht with rfl | rfl <;> simp [resume, hp, level, level.printLevel, Site.next]

lemma rank_routine {q : Routine} (hq : c.pc = .call q ∨ ∃ code, c.pc = .asm q code)
    (h8 : ¬ 8 ≤ stage c.pc) : rank cfg (resume cfg c r) < rank cfg c := by
  rcases hq with hp | ⟨code, hp⟩
  · refine rank_lt_of_level ?_
    by_cases hg : calls c.gates q = true
    · have hpc : (resume cfg c r).pc = .asm q (q.code cfg) := by
        simp only [resume, hp, hg, if_true]
      rw [hpc, hp]
      cases q <;> simp_all [level, callLevel, callStage]
    · have hpc : (resume cfg c r).pc = q.next := by
        simp only [resume, hp, if_neg hg]
      rw [hpc, hp]
      cases q <;> simp_all [level, callLevel, callStage, Routine.next]
  · cases code with
    | nil =>
      refine rank_lt_of_level ?_
      have hpc : resume cfg c r = finish cfg c q := by simp only [resume, hp]
      rw [hpc, hp]
      cases q <;> simp_all [level, callLevel, asmStage, finish, Routine.next]
    | cons i code =>
      have hpc : (resume cfg c r).pc = .asm q code := by simp only [resume, hp]
      have hc : ahead cfg c = code.length + 1 := by
        rw [ahead, if_neg h8]
        simp only [hp, List.length_cons]
      have hd : ahead cfg (resume cfg c r) = code.length := by
        have h8' : ¬ 8 ≤ stage (resume cfg c r).pc := by
          rw [hpc]
          rwa [hp] at h8
        rw [ahead, if_neg h8']
        simp only [hpc]
      exact rank_lt_of_ahead (by rw [hpc, hp]; rfl) (by omega)

lemma falls_clearBss {i : ℕ} (hp : c.pc = .clearBss i) :
    rank cfg (resume cfg c r) < rank cfg c := by
  by_cases hi : i < cfg.link.bssSize
  · have hpc : (resume cfg c r).pc = .clearBss (i + 1) := by
      simp only [resume, hp, hi, if_true]
    refine rank_lt_of_ahead (by rw [hpc, hp]; rfl) ?_
    rw [ahead, ahead, if_neg (by simp [hpc]), if_neg (by simp [hp])]
    simp only [hpc, hp]
    omega
  · have hpc : (resume cfg c r).pc = .setBssLock := by
      simp only [resume, hp, hi, if_false]
    exact rank_lt_of_level (by simp [hpc, hp, level])

/-- **A step that gets a hart on.** -/
lemma falls_resume (hs : straight c.pc = true) (hs' : straight (resume cfg c r).pc = true)
    (h : idle c r = false) (he : ExitOk cfg c) (hr : ∀ k < 4,
      c.pc = .fetch (stub cfg c.cpuId k) → r.setWidth 32 = stubAnswer cfg c.cpuId k) :
    Falls cfg c (resume cfg c r) := by
  by_cases h8 : 8 ≤ stage c.pc
  · exact .falls (falls_late h8 he (fun a ha => by simp [idle, ha] at h) hr)
  rcases hx : locking c.pc with _ | x
  case some => exact falls_locking hx hs h
  cases hp : c.pc with
  | mtPrintf t p => exact .falls (rank_print hp hx hs)
  | lockGlobash p => simp [locking, hp] at hx
  | call q => exact .falls (rank_routine (.inl hp) h8)
  | asm q code => exact .falls (rank_routine (.inr ⟨code, hp⟩) h8)
  | clearBss i => exact .falls (falls_clearBss hp)
  | fetch | gone | stuck => simp [hp] at h8
  | stopped | nemuSignal => simp [straight, hp] at hs
  | gcptCStart | unlockGlobash | multicoreDecodeRestore | patchJal =>
    refine .falls (rank_lt_of_level ?_)
    revert hs'
    simp only [resume, hp]
    split <;> simp [level, straight, callLevel]
  | waitBssLock =>
    have hr0 : r ≠ 0 := by simpa [idle, hp] using h
    refine .falls (rank_lt_of_level ?_)
    simp only [resume, hp, hr0, if_false]
    simp [level, level.printLevel]
  | waitRelease =>
    have hr1 : r = 1 := by simpa [idle, hp] using h
    refine .falls (rank_lt_of_level ?_)
    simp [resume, hp, hr1, level, callLevel]
  | _ =>
    refine .falls (rank_lt_of_level ?_)
    simp [resume, hp, level, level.printLevel, callLevel]

/-! ### No hart is stopped -/

lemma straight_resume (hs : straight c.pc = true) (hstop : cfg.stopCpu = none)
    (hset : Settled cfg c) (hjal : badImm cfg c.cpuId = false) :
    straight (resume cfg c r).pc = true := by
  cases hp : c.pc with
  | mtPrintf t p =>
    have ht : t = .hello ∨ t = .arrive := by cases t <;> simp_all [straight]
    obtain ⟨q, hres, ⟨p', rfl⟩ | ⟨-, rfl⟩⟩ := resume_print cfg c r hp
    · rw [hres]
      rcases ht with rfl | rfl <;> rfl
    · rw [hres]
      rcases ht with rfl | rfl <;> rfl
  | multicoreDecodeRestore => simp [resume, hp, hstop, straight]
  | patchJal =>
    -- The gate is that of the mode, so the offset is one that has passed the check.
    have hg : c.gates.shouldJumpToMepc = modeM cfg c.cpuId := by
      rcases hset with (h0 | h1) | hm
      · simp [hp] at h0
      · simp [hp] at h1
      · exact hm
    have hbad : (c.gates.shouldJumpToMepc && !isValidImm (cfg.offset c.cpuId)) = false := by
      rw [hg]
      exact hjal
    simp [resume, hp, hbad, straight]
  | call q =>
    simp only [resume, hp]
    split_ifs
    · rfl
    · cases q <;> rfl
  | asm q code =>
    cases code with
    | nil =>
      simp only [resume, hp]
      cases q <;> rfl
    | cons i code => simp [resume, hp, straight]
  | lockGlobash p =>
    cases p <;> simp only [resume, hp] <;> split <;> simp [straight, hp]
  | gcptCStart | clearBss | waitBssLock | unlockGlobash | waitRelease | fetch =>
    simp only [resume, hp]
    split <;> simp [straight, hp]
  | stopped | nemuSignal => simp [straight, hp] at hs
  | _ => simp [resume, hp, straight]

/-! ### Spinning changes nothing for the others -/

/-- A hart that spins leaves the shared memory as it is, but for the words of the locks that are
taken: it sets them once more. -/
lemma after_spinning {m : Shared} (h : idle c (perform cfg.link (act cfg c) m).2 = true ∨
    ∃ x, locking c.pc = some (x, .read)) : after cfg c m = m ∨
      ∃ x, locking c.pc = some (x, .swap) ∧ m.get cfg.link x ≠ 0 ∧
        after cfg c m = m.set cfg.link x (-1) := by
  cases hx : locking c.pc with
  | some y =>
    obtain ⟨x, p⟩ := y
    cases p with
    | read => exact .inl (by simp [after, perform_locking hx])
    | swap =>
      have hr : m.get cfg.link x ≠ 0 := by
        simpa [idle_locking hx, perform_locking hx, hx] using h
      exact .inr ⟨x, rfl, hr, by simp [after, perform_locking hx]⟩
  | none =>
    have hid := h.resolve_right (by simp [hx])
    cases hp : c.pc with
    | waitBssLock | waitRelease | stopped | gone | nemuSignal | stuck =>
      exact .inl (by simp [after, act, hp, perform])
    | mtPrintf t p =>
      cases p with
      | lock p => simp [locking, hp] at hx
      | _ => simp [idle, hp] at hid
    | lockGlobash p => simp [locking, hp] at hx
    | _ => simp [idle, hp] at hid

/-- What a hart spins for is not taken away by a hart that spins. -/
lemma idle_after {d : Hart} {m : Shared} (h : idle c (perform cfg.link (act cfg c) m).2 = true ∨
    ∃ x, locking c.pc = some (x, .read)) (hd : idle d (perform cfg.link (act cfg d) m).2 = false) :
    idle d (perform cfg.link (act cfg d) (after cfg c m)).2 = false := by
  rcases after_spinning h with ha | ⟨x, hx, h0, ha⟩
  · rwa [ha]
  · rw [ha]
    have hset (y : Var) (hy : m.get cfg.link y = 0 ∨ y = .bssLock ∨ y = .releaseRestore) :
        (m.set cfg.link x (-1)).get cfg.link y = m.get cfg.link y := by
      refine Shared.get_set_of_ne _ _ _ fun he => ?_
      have hne := locking_ne hx
      rcases hy with hy | rfl | rfl
      · exact h0 (he ▸ hy)
      · exact hne.1 he.symm
      · exact hne.2 he.symm
    -- Only the word of a lock that is taken has been written.
    generalize m.set cfg.link x (-1) = m' at hset
    cases hy : locking d.pc with
    | some y =>
      have hfree : m.get cfg.link y.1 = 0 := by
        simpa [idle_locking hy, perform_locking hy] using hd
      simp [idle_locking hy, perform_locking hy, hset _ (.inl hfree), hfree]
    | none =>
      cases hp : d.pc with
      | waitBssLock =>
        have hr : m.get cfg.link .bssLock ≠ 0 := by simpa [idle, act, hp, perform] using hd
        simpa [idle, act, hp, perform, hset _ (.inr (.inl rfl))] using hr
      | waitRelease =>
        have hr : m.get cfg.link .releaseRestore = 1 := by simpa [idle, act, hp, perform] using hd
        simp [idle, act, hp, perform, hset _ (.inr (.inr rfl)), hr]
      | stopped | gone | nemuSignal | stuck => simp [idle, hp] at hd
      | mtPrintf t p =>
        cases p with
        | lock p => simp [locking, hp] at hy
        | _ => simp [idle, hp]
      | lockGlobash p => simp [locking, hp] at hy
      | _ => simp [idle, hp]

/-! ### The runs from reset -/

variable {s₀ s : Sys M}

/-- The states of the runs from reset: hart `0` is clearing the BSS, or it has set `bss_lock` after
that; no hart is stopped, and every one is on its way to what its checkpoint says. -/
structure Running (cfg : Cfg) (N : ℕ) (s₀ s : Sys M) : Prop where
  phase : Boot cfg N s ∨ Inv cfg N s ∧ s.mem.get cfg.link .bssLock ≠ 0
  settled : ∀ i, Settled cfg (s.loc i)
  straight : ∀ i, straight (s.loc i).pc = true
  restoring : Restoring cfg s₀ (s.map (settle cfg))

lemma bssLock_after {m : Shared} (h : booting c = false) :
    (after cfg c m).get cfg.link .bssLock = m.get cfg.link .bssLock := by
  rw [after, get_perform m _ (act_ne_clear cfg c h), writes_act cfg c h]
  cases hp : c.pc with
  | mtPrintf t p => rcases p with (_ | _) | _ | _ <;> simp
  | lockGlobash p => cases p <;> simp
  | _ => simp

lemma bssLock_handOff (h : Boot cfg N s) {i : Fin M} (hv : Inv cfg N (next (harts cfg) s i)) :
    (next (harts cfg) s i).mem.get cfg.link .bssLock ≠ 0 := by
  obtain ⟨z, hz⟩ : ∃ z : Fin M, z.val = 0 := ⟨⟨0, i.pos⟩, rfl⟩
  have hid : (s.loc z).cpuId = 0 := by rw [h.cpuId, hz]; rfl
  have hset := hv.settled z
  by_cases hi : z = i
  · subst hi
    rw [next_loc_resume] at hset
    rcases h.clearing z hz with hp | ⟨k, hp, -, -⟩ | ⟨hp, -⟩
    · simp [resume, hp, hid, booting] at hset
    · simp only [resume, hp] at hset
      split at hset <;> simp [booting] at hset
    · rw [next_mem, after, act, hp]
      exact fun he => absurd ((Shared.get_set_self _ _ _ _).symm.trans he) (by decide)
  · rw [next_loc_of_ne _ _ hi] at hset
    rcases h.clearing z hz with hp | ⟨k, hp, -, -⟩ | ⟨hp, -⟩ <;> simp [booting, hp, hid] at hset

lemma settle_pc : (settle cfg c).pc = c.pc := by simp only [settle]

lemma settle_cpuId : (settle cfg c).cpuId = c.cpuId := by simp only [settle]

lemma settle_arch : (settle cfg c).arch = c.arch := by simp only [settle]

lemma answer_settle {i : Fin M} (h : Settled cfg (s.loc i)) :
    answer (harts cfg) (s.map (settle cfg)) i = answer (harts cfg) s i := by
  simp only [answer, St.map, harts_act, harts_perform, (settle_step h).1]

lemma map_settle_next (h : ∀ i, Settled cfg (s.loc i)) (i : Fin M) :
    (next (harts cfg) s i).map (settle cfg) = next (harts cfg) (s.map (settle cfg)) i := by
  obtain ⟨hact, hres⟩ := settle_step (h i)
  unfold Interleave.next
  rw [answer_settle (h i)]
  simp only [St.map, harts_act, harts_perform, harts_resume, hact, hres]
  congr 1
  funext j
  by_cases hj : j = i <;> simp [hj]

lemma Running.cpuId (h : Running cfg N s₀ s) (i : Fin M) :
    (s.loc i).cpuId = BitVec.ofNat 32 i :=
  settle_cpuId.symm.trans (h.restoring.stubs.cpuId i)

lemma Running.next (hM : M ≤ 128) (hN : N ≤ M) (hstop : cfg.stopCpu = none)
    (hjal : ∀ i : Fin M, badImm cfg (BitVec.ofNat 32 i) = false) (h : Running cfg N s₀ s)
    (i : Fin M) : Running cfg N s₀ (next (harts cfg) s i) where
  phase := by
    rcases h.phase with hb | ⟨hv, hbss⟩
    · exact (hb.next (by omega) i).imp_right fun hv => ⟨hv, bssLock_handOff hb hv⟩
    · refine .inr ⟨hv.next i (by omega) (by omega), ?_⟩
      rwa [next_mem, bssLock_after (hv.settled i)]
  settled := forall_next i (P := Settled cfg) h.settled ((h.settled i).resume _)
  straight := forall_next i (P := fun c => Finish.straight c.pc = true) h.straight <| by
    refine straight_resume (h.straight i) hstop (h.settled i) ?_
    rw [h.cpuId i]
    exact hjal i
  restoring := by
    rw [map_settle_next h.settled]
    exact h.restoring.next hM i

lemma exitOk_of_settle (hgone : ∀ a, c.pc ≠ .gone a) (h : ExitOk cfg (settle cfg c)) :
    ExitOk cfg c := by
  cases hp : c.pc with
  | gone a => exact absurd hp (hgone a)
  | asm q l =>
    cases q <;> simp only [ExitOk, settle_pc, settle_cpuId, settle_arch, hp] at h ⊢ <;> exact h
  | fetch | call =>
    simp only [ExitOk, settle_pc, settle_cpuId, settle_arch, hp] at h ⊢
    exact h
  | stuck => simp [ExitOk, settle_pc, hp] at h
  | _ => simp only [ExitOk, hp]

lemma Running.falls (h : Running cfg N s₀ s) (i : Fin M)
    (hs : Finish.straight ((Interleave.next (harts cfg) s i).loc i).pc = true)
    (hi : idle (s.loc i) (answer (harts cfg) s i) = false) :
    Falls cfg (s.loc i) ((Interleave.next (harts cfg) s i).loc i) := by
  have hgone : ∀ a, (s.loc i).pc ≠ .gone a := fun a ha => by simp [idle, ha] at hi
  rw [next_loc_resume] at hs ⊢
  refine falls_resume (h.straight i) hs hi (exitOk_of_settle hgone (h.restoring.exit i))
    fun k hk hp => ?_
  have hid := h.restoring.stubs.cpuId i
  rw [h.cpuId i] at hp ⊢
  have hans := h.restoring.answer_fetch i k hk (by rw [hid]; exact settle_pc.trans hp)
  rwa [answer_settle (h.settled i), hid] at hans

/-! ### Some hart can go on -/

lemma idle_points {r : Word} (hs : straight c.pc = true) (he : c.pc ≠ .stuck)
    (h : idle c r = true) : (c.pc = .waitBssLock ∧ r = 0) ∨ ((∃ x p, locking c.pc = some (x, p)) ∧
      r ≠ 0) ∨ (c.pc = .waitRelease ∧ r ≠ 1) ∨ ∃ a, c.pc = .gone a := by
  cases hp : c.pc with
  | mtPrintf t p =>
    cases p with
    | lock p => exact .inr (.inl ⟨⟨_, p, rfl⟩, by simpa [idle, hp] using h⟩)
    | _ => simp [idle, hp] at h
  | lockGlobash p => exact .inr (.inl ⟨⟨_, p, rfl⟩, by simpa [idle, hp] using h⟩)
  | waitBssLock => exact .inl ⟨rfl, by simpa [idle, hp] using h⟩
  | waitRelease => exact .inr (.inr (.inl ⟨rfl, by simpa [idle, hp] using h⟩))
  | gone a => exact .inr (.inr (.inr ⟨a, rfl⟩))
  | stuck => exact absurd hp he
  | stopped | nemuSignal => simp [straight, hp] at hs
  | _ => simp [idle, hp] at h

def Gone (s : Sys M) : Prop := ∀ i, ∃ a, (s.loc i).pc = .gone a

lemma boot_ready (h : Boot cfg N s) (hM : 0 < M) :
    ∃ k, idle (s.loc k) (answer (harts cfg) s k) = false := by
  refine ⟨⟨0, hM⟩, ?_⟩
  rcases h.clearing ⟨0, hM⟩ rfl with hp | ⟨k, hp, -⟩ | ⟨hp, -⟩ <;> simp [idle, hp]

lemma free_print (h : Inv cfg N s) (hidle : ∀ k, idle (s.loc k) (answer (harts cfg) s k) = true) :
    s.mem.get cfg.link .mtPrintfLock = 0 := by
  by_contra hne
  have hpos : 0 < count holdsPrint s.loc := by rw [h.print, if_neg hne]; omega
  obtain ⟨j, hj⟩ := exists_of_count_pos hpos
  have hid := hidle j
  simp only [holdsPrint, printPt_eq, decide_eq_true_eq] at hj
  rcases hj with ⟨t, hp⟩ | ⟨t, hp⟩ <;> simp [idle, hp] at hid

/-- A hart that spins between its increment of the counter and its comparison waits for
`mt_printf_lock`, which is free. -/
lemma free_globash (h : Inv cfg N s)
    (hidle : ∀ k, idle (s.loc k) (answer (harts cfg) s k) = true) :
    s.mem.get cfg.link .globashRestoreLock = 0 := by
  by_contra hne
  have hpos : 0 < count holdsGlobash s.loc := by rw [h.globash, if_neg hne]; omega
  obtain ⟨j, hj⟩ := exists_of_count_pos hpos
  simp only [holdsGlobash, decide_eq_true_eq] at hj
  rcases idle_cases (hidle j) (by omega) (by omega) with
    ⟨⟨p, hp⟩, -⟩ | ⟨⟨t, p, hp⟩, hr⟩ | ⟨hp, -⟩
  · simp [hp] at hj
  · have hfree := free_print h hidle
    cases p <;> exact hr (by simpa [answer, act, hp, perform] using hfree)
  · simp [hp] at hj

/-- So they all wait for `release_restore`, or have left. -/
lemma waiting_or_gone (h : Running cfg N s₀ s) (hv : Inv cfg N s)
    (hbss : s.mem.get cfg.link .bssLock ≠ 0)
    (hidle : ∀ k, idle (s.loc k) (answer (harts cfg) s k) = true) (i : Fin M) :
    ((s.loc i).pc = .waitRelease ∧ s.mem.get cfg.link .releaseRestore ≠ 1) ∨
      ∃ a, (s.loc i).pc = .gone a := by
  have hstuck : (s.loc i).pc ≠ .stuck := fun hp => by
    have hexit := exitOk_of_settle (by simp [hp]) (h.restoring.exit i)
    simp [ExitOk, hp] at hexit
  rcases idle_points (h.straight i) hstuck (hidle i) with
    ⟨hp, hr⟩ | ⟨⟨x, p, hx⟩, hr⟩ | ⟨hp, hr⟩ | hgone
  · exact absurd (by simpa [answer, act, hp, perform] using hr) hbss
  · have hfree : s.mem.get cfg.link x = 0 := by
      rcases locking_cases hx with ⟨rfl, -⟩ | ⟨rfl, -⟩
      · exact free_print hv hidle
      · exact free_globash hv hidle
    exact absurd (by simpa [answer, perform_locking hx] using hfree) hr
  · exact .inl ⟨hp, by simpa [answer, act, hp, perform] using hr⟩
  · exact .inr hgone

/-- **Some hart can go on** until all have left. -/
lemma exists_ready (hN : N = 0 ∨ N = M) (h : Running cfg N s₀ s) (hgone : ¬ Gone s) :
    ∃ k, idle (s.loc k) (answer (harts cfg) s k) = false := by
  obtain ⟨i, hi⟩ := not_forall.mp hgone
  by_contra hall
  have hidle : ∀ k, idle (s.loc k) (answer (harts cfg) s k) = true := by simpa using hall
  rcases h.phase with hb | ⟨hv, hbss⟩
  · exact hall (boot_ready hb i.pos)
  have hwait := waiting_or_gone h hv hbss hidle
  -- All have compared the counter, so one of them was the last.
  have hcompared : count compared s.loc = M := by
    rw [count_eq_card_of_all fun j => ?_]
    · simp
    · rcases hwait j with ⟨hp, -⟩ | ⟨a, hp⟩ <;> simp [compared, hp]
  have hlast : 0 < count isLast s.loc := by
    have := i.pos
    rw [hv.last]
    split_ifs <;> omega
  obtain ⟨l, hl⟩ := exists_of_count_pos hlast
  simp only [isLast, Bool.and_eq_true] at hl
  obtain ⟨hp, hflag⟩ := (hwait i).resolve_right hi
  rcases hwait l with ⟨hpl, -⟩ | ⟨a, hpl⟩
  · have := (hv.branch l).1 hpl
    simp [hl.1] at this
  · have hrel : 0 < count released s.loc := count_pos (i := l) (by simp [released, hl.1, hpl])
    rw [hv.flag, if_pos hrel] at hflag
    exact hflag rfl

lemma ready_read {k : Fin M} {x : Var} (hc : locking (s.loc k).pc = some (x, .read))
    (hd : locking ((next (harts cfg) s k).loc k).pc = some (x, .swap))
    (hk : idle (s.loc k) (answer (harts cfg) s k) = false) :
    idle ((next (harts cfg) s k).loc k) (answer (harts cfg) (next (harts cfg) s k) k) = false ∧
      way ((next (harts cfg) s k).loc k) < way (s.loc k) := by
  have hmem : (next (harts cfg) s k).mem = s.mem := by
    rw [next_mem]
    rcases after_spinning (.inr ⟨x, hc⟩) with h | ⟨y, hy, -⟩
    · exact h
    · simp [hc] at hy
  have hfree : s.mem.get cfg.link x = 0 := by
    simpa [idle_locking hc, answer, perform_locking hc] using hk
  refine ⟨?_, by rw [way, way, hc, hd]; simp⟩
  rw [idle_locking hd, answer, harts_act, harts_perform, perform_locking hd, hmem, hfree]
  rfl

lemma ready_spun {i k : Fin M} (hik : i ≠ k)
    (hi : idle (s.loc i) (answer (harts cfg) s i) = true ∨
      ∃ x, locking (s.loc i).pc = some (x, .read))
    (hk : idle (s.loc k) (answer (harts cfg) s k) = false) :
    idle ((next (harts cfg) s i).loc k) (answer (harts cfg) (next (harts cfg) s i) k) = false := by
  have hloc : (next (harts cfg) s i).loc k = s.loc k := next_loc_of_ne _ _ (Ne.symm hik)
  rw [answer, hloc]
  exact idle_after hi hk

/-- **The harts get nearer to their exits.** -/
lemma descent (hM : M ≤ 128) (hN : N = 0 ∨ N = M) (hstop : cfg.stopCpu = none)
    (hjal : ∀ i : Fin M, badImm cfg (BitVec.ofNat 32 i) = false) (s₀ : Sys M) :
    Descent (harts cfg) (Running cfg N s₀) Gone
      (fun s k => idle (s.loc k) (answer (harts cfg) s k) = false) (rank cfg) way := by
  have hnext (s : Sys M) (i : Fin M) (h : Running cfg N s₀ s) :
      Running cfg N s₀ (next (harts cfg) s i) := h.next hM (by omega) hstop hjal i
  have hstep (s : Sys M) (i : Fin M) (h : Running cfg N s₀ s)
      (hi : idle (s.loc i) (answer (harts cfg) s i) = false) :
      Falls cfg (s.loc i) ((next (harts cfg) s i).loc i) :=
    h.falls i ((hnext s i h).straight i) hi
  refine ⟨hnext, fun s i h => ?_, fun s h => exists_ready hN h, fun s k h hk => ?_,
    fun s i k h hik hk => ?_⟩
  · cases hi : idle (s.loc i) (answer (harts cfg) s i) with
    | true =>
      rw [next_loc_resume]
      exact le_of_eq (rank_idle hi)
    | false =>
      rcases hstep s i h hi with hlt | ⟨x, -, -, heq⟩
      · exact hlt.le
      · exact le_of_eq heq
  · rcases hstep s k h hk with hlt | ⟨x, hc, hd, -⟩
    · exact .inl hlt
    · exact .inr (ready_read hc hd hk)
  · cases hi : idle (s.loc i) (answer (harts cfg) s i) with
    | true => exact .inr (ready_spun hik (.inl hi) hk)
    | false =>
      rcases hstep s i h hi with hlt | ⟨x, hc, -, -⟩
      · exact .inl hlt
      · exact .inr (ready_spun hik (.inr ⟨x, hc⟩) hk)

/-! ### The whole run -/

variable {legal : CsrNum → Word → Prop}

/-- **Every fair schedule resumes every hart**: harts that are reset with `bss_lock` clear, with a
checkpoint of as many harts as there are (or of none), and with a jump to every M-mode target, all
leave for their programs, however their steps are interleaved, as long as each of them gets its turn
again and again; and each one leaves in the state of its checkpoint. -/
theorem fair_resumed (hE : StatusHost cfg.env (legal mstatusId)) (hV : KeepsVector cfg.env)
    (hM : M ≤ 128) (hN : N = 0 ∨ N = M) (hreset : AtReset cfg N s) (hstart : AtStart cfg s)
    (hstop : cfg.stopCpu = none) (hjal : ∀ i : Fin M, badImm cfg (BitVec.ofNat 32 i) = false)
    (hsaved : ∀ i : Fin M,
      legal mstatusId (cfg.slotCsr (BitVec.ofNat 32 i) mstatusId))
    {f : ℕ → Fin M} (hf : IsFair f) : ∃ n, ∀ i, ∃ target,
      ((run (harts cfg) s (first f n)).loc i).pc = .gone target ∧
      Resumed cfg legal (BitVec.ofNat 32 i)
        (cfg.gates (BitVec.ofNat 32 i) ((entered cfg (s.loc i).arch).readCsr csrMisa))
        (entered cfg (s.loc i).arch) ((run (harts cfg) s (first f n)).loc i).arch target := by
  have hrun : Running cfg N (enteredSys cfg s) s :=
    ⟨.inl hreset.boot, fun i => .inl (.inl (by simp [hstart.pc i])),
      fun i => by rw [hstart.pc i]; rfl, hstart.restoring⟩
  obtain ⟨n, hn⟩ := (descent hM hN hstop hjal _).eventually hf hrun
  refine ⟨n, fun i => ?_⟩
  obtain ⟨target, hp⟩ := hn i
  have hres := resumed_gone hE hV hM (hstart.restoring_run hM (first f n)) (hsaved i)
    (settle_pc.trans hp)
  have harch : (settle cfg ((run (harts cfg) s (first f n)).loc i)).arch =
      ((run (harts cfg) s (first f n)).loc i).arch := settle_arch
  exact ⟨target, hp, harch ▸ hres⟩

def pairStart : Sys 2 where
  mem := { exitSys.mem with bss := dirtySys.mem.bss }
  loc i := { exitSys.loc i with pc := .gcptCStart }

lemma pairStart_atReset : AtReset (updateHost exitRam) 2 pairStart where
  cpuId := by decide
  reserve := by decide
  pc := by decide
  bssLock := by decide

lemma pairStart_atStart : AtStart (updateHost exitRam) pairStart where
  pc := by decide
  cpuId := by decide
  hartid := by decide
  words := by decide +kernel

/-- In turns, hart `0` comes to its M-mode program, and hart `1` to user mode. -/
theorem fair_resumed_pair : ∃ n,
    ((run (harts (updateHost exitRam)) pairStart (first (Fin.ofNat 2) n)).loc 0).pc =
      .gone 0x80002000 ∧
    ((run (harts (updateHost exitRam)) pairStart (first (Fin.ofNat 2) n)).loc 1).arch.priv = 0 := by
  have hr : inRange (distance (updateHost exitRam) (BitVec.ofNat 32 (0 : Fin 2))) := by
    unfold inRange
    decide +kernel
  obtain ⟨n, hn⟩ := @fair_resumed 2 2 (updateHost exitRam) pairStart (fun _ _ => True)
    (updateHost_status exitRam) (smallCfg_keepsVector exitRam) (by decide) (.inr rfl)
    pairStart_atReset pairStart_atStart rfl (by decide +kernel) (fun _ => trivial) _ isFair_mod
  obtain ⟨target, hp, hres⟩ := hn 0
  obtain ⟨_, -, hres'⟩ := hn 1
  have htarget := hres.jump (by decide +kernel) (by decide +kernel) hr
  exact ⟨n, by rw [hp, htarget]; decide +kernel, hres'.priv.trans (by decide +kernel)⟩

end LibCheckpoint.Finish
