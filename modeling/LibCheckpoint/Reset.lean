import LibCheckpoint.Barrier
import LibCheckpoint.Memory

/-!
From reset to the barrier: hart `0` clears the BSS, whatever it holds, and the others wait.
-/

namespace LibCheckpoint.Reset

open LibCheckpoint.Bytes LibCheckpoint.Rv64 LibCheckpoint.Layout LibCheckpoint.Restorer
open LibCheckpoint.Interleave LibCheckpoint.Phase LibCheckpoint.Effect LibCheckpoint.Count
open LibCheckpoint.Barrier LibCheckpoint.Memory

variable {M : ℕ} (cfg : Cfg) (N : ℕ)

/-- Hart `i` has the id `i`, and its checkpoint says that there are `N` harts. -/
structure Numbered (s : Sys M) : Prop where
  cpuId : ∀ i, (s.loc i).cpuId = BitVec.ofNat 32 i
  reserve : ∀ i : Fin M,
    (cfg.ld (cfg.layout (BitVec.ofNat 32 i)).csrReserve).setWidth 32 = BitVec.ofNat 32 N

/-- The reset state: of the BSS only `bss_lock` is known. -/
structure AtReset (s : Sys M) : Prop extends Numbered cfg N s where
  pc : ∀ i, (s.loc i).pc = .gcptCStart
  bssLock : s.mem.get cfg.link .bssLock = 0

/-- Until hart `0` sets `bss_lock`: it has cleared the first bytes of the BSS, and no other
hart has come further than the loop that reads `bss_lock`. -/
structure Boot (s : Sys M) : Prop extends Numbered cfg N s where
  bssLock : s.mem.get cfg.link .bssLock = 0
  waiting : ∀ i : Fin M, i.val ≠ 0 →
    (s.loc i).pc = .gcptCStart ∨ (s.loc i).pc = .waitBssLock
  clearing : ∀ i : Fin M, i.val = 0 → (s.loc i).pc = .gcptCStart ∨
    (∃ k, (s.loc i).pc = .clearBss k ∧ k ≤ cfg.link.bssSize ∧ ∀ j < k, s.mem.bss j = 0) ∨
    ((s.loc i).pc = .setBssLock ∧ ∀ j < cfg.link.bssSize, s.mem.bss j = 0)

variable {cfg N} {s : Sys M}

lemma AtReset.boot (h : AtReset cfg N s) : Boot cfg N s where
  toNumbered := h.toNumbered
  bssLock := h.bssLock
  waiting i _ := .inl (h.pc i)
  clearing i _ := .inl (h.pc i)

lemma Numbered.next (h : Numbered cfg N s) (i : Fin M) :
    Numbered cfg N (next (harts cfg) s i) where
  cpuId j := by rw [next_cpuId, h.cpuId]
  reserve := h.reserve

lemma Numbered.run (h : Numbered cfg N s) (w : List (Fin M)) :
    Numbered cfg N (run (harts cfg) s w) :=
  run_inv _ h (fun _ i ht => ht.next i) w

lemma Boot.stage_eq_zero (h : Boot cfg N s) (i : Fin M) : stage (s.loc i).pc = 0 := by
  by_cases hi : i.val = 0
  · rcases h.clearing i hi with hp | ⟨k, hp, -⟩ | ⟨hp, -⟩ <;> simp [hp]
  · rcases h.waiting i hi with hp | hp <;> simp [hp]

lemma get_of_cleared (h : ∀ j < cfg.link.bssSize, s.mem.bss j = 0) (x : Var) :
    s.mem.get cfg.link x = 0 :=
  getW_zero fun k hk => h _ (by have := cfg.link.fits x; omega)

lemma cpuId_ne_zero (hM : M < 2 ^ 31) (h : Numbered cfg N s) {i : Fin M} (hi : i.val ≠ 0) :
    (s.loc i).cpuId ≠ 0 := by
  rw [h.cpuId, show (0 : BitVec 32) = BitVec.ofNat 32 0 from rfl, ne_eq,
    ofNat_inj (by omega) (by omega)]
  exact hi

/-- The step of hart `0` that sets `bss_lock` establishes the invariant of the barrier. -/
lemma Boot.handOff (hM : M < 2 ^ 31) (h : Boot cfg N s) {i : Fin M} (hi : i.val = 0)
    (hp : (s.loc i).pc = .setBssLock) (hz : ∀ j < cfg.link.bssSize, s.mem.bss j = 0) :
    Inv cfg N (next (harts cfg) s i) := by
  have hpc (j : Fin M) : stage ((next (harts cfg) s i).loc j).pc = 0 ∧
      booting ((next (harts cfg) s i).loc j) = false ∧
      holdsPrint ((next (harts cfg) s i).loc j) = false := by
    by_cases hj : j = i
    · subst hj
      rw [next_loc_resume]
      simp [resume, hp, siteStage, booting, holdsPrint, printPt]
    · have hj0 : j.val ≠ 0 := fun h0 => hj (Fin.ext (h0.trans hi.symm))
      have hid := cpuId_ne_zero hM h.toNumbered hj0
      rw [next_loc_of_ne _ _ hj]
      rcases h.waiting j hj0 with hw | hw
      · refine ⟨by simp [hw], ?_, by simp [hw, holdsPrint, printPt]⟩
        simp only [booting, hw]
        exact decide_eq_false hid
      · simp [hw, booting, holdsPrint, printPt]
  have hget (x : Var) (hx : x ≠ .bssLock) : (next (harts cfg) s i).mem.get cfg.link x = 0 := by
    rw [next_mem, after, act, hp]
    exact (Shared.get_set_of_ne _ _ _ hx).trans (get_of_cleared hz x)
  refine Inv.fresh (fun j => by have := (hpc j).1; omega) (fun j => (hpc j).2.1)
    (fun j => (hpc j).2.2) hget (fun j _ => ?_) fun j hj => ?_
  · rw [(h.toNumbered.next i).cpuId]
    exact h.reserve j
  · have := (hpc j).1
    omega

lemma Boot.next_clearing (h : Boot cfg N s) {i : Fin M} (hi : i.val = 0)
    (hlock : (next (harts cfg) s i).mem.get cfg.link .bssLock = 0)
    (hc : ((next (harts cfg) s i).loc i).pc = .gcptCStart ∨
      (∃ k, ((next (harts cfg) s i).loc i).pc = .clearBss k ∧ k ≤ cfg.link.bssSize ∧
        ∀ j < k, (next (harts cfg) s i).mem.bss j = 0) ∨
      (((next (harts cfg) s i).loc i).pc = .setBssLock ∧
        ∀ j < cfg.link.bssSize, (next (harts cfg) s i).mem.bss j = 0)) :
    Boot cfg N (next (harts cfg) s i) where
  toNumbered := h.toNumbered.next i
  bssLock := hlock
  waiting j hj := by
    have hji : j ≠ i := fun he => hj (he ▸ hi)
    rw [next_loc_of_ne _ _ hji]
    exact h.waiting j hj
  clearing j hj := by
    obtain rfl : j = i := Fin.ext (hj.trans hi.symm)
    exact hc

lemma Boot.mem_next (h : Boot cfg N s) {i : Fin M} (hi : i.val ≠ 0) :
    (Interleave.next (harts cfg) s i).mem = s.mem := by
  rcases h.waiting i hi with hp | hp <;> simp [next_mem, after, act, hp, perform]

/-- Every step of the boot phase keeps it or ends it. -/
lemma Boot.next (hM : M < 2 ^ 31) (h : Boot cfg N s) (i : Fin M) :
    Boot cfg N (next (harts cfg) s i) ∨ Inv cfg N (next (harts cfg) s i) := by
  by_cases hi : i.val = 0
  · rcases h.clearing i hi with hp | ⟨k, hp, hk, hz⟩ | ⟨hp, hz⟩
    · refine .inl (h.next_clearing hi ?_ (.inr (.inl ⟨0, ?_, Nat.zero_le _, by simp⟩)))
      · simp [next_mem, after, act, hp, perform, h.bssLock]
      · rw [next_loc_resume]
        have hid : (s.loc i).cpuId = 0 := by rw [h.cpuId, hi]; rfl
        simp only [resume, hp, hid, if_true]
    · by_cases hlt : k < cfg.link.bssSize
      · -- One more byte is cleared.
        refine .inl (h.next_clearing hi ?_ (.inr (.inl ⟨k + 1, ?_, hlt, fun j hj => ?_⟩)))
        · simp only [next_mem, after, act, hp, hlt, if_true, perform]
          exact getW_setB_zero h.bssLock k
        · simp [resume, hp, hlt]
        · simp only [next_mem, after, act, hp, hlt, if_true, perform, setB]
          by_cases hjk : j = k
          · simp [hjk]
          · rw [Function.update_of_ne hjk]
            exact hz j (by omega)
      · refine .inl (h.next_clearing hi ?_ (.inr (.inr ⟨?_, fun j hj => ?_⟩)))
        · simp [next_mem, after, act, hp, hlt, perform, h.bssLock]
        · simp [resume, hp, hlt]
        · simp only [next_mem, after, act, hp, hlt, if_false, perform]
          exact hz j (by omega)
    · exact .inr (h.handOff hM hi hp hz)
  · refine .inl ?_
    -- Another hart reads `bss_lock`, finds zero, and stays in its loop.
    have hmem := h.mem_next hi
    have hloc : ((Interleave.next (harts cfg) s i).loc i).pc = .waitBssLock := by
      rw [next_loc_resume]
      rcases h.waiting i hi with hp | hp
      · have := cpuId_ne_zero hM h.toNumbered hi
        simp only [resume, hp, this, if_false]
      · simp [resume, hp, answer, harts, act, perform, h.bssLock]
    exact {
      toNumbered := h.toNumbered.next i
      bssLock := by rw [hmem, h.bssLock]
      waiting := fun j hj => by
        by_cases hji : j = i
        · exact .inr (hji ▸ hloc)
        · rw [next_loc_of_ne _ _ hji]
          exact h.waiting j hj
      clearing := fun j hj => by
        have hji : j ≠ i := fun he => hi (he ▸ hj)
        rw [next_loc_of_ne _ _ hji, hmem]
        exact h.clearing j hj }

theorem AtReset.run (h : AtReset cfg N s) (hM : M < 2 ^ 31) (hN : N ≤ M) (w : List (Fin M)) :
    Boot cfg N (run (harts cfg) s w) ∨ Inv cfg N (run (harts cfg) s w) := by
  refine run_inv _ (P := fun t => Boot cfg N t ∨ Inv cfg N t) (.inl h.boot) (fun t i ht => ?_) w
  rcases ht with ht | ht
  · exact ht.next hM i
  · exact .inr (ht.next i (by omega) (by omega))

/-! ### The loop of `clear_bss` -/

def clearRounds (cfg : Cfg) : Pc → ℕ
  | .gcptCStart => 0
  | .clearBss k => k
  | _ => cfg.link.bssSize

/-- The BSS, which begins at `a` in a memory `m`, is what these rounds have left of it. -/
def Clears (cfg : Cfg) (a : Word) (m : Word → Byte) (s : Sys M) : Prop :=
  ∀ z : Fin M, z.val = 0 → ∀ j < cfg.link.bssSize,
    s.mem.bss j = rounds (setByte a 0) m (clearRounds cfg (s.loc z).pc) (a + BitVec.ofNat 64 j)

variable {a : Word} {m : Word → Byte}

lemma Clears.next (hsize : cfg.link.bssSize < 2 ^ 64) (hb : Boot cfg N s) {i : Fin M}
    (hb' : Boot cfg N (next (harts cfg) s i)) (h : Clears cfg a m s) :
    Clears cfg a m (next (harts cfg) s i) := by
  intro z hz j hj
  by_cases hi : i.val = 0
  · obtain rfl : i = z := Fin.ext (hi.trans hz.symm)
    have hbyte := h i hz j hj
    rcases hb.clearing i hz with hp | ⟨k, hp, hk, -⟩ | ⟨hp, -⟩
    · have hid : (s.loc i).cpuId = 0 := by rw [hb.cpuId, hz]; rfl
      have hpc : ((Interleave.next (harts cfg) s i).loc i).pc = .clearBss 0 := by
        simp only [next_loc_resume, resume, hp, hid, if_true]
      have hmem : (Interleave.next (harts cfg) s i).mem = s.mem := by
        simp [next_mem, after, act, hp, perform]
      rw [hp] at hbyte
      rw [hpc, hmem]
      exact hbyte
    · rw [hp] at hbyte
      by_cases hlt : k < cfg.link.bssSize
      · -- one more round: it sets the byte `k`
        have hpc : ((Interleave.next (harts cfg) s i).loc i).pc = .clearBss (k + 1) := by
          simp only [next_loc_resume, resume, hp, hlt, if_true]
        rw [hpc]
        simp only [next_mem, after, act, hp, hlt, if_true, perform, setB, clearRounds, rounds,
          setByte]
        by_cases hjk : j = k
        · subst hjk
          rw [Function.update_self, Function.update_self]
          rfl
        · have hne : a + BitVec.ofNat 64 j ≠ a + BitVec.ofNat 64 k := by
            rw [ne_eq, eq_add_ofNat_iff (by omega), sub_add_ofNat (by omega)]
            exact hjk
          rw [Function.update_of_ne hjk, Function.update_of_ne hne]
          exact hbyte
      · obtain rfl : k = cfg.link.bssSize := by omega
        have hpc : ((Interleave.next (harts cfg) s i).loc i).pc = .setBssLock := by
          simp only [next_loc_resume, resume, hp, hlt, if_false]
        have hmem : (Interleave.next (harts cfg) s i).mem = s.mem := by
          simp [next_mem, after, act, hp, perform]
        rw [hpc, hmem]
        exact hbyte
    · -- the boot phase ends here
      have hlock := hb'.bssLock
      simp [next_mem, after, act, hp, perform] at hlock
  · rw [hb.mem_next hi, next_loc_of_ne _ _ fun he => hi ((congrArg Fin.val he).symm.trans hz)]
    exact h z hz j hj

/-- **The harts run `clear_bss`**: when hart `0` is about to set `bss_lock`, the BSS is what the
loop makes of the memory that it lies in, whatever the others have done. -/
theorem clearBss_run (hM : M < 2 ^ 31) (hN : N ≤ M) (h : AtReset cfg N s)
    (hsize : cfg.link.bssSize < 2 ^ 64)
    (hm : ∀ j < cfg.link.bssSize, s.mem.bss j = m (a + BitVec.ofNat 64 j)) (w : List (Fin M))
    {z : Fin M} (hz : z.val = 0)
    (hp : ((Interleave.run (harts cfg) s w).loc z).pc = .setBssLock) :
    ∀ j < cfg.link.bssSize, (Interleave.run (harts cfg) s w).mem.bss j =
      clearBss a (a + BitVec.ofNat 64 cfg.link.bssSize) m (a + BitVec.ofNat 64 j) := by
  have hstart : Clears cfg a m s := fun i _ j hj => by
    rw [h.pc i]
    exact hm j hj
  have hrun : (Boot cfg N (Interleave.run (harts cfg) s w) ∧
      Clears cfg a m (Interleave.run (harts cfg) s w)) ∨
      Inv cfg N (Interleave.run (harts cfg) s w) := by
    refine run_inv _ (P := fun t => (Boot cfg N t ∧ Clears cfg a m t) ∨ Inv cfg N t)
      (.inl ⟨h.boot, hstart⟩) (fun t i ht => ?_) w
    rcases ht with ⟨hb, hc⟩ | hv
    · exact (hb.next hM i).imp_left fun hb' => ⟨hb', hc.next hsize hb hb'⟩
    · exact .inr (hv.next i (by omega) (by omega))
  rcases hrun with ⟨-, hc⟩ | hv
  · intro j hj
    rw [clearBss, sub_add_ofNat hsize, hc z hz j hj, hp]
    rfl
  · have hset := hv.settled z
    simp [booting, hp] at hset

/-! ### What a hart has done in the course of a run -/

def completed (cfg : Cfg) (s : Sys M) (w : List (Fin M)) (i : Fin M) (q : Routine) : Prop :=
  ∃ u v, w = u ++ i :: v ∧ ((Interleave.run (harts cfg) s u).loc i).pc = .asm q []

/-- The points behind `restore_csr_vector`. -/
def behindCsr (c : Hart) : Prop :=
  2 ≤ stage c.pc ∨ c.pc = .call .restoreMtimeCmp ∨ ∃ code, c.pc = .asm .restoreMtimeCmp code

lemma behindCsr_resume (c : Hart) (r : Word) (h : behindCsr (resume cfg c r)) :
    behindCsr c ∨ c.pc = .asm .restoreCsrVector [] := by
  rcases h with h | h | ⟨code, h⟩
  · refine .inl ?_
    cases stage_resume cfg c r with
    | arrive hp => exact .inr (.inr ⟨[], hp⟩)
    | stay hn => exact .inl (hn ▸ h)
    | _ => exact .inl (by omega)
  · have hs (t : Site) : t.next ≠ .call .restoreMtimeCmp := by
      cases t with
      | handler k => by_cases hk : k < 4 <;> simp [Site.next, hk]
      | _ => simp [Site.next]
    have hq (q : Routine) (hq : q.next = .call .restoreMtimeCmp) : q = .restoreCsrVector := by
      cases q <;> simp [Routine.next] at hq ⊢
    have hf (q : Routine) (hq : (finish cfg c q).pc = .call .restoreMtimeCmp) :
        q = .restoreCsrVector := by
      cases q <;> simp [finish, Routine.next] at hq ⊢
    unfold resume at h
    split at h <;> (try split at h) <;> simp_all
    · obtain rfl := hq _ h
      simp_all [calls]
    · exact .inr (hf _ h)
  · rcases resume_asm cfg c r h with ⟨hp, -⟩ | ⟨i, hp, -⟩ | ⟨-, hq, -⟩
    · exact .inl (.inr (.inl hp))
    · exact .inl (.inr (.inr ⟨_, hp⟩))
    · cases hq

lemma completed_of_restored {w : List (Fin M)} {i : Fin M} (h0 : stage (s.loc i).pc = 0)
    (h : restored ((Interleave.run (harts cfg) s w).loc i) = true) :
    completed cfg s w i .restoreCsrVector ∧ completed cfg s w i .restoreMtimeCmp := by
  constructor
  · obtain ⟨u, v, hw, hu, hv⟩ := run_first (harts cfg) (P := behindCsr) (s := s) (w := w)
      (i := i) (by
        rintro (h2 | h2 | ⟨code, h2⟩)
        · omega
        · simp [h2, callStage] at h0
        · simp [h2, asmStage] at h0) (.inl (by simpa [restored] using h))
    rw [next_loc_resume] at hv
    exact ⟨u, v, hw, (behindCsr_resume _ _ hv).resolve_left hu⟩
  · obtain ⟨u, v, hw, hu, hv⟩ := run_first (harts cfg) (P := fun c => restored c = true) (s := s)
      (w := w) (i := i) (by simp [restored, h0]) h
    rw [next_loc_resume] at hv
    refine ⟨u, v, hw, ?_⟩
    simp only [restored, decide_eq_true_eq] at hu hv
    cases stage_resume cfg ((Interleave.run (harts cfg) s u).loc i)
      (answer (harts cfg) (Interleave.run (harts cfg) s u) i) with
    | arrive hp => exact hp
    | _ => omega

def cleared (c : Hart) : Prop := c.pc ≠ .gcptCStart ∧ ∀ k, c.pc ≠ .clearBss k

/-- **Barrier safety from reset**: a hart is behind the wait loop only when `N` harts have
completed `restore_csr_vector` and `restore_mtime_cmp`; and a hart other than `0` writes to the
BSS only when hart `0` is behind `clear_bss`, after which no byte is cleared any more. -/
theorem barrier_safe (hM : M ≤ 128) (hN : 1 ≤ N) (hNM : N ≤ M) (h : AtReset cfg N s)
    (w : List (Fin M)) :
    ((∃ i, 7 ≤ stage ((Interleave.run (harts cfg) s w).loc i).pc) →
      ∃ S : Finset (Fin M), N ≤ S.card ∧ ∀ j ∈ S,
        completed cfg s w j .restoreCsrVector ∧ completed cfg s w j .restoreMtimeCmp) ∧
    ∀ i : Fin M, i.val ≠ 0 →
      writesBss (act cfg ((Interleave.run (harts cfg) s w).loc i)) = true →
      ∀ z : Fin M, z.val = 0 → cleared ((Interleave.run (harts cfg) s w).loc z) ∧
        ∀ v j k, act cfg ((Interleave.run (harts cfg) s (w ++ v)).loc j) ≠ .clear k := by
  have hrun := h.run (by omega) hNM w
  constructor
  · rintro ⟨i, hi⟩
    rcases hrun with hb | hv
    · have := hb.stage_eq_zero i
      omega
    · refine ⟨Finset.univ.filter fun j => restored ((Interleave.run (harts cfg) s w).loc j) = true,
        ?_, fun j hj => ?_⟩
      · rw [← count_eq_card]
        exact hv.arrived i hN hi
      · exact completed_of_restored (by simp [h.pc j]) (by simpa using hj)
  · intro i hi hw z hz
    rcases hrun with hb | hv
    · rcases hb.waiting i hi with hp | hp <;> simp [act, hp, writesBss, writes] at hw
    · have hid : ((Interleave.run (harts cfg) s w).loc z).cpuId = 0 := by
        rw [(h.toNumbered.run w).cpuId, hz]
        rfl
      have hb := Bool.eq_false_iff.mp (hv.settled z)
      rw [ne_eq, booting_iff] at hb
      simp only [hid, and_true, not_or, not_exists] at hb
      refine ⟨⟨hb.1, hb.2.1⟩, fun v j k => ?_⟩
      rw [run_append]
      exact act_ne_clear cfg _ ((hv.run (by omega) (by omega) v).settled j) k

/-- Two harts at reset, every byte of the BSS but those of `bss_lock` set. -/
def dirtySys : Sys 2 where
  mem := { bss := fun k => if k < 8 then 0 else 0xff, text := fun _ => 0, io := [] }
  loc := (smallSys 2 .gcptCStart 0).loc

lemma dirtySys_atReset : AtReset (smallCfg (countRam 2)) 2 dirtySys where
  cpuId := by decide
  reserve := by decide
  pc := by decide
  bssLock := by decide

/-- Hart `0` runs up to the wait loop, then hart `1` passes the barrier. -/
theorem barrier_safe_dirtySys : ∃ S : Finset (Fin 2), 2 ≤ S.card ∧ ∀ j ∈ S,
    completed (smallCfg (countRam 2)) dirtySys (List.replicate 400 0 ++ List.replicate 400 1) j
      .restoreCsrVector ∧
    completed (smallCfg (countRam 2)) dirtySys (List.replicate 400 0 ++ List.replicate 400 1) j
      .restoreMtimeCmp :=
  (barrier_safe (by decide) (by decide) (by decide) dirtySys_atReset _).1 ⟨1, by decide +kernel⟩

end LibCheckpoint.Reset
