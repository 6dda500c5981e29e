import LibCheckpoint.Reset

/-!
The build that pauses one hart: what becomes of the others.

A paused hart stays in `multicore_decode_restore`, and never arrives at the barrier that the others
wait at for as many harts as the checkpoint has.
-/

namespace LibCheckpoint.Pause

open LibCheckpoint.Bytes LibCheckpoint.Rv64 LibCheckpoint.Layout LibCheckpoint.Restorer
open LibCheckpoint.Interleave LibCheckpoint.Count LibCheckpoint.Phase LibCheckpoint.Effect
open LibCheckpoint.Barrier LibCheckpoint.Reset

variable {N : ℕ} {cfg : Cfg} {k : Fin N} {s : Sys N}

/-- **Pausing hart `k` does not block the others**: from every reachable state there is a
continuation in which all of them leave while hart `k` is in its loop. -/
def OthersLeave (cfg : Cfg) (k : Fin N) (s : Sys N) : Prop :=
  ∀ w, ∃ v, ((run (harts cfg) s (w ++ v)).loc k).pc = .stopped ∧
    ∀ j ≠ k, leaving ((run (harts cfg) s (w ++ v)).loc j) = true

/-- The points up to the loop of a paused hart. -/
def paused : Pc → Bool
  | .gcptCStart | .clearBss _ | .setBssLock | .waitBssLock | .enableGcptTrap
  | .multicoreDecodeRestore | .stopped => true
  | .mtPrintf s _ => s = .hello
  | _ => false

lemma paused_resume {c : Hart} {r : Word} (hstop : cfg.stopCpu = some c.cpuId)
    (h : paused c.pc = true) : paused (resume cfg c r).pc = true := by
  cases hp : c.pc with
  | mtPrintf s p =>
    obtain rfl : s = .hello := by simpa [paused, hp] using h
    obtain ⟨q, hres, ⟨p', rfl⟩ | ⟨-, rfl⟩⟩ := resume_print cfg c r hp
    all_goals simp [hres, paused, Site.next]
  | gcptCStart | clearBss | waitBssLock =>
    simp only [resume, hp]
    split <;> simp [paused, hp]
  | multicoreDecodeRestore => simp [resume, hp, hstop, paused]
  | setBssLock | enableGcptTrap | stopped => simp [resume, hp, paused]
  | _ => simp [paused, hp] at h

lemma stage_paused {p : Pc} (h : paused p = true) : stage p = 0 := by
  cases p with
  | mtPrintf s p =>
    obtain rfl : s = .hello := by simpa [paused] using h
    rfl
  | _ => first | rfl | simp [paused] at h

/-- The paused hart never comes to the barrier. -/
lemma paused_run (hstop : cfg.stopCpu = some (BitVec.ofNat 32 k)) (h : AtReset cfg N s)
    (w : List (Fin N)) : paused ((run (harts cfg) s w).loc k).pc = true :=
  (run_local (harts cfg) (P := fun i c => i = k → c.cpuId = BitVec.ofNat 32 k ∧ paused c.pc = true)
    (by rintro i rfl; exact ⟨h.cpuId i, by rw [h.pc i]; rfl⟩)
    (fun i c r hc hi => ⟨(resume_cpuId cfg c r).trans (hc hi).1,
      paused_resume (by rw [(hc hi).1, hstop]) (hc hi).2⟩) w k rfl).2

/-- **Nobody passes the barrier**: in no run does a hart get behind the wait loop. -/
theorem stage_lt_seven (hN : N < 2 ^ 31) (hstop : cfg.stopCpu = some (BitVec.ofNat 32 k))
    (h : AtReset cfg N s) (w : List (Fin N)) (j : Fin N) :
    stage ((run (harts cfg) s w).loc j).pc < 7 := by
  rcases h.run hN le_rfl w with hboot | hinv
  · rw [hboot.stage_eq_zero j]
    omega
  · by_contra hj
    -- `N` harts would have arrived, hart `k` among them
    have harrived := hinv.arrived j (Fin.pos k) (by omega)
    have hcard : count restored (run (harts cfg) s w).loc = Fintype.card (Fin N) :=
      le_antisymm (count_le_card _ _) (by rwa [Fintype.card_fin])
    have hk := all_of_count_eq_card hcard k
    simp [restored, stage_paused (paused_run hstop h w)] at hk

/-- **Pausing a hart blocks the others**: with two harts at least, none of them ever leaves. -/
theorem not_othersLeave (hN2 : 2 ≤ N) (hN : N < 2 ^ 31)
    (hstop : cfg.stopCpu = some (BitVec.ofNat 32 k)) (h : AtReset cfg N s) :
    ¬ OthersLeave cfg k s := by
  intro hleave
  obtain ⟨v, -, hv⟩ := hleave []
  have : Nontrivial (Fin N) := Fin.nontrivial_iff_two_le.mpr hN2
  obtain ⟨j, hj⟩ := exists_ne k
  have hlt := stage_lt_seven hN hstop h v j
  have hge : 9 ≤ stage ((run (harts cfg) s v).loc j).pc := of_decide_eq_true (hv j hj)
  omega

/-! ### Two harts -/

def pauseCfg : Cfg := { smallCfg (countRam 2) with stopCpu := some 1 }

lemma pauseCfg_atReset : AtReset pauseCfg 2 dirtySys where
  cpuId := dirtySys_atReset.cpuId
  reserve := dirtySys_atReset.reserve
  pc := dirtySys_atReset.pc
  bssLock := dirtySys_atReset.bssLock

theorem not_othersLeave_dirtySys : ¬ OthersLeave pauseCfg (1 : Fin 2) dirtySys :=
  not_othersLeave (by decide) (by decide) rfl pauseCfg_atReset

/-- Hart `0` waits for hart `1` for ever. -/
theorem not_othersLeave_small : ¬ ∀ (N : ℕ) (cfg : Cfg) (k : Fin N) (s : Sys N), 2 ≤ N →
    N < 2 ^ 31 → cfg.stopCpu = some (BitVec.ofNat 32 k) → AtReset cfg N s →
    OthersLeave cfg k s := by
  intro h
  obtain ⟨v, -, hv⟩ := h 2 pauseCfg 1 dirtySys (by decide) (by decide) rfl pauseCfg_atReset []
  have hlt := stage_lt_seven (by decide) (k := (1 : Fin 2)) rfl pauseCfg_atReset v 0
  have hge : 9 ≤ stage ((run (harts pauseCfg) dirtySys v).loc 0).pc :=
    of_decide_eq_true (hv 0 (by decide))
  omega

end LibCheckpoint.Pause
