import LibCheckpoint.Host
import LibCheckpoint.Outcome

/-!
The timer of supervisors: an interrupt is pending from the time in `stimecmp` on.

`stimecmp` is in no list of the restorer, so what a restored hart compares the clock with is what
it had at the entry.
-/

namespace LibCheckpoint.Timer

open LibCheckpoint.Bytes LibCheckpoint.Rv64 LibCheckpoint.Csr LibCheckpoint.Layout
open LibCheckpoint.Restorer LibCheckpoint.Interleave LibCheckpoint.Phase LibCheckpoint.Exit
open LibCheckpoint.Vector LibCheckpoint.Host LibCheckpoint.Outcome

/-- The timer of supervisors is compared with `stimecmp`. -/
def stce (f : CsrFile) : Bool := f csrMenvcfg &&& menvcfgStce != 0

/-- `mip.STIP` at a time: derived while `stce`, else as written. -/
def stip (f : CsrFile) (t : Word) : Bool :=
  if stce f then f csrStimecmp ≤ t else (f 0x344).getLsbD 5

def savedMtime (cfg : Cfg) (cpuId : BitVec 32) : Word := cfg.ld (cfg.layout cpuId).mtimeCptAddr

/-- A time that the clock shows after it has been restored. -/
def Later (m : Shared) (t : Word) : Prop := ∃ T, clint m mtimeReg = some T ∧ T ≤ t

/-- A host on which the two CSRs are of their own. -/
structure Host (legal : CsrNum → Word → Prop) (E : Env) : Prop where
  menvcfg : (Rule.plain csrMenvcfg (by decide) legal).Obeyed E
  stimecmp : (Rule.plain csrStimecmp (by decide) legal).Obeyed E

/-- Two deadlines that no clock from `T` on can tell apart. -/
def SameFrom (T d d' : Word) : Prop := d = d' ∨ d ≤ T ∧ d' ≤ T

lemma sameFrom_iff {T d d' : Word} :
    (∀ t, T ≤ t → decide (d ≤ t) = decide (d' ≤ t)) ↔ SameFrom T d d' := by
  simp only [decide_eq_decide, SameFrom, BitVec.le_def]
  constructor
  · intro h
    have hT := h T le_rfl
    have hd := h d
    have hd' := h d'
    by_cases hle : d.toNat ≤ T.toNat
    · exact .inr ⟨hle, hT.mp hle⟩
    · exact .inl (BitVec.eq_of_toNat_eq (by omega))
  · rintro (rfl | ⟨h, h'⟩) t ht
    · rfl
    · omega

variable {legal : CsrNum → Word → Prop} {cfg : Cfg} {M : ℕ} {s : Sys M}

lemma timer_run (hE : Host legal cfg.env) (hM : M ≤ 128) (h : AtEntry cfg s) {i : Fin M}
    (hlegal : legal csrMenvcfg (cfg.slotCsr (BitVec.ofNat 32 i) csrMenvcfg)) {w : List (Fin M)}
    (h2 : 2 ≤ stage ((run (harts cfg) s w).loc i).pc) :
    ((run (harts cfg) s w).loc i).arch.csr csrMenvcfg =
        cfg.slotCsr (BitVec.ofNat 32 i) csrMenvcfg ∧
      ((run (harts cfg) s w).loc i).arch.csr csrStimecmp = (s.loc i).arch.csr csrStimecmp := by
  have hin (rvh : Bool) : csrMenvcfg ∈ Rule.order rvh := by cases rvh <;> decide +kernel
  have hout (rvh : Bool) : csrStimecmp ∉ Rule.order rvh := by cases rvh <;> decide +kernel
  have hmenvcfg := Rule.shows_run hM h hE.menvcfg (fun c _ hc => hc ▸ hlegal) rfl h2
  rw [Rule.plain_of_mem (hin _)] at hmenvcfg
  have hunwritten : csrStimecmp ∉ writtenCsrs := by decide +kernel
  have hstimecmp := Rule.shows_run hM h hE.stimecmp
    (fun c hc hx => absurd (hx ▸ hc) hunwritten) rfl h2
  rw [Rule.plain_of_not_mem (hout _)] at hstimecmp
  exact ⟨hmenvcfg, hstimecmp⟩

/-- **The deadline of supervisors**: with the timer enabled in the checkpoint, once the CSRs of a
hart are restored, and the clock from the slot of some hart, the interrupt is pending at every later
time exactly as the saved deadline says if and only if the hart had that deadline at the entry, or
both deadlines are over at the saved time. -/
theorem stip_iff (hE : Host legal cfg.env) (hM : M ≤ 128) (h : AtEntry cfg s) {i : Fin M}
    (hlegal : legal csrMenvcfg (cfg.slotCsr (BitVec.ofNat 32 i) csrMenvcfg))
    (hstce : stce (cfg.slotCsr (BitVec.ofNat 32 i)) = true) {w : List (Fin M)} {k : Fin M}
    (h2 : 2 ≤ stage ((run (harts cfg) s w).loc i).pc)
    (hT : clint (run (harts cfg) s w).mem mtimeReg =
      some (savedMtime cfg (BitVec.ofNat 32 k))) :
    (∀ t, Later (run (harts cfg) s w).mem t → stip ((run (harts cfg) s w).loc i).arch.csr t =
      decide (cfg.slotCsr (BitVec.ofNat 32 i) csrStimecmp ≤ t)) ↔
      SameFrom (savedMtime cfg (BitVec.ofNat 32 k)) ((s.loc i).arch.csr csrStimecmp)
        (cfg.slotCsr (BitVec.ofNat 32 i) csrStimecmp) := by
  obtain ⟨hmenvcfg, hstimecmp⟩ := timer_run hE hM h hlegal h2
  have hon : stce ((run (harts cfg) s w).loc i).arch.csr = true := by
    rw [← hstce, stce, stce, hmenvcfg]
  have hlater (t : Word) : Later (run (harts cfg) s w).mem t ↔
      savedMtime cfg (BitVec.ofNat 32 k) ≤ t := by
    simp [Later, hT]
  rw [← sameFrom_iff]
  simp only [stip, hon, if_true, hstimecmp, hlater]

/-! ### A run of one hart -/

/-- Saved CSRs with the timer of supervisors on, and a deadline. -/
def timerSlots (c : CsrNum) : Word :=
  if c = csrMenvcfg then menvcfgStce else if c = csrStimecmp then 100 else 0

def timerCfg : Cfg := updateHost (slotRam timerSlots)

lemma timerCfg_host : Host (fun _ _ => True) timerCfg.env :=
  ⟨plain_updateHost _ _ _, plain_updateHost _ _ _⟩

lemma timerCfg_atEntry (f : CsrFile) : AtEntry timerCfg (soloSys f) := soloSys_atEntry _ _ _

def deadlineFile (d : Word) (c : CsrNum) : Word := if c = csrStimecmp then d else 0

theorem stip_iff_small :
    stip ((run (harts timerCfg) (soloSys (deadlineFile 100)) (List.replicate 400 0)).loc 0).arch.csr
      99 = decide (timerCfg.slotCsr (BitVec.ofNat 32 (0 : Fin 1)) csrStimecmp ≤ 99) :=
  (stip_iff timerCfg_host (by decide) (timerCfg_atEntry _) trivial (by decide +kernel)
    (by decide +kernel) (k := 0) (by decide +kernel)).mpr (.inl (by decide +kernel)) 99
    ⟨0, by decide +kernel, by decide⟩

/-- A deadline in the future is over at once. -/
theorem not_stip_small : ¬ ∀ (legal : CsrNum → Word → Prop) (cfg : Cfg) (M : ℕ) (s : Sys M)
    (i k : Fin M) (w : List (Fin M)), Host legal cfg.env → M ≤ 128 → AtEntry cfg s →
      legal csrMenvcfg (cfg.slotCsr (BitVec.ofNat 32 i) csrMenvcfg) →
      stce (cfg.slotCsr (BitVec.ofNat 32 i)) = true →
      2 ≤ stage ((run (harts cfg) s w).loc i).pc →
      clint (run (harts cfg) s w).mem mtimeReg = some (savedMtime cfg (BitVec.ofNat 32 k)) →
      ∀ t, Later (run (harts cfg) s w).mem t → stip ((run (harts cfg) s w).loc i).arch.csr t =
        decide (cfg.slotCsr (BitVec.ofNat 32 i) csrStimecmp ≤ t) := by
  intro h
  have hall := h (fun _ _ => True) timerCfg 1 (soloSys (deadlineFile 0)) 0 0 (List.replicate 400 0)
    timerCfg_host (by decide) (timerCfg_atEntry _) trivial (by decide +kernel) (by decide +kernel)
    (by decide +kernel) 0 ⟨0, by decide +kernel, by decide⟩
  revert hall
  decide +kernel

end LibCheckpoint.Timer
