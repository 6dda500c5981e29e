import LibCheckpoint.Host

/-!
The hypervisor and VS-level CSRs that carry the context of a guest.

`checkpoint_ext_check` lets `rvh_csr_restore` run for a checkpoint that was taken in a guest: both
sides have the extension, and the saved `mstatus` has `MPV` set.
-/

namespace LibCheckpoint.Hypervisor

open LibCheckpoint.Bytes LibCheckpoint.Rv64 LibCheckpoint.Csr LibCheckpoint.Layout
open LibCheckpoint.Restorer LibCheckpoint.Interleave LibCheckpoint.Phase LibCheckpoint.Exit
open LibCheckpoint.Host

/-- `hstatus`, `hedeleg`, `hideleg`, `hcounteren`, `hgatp`, `htimedelta`; `vsstatus`, `vstvec`,
`vsscratch`, `vsepc`, `vscause`, `vstval`, `vsatp`; `mtval2` and `mtinst`. -/
def guestCsrs : List CsrNum :=
  [0x600, 0x602, 0x603, 0x606, 0x680, 0x605, 0x200, 0x205, 0x240, 0x241, 0x242, 0x243, 0x280,
    0x34b, 0x34a]

lemma guest_apart {x : CsrNum} (hx : x ∈ guestCsrs) : x ∉ freeCsrs := by
  have hall : (guestCsrs.all fun x => x ∉ freeCsrs) = true := by decide +kernel
  exact of_decide_eq_true (List.all_eq_true.mp hall x hx)

/-- The CSRs of the guest are written by `rvh_csr_restore` only. -/
lemma guest_order {x : CsrNum} (hx : x ∈ guestCsrs) (rvh : Bool) :
    x ∈ Rule.order rvh ↔ rvh = true := by
  have hall : (guestCsrs.all fun x => x ∈ Rule.order true ∧ x ∉ Rule.order false) = true := by
    decide +kernel
  obtain ⟨h1, h0⟩ := of_decide_eq_true (List.all_eq_true.mp hall x hx)
  cases rvh <;> simp [h1, h0]

/-- A host on which each of the CSRs is one of its own. -/
def Host (legal : CsrNum → Word → Prop) (E : Env) : Prop :=
  ∀ x (hx : x ∈ guestCsrs), (Rule.plain x (guest_apart hx) legal).Obeyed E

variable {legal : CsrNum → Word → Prop} {cfg : Cfg} {M : ℕ} {s : Sys M}

lemma rvhCouldRestore_eq {cpuId : BitVec 32} {hostMisa : Word}
    (hcpt : cfg.slotCsr cpuId csrMisa &&& misaH ≠ 0) (hhost : hostMisa &&& misaH ≠ 0) :
    (cfg.gates cpuId hostMisa).rvhCouldRestore =
      decide (cfg.slotCsr cpuId mstatusId &&& mstatusMpv ≠ 0) := by
  have hboth : bothHave (cfg.slotCsr cpuId csrMisa) hostMisa misaH = true :=
    Bool.and_eq_true_iff.mpr ⟨bne_iff_ne.mpr hcpt, bne_iff_ne.mpr hhost⟩
  have hgate : (cfg.gates cpuId hostMisa).rvhCouldRestore =
      (bothHave (cfg.slotCsr cpuId csrMisa) hostMisa misaH &&
        cfg.slotCsr cpuId mstatusId &&& mstatusMpv != 0) := rfl
  rw [hgate, hboth, Bool.true_and, bne, decide_not, beq_eq_decide]

/-- **The context of a guest**: with the extension on both sides, the CSRs are restored for a
checkpoint with `MPV` set, and for any other they stay what they were at the entry. -/
theorem guest_restored (hE : Host legal cfg.env) (hM : M ≤ 128) (h : AtEntry cfg s) {i : Fin M}
    (hcpt : cfg.slotCsr (BitVec.ofNat 32 i) csrMisa &&& misaH ≠ 0)
    (hhost : (s.loc i).arch.csr csrMisa &&& misaH ≠ 0)
    (hlegal : ∀ x ∈ guestCsrs, legal x (cfg.slotCsr (BitVec.ofNat 32 i) x)) {w : List (Fin M)}
    (h2 : 2 ≤ stage ((run (harts cfg) s w).loc i).pc) : ∀ x ∈ guestCsrs,
      ((run (harts cfg) s w).loc i).arch.csr x =
        if cfg.slotCsr (BitVec.ofNat 32 i) mstatusId &&& mstatusMpv ≠ 0
        then cfg.slotCsr (BitVec.ofNat 32 i) x else (s.loc i).arch.csr x := by
  intro x hx
  have hgate : (cfg.gates (BitVec.ofNat 32 i)
      ((s.loc i).arch.readCsr csrMisa)).rvhCouldRestore = _ := rvhCouldRestore_eq hcpt hhost
  have hshow := Rule.shows_run hM h (hE x hx) (fun c _ hc => hc ▸ hlegal x hx) rfl h2
  rw [hgate] at hshow
  split_ifs with hmpv
  · rw [decide_eq_true hmpv] at hshow
    rwa [Rule.plain_of_mem ((guest_order hx true).mpr rfl)] at hshow
  · rw [decide_eq_false hmpv, Rule.plain_of_not_mem (by simp [guest_order hx])] at hshow
    exact hshow

/-! ### A run of one hart -/

def guestSlots (mstatus : Word) (c : CsrNum) : Word :=
  if c = csrMisa then misaH else if c = mstatusId then mstatus else if c = 0x680 then 1 else 0

def guestCfg (mstatus : Word) : Cfg := updateHost (slotRam (guestSlots mstatus))

def guestFile (c : CsrNum) : Word := if c = csrMisa then misaH else 0

lemma guestCfg_host (mstatus : Word) : Host (fun _ _ => True) (guestCfg mstatus).env :=
  fun x hx => plain_updateHost _ x (guest_apart hx)

lemma guest_atEntry (mstatus : Word) : AtEntry (guestCfg mstatus) (soloSys guestFile) :=
  soloSys_atEntry _ _ _

theorem guest_restored_small :
    ((run (harts (guestCfg mstatusMpv)) (soloSys guestFile) (List.replicate 500 0)).loc 0).arch.csr
      0x680 = 1 := by
  have h := guest_restored (guestCfg_host mstatusMpv) (by decide) (guest_atEntry mstatusMpv)
    (i := 0) (by decide +kernel) (by decide +kernel) (fun _ _ => trivial)
    (w := List.replicate 500 0) (by decide +kernel) 0x680 (by decide)
  exact h.trans (by decide +kernel)

/-- The guest that a hypervisor has descheduled is lost. -/
theorem not_guestRestored_small : ¬ ∀ (legal : CsrNum → Word → Prop) (cfg : Cfg) (M : ℕ) (s : Sys M)
    (i : Fin M) (w : List (Fin M)), Host legal cfg.env → M ≤ 128 → AtEntry cfg s →
      cfg.slotCsr (BitVec.ofNat 32 i) csrMisa &&& misaH ≠ 0 →
      (s.loc i).arch.csr csrMisa &&& misaH ≠ 0 →
      (∀ x ∈ guestCsrs, legal x (cfg.slotCsr (BitVec.ofNat 32 i) x)) →
      2 ≤ stage ((run (harts cfg) s w).loc i).pc →
      ∀ x ∈ guestCsrs, ((run (harts cfg) s w).loc i).arch.csr x =
        cfg.slotCsr (BitVec.ofNat 32 i) x := by
  intro h
  have hall := h (fun _ _ => True) (guestCfg 0) 1 (soloSys guestFile) 0 (List.replicate 400 0)
    (guestCfg_host 0) (by decide) (guest_atEntry 0) (by decide +kernel) (by decide +kernel)
    (fun _ _ => trivial) (by decide +kernel)
  have hhgatp := hall 0x680 (by decide)
  revert hhgatp
  decide +kernel

end LibCheckpoint.Hypervisor
