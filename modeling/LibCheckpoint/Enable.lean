import LibCheckpoint.Host
import LibCheckpoint.Masks

/-!
CSRs that are enabled by others: `henvcfg` by `menvcfg`, `hstateen` and `sstateen` by `mstateen`.

A bit of the enabled CSR is read-only zero while the same bit of the enabling one is zero, so what
is restored of it depends on the order of the two lists.
-/

namespace LibCheckpoint.Enable

open LibCheckpoint.Bytes LibCheckpoint.Rv64 LibCheckpoint.Csr LibCheckpoint.Masks
open LibCheckpoint.Registers LibCheckpoint.Restorer LibCheckpoint.Interleave LibCheckpoint.Phase
open LibCheckpoint.Exit LibCheckpoint.Vector LibCheckpoint.Host

/-! ### The rule -/

/-- A CSR whose bits in a mask are enabled by those of another one. -/
structure Gated where
  enable : CsrNum
  gated : CsrNum
  mask : Word
  ne : gated ≠ enable
  apart : ∀ c ∈ freeCsrs, c ≠ enable ∧ c ≠ gated

/-- The two CSRs of a gate, as they read. A write drops the bits that are not enabled, and a bit
reads zero from the moment on at which it is disabled. -/
def Gated.rule (g : Gated) (legal : CsrNum → Word → Prop) : Rule (Word × Word) where
  shows t f := f g.enable = t.1 ∧ f g.gated = t.2
  write t c w :=
    if c = g.enable then (w, t.2 &&& (w ||| ~~~g.mask))
    else if c = g.gated then (t.1, w &&& (t.1 ||| ~~~g.mask))
    else t
  legal c w := c = g.enable ∨ c = g.gated → legal c w
  mstatus w := by
    obtain ⟨he, hg⟩ := g.apart mstatusId (by decide)
    exact ⟨fun h => absurd h (not_or.mpr ⟨he, hg⟩), fun s => by rw [if_neg he, if_neg hg]⟩
  unseen c hc w s f h := by
    obtain ⟨he, hg⟩ := g.apart c hc
    exact ⟨(Function.update_of_ne he.symm _ _).trans h.1,
      (Function.update_of_ne hg.symm _ _).trans h.2⟩

/-! ### The gates of the lists -/

def csrHenvcfg : CsrNum := 0x60a
def csrMstateen (k : Fin 4) : CsrNum := 0x30c + BitVec.ofNat 12 k
def csrHstateen (k : Fin 4) : CsrNum := 0x60c + BitVec.ofNat 12 k
def csrSstateen (k : Fin 4) : CsrNum := 0x10c + BitVec.ofNat 12 k

lemma apart_of_all {e g : CsrNum} (h : (freeCsrs.all fun c => c ≠ e ∧ c ≠ g) = true) :
    ∀ c ∈ freeCsrs, c ≠ e ∧ c ≠ g :=
  fun c hc => of_decide_eq_true (List.all_eq_true.mp h c hc)

def envcfgMask : Word := 0xE000000000000000

def henvcfg : Gated where
  enable := csrMenvcfg
  gated := csrHenvcfg
  mask := envcfgMask
  ne := by decide
  apart := apart_of_all (by decide +kernel)

def hstateen (k : Fin 4) : Gated where
  enable := csrMstateen k
  gated := csrHstateen k
  mask := BitVec.allOnes 64
  ne := by revert k; decide
  apart := apart_of_all (by revert k; decide +kernel)

def sstateen (k : Fin 4) : Gated where
  enable := csrMstateen k
  gated := csrSstateen k
  mask := BitVec.allOnes 64
  ne := by revert k; decide
  apart := apart_of_all (by revert k; decide +kernel)

/-- The gates whose enabled CSR is in the list of `rvh_csr_restore`. -/
def hgates : List Gated := henvcfg :: (List.finRange 4).map hstateen

/-- The gates of which both CSRs are in the list of `restore_csr_vector`. -/
def sgates : List Gated := (List.finRange 4).map sstateen

def Host (legal : CsrNum → Word → Prop) (E : Env) : Prop :=
  ∀ g ∈ hgates ++ sgates, (g.rule legal).Obeyed E

/-- The saved values obey the rule: they are legal, and bits that are not enabled are zero. -/
structure Consistent (legal : CsrNum → Word → Prop) (val : CsrNum → Word) : Prop where
  legal : ∀ g ∈ hgates ++ sgates, legal g.enable (val g.enable) ∧ legal g.gated (val g.gated)
  zero : ∀ g ∈ hgates ++ sgates, val g.gated &&& g.mask &&& ~~~val g.enable = 0

/-! ### The order of the writes -/

variable (g : Gated) (legal : CsrNum → Word → Prop) (val : CsrNum → Word) (t : Word × Word)

abbrev inOrder (l : List CsrNum) : Prop :=
  (Rule.order true).filter (fun c => c = g.enable ∨ c = g.gated) = l

lemma restored_filter {l : List CsrNum} (h : inOrder g l) :
    (g.rule legal).restored true val t = writes (g.rule legal).write val l t := by
  rw [← h, Rule.restored]
  refine writes_filter (fun c s hc => ?_) _ t
  have hc' := of_decide_eq_false hc
  rw [not_or] at hc'
  simp [Gated.rule, hc'.1, hc'.2]

/-- Written before it is enabled, a CSR loses the bits of the mask. -/
lemma restored_early (h : inOrder g [g.gated, g.enable]) (ht : t.1 = 0) :
    (g.rule legal).restored true val t = (val g.enable, val g.gated &&& ~~~g.mask) := by
  have habsorb (w v m : Word) : w &&& ~~~m &&& (v ||| ~~~m) = w &&& ~~~m := by
    rw [BitVec.and_assoc, BitVec.and_or_distrib_left, BitVec.and_self]
    ext i hi
    cases h : m[i] <;> simp [h]
  rw [restored_filter g legal val t h]
  simp [Gated.rule, g.ne, ht, habsorb]

/-- Written after it has been enabled, a CSR keeps the bits that are enabled. -/
lemma restored_late (h : inOrder g [g.enable, g.gated]) :
    (g.rule legal).restored true val t =
      (val g.enable, val g.gated &&& (val g.enable ||| ~~~g.mask)) := by
  rw [restored_filter g legal val t h]
  simp [Gated.rule, g.ne]

lemma hgates_inOrder : ∀ g ∈ hgates, inOrder g [g.gated, g.enable] := by
  have hall : (hgates.all fun g => inOrder g [g.gated, g.enable]) = true := by decide +kernel
  exact fun g hg => of_decide_eq_true (List.all_eq_true.mp hall g hg)

lemma sgates_inOrder : ∀ g ∈ sgates, inOrder g [g.enable, g.gated] := by
  have hall : (sgates.all fun g => inOrder g [g.enable, g.gated]) = true := by decide +kernel
  exact fun g hg => of_decide_eq_true (List.all_eq_true.mp hall g hg)

/-! ### What is restored -/

variable {legal val} {cfg : Cfg} {M : ℕ} {s : Sys M}

def Restored (val : CsrNum → Word) (f : CsrFile) : Prop :=
  ∀ g ∈ hgates ++ sgates, f g.enable = val g.enable ∧ f g.gated = val g.gated

/-- The enabled CSRs of `rvh_csr_restore` have no bit that needs to be enabled. -/
def Bare (val : CsrNum → Word) : Prop :=
  val csrHenvcfg &&& envcfgMask = 0 ∧ ∀ k, val (csrHstateen k) = 0

lemma bare_iff : Bare val ↔ ∀ g ∈ hgates, val g.gated &&& g.mask = 0 := by
  simp only [Bare, hgates, henvcfg, hstateen, List.forall_mem_cons, List.forall_mem_map,
    List.mem_finRange, true_implies, BitVec.and_allOnes]

lemma restored_iff {f : CsrFile} (hc : Consistent legal val)
    (hearly : ∀ g ∈ hgates, f g.enable = val g.enable ∧ f g.gated = val g.gated &&& ~~~g.mask)
    (hlate : ∀ g ∈ sgates, f g.enable = val g.enable ∧
      f g.gated = val g.gated &&& (val g.enable ||| ~~~g.mask)) : Restored val f ↔ Bare val := by
  have hsgates (g : Gated) (hg : g ∈ sgates) : f g.gated = val g.gated := by
    rw [(hlate g hg).2, and_eq_self_iff, BitVec.not_or, BitVec.not_not,
      BitVec.and_comm (~~~_), ← BitVec.and_assoc]
    exact hc.zero g (List.mem_append_right _ hg)
  have hhgates (g : Gated) (hg : g ∈ hgates) :
      f g.gated = val g.gated ↔ val g.gated &&& g.mask = 0 := by
    rw [(hearly g hg).2, and_eq_self_iff, BitVec.not_not]
  rw [bare_iff]
  constructor
  · exact fun h g hg => (hhgates g hg).mp (h g (List.mem_append_left _ hg)).2
  · intro h g hg
    rcases List.mem_append.mp hg with hg | hg
    · exact ⟨(hearly g hg).1, (hhgates g hg).mpr (h g hg)⟩
    · exact ⟨(hlate g hg).1, hsgates g hg⟩

/-- **The CSRs that others enable**: with the hypervisor lists restored on a host where nothing is
enabled at first, `menvcfg`, `henvcfg` and the `stateen` CSRs read as saved if and only if the saved
`henvcfg` and `hstateen` have no bit that needs to be enabled. -/
theorem restored_iff_bare (hE : Host legal cfg.env) (hM : M ≤ 128) (h : AtEntry cfg s) {i : Fin M}
    (hrvh : (cfg.gates (BitVec.ofNat 32 i) ((s.loc i).arch.readCsr csrMisa)).rvhCouldRestore = true)
    (hc : Consistent legal (cfg.slotCsr (BitVec.ofNat 32 i)))
    (h0 : (s.loc i).arch.csr csrMenvcfg = 0 ∧ ∀ k, (s.loc i).arch.csr (csrMstateen k) = 0)
    {w : List (Fin M)} (h2 : 2 ≤ stage ((run (harts cfg) s w).loc i).pc) :
    Restored (cfg.slotCsr (BitVec.ofNat 32 i)) ((run (harts cfg) s w).loc i).arch.csr ↔
      Bare (cfg.slotCsr (BitVec.ofNat 32 i)) := by
  have hrun (g : Gated) (hg : g ∈ hgates ++ sgates) :=
    Rule.shows_run hM h (hE g hg) (i := i) (fun c _ hgc => by
      rcases hgc with rfl | rfl
      · exact (hc.legal g hg).1
      · exact (hc.legal g hg).2)
      (s := ((s.loc i).arch.csr g.enable, (s.loc i).arch.csr g.gated)) ⟨rfl, rfl⟩ h2
  simp only [hrvh] at hrun
  refine restored_iff hc (fun g hg => ?_) fun g hg => ?_
  · have hzero : (s.loc i).arch.csr g.enable = 0 := by
      have hall : ∀ g ∈ hgates, (s.loc i).arch.csr g.enable = 0 := by
        simpa [hgates, henvcfg, hstateen] using h0
      exact hall g hg
    have hshow := hrun g (List.mem_append_left _ hg)
    rw [restored_early _ _ _ _ (hgates_inOrder g hg) hzero] at hshow
    exact hshow
  · have hshow := hrun g (List.mem_append_right _ hg)
    rw [restored_late _ _ _ _ (sgates_inOrder g hg)] at hshow
    exact hshow

/-! ### A run of one hart -/

/-- The gate of a CSR: the CSR that enables it, and the mask. -/
def gateOf (x : CsrNum) : Option (CsrNum × Word) :=
  ((hgates ++ sgates).find? fun g => g.gated = x).map fun g => (g.enable, g.mask)

def gatedCsrw (f : CsrFile) (c : CsrNum) (w : Word) : CsrFile := fun x =>
  match gateOf x with
  | none => if x = c then w else f x
  | some (e, m) =>
    if c = e then f x &&& (w ||| ~~~m) else if x = c then w &&& (f e ||| ~~~m) else f x

lemma gatedCsrw_host (ram : Word → Byte) :
    Host (fun _ _ => True) (hostCfg gatedCsrw ram).env := by
  have hall : ((hgates ++ sgates).all fun g =>
      gateOf g.enable = none ∧ gateOf g.gated = some (g.enable, g.mask)) = true := by
    decide +kernel
  intro g hg c _ w _ t f ht
  obtain ⟨he, hm⟩ := of_decide_eq_true (List.all_eq_true.mp hall g hg)
  obtain ⟨h1, h2⟩ := ht
  simp only [Gated.rule, hostCfg, gatedCsrw, he, hm, h1, h2]
  by_cases hce : c = g.enable
  · simp [hce]
  · by_cases hcg : c = g.gated
    · simp [hcg, g.ne, g.ne.symm]
    · simp [hce, hcg, Ne.symm hce, Ne.symm hcg]

/-- Saved CSRs with the hypervisor extension on, the timer enabled for supervisors, and one value
of `henvcfg`. -/
def gatedSlots (h : Word) (c : CsrNum) : Word :=
  if c = csrMisa then misaH else if c = mstatusId then mstatusMpv
  else if c = csrMenvcfg then 0x8000000000000000 else if c = csrHenvcfg then h else 0

def hostFile (c : CsrNum) : Word := if c = csrMisa then misaH else 0

theorem restored_iff_bare_small :
    Restored ((hostCfg gatedCsrw (slotRam (gatedSlots 0))).slotCsr (BitVec.ofNat 32 (0 : Fin 1)))
      ((run (harts (hostCfg gatedCsrw (slotRam (gatedSlots 0)))) (soloSys hostFile)
        (List.replicate 500 0)).loc 0).arch.csr :=
  (restored_iff_bare (gatedCsrw_host _) (by decide) (soloSys_atEntry _ _ _) (by decide +kernel)
    ⟨fun _ _ => ⟨trivial, trivial⟩, by decide +kernel⟩ (by decide +kernel)
    (by decide +kernel)).mpr (by unfold Bare; decide +kernel)

/-- A saved `henvcfg` that lets guests use the timer is lost. -/
theorem not_gatesRestored_small : ¬ ∀ (legal : CsrNum → Word → Prop) (cfg : Cfg) (M : ℕ) (s : Sys M)
    (i : Fin M) (w : List (Fin M)), Host legal cfg.env → M ≤ 128 → AtEntry cfg s →
      (cfg.gates (BitVec.ofNat 32 i) ((s.loc i).arch.readCsr csrMisa)).rvhCouldRestore = true →
      Consistent legal (cfg.slotCsr (BitVec.ofNat 32 i)) →
      ((s.loc i).arch.csr csrMenvcfg = 0 ∧ ∀ k, (s.loc i).arch.csr (csrMstateen k) = 0) →
      2 ≤ stage ((run (harts cfg) s w).loc i).pc →
      Restored (cfg.slotCsr (BitVec.ofNat 32 i)) ((run (harts cfg) s w).loc i).arch.csr := by
  intro h
  have hall := h (fun _ _ => True) (hostCfg gatedCsrw (slotRam (gatedSlots 0x8000000000000000))) 1
    (soloSys hostFile) 0 (List.replicate 500 0) (gatedCsrw_host _) (by decide)
    (soloSys_atEntry _ _ _) (by decide +kernel) ⟨fun _ _ => ⟨trivial, trivial⟩, by decide +kernel⟩
    (by decide +kernel) (by decide +kernel)
  have hhenvcfg := (hall henvcfg (List.mem_append_left _ List.mem_cons_self)).2
  revert hhenvcfg
  decide +kernel

end LibCheckpoint.Enable
