import LibCheckpoint.Host
import LibCheckpoint.Masks

/-!
CSRs that are views of one another: the interrupt bits of a guest, and the rounding mode.

The lists of the restorer write the same bits up to four times, through windows that are shifted,
masked or delegated.
-/

namespace LibCheckpoint.Alias

open LibCheckpoint.Bytes LibCheckpoint.Rv64 LibCheckpoint.Csr LibCheckpoint.Masks
open LibCheckpoint.Registers LibCheckpoint.Restorer LibCheckpoint.Interleave LibCheckpoint.Phase
open LibCheckpoint.Exit LibCheckpoint.Host

def csrHideleg : CsrNum := 0x603
def csrHie : CsrNum := 0x604
def csrHip : CsrNum := 0x644
def csrHvip : CsrNum := 0x645
def csrVsie : CsrNum := 0x204
def csrVsip : CsrNum := 0x244
def csrMip : CsrNum := 0x344
def csrFrm : CsrNum := 0x002

/-! ### The rule -/

/-- The bits `2`, `6`, `10` and `12` of the interrupt enables. -/
def ieMask : Word := 0x1444

/-- The bits `2`, `6` and `10`, the interrupts of VS-mode. -/
def vsMask : Word := 0x444

/-- The bit `2`, the software interrupt of VS-mode. -/
def vssMask : Word := 0x4

/-- The same bit in `vsip`. -/
def ssMask : Word := 0x2

def frmMask : Word := 0xe0

/-- What the views show: the delegation, the interrupts enabled and pending, and `fcsr`. -/
@[ext]
structure Fields where
  hideleg : Word
  ie : Word
  ip : Word
  fcsr : Word

/-- How the CSRs show the fields. -/
structure Views (t : Fields) (f : CsrFile) : Prop where
  hideleg : f csrHideleg = t.hideleg
  mie : f csrMie &&& ieMask = t.ie
  hie : f csrHie = t.ie
  vsie : f csrVsie = (t.ie &&& (t.hideleg &&& vsMask)) >>> 1
  mip : f csrMip &&& vsMask = t.ip
  hip : f csrHip &&& vsMask = t.ip
  hvip : f csrHvip = t.ip
  vsip : f csrVsip &&& ssMask = ((t.ip &&& (t.hideleg &&& vssMask)) >>> 1) &&& ssMask
  fcsr : f csrFcsr = t.fcsr
  frm : f csrFrm = (t.fcsr &&& frmMask) >>> 5
  width : t.fcsr &&& 0xff = t.fcsr

/-- What a write through a view changes: the bits `6` and `10` of `hip` and `mip` are read-only,
and `vsie` and `vsip` reach the delegated bits only. -/
def Fields.write (t : Fields) (c : CsrNum) (w : Word) : Fields :=
  if c = csrHideleg then { t with hideleg := w }
  else if c = csrMie ∨ c = csrHie then { t with ie := w &&& ieMask }
  else if c = csrVsie then { t with ie := sel (t.hideleg &&& vsMask) (w <<< 1) t.ie }
  else if c = csrHvip then { t with ip := w &&& vsMask }
  else if c = csrMip ∨ c = csrHip then { t with ip := sel vssMask w t.ip }
  else if c = csrVsip then { t with ip := sel (t.hideleg &&& vssMask) (w <<< 1) t.ip }
  else if c = csrFcsr then { t with fcsr := w &&& 0xff }
  else if c = csrFrm then { t with fcsr := sel frmMask (w <<< 5) t.fcsr }
  else t

def viewCsrs : List CsrNum :=
  [csrHideleg, csrHie, csrHip, csrHvip, csrVsie, csrVsip, csrFcsr, csrFrm, csrMie, csrMip]

lemma view_apart {c : CsrNum} (hc : c ∈ freeCsrs) : c ∉ viewCsrs := by
  have hall : (freeCsrs.all fun c => c ∉ viewCsrs) = true := by decide +kernel
  exact of_decide_eq_true (List.all_eq_true.mp hall c hc)

lemma write_of_not_mem {c : CsrNum} (hc : c ∉ viewCsrs) (t : Fields) (w : Word) :
    t.write c w = t := by
  simp only [viewCsrs, List.mem_cons, List.not_mem_nil, or_false, not_or] at hc
  simp only [Fields.write, hc, or_self, if_false]

def rule (legal : CsrNum → Word → Prop) : Rule Fields where
  shows := Views
  write := Fields.write
  legal c w := c ∈ viewCsrs → legal c w
  mstatus w := by
    have hm : mstatusId ∉ viewCsrs := view_apart (by decide)
    exact ⟨fun h => absurd h hm, fun t => write_of_not_mem hm t w⟩
  unseen c hc w t f h := by
    have hne (x : CsrNum) (hx : x ∈ viewCsrs) : Function.update f c w x = f x :=
      Function.update_of_ne (by rintro rfl; exact view_apart hc hx) _ _
    constructor <;> first
      | exact h.width
      | (rw [hne _ (by decide)]
         first
          | exact h.hideleg | exact h.mie | exact h.hie | exact h.vsie | exact h.mip
          | exact h.hip | exact h.hvip | exact h.vsip | exact h.fcsr | exact h.frm)

/-! ### Writes of what the views show -/

variable {legal : CsrNum → Word → Prop} {val : CsrNum → Word} {t T : Fields}

lemma order_filter : (Rule.order true).filter (fun c => c ∈ viewCsrs) = viewCsrs := by
  decide +kernel

section
variable (t : Fields) (w : Word)

lemma write_hideleg : t.write csrHideleg w = { t with hideleg := w } := rfl
lemma write_mie : t.write csrMie w = { t with ie := w &&& ieMask } := rfl
lemma write_hie : t.write csrHie w = { t with ie := w &&& ieMask } := rfl
lemma write_vsie : t.write csrVsie w =
    { t with ie := sel (t.hideleg &&& vsMask) (w <<< 1) t.ie } := rfl
lemma write_hvip : t.write csrHvip w = { t with ip := w &&& vsMask } := rfl
lemma write_mip : t.write csrMip w = { t with ip := sel vssMask w t.ip } := rfl
lemma write_hip : t.write csrHip w = { t with ip := sel vssMask w t.ip } := rfl
lemma write_vsip : t.write csrVsip w =
    { t with ip := sel (t.hideleg &&& vssMask) (w <<< 1) t.ip } := rfl
lemma write_fcsr : t.write csrFcsr w = { t with fcsr := w &&& 0xff } := rfl
lemma write_frm : t.write csrFrm w = { t with fcsr := sel frmMask (w <<< 5) t.fcsr } := rfl

end

lemma delegated_shift {m : Word} (hm : m &&& (BitVec.allOnes 64 <<< 1) = m) (d : Word) :
    d &&& m &&& (BitVec.allOnes 64 <<< 1) = d &&& m := by
  rw [BitVec.and_assoc, hm]

lemma sel_vsip (h : Views T val) :
    sel (T.hideleg &&& vssMask) (val csrVsip <<< 1) T.ip = T.ip := by
  refine sel_eq_right ?_
  have hbit (x : Word) : x <<< 1 &&& vssMask = (x &&& ssMask) <<< 1 := by
    rw [BitVec.shiftLeft_and_distrib]
    rfl
  have hmask : T.hideleg &&& vssMask &&& vssMask = T.hideleg &&& vssMask := by
    rw [BitVec.and_assoc, BitVec.and_self]
  calc val csrVsip <<< 1 &&& (T.hideleg &&& vssMask)
      = (val csrVsip &&& ssMask) <<< 1 &&& (T.hideleg &&& vssMask) := by
        rw [← hbit, BitVec.and_assoc, BitVec.and_comm vssMask, hmask]
    _ = (T.ip &&& (T.hideleg &&& vssMask)) &&& (T.hideleg &&& vssMask) := by
        rw [h.vsip, ← hbit, window_shiftLeft (delegated_shift (by decide) _), BitVec.and_assoc,
          BitVec.and_comm vssMask, hmask]
    _ = T.ip &&& (T.hideleg &&& vssMask) := by rw [BitVec.and_assoc, BitVec.and_self]

lemma sel_mip (h : Views T val) : sel vssMask (val csrMip) T.ip = T.ip := by
  refine sel_eq_right ?_
  rw [← h.mip, BitVec.and_assoc]
  rfl

lemma sel_frm (h : Views T val) : sel frmMask (val csrFrm <<< 5) T.fcsr = T.fcsr := by
  refine sel_eq_right ?_
  rw [h.frm, window_shiftLeft (by decide), BitVec.and_assoc, BitVec.and_self]

/-- **The last write through each view is right**: whatever the fields are at first, the writes of
what the views show of some fields lead to them. -/
lemma restored_eq (h : Views T val) : (rule legal).restored true val t = T := by
  have hip : T.ip &&& vsMask = T.ip := by rw [← h.mip, BitVec.and_assoc, BitVec.and_self]
  rw [Rule.restored, writes_filter (p := fun c => c ∈ viewCsrs), order_filter]
  · simp only [viewCsrs, writes_cons, writes_nil, rule, write_hideleg, write_hie, write_hip,
      write_hvip, write_vsie, write_vsip, write_fcsr, write_frm, write_mie, write_mip, h.hideleg,
      h.hvip, h.fcsr, h.mie, h.width, hip, sel_vsip h, sel_mip h, sel_frm h]
  · exact fun c s hc => write_of_not_mem (of_decide_eq_false hc) s _

/-! ### What is restored -/

variable {cfg : Cfg} {M : ℕ} {s : Sys M}

/-- The views read the same, the shared ones in the shared bits. -/
structure SameViews (val f : CsrFile) : Prop where
  hideleg : f csrHideleg = val csrHideleg
  hie : f csrHie = val csrHie
  vsie : f csrVsie = val csrVsie
  hvip : f csrHvip = val csrHvip
  hip : f csrHip &&& vsMask = val csrHip &&& vsMask
  vsip : f csrVsip &&& ssMask = val csrVsip &&& ssMask
  mie : f csrMie &&& ieMask = val csrMie &&& ieMask
  mip : f csrMip &&& vsMask = val csrMip &&& vsMask
  fcsr : f csrFcsr = val csrFcsr
  frm : f csrFrm = val csrFrm

lemma Views.same {f : CsrFile} (hf : Views T f) (hval : Views T val) : SameViews val f where
  hideleg := hf.hideleg.trans hval.hideleg.symm
  hie := hf.hie.trans hval.hie.symm
  vsie := hf.vsie.trans hval.vsie.symm
  hvip := hf.hvip.trans hval.hvip.symm
  hip := hf.hip.trans hval.hip.symm
  vsip := hf.vsip.trans hval.vsip.symm
  mie := hf.mie.trans hval.mie.symm
  mip := hf.mip.trans hval.mip.symm
  fcsr := hf.fcsr.trans hval.fcsr.symm
  frm := hf.frm.trans hval.frm.symm

/-- **The views agree**: with both lists restored, the views read as in the architectural state
that was saved, whatever they read at the entry. -/
theorem views_restored (hE : (rule legal).Obeyed cfg.env) (hM : M ≤ 128) (h : AtEntry cfg s)
    {i : Fin M}
    (hrvh : (cfg.gates (BitVec.ofNat 32 i) ((s.loc i).arch.readCsr csrMisa)).rvhCouldRestore = true)
    (hlegal : ∀ c ∈ viewCsrs, legal c (cfg.slotCsr (BitVec.ofNat 32 i) c))
    (hsaved : Views T (cfg.slotCsr (BitVec.ofNat 32 i))) (hentry : Views t (s.loc i).arch.csr)
    {w : List (Fin M)} (h2 : 2 ≤ stage ((run (harts cfg) s w).loc i).pc) :
    SameViews (cfg.slotCsr (BitVec.ofNat 32 i)) ((run (harts cfg) s w).loc i).arch.csr := by
  have hshow := Rule.shows_run hM h hE (i := i) (fun c _ => hlegal c) hentry h2
  rw [hrvh, restored_eq hsaved] at hshow
  exact Views.same hshow hsaved

/-! ### A run of one hart -/

structure Fields.Fit (t : Fields) : Prop where
  ie : t.ie &&& ieMask = t.ie
  ip : t.ip &&& vsMask = t.ip
  fcsr : t.fcsr &&& 0xff = t.fcsr

lemma sel_fit {m k w b : Word} (hm : m &&& k = m) (hb : b &&& k = b) :
    sel m w b &&& k = sel m w b := by
  rw [sel, BitVec.and_or_distrib_right, BitVec.and_assoc, hm, BitVec.and_assoc,
    BitVec.and_comm _ k, ← BitVec.and_assoc, hb]

lemma Fields.Fit.write (h : t.Fit) (c : CsrNum) (w : Word) : (t.write c w).Fit := by
  have hvs : vsMask &&& ieMask = vsMask := by decide
  have hvss : vssMask &&& vsMask = vssMask := by decide
  unfold Fields.write
  split_ifs
  · exact ⟨h.ie, h.ip, h.fcsr⟩
  · exact ⟨by rw [BitVec.and_assoc, BitVec.and_self], h.ip, h.fcsr⟩
  · exact ⟨sel_fit (by rw [BitVec.and_assoc, hvs]) h.ie, h.ip, h.fcsr⟩
  · exact ⟨h.ie, by rw [BitVec.and_assoc, BitVec.and_self], h.fcsr⟩
  · exact ⟨h.ie, sel_fit hvss h.ip, h.fcsr⟩
  · exact ⟨h.ie, sel_fit (by rw [BitVec.and_assoc, hvss]) h.ip, h.fcsr⟩
  · exact ⟨h.ie, h.ip, by rw [BitVec.and_assoc, BitVec.and_self]⟩
  · exact ⟨h.ie, h.ip, sel_fit (by decide) h.fcsr⟩
  · exact h

def viewFile (t : Fields) (g : CsrFile) (x : CsrNum) : Word :=
  if x = csrHideleg then t.hideleg
  else if x = csrMie then sel ieMask t.ie (g x)
  else if x = csrHie then t.ie
  else if x = csrVsie then (t.ie &&& (t.hideleg &&& vsMask)) >>> 1
  else if x = csrMip ∨ x = csrHip then sel vsMask t.ip (g x)
  else if x = csrHvip then t.ip
  else if x = csrVsip then (t.ip &&& (t.hideleg &&& vssMask)) >>> 1
  else if x = csrFcsr then t.fcsr
  else if x = csrFrm then (t.fcsr &&& frmMask) >>> 5
  else g x

lemma sel_and_self {m a b : Word} (ha : a &&& m = a) : sel m a b &&& m = a := by
  rw [sel, BitVec.and_or_distrib_right, BitVec.and_assoc, BitVec.and_self, BitVec.and_assoc,
    BitVec.not_and_self, ha]
  simp

lemma views_viewFile (h : t.Fit) (g : CsrFile) : Views t (viewFile t g) where
  hideleg := rfl
  mie := sel_and_self h.ie
  hie := rfl
  vsie := rfl
  mip := sel_and_self h.ip
  hip := sel_and_self h.ip
  hvip := rfl
  vsip := rfl
  fcsr := rfl
  frm := rfl
  width := h.fcsr

def viewCsrw (f : CsrFile) (c : CsrNum) (w : Word) : CsrFile :=
  viewFile (Fields.write ⟨f csrHideleg, f csrHie, f csrHvip, f csrFcsr⟩ c w) (Function.update f c w)

lemma viewCsrw_obeyed (ram : Word → Byte) :
    (rule fun _ _ => True).Obeyed (hostCfg viewCsrw ram).env := by
  intro c _ w _ t f h
  have hfields : (⟨f csrHideleg, f csrHie, f csrHvip, f csrFcsr⟩ : Fields) = t :=
    Fields.ext h.hideleg h.hie h.hvip h.fcsr
  have hfit : t.Fit := by
    refine ⟨?_, ?_, h.width⟩
    · rw [← h.mie, BitVec.and_assoc, BitVec.and_self]
    · rw [← h.mip, BitVec.and_assoc, BitVec.and_self]
  change Views (t.write c w) (viewCsrw f c w)
  rw [viewCsrw, hfields]
  exact views_viewFile (hfit.write c w) _

/-- A guest with two of its interrupts delegated, one of them pending. -/
def savedFields : Fields := ⟨0x44, 0x1044, 0x4, 0x60⟩

def savedFile : CsrFile :=
  viewFile savedFields fun c =>
    if c = csrMisa then misaH else if c = mstatusId then mstatusMpv else 0

def entryFields : Fields := ⟨0x400, 0x400, 0x440, 0x1f⟩

def entryFile : CsrFile := viewFile entryFields fun c => if c = csrMisa then misaH else 0

def viewCfg : Cfg := hostCfg viewCsrw (slotRam savedFile)

lemma viewCfg_obeyed : (rule fun _ _ => True).Obeyed viewCfg.env := viewCsrw_obeyed _

lemma viewCfg_saved : Views savedFields (viewCfg.slotCsr (BitVec.ofNat 32 (0 : Fin 1))) := by
  constructor <;> decide +kernel

lemma viewCfg_atEntry : AtEntry viewCfg (soloSys entryFile) := soloSys_atEntry _ _ _

theorem views_restored_small :
    SameViews (viewCfg.slotCsr (BitVec.ofNat 32 (0 : Fin 1)))
      ((run (harts viewCfg) (soloSys entryFile) (List.replicate 500 0)).loc 0).arch.csr :=
  views_restored viewCfg_obeyed (by decide) viewCfg_atEntry (by decide +kernel)
    (fun _ _ => trivial) viewCfg_saved
    (views_viewFile (t := entryFields) ⟨by decide, by decide, by decide⟩ _)
    (by decide +kernel)

end LibCheckpoint.Alias
