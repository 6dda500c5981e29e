import LibCheckpoint.Host
import LibCheckpoint.Solo

/-!
The extensions that the instructions of the restorer need, and whether the host has them.

`checkpoint_ext_check` asks for either of D and F at once, and `restore_csr_vector` is called for
every checkpoint.
-/

namespace LibCheckpoint.Extension

open LibCheckpoint.Bytes LibCheckpoint.Rv64 LibCheckpoint.Csr LibCheckpoint.Asm
open LibCheckpoint.Layout LibCheckpoint.Jal LibCheckpoint.Restorer LibCheckpoint.Interleave
open LibCheckpoint.Phase LibCheckpoint.Path LibCheckpoint.Exit LibCheckpoint.Solo
open LibCheckpoint.Host

inductive Ext
  | v | h | d | f
  deriving DecidableEq

def Ext.bit : Ext → Word
  | .v => misaV
  | .h => misaH
  | .d => 0x8
  | .f => 0x20

def has (misa : Word) (e : Ext) : Bool := misa &&& e.bit != 0

def need : Instr → Option Ext
  | .vsetvl _ _ _ | .vl1re64 _ _ => some .v
  | .fld _ _ _ => some .d
  | .csrw c _ | .csrs c _ =>
    if c ∈ hcsrs.map Prod.snd then some .h else if c = csrFcsr ∨ c = 0x002 then some .f else none
  | _ => none

def Routine.needs : Routine → Option Ext
  | .rvhCsrRestore => some .h
  | .rvvRestore => some .v
  | .restoreFloatVector => some .d
  | .restoreCsrVector => some .f
  | _ => none

variable {cfg : Cfg}

lemma needs_early {q : Routine} {e : Ext} (h : Routine.needs q = some e) : asmStage q = 1 := by
  cases q <;> first | rfl | cases h

lemma need_of_mem {q : Routine} {x : Instr} (hx : x ∈ q.code cfg) {e : Ext}
    (he : need x = some e) : Routine.needs q = some e := by
  have hall : (q.code cfg).all (fun x => need x = none ∨ need x = Routine.needs q) = true := by
    cases q with
    | jumpToCore => simp [Routine.code, Asm.jumpToCore, need]
    | _ =>
      simp only [Routine.code]
      decide +kernel
  rcases of_decide_eq_true (List.all_eq_true.mp hall x hx) with h | h
  · rw [h] at he
    cases he
  · rw [← h, he]

/-! ### The gates -/

section
variable {cpuId : BitVec 32} {misa : Word}

lemma has_of_bothHave {m : Word} {e : Ext} (h : bothHave m misa e.bit = true) : has misa e = true :=
  (Bool.and_eq_true_iff.mp h).2

lemma stateOn_fs (m : Word) :
    stateOn m mstatusFsInitial mstatusFsClean mstatusFsDirty = (m &&& mstatusFs != 0) := by
  have hsplit : mstatusFs = BitVec.twoPow 64 13 ||| BitVec.twoPow 64 14 := by decide
  have h13 : mstatusFsInitial = BitVec.twoPow 64 13 := by decide
  have h14 : mstatusFsClean = BitVec.twoPow 64 14 := by decide
  rw [stateOn, show mstatusFsDirty = mstatusFs from rfl, hsplit, h13, h14,
    BitVec.and_or_distrib_left, BitVec.and_twoPow, BitVec.and_twoPow]
  cases m.getLsbD 13 <;> cases m.getLsbD 14 <;> decide

/-- On a host with F the gate of the floating-point registers is open whenever the checkpoint has
D or F, and has it on. -/
lemma rvf_eq_false_iff (hf : has misa .f = true) : (cfg.gates cpuId misa).rvfCouldRestore = false ↔
    cfg.slotCsr cpuId csrMisa &&& misaDf = 0 ∨ cfg.slotCsr cpuId mstatusId &&& mstatusFs = 0 := by
  have hgate : (cfg.gates cpuId misa).rvfCouldRestore =
      ((cfg.slotCsr cpuId csrMisa &&& misaDf != 0 && misa &&& misaDf != 0) &&
        stateOn (cfg.slotCsr cpuId mstatusId) mstatusFsInitial mstatusFsClean mstatusFsDirty) := rfl
  have hhost : (misa &&& misaDf != 0) = true := by
    rw [bne_iff_ne]
    intro h0
    have hsub : misa &&& Ext.f.bit = misa &&& misaDf &&& Ext.f.bit := by
      rw [BitVec.and_assoc]
      rfl
    rw [has, bne_iff_ne, hsub, h0] at hf
    exact hf (BitVec.zero_and)
  rw [hgate, hhost, stateOn_fs, Bool.and_true, Bool.and_eq_false_iff]
  simp only [bne_eq_false_iff_eq]

lemma has_of_calls {q : Routine} {e : Ext} (hq : Routine.needs q = some e)
    (hc : calls (cfg.gates cpuId misa) q = true) (he : e = .v ∨ e = .h) : has misa e = true := by
  cases q with
  | rvhCsrRestore =>
    obtain rfl : Ext.h = e := Option.some.inj hq
    exact has_of_bothHave (Bool.and_eq_true_iff.mp hc).1
  | rvvRestore =>
    obtain rfl : Ext.v = e := Option.some.inj hq
    exact has_of_bothHave (Bool.and_eq_true_iff.mp hc).1
  | restoreFloatVector =>
    obtain rfl : Ext.d = e := Option.some.inj hq
    rcases he with he | he <;> cases he
  | restoreCsrVector =>
    obtain rfl : Ext.f = e := Option.some.inj hq
    rcases he with he | he <;> cases he
  | _ => cases hq

end

/-! ### The runs -/

variable {M : ℕ} {s : Sys M}

variable (cfg s) in
/-- A hart executes no instruction of an extension that its host lacks. -/
def Supported (i : Fin M) : Prop :=
  ∀ w q x l, ((run (harts cfg) s w).loc i).pc = .asm q (x :: l) →
    ∀ e, need x = some e → has ((s.loc i).arch.readCsr csrMisa) e = true

/-- The instructions whose routine is let in are supported, if those of the two routines without a
proper gate are. -/
lemma supported_of (i : Fin M) (hp : (s.loc i).pc = .readAllCpuNum)
    (h : badImm cfg (s.loc i).cpuId = true ∨
      has ((s.loc i).arch.readCsr csrMisa) .f = true ∧
        (has ((s.loc i).arch.readCsr csrMisa) .d = true ∨
          (gatesOf cfg (s.loc i)).rvfCouldRestore = false)) : Supported cfg s i := by
  intro w q x l hpc e he
  have hneed {l' : List Instr} (hsuf : x :: l <:+ l') (hl' : l' = q.code cfg) :
      Routine.needs q = some e := by
    subst hl'
    exact need_of_mem (hsuf.subset List.mem_cons_self) he
  rcases (way_run cfg i hp w).2 with ⟨hs, -, -⟩ | ⟨q', hc, -, -, -, -⟩ |
    ⟨q', u, l', hq, h1, hcode, -, hcalls, hg, hbad⟩ | ⟨h2, -, hcode, -⟩
  · simp [hpc, startPoint] at hs
  · simp [hpc] at hc
  · -- Before the barrier a routine is called with its gate open, or needs F only.
    obtain ⟨rfl, rfl⟩ := Pc.asm.inj (hpc.symm.trans hq)
    have hneeds := hneed (List.suffix_append u _) hcode.symm
    rw [hg] at hcalls
    rcases h with hbad' | ⟨hf, hd⟩
    · rw [hbad] at hbad'
      cases hbad'
    · cases e with
      | v => exact has_of_calls hneeds hcalls (.inl rfl)
      | h => exact has_of_calls hneeds hcalls (.inr rfl)
      | f => exact hf
      | d =>
        -- Only the loads of `restore_float_vector` need D.
        obtain rfl : q = .restoreFloatVector := by
          cases q <;> first | rfl | cases hneeds
        rcases hd with hd | hclosed
        · exact hd
        · have hopened : (gatesOf cfg (s.loc i)).rvfCouldRestore = true := hcalls
          rw [hclosed] at hopened
          cases hopened
  · have hneeds := hneed (hcode q _ hpc) rfl
    have h1 := needs_early hneeds
    simp [hpc, h1] at h2

lemma Supported.at (i : Fin M) (hs : Supported cfg s i) (hp : (s.loc i).pc = .readAllCpuNum)
    (hbad : badImm cfg (s.loc i).cpuId = false) {q : Routine} (h1 : callStage q = 1)
    (hg : calls (gatesOf cfg (s.loc i)) q = true)
    {l t : List Instr} {x : Instr} (hcode : q.code cfg = l ++ x :: t)
    (hl : l.all (fun i => !i.isStore) = true) {e : Ext} (he : need x = some e) :
    has ((s.loc i).arch.readCsr csrMisa) e = true := by
  obtain ⟨w, hw⟩ := exists_run i hp hbad h1 hg hcode hl
  exact hs w q x t (by rw [hw]; rfl) e he

/-- **Which hosts support the restore**: a hart executes only instructions of extensions that its
host has if and only if the host has F, and D too when the checkpoint has floating-point registers
to load, or the hart stops at a bad offset. -/
theorem supported_iff (i : Fin M) (hp : (s.loc i).pc = .readAllCpuNum) : Supported cfg s i ↔
    badImm cfg (s.loc i).cpuId = true ∨ has ((s.loc i).arch.readCsr csrMisa) .f = true ∧
      (has ((s.loc i).arch.readCsr csrMisa) .d = true ∨
        cfg.slotCsr (s.loc i).cpuId csrMisa &&& misaDf = 0 ∨
        cfg.slotCsr (s.loc i).cpuId mstatusId &&& mstatusFs = 0) := by
  constructor
  · intro hs
    by_cases hbad : badImm cfg (s.loc i).cpuId = true
    · exact .inl hbad
    rw [Bool.not_eq_true] at hbad
    have hf := hs.at i hp hbad (q := .restoreCsrVector) rfl rfl
      (l := [.mv t0 a0] ++ slotLoad csrFcsr t1 ++ [.li t0 mstatusFs, .csrs mstatusId t0])
      (x := .csrw csrFcsr t1) (t := [.mv t0 a0] ++ csrs.flatMap csrsRestore ++ [.li a0 1])
      rfl rfl (e := .f) (by decide)
    refine .inr ⟨hf, ?_⟩
    -- with the gate open the first `fld` is reached
    rw [← rvf_eq_false_iff hf]
    by_contra hd
    rw [not_or, Bool.not_eq_false] at hd
    exact hd.1 (hs.at i hp hbad (q := .restoreFloatVector) rfl hd.2
      (l := [.mv t0 a0, storeMstatusState t3, .li t1 mstatusFsDirty, .csrs mstatusId t1])
      (x := .fld 0 0 t0) (t := ((List.finRange 32).drop 1).map
        (fun r => .fld r (BitVec.ofNat 12 (r * 8)) t0) ++ [restoreMstatusState t3, .li a0 1])
      rfl rfl (e := .d) rfl)
  · rintro (hbad | ⟨hf, hd⟩)
    · exact supported_of i hp (.inl hbad)
    · exact supported_of i hp (.inr ⟨hf, hd.imp_right (rvf_eq_false_iff hf).mpr⟩)

/-! ### A run of one hart -/

def misaFile (misa : Word) (c : CsrNum) : Word := if c = csrMisa then misa else 0

theorem supported_iff_small :
    Supported (updateHost (slotRam fun _ => 0)) (soloSys (misaFile 0x20)) 0 :=
  (supported_iff 0 rfl).mpr (.inr ⟨by decide +kernel, .inr (.inl (by decide +kernel))⟩)

/-- A host without F cannot write `fcsr`. -/
theorem not_supported_small : ¬ ∀ (cfg : Cfg) (M : ℕ) (s : Sys M) (i : Fin M),
    (s.loc i).pc = .readAllCpuNum → Supported cfg s i := by
  intro h
  have hs := h (updateHost (slotRam fun _ => 0)) 1 (soloSys (misaFile 0)) 0 rfl
  have hf := hs.at 0 rfl (by decide +kernel) (q := .restoreCsrVector) rfl rfl
    (l := [.mv t0 a0] ++ slotLoad csrFcsr t1 ++ [.li t0 mstatusFs, .csrs mstatusId t0])
    (x := .csrw csrFcsr t1) (t := [.mv t0 a0] ++ csrs.flatMap csrsRestore ++ [.li a0 1])
    rfl rfl (e := .f) (by decide)
  revert hf
  decide +kernel

end LibCheckpoint.Extension
