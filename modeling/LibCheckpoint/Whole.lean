import LibCheckpoint.Entry
import LibCheckpoint.Boot
import LibCheckpoint.Resume

/-!
A build with the check of a magic number as a whole: from the first instruction of the image into
the checkpointed program.

A hart runs `boot.S`, then `gcpt_c_start` up to the check, then the restore. The others are anywhere
meanwhile.
-/

namespace LibCheckpoint.Whole

open LibCheckpoint.Bytes LibCheckpoint.Rv64 LibCheckpoint.Csr LibCheckpoint.Asm
open LibCheckpoint.Restorer LibCheckpoint.Phase LibCheckpoint.Interleave LibCheckpoint.Payload
open LibCheckpoint.Boot LibCheckpoint.Entry LibCheckpoint.Resume LibCheckpoint.Exit
open LibCheckpoint.Status LibCheckpoint.Vector LibCheckpoint.Host

structure Machine where
  image : Entry.Image
  build : Build
  payloadBin : Word
  link : Link
  env : Env
  stopCpu : Option (BitVec 32)

/-- `gcpt_c_start` is told where the image lies. -/
def Machine.boot (m : Machine) : Boot.Image where
  build := m.build
  startAddress := m.image.placeOfGcptSize
  payloadBin := m.payloadBin
  link := m.link
  env := m.env
  stopCpu := m.stopCpu

def start (c : Hart) : BootHart := ⟨.restorer, c⟩

def Machine.harts (m : Machine) : Threads Shared (EntryHart BootHart) Act Word :=
  entryHarts m.image m.env (bootHarts m.boot) start

variable {M : ℕ}

/-- The harts as if they had come out of `boot.S` together. -/
def Machine.together (m : Machine) (mem : Shared) (c₀ : Fin M → Hart) : BootSys M :=
  startedSys m.image m.env start mem c₀

def Machine.entered (m : Machine) (c : Hart) : Arch :=
  Resume.entered m.boot.cfg (started m.image m.env c).arch

variable {m : Machine} {s : EntrySys M BootHart} {c₀ : Fin M → Hart} {i : Fin M} {c : BootHart}

/-! ### Behind `boot.S` -/

lemma together_atStart (h : PowerOn m.image s c₀)
    (hwords : ∀ i : Fin M, ∀ k < 4,
      s.mem.text (stub m.boot.cfg (BitVec.ofNat 32 i) k) = stubWord k) :
    AtStart m.boot.cfg ((m.together s.mem c₀).map BootHart.hart) where
  pc _ := rfl
  cpuId i := by
    refine (started_args m.image m.env (c₀ i)).1.trans ?_
    rw [h.hartid i]
    exact BitVec.setWidth_ofNat_of_le (by decide) _
  hartid i := (started_args m.image m.env (c₀ i)).2.1.trans (h.hartid i)
  words := hwords

lemma together_run (h : PowerOn m.image s c₀) {w : List (Fin M)}
    (hc : (run m.harts s w).loc i = .left c) : Complete m.image m.env ∧
      ∃ v, (run (bootHarts m.boot) (m.together s.mem c₀) v).loc i = c := by
  have hcomplete : Complete m.image m.env := by
    by_contra hno
    exact (hc ▸ failing_run (bootHarts m.boot) start h hno w i).not_left
  obtain ⟨v, -, hv⟩ := entry_run (T := bootHarts m.boot) (fun _ => rfl) h hcomplete w
  refine ⟨hcomplete, v, ?_⟩
  rw [Machine.together, ← hv]
  exact congrArg (ahead m.image m.env start) hc

/-! ### Behind the check -/

lemma checked_run {mem : Shared} {v : List (Fin M)}
    (hc : (run (bootHarts m.boot) (m.together mem c₀) v).loc i = c) (hr : restores c) :
    m.boot.valid = true ∧ ∃ u, (run (Restorer.harts m.boot.cfg)
      ((m.together mem c₀).map BootHart.hart) u).loc i = c.hart := by
  have hvalid : m.boot.valid = true := by
    have hway := bootWay_run m.boot.guard (s := m.together mem c₀) (i := i) ⟨rfl, rfl, rfl⟩ v
    exact hway.passes (hc ▸ hr)
  obtain ⟨u, -, hu⟩ : ∃ u, u.Sublist v ∧
      (run (bootHarts m.boot) (m.together mem c₀) v).map BootHart.hart =
        run (Restorer.harts m.boot.cfg) ((m.together mem c₀).map BootHart.hart) u :=
    passing_run (g := m.boot.guard) hvalid (fun _ => .inl rfl) v
  refine ⟨hvalid, u, ?_⟩
  rw [← hu]
  exact congrArg BootHart.hart hc

/-! ### The whole -/

/-- **The builds as a whole**: in every run from the first instruction of the image on, a hart that
enters the checkpointed program does so with an image that was complete and with the magic number;
and it is in the state of its checkpoint, as far as its gates are open and the host keeps what is
written, and in the state of its start otherwise. -/
theorem whole_resumed {legal : CsrNum → Word → Prop} (hE : StatusHost m.env (legal mstatusId))
    (hV : KeepsVector m.env) (hM : M ≤ 128) (h : PowerOn m.image s c₀)
    (hwords : ∀ i : Fin M, ∀ k < 4,
      s.mem.text (stub m.boot.cfg (BitVec.ofNat 32 i) k) = stubWord k)
    (hsaved : legal mstatusId (m.boot.cfg.slotCsr (BitVec.ofNat 32 i) mstatusId))
    {w : List (Fin M)} {target : Word} (hc : (run m.harts s w).loc i = .left c)
    (hpoint : c.point = .restorer) (hp : c.hart.pc = .gone target) :
    Complete m.image m.env ∧ m.boot.valid = true ∧
    Resumed m.boot.cfg legal (BitVec.ofNat 32 i)
      (m.boot.cfg.gates (BitVec.ofNat 32 i) ((m.entered (c₀ i)).readCsr csrMisa))
      (m.entered (c₀ i)) c.hart.arch target := by
  obtain ⟨hcomplete, v, hv⟩ := together_run h hc
  obtain ⟨hvalid, u, hu⟩ := checked_run hv ⟨hpoint, by rw [hp]; rfl⟩
  have hrun := (together_atStart h hwords).restoring_run hM u
  have hloc : ((run (Restorer.harts m.boot.cfg)
      ((m.together s.mem c₀).map BootHart.hart) u).map (settle m.boot.cfg)).loc i =
        settle m.boot.cfg c.hart := congrArg (settle m.boot.cfg) hu
  have hres := resumed_gone hE hV hM hrun hsaved (by rw [hloc]; exact hp)
  rw [hloc] at hres
  exact ⟨hcomplete, hvalid, hres⟩

/-- A complete image, a magic number, and a checkpoint of a guest with both units on. -/
def wholeRam (a : Word) : Byte :=
  if a = 0x800ECDB0 then 0xef else if a = 0x800ECDB1 then 0xbe
  else if a = 0x800C0000 then 0xff else if a = 0x800C0001 then 0xca
  else slotRam unitsSlots a

def wholeMachine : Machine where
  image := smallImage
  build := .usingBareMetalWorkload
  payloadBin := 0x80100000
  link := smallLink
  env := (updateHost wholeRam).env
  stopCpu := none

def wholeSys : EntrySys 1 BootHart where
  mem := (soloSys unitsFile).mem
  loc i := .boot (.bootCheck (bootCheck smallImage)) ((soloSys unitsFile).loc i)

def enters (a : Word) : EntryHart BootHart → Bool
  | .left c => decide (c.point = .restorer) && decide (c.hart.pc = .gone a)
  | .boot _ _ => false

theorem whole_resumed_units : ∃ c : BootHart,
    (run wholeMachine.harts wholeSys (List.replicate 750 0)).loc 0 = .left c ∧
    Resumed wholeMachine.boot.cfg (fun _ _ => True) (BitVec.ofNat 32 (0 : Fin 1))
      (wholeMachine.boot.cfg.gates (BitVec.ofNat 32 (0 : Fin 1))
        ((wholeMachine.entered ((soloSys unitsFile).loc 0)).readCsr csrMisa))
      (wholeMachine.entered ((soloSys unitsFile).loc 0)) c.hart.arch 0 := by
  have henters : enters 0 ((run wholeMachine.harts wholeSys (List.replicate 750 0)).loc 0) =
      true := by decide +kernel
  generalize he : (run wholeMachine.harts wholeSys (List.replicate 750 0)).loc 0 = e at henters
  cases e with
  | boot => cases henters
  | left c =>
    simp only [enters, Bool.and_eq_true, decide_eq_true_eq] at henters
    have hpower : PowerOn smallImage wholeSys (soloSys unitsFile).loc :=
      ⟨fun _ => rfl, fun _ => rfl⟩
    have hwords := (soloSys_atEntry (fun f c w => Function.update f c w) wholeRam unitsFile).words
    exact ⟨c, rfl, And.right (And.right (whole_resumed (updateHost_status _)
      (smallCfg_keepsVector _) (by decide) hpower hwords trivial he henters.1 henters.2))⟩

end LibCheckpoint.Whole
