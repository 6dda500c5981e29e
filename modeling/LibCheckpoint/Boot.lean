import LibCheckpoint.Payload

/-!
The builds that check a magic number before they restore: which region of memory is validated, and
which one is restored.

In these builds `gcpt_c_start` does not decode a header: it takes a fixed layout, checks one word of
memory, and restores or boots the payload.
-/

namespace LibCheckpoint.Boot

open LibCheckpoint.Bytes LibCheckpoint.Rv64 LibCheckpoint.Layout LibCheckpoint.Restorer
open LibCheckpoint.Interleave LibCheckpoint.Payload

/-! ### The builds -/

/-- The fields of `checkpoint_header` that the builds set. -/
structure Header where
  cptOffset : Word
  singleCoreSize : Word

inductive Build
  | usingBareMetalWorkload | usingQemuDualCoreSystem
  deriving DecidableEq

/-- `set_checkpoint_header`, as the builds call it. -/
def Build.header : Build → Header
  | .usingBareMetalWorkload => ⟨0, 1024 * 1024⟩
  | .usingQemuDualCoreSystem => ⟨0x300000, 1024 * 1024⟩

def cptMagicNumber : Word := 0xbeef

def checkMagicNumber (ram : Word → Byte) (header : Header) (memlayout : Memlayout)
    (cptBaseAddress magicNumber : Word) : Bool :=
  ld64 ram (cptBaseAddress + header.cptOffset + memlayout.magicNumberCptAddr) == magicNumber

/-- A restorer of one of the builds, and the machine it is started on. -/
structure Image where
  build : Build
  startAddress : Word
  payloadBin : Word
  link : Link
  env : Env
  stopCpu : Option (BitVec 32)

variable (img : Image)

/-- What `multicore_decode_restore` is called with. -/
def Image.cfg : Cfg where
  link := img.link
  env := img.env
  cptBaseAddress := img.startAddress + img.build.header.cptOffset
  singleCoreSize := img.build.header.singleCoreSize
  memlayout := defaultQemuMemlayout
  stopCpu := img.stopCpu

def Image.valid : Bool :=
  checkMagicNumber img.env.ram img.build.header defaultQemuMemlayout 0x80000000 cptMagicNumber

def Image.targetAddress : Word := bootTarget img.startAddress img.payloadBin

/-! ### The hart -/

def Image.guard : Guard := ⟨img.cfg, img.valid, img.targetAddress⟩

abbrev bootAct : BootHart → Act := img.guard.act

abbrev bootResume : BootHart → Word → BootHart := img.guard.resume

abbrev bootHarts : Threads Shared BootHart Act Word where
  act := bootAct img
  perform := perform img.link
  resume := bootResume img

/-- **The region that is restored is the one that was validated**: whenever a hart restores, the
magic number of its own layout is there; and a hart that fails the check boots the payload, with
nothing from the checkpoint. -/
structure Validated (cpuId : BitVec 32) : Prop where
  magic : ∀ (M : ℕ) (s : BootSys M) (i : Fin M) w, Starts cpuId (s.loc i) →
    restores ((run (bootHarts img) s w).loc i) →
      img.cfg.ld (img.cfg.layout cpuId).magicNumberCptAddr = cptMagicNumber
  payload : ∀ (M : ℕ) (s : BootSys M) (i : Fin M) w, Starts cpuId (s.loc i) →
    ∀ a, ((run (bootHarts img) s w).loc i).point = .payload a → a = img.targetAddress ∧
      ((run (bootHarts img) s w).loc i).hart.arch = payloadArch img.guard (s.loc i).hart.arch
  boots : ∀ (M : ℕ) (s : BootSys M) (i : Fin M) w, Starts cpuId (s.loc i) → PrintOk img.guard s →
    refused ((run (bootHarts img) s w).loc i) →
      ∃ v a, ((run (bootHarts img) s (w ++ v)).loc i).point = .payload a

variable {img}

/-! ### The two regions -/

variable (img) in
lemma own_eq_checked_iff (cpuId : BitVec 32) :
    (img.cfg.layout cpuId).magicNumberCptAddr =
      0x80000000 + img.build.header.cptOffset + defaultQemuMemlayout.magicNumberCptAddr ↔
    img.startAddress + cpuId.signExtend 64 * 0x100000 = 0x80000000 := by
  have hown : (img.cfg.layout cpuId).magicNumberCptAddr = defaultQemuMemlayout.magicNumberCptAddr +
      (cpuId.signExtend 64 * img.build.header.singleCoreSize +
        (img.startAddress + img.build.header.cptOffset)) := rfl
  have hsize : img.build.header.singleCoreSize = 0x100000 := by cases img.build <;> rfl
  rw [hown, hsize]
  generalize cpuId.signExtend 64 * 0x100000 = d
  generalize img.build.header.cptOffset = o
  generalize defaultQemuMemlayout.magicNumberCptAddr = k
  constructor <;> intro h <;> bv_omega

/-- A memory with the magic number at one address. -/
def magicRam (p a : Word) : Byte :=
  if (a - p).toNat < 8 then byteOf cptMagicNumber (a - p).toNat else 0

lemma ld64_magicRam (p : Word) : ld64 (magicRam p) p = cptMagicNumber := by
  have hbyte : ∀ k < 8, magicRam p (p + BitVec.ofNat 64 k) = byteOf cptMagicNumber k := by
    intro k hk
    have hsub : (p + BitVec.ofNat 64 k - p).toNat = k := by
      rw [show p + BitVec.ofNat 64 k - p = BitVec.ofNat 64 k by bv_omega, BitVec.toNat_ofNat]
      omega
    rw [magicRam, hsub, if_pos hk]
  rw [ld64, leWord_congr hbyte, leWord_byteOf]

lemma eq_of_ld64_magicRam {p q : Word} (h : ld64 (magicRam p) q = cptMagicNumber) : q = p := by
  have hbyte : magicRam p q = 0xef := by
    have h0 := congrArg (byteOf · 0) h
    simp only [ld64] at h0
    rw [byteOf_leWord _ (by omega)] at h0
    simpa using h0.trans (by decide)
  have hfirst : ∀ k < 8, byteOf cptMagicNumber k = 0xef → k = 0 := by decide
  unfold magicRam at hbyte
  split_ifs at hbyte with hlt
  · have h0 := hfirst _ hlt hbyte
    bv_omega
  · exact absurd hbyte (by decide)

/-! ### When they are one -/

def checkSys (cpuId : BitVec 32) : BootSys 1 where
  mem := { bss := fun _ => 0, text := fun _ => 0, io := [] }
  loc i := ⟨.restorer, { (smallSys 1 .enableGcptTrap 0).loc i with cpuId }⟩

/-- A build on a memory with the magic number where it is checked. -/
def magicImage (build : Build) (startAddress : Word) : Image where
  build
  startAddress
  payloadBin := 0x80100000
  link := smallLink
  env := (smallCfg (magicRam (0x80000000 + build.header.cptOffset +
    defaultQemuMemlayout.magicNumberCptAddr))).env
  stopCpu := none

lemma magicImage_valid (build : Build) (startAddress : Word) :
    (magicImage build startAddress).valid = true :=
  beq_iff_eq.mpr (ld64_magicRam _)

lemma Validated.address {build : Build} {startAddress : Word} {cpuId : BitVec 32}
    (h : Validated (magicImage build startAddress) cpuId) :
    startAddress + cpuId.signExtend 64 * 0x100000 = 0x80000000 := by
  have hpasses : (magicImage build startAddress).guard.passes = true :=
    magicImage_valid build startAddress
  refine (own_eq_checked_iff (magicImage build startAddress) cpuId).mp
    (eq_of_ld64_magicRam (h.magic 1 (checkSys cpuId) 0 [0, 0] ⟨rfl, rfl, rfl⟩ ?_))
  simp [run, next, Guard.resume, checkSys, smallSys, hpasses, restores, resume, unchecked]

/-- **When the validated region is the restored one**: over all memories, if and only if the
region of the hart, at the start address, begins at `0x80000000`. -/
theorem validated_iff (build : Build) (startAddress : Word) (cpuId : BitVec 32) :
    (∀ img : Image, img.build = build → img.startAddress = startAddress → Validated img cpuId) ↔
      startAddress + cpuId.signExtend 64 * 0x100000 = 0x80000000 := by
  constructor
  · intro h
    exact (h (magicImage build startAddress) rfl rfl).address
  · rintro haddr img rfl rfl
    refine ⟨fun M s i w hs hr => ?_, fun M s i w hs b hp => ?_, fun M s i w hs hok hr => ?_⟩
    · have hvalid : img.valid = true := (bootWay_run img.guard hs w).passes hr
      rw [(own_eq_checked_iff img cpuId).mpr haddr]
      exact beq_iff_eq.mp hvalid
    · exact (bootWay_run img.guard hs w).payload hp
    · exact exists_run_payload hs hok w hr

/-- Hart `1` of a dual-core checkpoint is restored although only hart `0` has a magic number. -/
theorem not_validated_small : ¬ ∀ (img : Image) (cpuId : BitVec 32), Validated img cpuId := by
  intro h
  have haddr := (h (magicImage .usingQemuDualCoreSystem 0x80000000) 1).address
  revert haddr
  decide

end LibCheckpoint.Boot
