import LibCheckpoint.Interleave
import LibCheckpoint.Layout
import LibCheckpoint.Jal

/-!
The restorer of one hart, from `gcpt_c_start` to the jump into the checkpointed program, as
an automaton, and the memory that the harts share.

Between two points the hart performs one atomic action. What the harts share is kept in
three parts that the link script and the layout of a checkpoint keep apart: the bytes of
`[s_bss, e_bss)`, the words of the stub table, and the CLINT. The checkpoint itself is only
read. Compiled C code is the sequence of its accesses to memory; its local variables are
fields of the hart, and the serial output is not modelled.
-/

namespace LibCheckpoint.Restorer

open LibCheckpoint.Bytes LibCheckpoint.Rv64 LibCheckpoint.Csr LibCheckpoint.Asm
open LibCheckpoint.Layout LibCheckpoint.Jal

/-! ### Shared memory -/

/-- The variables of the `.bss` section that the harts share. -/
inductive Var
  | bssLock | mtPrintfLock | globashRestoreLock | globalAtomicRestoreCounter | releaseRestore
  deriving DecidableEq

/-- Where the linker has put things: offsets in `[s_bss, e_bss)`, and two addresses, the first
of which is that of an instruction. -/
structure Link where
  bssSize : ℕ
  off : Var → ℕ
  fits : ∀ x, off x + 8 ≤ bssSize
  apart : ∀ x y, x ≠ y → off x + 8 ≤ off y ∨ off y + 8 ≤ off x
  core0 : Word
  gcptTrap : Word
  aligned : 4 ∣ core0.toNat

/-- `io` is the list of the stores to the CLINT, the last one first. -/
structure Shared where
  bss : ℕ → Byte
  text : Word → BitVec 32
  io : List (Word × Word)

inductive Act
  | tau
  | clear (i : ℕ)
  | load (x : Var)
  | store (x : Var) (w : Word)
  | swap (x : Var) (w : Word)
  | add (x : Var) (w : Word)
  | patch (a : Word) (w : BitVec 32)
  | io (a w : Word)
  | fetch (a : Word)
  deriving DecidableEq

def Shared.get (L : Link) (s : Shared) (x : Var) : Word := getW s.bss (L.off x)

def Shared.set (L : Link) (s : Shared) (x : Var) (w : Word) : Shared :=
  { s with bss := setW s.bss (L.off x) w }

@[simp] lemma Shared.get_set_self (L : Link) (s : Shared) (x : Var) (w : Word) :
    (s.set L x w).get L x = w := by
  simp [Shared.get, Shared.set]

lemma Shared.get_set_of_ne (L : Link) (s : Shared) {x y : Var} (w : Word) (h : x ≠ y) :
    (s.set L y w).get L x = s.get L x :=
  getW_setW_of_apart _ _ (L.apart x y h)

/-- An action on the shared memory, and the value it returns to the hart. -/
def perform (L : Link) : Act → Shared → Shared × Word
  | .tau, s => (s, 0)
  | .clear i, s => ({ s with bss := setB s.bss i 0 }, 0)
  | .load x, s => (s, s.get L x)
  | .store x w, s => (s.set L x w, 0)
  | .swap x w, s => (s.set L x w, s.get L x)
  | .add x w, s => (s.set L x (s.get L x + w), s.get L x)
  | .patch a w, s => ({ s with text := Function.update s.text a w }, 0)
  | .io a w, s => ({ s with io := (a, w) :: s.io }, 0)
  | .fetch a, s => (s, (s.text a).setWidth 64)

/-! ### The hart -/

/-- The call sites of `mt_printf`. -/
inductive Site
  | hello | badImm | arrive
  | handler (k : ℕ)
  deriving DecidableEq

/-- Where a hart is inside `spinlock_lock`: at the read of the inner loop, or at the swap of
`spinlock_trylock`. -/
inductive LockPt
  | read | swap
  deriving DecidableEq

inductive PrintPt
  | lock (p : LockPt)
  | out
  | unlock
  deriving DecidableEq

inductive Routine
  | rvhCsrRestore | rvvRestore | restoreFloatVector | restoreCsrVector | restoreMtimeCmp
  | restoreMtime | restoreIntVectorJump | restoreIntVectorMret | jumpToCore
  deriving DecidableEq

inductive Pc
  -- `gcpt_c_start`
  | gcptCStart
  | clearBss (i : ℕ)
  | setBssLock
  | waitBssLock
  | mtPrintf (site : Site) (p : PrintPt)
  | enableGcptTrap
  -- `multicore_decode_restore`
  | multicoreDecodeRestore
  | stopped
  -- `single_core_rvv_rvh_rvgc_restore` up to the barrier
  | readAllCpuNum
  | extCheck
  | patchJal
  | call (r : Routine)
  | asm (r : Routine) (code : List Instr)
  -- the barrier
  | lockGlobash (p : LockPt)
  | count
  | readCount
  | compare
  | unlockGlobash
  | waitRelease
  | setRelease
  -- the stub table, and the ends
  | fetch (a : Word)
  | gone (a : Word)
  | nemuSignal (sig : ℕ)
  | stuck
  deriving DecidableEq

/-- `last` is the outcome of the comparison at the barrier: the hart has found the counter
complete. -/
structure Hart where
  pc : Pc
  arch : Arch
  cpuId : BitVec 32
  gates : Gates
  allCpuNum : BitVec 32
  last : Bool

/-- What does not change during a run: the image of the restorer, the machine, the decoded
header and layout, and the build option `STOP_CPU`. -/
structure Cfg where
  link : Link
  env : Env
  cptBaseAddress : Word
  singleCoreSize : Word
  memlayout : Memlayout
  stopCpu : Option (BitVec 32)

def gcptGetTrap : ℕ := 0x4
def gcptGetBadImm : ℕ := 0x7

variable (cfg : Cfg)

def Cfg.layout (cpuId : BitVec 32) : Memlayout :=
  getCoreMemlayout cfg.cptBaseAddress cfg.singleCoreSize cpuId cfg.memlayout

def Cfg.ld (a : Word) : Word := ld64 cfg.env.ram a

def Cfg.slotCsr (cpuId : BitVec 32) (c : CsrNum) : Word :=
  cfg.ld (slot (cfg.layout cpuId).csrRegCptAddr c)

def Routine.code : Routine → List Instr
  | .rvhCsrRestore => Asm.rvhCsrRestore
  | .rvvRestore => Asm.rvvRestore
  | .restoreFloatVector => Asm.restoreFloatVector
  | .restoreCsrVector => Asm.restoreCsrVector
  | .restoreMtimeCmp => Asm.restoreMtimeCmp
  | .restoreMtime => Asm.restoreMtime
  | .restoreIntVectorJump => Asm.restoreIntVectorJump
  | .restoreIntVectorMret => Asm.restoreIntVectorMret
  | .jumpToCore => Asm.jumpToCore cfg.link.core0

/-- The tests before the calls of the routines; `jump_to_core` is entered from
`restore_int_vector_jump` only. -/
def calls (g : Gates) : Routine → Bool
  | .rvhCsrRestore => g.rvhCouldRestore
  | .rvvRestore => g.rvvCouldRestore
  | .restoreFloatVector => g.rvfCouldRestore
  | .restoreIntVectorJump | .jumpToCore => g.shouldJumpToMepc
  | _ => true

/-- The hart with the arguments of a call in `a0` and `a1`. -/
def withArgs (cpuId : BitVec 32) (a : Arch) (r : Routine) : Arch :=
  let m := cfg.layout cpuId
  match r with
  | .rvhCsrRestore | .restoreCsrVector => a.setX a0 m.csrRegCptAddr
  | .rvvRestore => (a.setX a0 m.csrRegCptAddr).setX a1 m.vectorRegCptAddr
  | .restoreFloatVector => a.setX a0 m.floatRegCptAddr
  | .restoreMtimeCmp => (a.setX a0 (mtimecmpReg cpuId)).setX a1 (mtimecmpSource m cpuId)
  | .restoreMtime => a.setX a0 m.mtimeCptAddr
  | .restoreIntVectorJump | .restoreIntVectorMret => a.setX a0 m.intRegCptAddr
  | .jumpToCore => a

/-- Where the C code goes on after a routine, or after skipping its call. -/
def Routine.next : Routine → Pc
  | .rvhCsrRestore => .call .rvvRestore
  | .rvvRestore => .call .restoreFloatVector
  | .restoreFloatVector => .call .restoreCsrVector
  | .restoreCsrVector => .call .restoreMtimeCmp
  | .restoreMtimeCmp => .lockGlobash .read
  | .restoreMtime => .call .restoreIntVectorJump
  | .restoreIntVectorJump => .call .restoreIntVectorMret
  | .restoreIntVectorMret | .jumpToCore => .stuck

/-- The last instruction of a routine: `ret`, except for the three that do not return. -/
def finish (c : Hart) (r : Routine) : Hart :=
  match r with
  | .restoreIntVectorMret =>
    { c with arch := c.arch.mret, pc := .gone (c.arch.csr mepcId) }
  | .restoreIntVectorJump => { c with pc := .asm .jumpToCore (Routine.code cfg .jumpToCore) }
  | .jumpToCore => { c with pc := .fetch (c.arch.getX t0) }
  | r => { c with pc := r.next }

def Site.next : Site → Pc
  | .hello => .enableGcptTrap
  | .badImm => .nemuSignal gcptGetBadImm
  | .arrive => .compare
  | .handler k =>
    if k < 4 then .mtPrintf (.handler (k + 1)) (.lock .read) else .nemuSignal gcptGetTrap

def Cfg.offset (cpuId : BitVec 32) : BitVec 32 :=
  jalOffset (cfg.ld (cfg.layout cpuId).pcCptAddr) (stubPc cfg.link.core0 cpuId)

/-- `mstatus` and `mtvec` after `enable_gcpt_trap`. -/
def enableGcptTrap (f : CsrFile) : CsrFile :=
  cfg.env.csrw (cfg.env.csrw f mstatusId (f mstatusId ||| mstatusMie)) csrMtvec
    (cfg.link.gcptTrap &&& 0xFFFFFFFFFFFFFFFC)

def Cfg.gates (cpuId : BitVec 32) (hostMisa : Word) : Gates :=
  let m := cfg.layout cpuId
  checkpointExtCheck hostMisa (cfg.ld (slot m.csrRegCptAddr mstatusId))
    (cfg.ld (slot m.csrRegCptAddr csrMisa)) (cfg.ld m.modeCptAddr)

def act (c : Hart) : Act :=
  match c.pc with
  | .clearBss i => if i < cfg.link.bssSize then .clear i else .tau
  | .setBssLock => .store .bssLock 1
  | .waitBssLock => .load .bssLock
  | .mtPrintf _ (.lock .read) => .load .mtPrintfLock
  | .mtPrintf _ (.lock .swap) => .swap .mtPrintfLock (-1)
  | .mtPrintf _ .unlock => .store .mtPrintfLock 0
  | .patchJal =>
    if c.gates.shouldJumpToMepc && isValidImm (cfg.offset c.cpuId) then
      .patch (stubPc cfg.link.core0 c.cpuId) (jalInstr (cfg.offset c.cpuId))
    else .tau
  | .asm _ (i :: _) =>
    match i.store c.arch with
    | some (a, w) => .io a w
    | none => .tau
  | .lockGlobash .read => .load .globashRestoreLock
  | .lockGlobash .swap => .swap .globashRestoreLock (-1)
  | .count => .add .globalAtomicRestoreCounter 1
  | .readCount | .compare => .load .globalAtomicRestoreCounter
  | .unlockGlobash => .store .globashRestoreLock 0
  | .waitRelease => .load .releaseRestore
  | .setRelease => .store .releaseRestore 1
  | .fetch a => .fetch a
  | _ => .tau

/-- The hart after its action has returned `r`. A spin loop whose condition still holds
leaves it where it is. -/
def resume (c : Hart) (r : Word) : Hart :=
  match c.pc with
  | .gcptCStart => { c with pc := if c.cpuId = 0 then .clearBss 0 else .waitBssLock }
  | .clearBss i =>
    { c with pc := if i < cfg.link.bssSize then .clearBss (i + 1) else .setBssLock }
  | .setBssLock => { c with pc := .mtPrintf .hello (.lock .read) }
  | .waitBssLock => if r = 0 then c else { c with pc := .mtPrintf .hello (.lock .read) }
  | .mtPrintf s (.lock .read) => if r = 0 then { c with pc := .mtPrintf s (.lock .swap) } else c
  | .mtPrintf s (.lock .swap) =>
    { c with pc := .mtPrintf s (if r = 0 then .out else .lock .read) }
  | .mtPrintf s .out => { c with pc := .mtPrintf s .unlock }
  | .mtPrintf s .unlock => { c with pc := s.next }
  | .enableGcptTrap =>
    { c with
      arch := { c.arch with csr := enableGcptTrap cfg c.arch.csr }
      pc := .multicoreDecodeRestore }
  | .multicoreDecodeRestore =>
    { c with pc := if cfg.stopCpu = some c.cpuId then .stopped else .readAllCpuNum }
  | .readAllCpuNum =>
    { c with
      allCpuNum := (cfg.ld (cfg.layout c.cpuId).csrReserve).setWidth 32
      pc := .extCheck }
  | .extCheck =>
    { c with gates := cfg.gates c.cpuId (c.arch.readCsr csrMisa), pc := .patchJal }
  | .patchJal =>
    { c with
      pc := if c.gates.shouldJumpToMepc && !isValidImm (cfg.offset c.cpuId) then
          .mtPrintf .badImm (.lock .read)
        else .call .rvhCsrRestore }
  | .call r =>
    if calls c.gates r then
      { c with arch := withArgs cfg c.cpuId c.arch r, pc := .asm r (r.code cfg) }
    else { c with pc := r.next }
  | .asm q (i :: code) => { c with arch := i.exec cfg.env c.arch, pc := .asm q code }
  | .asm q [] => finish cfg c q
  | .lockGlobash .read => if r = 0 then { c with pc := .lockGlobash .swap } else c
  | .lockGlobash .swap => { c with pc := if r = 0 then .count else .lockGlobash .read }
  | .count => { c with pc := .readCount }
  | .readCount => { c with pc := .mtPrintf .arrive (.lock .read) }
  | .compare =>
    { c with
      last := !(r != c.allCpuNum.signExtend 64 && c.allCpuNum != 0)
      pc := .unlockGlobash }
  | .unlockGlobash => { c with pc := if c.last then .setRelease else .waitRelease }
  | .waitRelease => if r != 1 then c else { c with pc := .call .restoreIntVectorJump }
  | .setRelease => { c with pc := .call .restoreMtime }
  | .fetch a =>
    match decode (r.setWidth 32) with
    | some (.op i) => { c with arch := i.exec cfg.env c.arch, pc := .fetch (a + 4) }
    | some (.jal rd off) => { c with arch := c.arch.setX rd (a + 4), pc := .gone (a + off) }
    | none => { c with pc := .stuck }
  | .stopped | .gone _ | .nemuSignal _ | .stuck => c

/-- The harts of the machine as threads over the shared memory. -/
def harts : Interleave.Threads Shared Hart Act Word where
  act := act cfg
  perform := perform cfg.link
  resume := resume cfg

@[simp] lemma harts_act (c : Hart) : (harts cfg).act c = act cfg c := rfl
@[simp] lemma harts_perform (a : Act) (m : Shared) :
    (harts cfg).perform a m = perform cfg.link a m := rfl
@[simp] lemma harts_resume (c : Hart) (r : Word) : (harts cfg).resume c r = resume cfg c r := rfl

abbrev Sys (M : ℕ) := Interleave.St (Fin M) Shared Hart

/-! ### A small machine -/

def Var.slot : Var → ℕ
  | .bssLock => 0
  | .mtPrintfLock => 8
  | .globashRestoreLock => 16
  | .globalAtomicRestoreCounter => 24
  | .releaseRestore => 32

def smallLink : Link where
  bssSize := 40
  off := Var.slot
  fits x := by cases x <;> decide
  apart x y := by cases x <;> cases y <;> decide
  core0 := 0x80001000
  gcptTrap := 0x80002000
  aligned := by decide

/-- The default layout, on a host whose CSRs keep what is written to them. -/
def smallCfg (ram : Word → Byte) : Cfg where
  link := smallLink
  env := { ram, csrw := fun f c w => Function.update f c w }
  cptBaseAddress := 0x80000000
  singleCoreSize := 0x100000
  memlayout := defaultQemuMemlayout
  stopCpu := none

/-- The harts of the small machine, all at one point. -/
def smallSys (M : ℕ) (pc : Pc) (allCpuNum : BitVec 32) : Sys M where
  mem := { bss := fun _ => 0, text := fun _ => 0, io := [] }
  loc i :=
    { pc
      arch := { x := fun _ => 0, f := fun _ => 0, v := fun _ => 0, csr := fun _ => 0,
                hartid := BitVec.ofNat 64 i, priv := 3 }
      cpuId := BitVec.ofNat 32 i
      gates := ⟨false, false, false, false⟩
      allCpuNum
      last := false }

def countRam (n : Byte) (a : Word) : Byte := if a.extractLsb' 0 20 = 0xF5FF8 then n else 0

end LibCheckpoint.Restorer
