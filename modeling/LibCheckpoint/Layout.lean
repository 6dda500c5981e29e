import LibCheckpoint.Csr

/-!
Where the fields of a checkpoint lie, per hart, and what the saved state allows to restore.
-/

namespace LibCheckpoint.Layout

open LibCheckpoint.Bytes LibCheckpoint.Rv64 LibCheckpoint.Csr

structure Memlayout where
  magicNumberCptAddr : Word
  pcCptAddr : Word
  modeCptAddr : Word
  mtimeCptAddr : Word
  mtimeCmpCptAddr : Word
  miscDoneCptAddr : Word
  miscReserve : Word
  intRegCptAddr : Word
  intRegDone : Word
  floatRegCptAddr : Word
  floatRegDone : Word
  csrRegCptAddr : Word
  csrRegDone : Word
  csrReserve : Word
  vectorRegCptAddr : Word
  vectorRegDone : Word

def defaultQemuMemlayout : Memlayout where
  magicNumberCptAddr := 0xECDB0
  pcCptAddr := 0xECDB8
  modeCptAddr := 0xECDC0
  mtimeCptAddr := 0xECDC8
  mtimeCmpCptAddr := 0xECDD0
  miscDoneCptAddr := 0xECDD8
  miscReserve := 0xECDE0
  intRegCptAddr := 0xEDDE0
  intRegDone := 0xEDEE0
  floatRegCptAddr := 0xEDEE8
  floatRegDone := 0xEDFE8
  csrRegCptAddr := 0xEDFF0
  csrRegDone := 0xF5FF0
  csrReserve := 0xF5FF8
  vectorRegCptAddr := 0xFDFF8
  vectorRegDone := 0xFFFF8

/-- The layout of one hart: every field moved by the offset of its region. -/
def getCoreMemlayout (baseAddr singleCoreSize : Word) (cpuId : BitVec 32) (m : Memlayout) :
    Memlayout :=
  let offset := cpuId.signExtend 64 * singleCoreSize + baseAddr
  { magicNumberCptAddr := m.magicNumberCptAddr + offset
    pcCptAddr := m.pcCptAddr + offset
    modeCptAddr := m.modeCptAddr + offset
    mtimeCptAddr := m.mtimeCptAddr + offset
    mtimeCmpCptAddr := m.mtimeCmpCptAddr + offset
    miscDoneCptAddr := m.miscDoneCptAddr + offset
    miscReserve := m.miscReserve + offset
    intRegCptAddr := m.intRegCptAddr + offset
    intRegDone := m.intRegDone + offset
    floatRegCptAddr := m.floatRegCptAddr + offset
    floatRegDone := m.floatRegDone + offset
    csrRegCptAddr := m.csrRegCptAddr + offset
    csrRegDone := m.csrRegDone + offset
    csrReserve := m.csrReserve + offset
    vectorRegCptAddr := m.vectorRegCptAddr + offset
    vectorRegDone := m.vectorRegDone + offset }

/-! ### The addresses of the timer registers -/

def mtimecmpReg (cpuId : BitVec 32) : Word :=
  (clintMmio + clintMtimecmp + cpuId * 8).signExtend 64

def mtimecmpSource (m : Memlayout) (cpuId : BitVec 32) : Word :=
  m.mtimeCmpCptAddr + (cpuId * 8).signExtend 64

def mtimeReg : Word := (clintMmio + clintMtime).signExtend 64

/-! ### What can be restored -/

structure Gates where
  rvvCouldRestore : Bool
  rvhCouldRestore : Bool
  rvfCouldRestore : Bool
  shouldJumpToMepc : Bool
  deriving DecidableEq

/-- One of the three non-zero states of an extension status field is contained in it. -/
def stateOn (mstatus initial clean dirty : Word) : Bool :=
  mstatus &&& initial == initial || mstatus &&& clean == clean || mstatus &&& dirty == dirty

def bothHave (checkpointMisa hostMisa ext : Word) : Bool :=
  checkpointMisa &&& ext != 0 && hostMisa &&& ext != 0

def checkpointExtCheck (hostMisa checkpointMstatus checkpointMisa checkpointMode : Word) :
    Gates where
  shouldJumpToMepc := checkpointMode <<< 11 == mstatusMpp
  rvhCouldRestore := bothHave checkpointMisa hostMisa misaH &&
    checkpointMstatus &&& mstatusMpv != 0
  rvvCouldRestore := bothHave checkpointMisa hostMisa misaV &&
    stateOn checkpointMstatus mstatusVsInitial mstatusVsClean mstatusVsDirty
  rvfCouldRestore := bothHave checkpointMisa hostMisa misaDf &&
    stateOn checkpointMstatus mstatusFsInitial mstatusFsClean mstatusFsDirty

end LibCheckpoint.Layout
