import LibCheckpoint.Rv64

/-!
The constants of `encoding.h` and `csr.h` that the restorer uses, and the two CSR lists.
-/

namespace LibCheckpoint.Csr

open LibCheckpoint.Bytes LibCheckpoint.Rv64

/-! ### Fields of `mstatus` and `misa` -/

def mstatusMie : Word := 0x00000008
def mstatusMpp : Word := 0x00001800
def mstatusFs : Word := 0x00006000
def mstatusMpv : Word := 0x0000008000000000

def mstatusVsInitial : Word := 0x200
def mstatusVsClean : Word := 0x400
def mstatusVsDirty : Word := 0x600

def mstatusFsInitial : Word := 0x2000
def mstatusFsClean : Word := 0x4000
def mstatusFsDirty : Word := 0x6000

def menvcfgStce : Word := 0x8000000000000000

def misaV : Word := 0x200000
def misaH : Word := 0x80
def misaDf : Word := 0x28

/-! ### CSR numbers -/

abbrev csrMisa : CsrNum := 0x301
abbrev csrMideleg : CsrNum := 0x303
abbrev csrMie : CsrNum := 0x304
abbrev csrMtvec : CsrNum := 0x305
abbrev csrFcsr : CsrNum := 0x003

def csrMenvcfg : CsrNum := 0x30a
def csrStimecmp : CsrNum := 0x14d

/-- The machine-level, supervisor-level and PMP CSRs, in the order in which
`restore_csr_vector` writes them. -/
def csrs : List (String × CsrNum) :=
  [("frm", 0x002),
   ("menvcfg", 0x30a),
   ("mstateen0", 0x30c), ("mstateen1", 0x30d), ("mstateen2", 0x30e), ("mstateen3", 0x30f),
   ("mstatus", 0x300), ("medeleg", 0x302), ("mideleg", 0x303),
   ("mie", 0x304), ("mtvec", 0x305), ("mcounteren", 0x306),
   ("mscratch", 0x340), ("mepc", 0x341), ("mcause", 0x342),
   ("mtval", 0x343), ("mip", 0x344),
   ("pmpcfg0", 0x3a0), ("pmpcfg2", 0x3a2),
   ("pmpaddr0", 0x3b0), ("pmpaddr1", 0x3b1), ("pmpaddr2", 0x3b2), ("pmpaddr3", 0x3b3),
   ("pmpaddr4", 0x3b4), ("pmpaddr5", 0x3b5), ("pmpaddr6", 0x3b6), ("pmpaddr7", 0x3b7),
   ("pmpaddr8", 0x3b8), ("pmpaddr9", 0x3b9), ("pmpaddr10", 0x3ba), ("pmpaddr11", 0x3bb),
   ("pmpaddr12", 0x3bc), ("pmpaddr13", 0x3bd), ("pmpaddr14", 0x3be), ("pmpaddr15", 0x3bf),
   ("stvec", 0x105), ("scounteren", 0x106),
   ("sscratch", 0x140), ("sepc", 0x141), ("scause", 0x142),
   ("stval", 0x143),
   ("senvcfg", 0x10a),
   ("sstateen0", 0x10c), ("sstateen1", 0x10d), ("sstateen2", 0x10e), ("sstateen3", 0x10f),
   ("satp", 0x180)]

/-- The hypervisor and VS-level CSRs, in the order in which `rvh_csr_restore` writes them. -/
def hcsrs : List (String × CsrNum) :=
  [("hstatus", 0x600), ("hedeleg", 0x602), ("hideleg", 0x603),
   ("hie", 0x604), ("hcounteren", 0x606), ("hgeie", 0x607),
   ("htval", 0x643), ("hip", 0x644), ("hvip", 0x645),
   ("htinst", 0x64A), ("henvcfg", 0x60A),
   ("hstateen0", 0x60c), ("hstateen1", 0x60d), ("hstateen2", 0x60e), ("hstateen3", 0x60f),
   ("hgatp", 0x680), ("htimedelta", 0x605),
   ("vsstatus", 0x200), ("vsie", 0x204), ("vstvec", 0x205),
   ("vsscratch", 0x240), ("vsepc", 0x241), ("vscause", 0x242),
   ("vstval", 0x243), ("vsip", 0x244), ("vsatp", 0x280),
   ("mtval2", 0x34b), ("mtinst", 0x34A)]

/-! ### The CLINT -/

def clintMmio : BitVec 32 := 0x38000000
def clintMtimecmp : BitVec 32 := 0x4000
def clintMtime : BitVec 32 := 0xBFF8

/-- The address of the saved value of a CSR in the CSR image at `base`. -/
def slot (base : Word) (c : CsrNum) : Word := base + c.setWidth 64 <<< 3

end LibCheckpoint.Csr
