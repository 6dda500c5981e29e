import LibCheckpoint.Bytes

/-!
The RV64 instructions a boot-time restorer is made of, on the state of one hart.

The CSR file is the function of the values that a read returns. What a write does to it is
a parameter of the machine, since which bits are writable is a matter of the host. Vector
registers have 128 bits. Loads and stores have effective privilege M: the address is the
physical one.
-/

namespace LibCheckpoint.Rv64

open LibCheckpoint.Bytes

abbrev Reg := Fin 32

-- the one instance behind the literals of `Reg`
instance neZero_regs : NeZero 32 := ⟨by decide⟩

abbrev CsrNum := BitVec 12
abbrev CsrFile := CsrNum → Word

-- the one instance behind the lists of CSR numbers
instance decidableMemCsrs (c : CsrNum) (l : List CsrNum) : Decidable (c ∈ l) :=
  inferInstanceAs (Decidable (c ∈ l))

/-! ### CSR numbers the semantics names -/

abbrev vstartId : CsrNum := 0x008
abbrev vxsatId : CsrNum := 0x009
abbrev vxrmId : CsrNum := 0x00a
abbrev vlId : CsrNum := 0xc20
abbrev vtypeId : CsrNum := 0xc21
abbrev mstatusId : CsrNum := 0x300
abbrev mepcId : CsrNum := 0x341
abbrev mhartidId : CsrNum := 0xf14

/-- What lies outside the hart: the memory that loads read, and the effect of a CSR write
on the values that later reads return. -/
structure Env where
  ram : Word → Byte
  csrw : CsrFile → CsrNum → Word → CsrFile

@[ext]
structure Arch where
  x : Reg → Word
  f : Reg → Word
  v : Reg → BitVec 128
  csr : CsrFile
  hartid : Word
  priv : BitVec 2

namespace Arch

def getX (a : Arch) (r : Reg) : Word := if r = 0 then 0 else a.x r

def setX (a : Arch) (r : Reg) (w : Word) : Arch :=
  if r = 0 then a else { a with x := Function.update a.x r w }

def setF (a : Arch) (r : Reg) (w : Word) : Arch := { a with f := Function.update a.f r w }

def setV (a : Arch) (r : Reg) (w : BitVec 128) : Arch :=
  { a with v := Function.update a.v r w }

def setCsr (a : Arch) (c : CsrNum) (w : Word) : Arch :=
  { a with csr := Function.update a.csr c w }

def readCsr (a : Arch) (c : CsrNum) : Word := if c = mhartidId then a.hartid else a.csr c

lemma getX_setX (a : Arch) (r q : Reg) (w : Word) :
    (a.setX r w).getX q = if q = r ∧ r ≠ 0 then w else a.getX q := by
  by_cases hr : r = 0
  · simp [setX, hr]
  · by_cases hq : q = r <;> simp [setX, getX, hr, hq]

@[simp] lemma setX_setX (a : Arch) (r : Reg) (w w' : Word) :
    (a.setX r w).setX r w' = a.setX r w' := by
  unfold setX; split <;> simp

@[simp] lemma setX_f (a : Arch) (r : Reg) (w : Word) : (a.setX r w).f = a.f := by
  unfold setX; split <;> rfl
@[simp] lemma setX_v (a : Arch) (r : Reg) (w : Word) : (a.setX r w).v = a.v := by
  unfold setX; split <;> rfl
@[simp] lemma setX_csr (a : Arch) (r : Reg) (w : Word) : (a.setX r w).csr = a.csr := by
  unfold setX; split <;> rfl
@[simp] lemma setX_hartid (a : Arch) (r : Reg) (w : Word) : (a.setX r w).hartid = a.hartid := by
  unfold setX; split <;> rfl
@[simp] lemma setX_priv (a : Arch) (r : Reg) (w : Word) : (a.setX r w).priv = a.priv := by
  unfold setX; split <;> rfl

end Arch

/-! ### Vector configuration -/

def vill : Word := 1 <<< 63

/-- `VLMAX` of a supported `vtype` with `VLEN = 128` and `ELEN = 64`. -/
def vlmax (vtype : Word) : Option ℕ :=
  let vlmul := (vtype.extractLsb' 0 3).toNat
  let vsew := (vtype.extractLsb' 3 3).toNat
  if vtype >>> 8 = 0 ∧ vsew ≤ 3 then
    if vlmul ≤ 3 then some (16 * 2 ^ vlmul / 2 ^ vsew)
    else if vlmul ≠ 4 ∧ 8 * 2 ^ vsew ≤ 64 / 2 ^ (8 - vlmul) then
      some (16 / 2 ^ (8 - vlmul) / 2 ^ vsew)
    else none
  else none

/-- The pair of `vl` and `vtype` that `vsetvl` sets for a requested length and type. -/
def vsetvl (avl vtype : Word) : Word × Word :=
  match vlmax vtype with
  | some m => (if avl.toNat ≤ m then avl else BitVec.ofNat 64 m, vtype)
  | none => (0, vill)

/-! ### Instructions -/

inductive Instr
  | li (rd : Reg) (w : Word)
  | mv (rd rs : Reg)
  | addi (rd rs : Reg) (imm : BitVec 12)
  | slli (rd rs : Reg) (n : ℕ)
  | add (rd rs rt : Reg)
  | ld (rd : Reg) (off : BitVec 12) (rs : Reg)
  | sd (rt : Reg) (off : BitVec 12) (rs : Reg)
  | fld (fd : Reg) (off : BitVec 12) (rs : Reg)
  | csrr (rd : Reg) (c : CsrNum)
  | csrw (c : CsrNum) (rs : Reg)
  | csrs (c : CsrNum) (rs : Reg)
  | vsetvl (rd rs rt : Reg)
  | vl1re64 (vd rs : Reg)
  deriving DecidableEq

def ea (a : Arch) (off : BitVec 12) (rs : Reg) : Word := a.getX rs + off.signExtend 64

variable (E : Env)

/-- What an instruction does to the hart that executes it. -/
def Instr.exec (a : Arch) : Instr → Arch
  | .li rd w => a.setX rd w
  | .mv rd rs => a.setX rd (a.getX rs)
  | .addi rd rs imm => a.setX rd (a.getX rs + imm.signExtend 64)
  | .slli rd rs n => a.setX rd (a.getX rs <<< n)
  | .add rd rs rt => a.setX rd (a.getX rs + a.getX rt)
  | .ld rd off rs => a.setX rd (ld64 E.ram (ea a off rs))
  | .sd _ _ _ => a
  | .fld fd off rs => a.setF fd (ld64 E.ram (ea a off rs))
  | .csrr rd c => a.setX rd (a.readCsr c)
  | .csrw c rs => { a with csr := E.csrw a.csr c (a.getX rs) }
  | .csrs c rs => { a with csr := E.csrw a.csr c (a.csr c ||| a.getX rs) }
  | .vsetvl rd rs rt =>
    let r := Rv64.vsetvl (a.getX rs) (a.getX rt)
    (((a.setX rd r.1).setCsr vlId r.1).setCsr vtypeId r.2).setCsr vstartId 0
  | .vl1re64 vd rs => (a.setV vd (ld128 E.ram (a.getX rs))).setCsr vstartId 0

/-- The double word an instruction stores, with its address. -/
def Instr.store (a : Arch) : Instr → Option (Word × Word)
  | .sd rt off rs => some (ea a off rs, a.getX rt)
  | _ => none

def execs (code : List Instr) (a : Arch) : Arch := code.foldl (Instr.exec E) a

def stores : List Instr → Arch → List (Word × Word)
  | [], _ => []
  | i :: code, a => (i.store a).toList ++ stores code (i.exec E a)

@[simp] lemma execs_nil (a : Arch) : execs E [] a = a := rfl
@[simp] lemma execs_cons (i : Instr) (code : List Instr) (a : Arch) :
    execs E (i :: code) a = execs E code (i.exec E a) := rfl
lemma execs_append (c d : List Instr) (a : Arch) :
    execs E (c ++ d) a = execs E d (execs E c a) := by
  simp [execs, List.foldl_append]

def Instr.isStore : Instr → Bool
  | .sd _ _ _ => true
  | _ => false

lemma stores_of_noStore {code : List Instr} (h : code.all (fun i => !i.isStore) = true)
    (a : Arch) : stores E code a = [] := by
  induction code generalizing a with
  | nil => rfl
  | cons i code ih =>
    rw [List.all_cons, Bool.and_eq_true] at h
    have hi : i.store a = none := by
      cases i <;> first | rfl | simp [Instr.isStore] at h
    simp [stores, hi, ih h.2]

def Instr.dest : Instr → Option Reg
  | .li rd _ | .mv rd _ | .addi rd _ _ | .slli rd _ _ | .add rd _ _ | .ld rd _ _ | .csrr rd _
  | .vsetvl rd _ _ => some rd
  | _ => none

lemma getX_exec_of_ne {a : Arch} {i : Instr} {r : Reg} (h : i.dest ≠ some r) :
    (i.exec E a).getX r = a.getX r := by
  have hset (q : Reg) (w : Word) (hq : r ≠ q) : (a.setX q w).getX r = a.getX r := by
    rw [Arch.getX_setX, if_neg fun hr => hq hr.1]
  cases i with
  | sd | fld | csrw | csrs | vl1re64 => rfl
  | vsetvl rd rs rt => exact hset rd _ fun hr => h (by rw [hr]; rfl)
  | li rd | mv rd | addi rd | slli rd | add rd | ld rd | csrr rd =>
    exact hset rd _ fun hr => h (by rw [hr]; rfl)

lemma getX_execs_of_ne {code : List Instr} {r : Reg}
    (h : code.all (fun i => i.dest ≠ some r) = true) (a : Arch) :
    (execs E code a).getX r = a.getX r := by
  induction code generalizing a with
  | nil => rfl
  | cons i code ih =>
    rw [List.all_cons, Bool.and_eq_true] at h
    rw [execs_cons, ih h.2, getX_exec_of_ne E (of_decide_eq_true h.1)]

/-! ### Loads -/

def Instr.reads (a : Arch) : Instr → Set Word
  | .ld _ off rs | .fld _ off rs => region (ea a off rs) 8
  | .vl1re64 _ rs => region (a.getX rs) 16
  | _ => ∅

/-- A straight line loads from a set of addresses only. -/
def readsIn (S : Set Word) : List Instr → Arch → Prop
  | [], _ => True
  | i :: code, a => i.reads a ⊆ S ∧ readsIn S code (i.exec E a)

lemma readsIn_append (S : Set Word) (c d : List Instr) (a : Arch) :
    readsIn E S (c ++ d) a ↔ readsIn E S c a ∧ readsIn E S d (execs E c a) := by
  induction c generalizing a with
  | nil => simp [readsIn]
  | cons i c ih => simp [readsIn, ih, and_assoc]

def Instr.isLoad : Instr → Bool
  | .ld _ _ _ | .fld _ _ _ | .vl1re64 _ _ => true
  | _ => false

lemma readsIn_of_noLoad (S : Set Word) {code : List Instr}
    (h : code.all (fun i => !i.isLoad) = true) (a : Arch) : readsIn E S code a := by
  induction code generalizing a with
  | nil => trivial
  | cons i code ih =>
    rw [List.all_cons, Bool.and_eq_true] at h
    refine ⟨?_, ih h.2 _⟩
    cases i <;> first | exact Set.empty_subset _ | cases h.1

/-- Two machines with the same CSRs execute an instruction alike when they agree on the bytes
that it loads. -/
lemma exec_agree (E E' : Env) (hcsrw : E.csrw = E'.csrw) {a : Arch} {i : Instr}
    (h : AgreeOn (i.reads a) E.ram E'.ram) : i.exec E a = i.exec E' a := by
  cases i with
  | ld | fld => simp only [Instr.exec, ld64_agree h]
  | vl1re64 => simp only [Instr.exec, ld128_agree h]
  | csrw | csrs => simp only [Instr.exec, hcsrw]
  | _ => rfl

@[simp] lemma exec_hartid (a : Arch) (i : Instr) : (i.exec E a).hartid = a.hartid := by
  cases i <;> simp [Instr.exec, Arch.setF, Arch.setV, Arch.setCsr]

@[simp] lemma exec_priv (a : Arch) (i : Instr) : (i.exec E a).priv = a.priv := by
  cases i <;> simp [Instr.exec, Arch.setF, Arch.setV, Arch.setCsr]

@[simp] lemma execs_hartid (code : List Instr) (a : Arch) :
    (execs E code a).hartid = a.hartid := by
  induction code generalizing a with
  | nil => rfl
  | cons i code ih => simp [ih]

/-! ### Conditions on instructions -/

/-- Every instruction of a straight line meets a condition in the state in which it executes. -/
def along (P : Instr → Arch → Prop) : List Instr → Arch → Prop
  | [], _ => True
  | i :: code, a => P i a ∧ along P code (i.exec E a)

lemma along_append (P : Instr → Arch → Prop) (c d : List Instr) (a : Arch) :
    along E P (c ++ d) a ↔ along E P c a ∧ along E P d (execs E c a) := by
  induction c generalizing a with
  | nil => simp [along]
  | cons i c ih => simp [along, ih, and_assoc]

/-- **The invariant rule of a straight line**: what its instructions keep holds behind it, and what
follows from it holds of each of them. -/
theorem along_inv {P : Instr → Arch → Prop} {I : Arch → Prop} {p : Instr → Bool}
    (hstep : ∀ i a, p i = true → I a → P i a ∧ I (i.exec E a)) {code : List Instr}
    (h : code.all p = true) {a : Arch} (ha : I a) : along E P code a ∧ I (execs E code a) := by
  induction code generalizing a with
  | nil => exact ⟨trivial, ha⟩
  | cons i code ih =>
    rw [List.all_cons, Bool.and_eq_true] at h
    obtain ⟨hP, hI⟩ := hstep i a h.1 ha
    obtain ⟨hrest, hend⟩ := ih h.2 hI
    exact ⟨⟨hP, hrest⟩, hend⟩

lemma along_of_all {P : Instr → Arch → Prop} {p : Instr → Bool} (hp : ∀ i a, p i = true → P i a)
    {code : List Instr} (h : code.all p = true) (a : Arch) : along E P code a :=
  (along_inv E (I := fun _ => True) (fun i a hi _ => ⟨hp i a hi, trivial⟩) h trivial).1

/-! ### Integer instructions -/

/-- The instruction changes integer registers and memory only. -/
def Instr.isInt : Instr → Bool
  | .li _ _ | .mv _ _ | .addi _ _ _ | .slli _ _ _ | .add _ _ _ | .ld _ _ _ | .sd _ _ _
  | .csrr _ _ => true
  | _ => false

/-- Two states that differ in their integer registers only. -/
structure SameButX (a b : Arch) : Prop where
  f : a.f = b.f
  v : a.v = b.v
  csr : a.csr = b.csr
  hartid : a.hartid = b.hartid
  priv : a.priv = b.priv

lemma SameButX.refl (a : Arch) : SameButX a a := ⟨rfl, rfl, rfl, rfl, rfl⟩

lemma SameButX.trans {a b c : Arch} (h : SameButX a b) (h' : SameButX b c) : SameButX a c :=
  ⟨h.f.trans h'.f, h.v.trans h'.v, h.csr.trans h'.csr, h.hartid.trans h'.hartid,
    h.priv.trans h'.priv⟩

lemma sameButX_setX (a : Arch) (r : Reg) (w : Word) : SameButX (a.setX r w) a :=
  ⟨a.setX_f r w, a.setX_v r w, a.setX_csr r w, a.setX_hartid r w, a.setX_priv r w⟩

lemma sameButX_exec (a : Arch) {i : Instr} (h : i.isInt = true) : SameButX (i.exec E a) a := by
  cases i <;> first
    | exact sameButX_setX a _ _
    | exact ⟨rfl, rfl, rfl, rfl, rfl⟩
    | cases h

lemma sameButX_execs {code : List Instr} (h : code.all Instr.isInt = true) (a : Arch) :
    SameButX (execs E code a) a := by
  induction code generalizing a with
  | nil => exact SameButX.refl a
  | cons i code ih =>
    rw [List.all_cons, Bool.and_eq_true] at h
    exact (ih h.2 _).trans (sameButX_exec E a h.1)

/-! ### Leaving machine mode -/

/-- `mstatus.MIE`: interrupts are enabled in machine mode. -/
def mie (mstatus : Word) : Bool := mstatus.getLsbD 3

/-- `mstatus.MPP`, the privilege that `mret` returns to. -/
def mpp (mstatus : Word) : BitVec 2 := mstatus.extractLsb' 11 2

/-- `mstatus` after `mret`: `MIE` takes `MPIE`, `MPIE` is set, `MPP` and `MPV` are cleared,
and `MPRV` is cleared when the new privilege is below M. -/
def mretStatus (mstatus : Word) : Word :=
  let mie := if mstatus.getLsbD 7 then (mstatus ||| 0x8) else (mstatus &&& ~~~0x8)
  let mpie := (mie ||| 0x80) &&& ~~~0x1800 &&& ~~~0x8000000000
  if mpp mstatus = 3 then mpie else mpie &&& ~~~0x20000

def Arch.mret (a : Arch) : Arch :=
  { a with
    priv := mpp (a.csr mstatusId)
    csr := Function.update a.csr mstatusId (mretStatus (a.csr mstatusId)) }

lemma Arch.mret_csr_of_ne (a : Arch) {c : CsrNum} (h : c ≠ mstatusId) :
    a.mret.csr c = a.csr c :=
  Function.update_of_ne h _ _

lemma SameButX.mret {a b : Arch} (h : SameButX a b) : SameButX a.mret b.mret :=
  ⟨h.f, h.v, by simp [Arch.mret, h.csr], h.hartid, by simp [Arch.mret, h.csr]⟩

/-! ### Instruction words -/

/-- What a fetched word asks for: an instruction, or a jump to an offset from it. -/
inductive Fetched
  | op (i : Instr)
  | jal (rd : Reg) (off : Word)
  deriving DecidableEq

/-- The offset of a J-type word. -/
def immJ (w : BitVec 32) : Word :=
  (w.extractLsb' 31 1 ++ w.extractLsb' 12 8 ++ w.extractLsb' 20 1 ++ w.extractLsb' 21 10 ++
    (0 : BitVec 1)).signExtend 64

def rdOf (w : BitVec 32) : Reg := (w.extractLsb' 7 5).toFin
def rs1Of (w : BitVec 32) : Reg := (w.extractLsb' 15 5).toFin

def decode (w : BitVec 32) : Option Fetched :=
  let opcode := w.extractLsb' 0 7
  let funct3 := w.extractLsb' 12 3
  if opcode = 0x03 ∧ funct3 = 3 then
    some (.op (.ld (rdOf w) (w.extractLsb' 20 12) (rs1Of w)))
  else if opcode = 0x13 ∧ funct3 = 0 then
    some (.op (.addi (rdOf w) (rs1Of w) (w.extractLsb' 20 12)))
  else if opcode = 0x6f then some (.jal (rdOf w) (immJ w))
  else none

lemma decode_isInt {w : BitVec 32} {i : Instr} (h : decode w = some (.op i)) :
    i.isInt = true := by
  simp only [decode] at h
  split_ifs at h <;> simp at h <;> subst h <;> rfl

/-- The word of `ld rd, off(rs)`. -/
def encodeLd (rd : Reg) (off : BitVec 12) (rs : Reg) : BitVec 32 :=
  off ++ BitVec.ofNat 5 rs ++ (3 : BitVec 3) ++ BitVec.ofNat 5 rd ++ (0x03 : BitVec 7)

end LibCheckpoint.Rv64
