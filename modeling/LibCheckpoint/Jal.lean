import LibCheckpoint.Asm
import Mathlib.Tactic.IntervalCases

/-!
The jump that a hart patches into its stub: the range check, the J-type word, and when the
word jumps where it should.
-/

namespace LibCheckpoint.Jal

open LibCheckpoint.Bytes LibCheckpoint.Rv64

/-- The C bit-field union `JalInstr`: the fields from the lowest bit up, truncated to their
widths. -/
structure JalInstr where
  opcode : BitVec 7
  rd : BitVec 5
  imm1912 : BitVec 8
  imm11 : BitVec 1
  imm101 : BitVec 10
  imm20 : BitVec 1

def JalInstr.inst (j : JalInstr) : BitVec 32 :=
  j.imm20 ++ j.imm101 ++ j.imm11 ++ j.imm1912 ++ j.rd ++ j.opcode

/-- `generate_jal`; the shifts of the signed `imm` are arithmetic. -/
def generateJal (imm : BitVec 32) (rd : BitVec 8) : BitVec 32 :=
  JalInstr.inst
    { opcode := 0b1101111
      rd := rd.setWidth 5
      imm20 := (imm.sshiftRight 19 &&& 1).setWidth 1
      imm1912 := (imm.sshiftRight 11 &&& 0xff).setWidth 8
      imm11 := (imm.sshiftRight 10 &&& 1).setWidth 1
      imm101 := (imm.sshiftRight 0 &&& 0x3ff).setWidth 10 }

/-- `is_valid_imm`: the argument is a signed `int32_t`. -/
def isValidImm (imm : BitVec 32) : Bool :=
  decide (-(2 ^ 20) ≤ imm.toInt) && decide (imm.toInt < 2 ^ 20)

/-- The word to patch: `pc += 3 * (cpu_id + 1) + cpu_id` on a `uint32_t *`. -/
def stubPc (core0 : Word) (cpuId : BitVec 32) : Word :=
  core0 + 4 * (3 * (cpuId + 1) + cpuId).signExtend 64

/-- `(uint32_t)((uint64_t)target_pc - (uint64_t)pc)`. -/
def jalOffset (targetPc pc : Word) : BitVec 32 := (targetPc - pc).setWidth 32

def jalInstr (offset : BitVec 32) : BitVec 32 := generateJal (offset >>> 1 &&& 0xFFFFF) 0

/-! ### The word as an instruction -/

/-- The immediate that `generate_jal` is called with. -/
def jalImm (offset : BitVec 32) : BitVec 32 := offset >>> 1 &&& 0xFFFFF

lemma jalImm_field (offset : BitVec 32) (n w : ℕ) (h : n + w ≤ 20) :
    ((jalImm offset).sshiftRight n).setWidth w = offset.extractLsb' (n + 1) w := by
  refine BitVec.eq_of_getLsbD_eq fun i hi => ?_
  have hk : (0xFFFFF : BitVec 32).getLsbD (n + i) = true := by
    rw [show (0xFFFFF : BitVec 32) = (BitVec.allOnes 20).setWidth 32 from rfl,
      BitVec.getLsbD_setWidth, BitVec.getLsbD_allOnes]
    simp only [Bool.and_eq_true, decide_eq_true_eq]
    omega
  have h32 : ¬ 32 ≤ i := by omega
  simp only [jalImm, BitVec.getLsbD_setWidth, BitVec.getLsbD_sshiftRight,
    BitVec.getLsbD_extractLsb', BitVec.getLsbD_and, BitVec.getLsbD_ushiftRight, hi, hk, h32]
  rw [if_pos (by omega)]
  simp [show 1 + (n + i) = n + 1 + i by omega]

lemma jalInstr_fields (offset : BitVec 32) : jalInstr offset = JalInstr.inst
    { opcode := 0b1101111
      rd := 0
      imm20 := offset.extractLsb' 20 1
      imm1912 := offset.extractLsb' 12 8
      imm11 := offset.extractLsb' 11 1
      imm101 := offset.extractLsb' 1 10 } := by
  have hand (w : ℕ) (x m : BitVec 32) (hm : m.setWidth w = BitVec.allOnes w) :
      (x &&& m).setWidth w = x.setWidth w := by
    rw [BitVec.setWidth_and, hm, BitVec.and_allOnes]
  rw [jalInstr, generateJal, ← jalImm, hand 1 _ _ (by decide), hand 8 _ _ (by decide),
    hand 1 _ _ (by decide), hand 10 _ _ (by decide), jalImm_field _ _ _ (by omega),
    jalImm_field _ _ _ (by omega), jalImm_field _ _ _ (by omega), jalImm_field _ _ _ (by omega)]
  rfl

def jalBits (offset : BitVec 32) : BitVec 21 := offset.extractLsb' 1 20 ++ (0 : BitVec 1)

lemma immJ_jalInstr (offset : BitVec 32) :
    immJ (jalInstr offset) = (jalBits offset).signExtend 64 := by
  rw [immJ, jalInstr_fields]
  congr 1
  refine BitVec.eq_of_getLsbD_eq fun i hi => ?_
  interval_cases i <;>
    simp only [JalInstr.inst, jalBits, BitVec.getLsbD_append, BitVec.getLsbD_extractLsb'] <;> simp

lemma JalInstr.inst_low (j : JalInstr) : j.inst.extractLsb' 0 7 = j.opcode ∧
    j.inst.extractLsb' 7 5 = j.rd := by
  unfold JalInstr.inst
  constructor
  · rw [BitVec.extractLsb'_append_eq_of_add_le (by omega), BitVec.extractLsb'_eq_self]
  · rw [BitVec.extractLsb'_append_eq_of_le (by omega),
      BitVec.extractLsb'_append_eq_of_add_le (by omega), BitVec.extractLsb'_eq_self]

lemma decode_jalInstr (offset : BitVec 32) :
    decode (jalInstr offset) = some (.jal 0 (immJ (jalInstr offset))) := by
  have hop : (jalInstr offset).extractLsb' 0 7 = 0x6f := by
    rw [jalInstr_fields, (JalInstr.inst_low _).1]
  have hrd : (jalInstr offset).extractLsb' 7 5 = 0 := by
    rw [jalInstr_fields, (JalInstr.inst_low _).2]
  simp [decode, hop, rdOf, hrd]

/-! ### Exactness -/

def inRange (d : ℤ) : Prop := -(2 ^ 20) ≤ d ∧ d < 2 ^ 20

def stubLast (core0 : Word) (cpuId : BitVec 32) : Word := core0 + 16 * cpuId.setWidth 64 + 12

lemma stubPc_eq (core0 : Word) {cpuId : BitVec 32} (h : cpuId.toNat < 2 ^ 29) :
    stubPc core0 cpuId = stubLast core0 cpuId := by
  have hidx : (3 * (cpuId + 1) + cpuId).toNat = 4 * cpuId.toNat + 3 := by
    simp only [BitVec.toNat_add, BitVec.toNat_mul, BitVec.ofNat_eq_ofNat, BitVec.toNat_ofNat]
    omega
  rw [stubPc, stubLast, BitVec.signExtend_eq_setWidth_of_msb_false]
  · refine BitVec.eq_of_toNat_eq ?_
    rw [BitVec.toNat_add, BitVec.toNat_mul, BitVec.toNat_setWidth, hidx]
    simp only [BitVec.toNat_add, BitVec.toNat_mul, BitVec.toNat_setWidth, BitVec.ofNat_eq_ofNat,
      BitVec.toNat_ofNat]
    omega
  · rw [BitVec.msb_eq_decide, hidx]
    simp only [decide_eq_false_iff_not]
    omega

/-- The check looks at the distance modulo `2 ^ 32` only. -/
lemma isValidImm_iff (d : Word) :
    isValidImm (d.setWidth 32) = true ↔ ∃ k : ℤ, inRange (d.toInt - 2 ^ 32 * k) := by
  have hlt := d.isLt
  simp only [isValidImm, Bool.and_eq_true, decide_eq_true_eq, inRange, BitVec.toInt_eq_toNat_cond,
    BitVec.toNat_setWidth]
  constructor
  · intro h
    refine ⟨((if 2 * d.toNat < 2 ^ 64 then (d.toNat : ℤ) else d.toNat - 2 ^ 64) + 2 ^ 31) / 2 ^ 32,
      ?_⟩
    split_ifs at h ⊢ <;> omega
  · rintro ⟨k, hk⟩
    split_ifs at hk ⊢ <;> omega

lemma eq_zero_of_inRange {d k : ℤ} (h0 : inRange d) (hk : inRange (d - 2 ^ 32 * k)) : k = 0 := by
  unfold inRange at *
  omega

lemma jalBits_toNat (offset : BitVec 32) :
    (jalBits offset).toNat = offset.toNat / 2 % 2 ^ 20 * 2 := by
  rw [jalBits, BitVec.toNat_append, BitVec.extractLsb'_toNat]
  simp [Nat.shiftRight_eq_div_pow, Nat.shiftLeft_eq]

/-- In range, the word carries the distance without its lowest bit. -/
lemma immJ_eq_iff {d : Word} (h : inRange d.toInt) :
    immJ (jalInstr (d.setWidth 32)) = d ↔ 2 ∣ d.toNat := by
  have hlt := d.isLt
  rw [immJ_jalInstr, ← BitVec.toInt_inj, BitVec.toInt_signExtend_of_le (by omega)]
  simp only [inRange, BitVec.toInt_eq_toNat_cond] at h ⊢
  rw [jalBits_toNat, BitVec.toNat_setWidth]
  omega

/-- What the patch is for: the check passes exactly for the targets in range, and a word that
passes it jumps from the end of the stub to the target. -/
def Exact (core0 : Word) (cpuId : BitVec 32) (targetPc : Word) : Prop :=
  (isValidImm (jalOffset targetPc (stubPc core0 cpuId)) = true ↔
    inRange (targetPc - stubLast core0 cpuId).toInt) ∧
  (isValidImm (jalOffset targetPc (stubPc core0 cpuId)) = true →
    ∃ off, decode (jalInstr (jalOffset targetPc (stubPc core0 cpuId))) = some (.jal 0 off) ∧
      stubLast core0 cpuId + off = targetPc)

/-- **When the patch is exact**: the target is not near a point that is a non-zero multiple of
`2 ^ 32` away, and the stub table is at an even address, unless the check refuses anyway. -/
theorem exact_iff (core0 : Word) (cpuId : BitVec 32) (targetPc : Word) (hid : cpuId.toNat < 128)
    (heven : 2 ∣ targetPc.toNat) : Exact core0 cpuId targetPc ↔
      (∀ k : ℤ, k ≠ 0 → ¬ inRange ((targetPc - stubLast core0 cpuId).toInt - 2 ^ 32 * k)) ∧
      (2 ∣ core0.toNat ∨ ¬ inRange (targetPc - stubLast core0 cpuId).toInt) := by
  set d := targetPc - stubLast core0 cpuId with hd
  have hoff : jalOffset targetPc (stubPc core0 cpuId) = d.setWidth 32 := by
    rw [stubPc_eq core0 (by omega), jalOffset]
  -- The stubs are 16 bytes apart, so the parity is that of `core0`.
  have hcore : 2 ∣ d.toNat ↔ 2 ∣ core0.toNat := by
    simp only [hd, stubLast, BitVec.toNat_sub, BitVec.toNat_add, BitVec.toNat_mul,
      BitVec.toNat_setWidth, BitVec.ofNat_eq_ofNat, BitVec.toNat_ofNat]
    omega
  have hjump (off : Word) : stubLast core0 cpuId + off = targetPc ↔ off = d := by
    rw [hd, BitVec.eq_sub_iff_add_eq, BitVec.add_comm]
  rw [Exact, hoff, isValidImm_iff]
  constructor
  · rintro ⟨hiff, hjal⟩
    refine ⟨fun k hk hr => hk (eq_zero_of_inRange (hiff.mp ⟨k, hr⟩) hr), ?_⟩
    by_cases h0 : inRange d.toInt
    · obtain ⟨off, hdec, hoff⟩ := hjal (hiff.mpr h0)
      rw [decode_jalInstr] at hdec
      obtain rfl : immJ (jalInstr (d.setWidth 32)) = off := by simpa using hdec
      rw [hjump, immJ_eq_iff h0, hcore] at hoff
      exact .inl hoff
    · exact .inr h0
  · rintro ⟨hk, hcore'⟩
    -- The check passes for the distance itself, as no other one with its lower half is in range.
    have hzero (h : ∃ k : ℤ, inRange (d.toInt - 2 ^ 32 * k)) : inRange d.toInt := by
      obtain ⟨k, hr⟩ := h
      by_cases h0 : k = 0
      · simpa [h0] using hr
      · exact absurd hr (hk k h0)
    refine ⟨⟨hzero, fun h => ⟨0, by rwa [mul_zero, sub_zero]⟩⟩, fun h => ?_⟩
    have h0 := hzero h
    refine ⟨_, decode_jalInstr _, ?_⟩
    rw [hjump, immJ_eq_iff h0, hcore]
    exact hcore'.resolve_right (not_not_intro h0)

theorem exact_iff_near : Exact 0x80001000 1 0x80002000 ↔
    (∀ k : ℤ, k ≠ 0 →
      ¬ inRange (((0x80002000 : Word) - stubLast 0x80001000 1).toInt - 2 ^ 32 * k)) ∧
    (2 ∣ (0x80001000 : Word).toNat ∨
      ¬ inRange ((0x80002000 : Word) - stubLast 0x80001000 1).toInt) :=
  exact_iff _ _ _ (by decide) (by decide)

/-- A target `2 ^ 32` bytes behind the stub passes the check. -/
theorem not_exact_far : ¬ ∀ core0 targetPc : Word, ∀ cpuId : BitVec 32, cpuId.toNat < 128 →
    2 ∣ targetPc.toNat → Exact core0 cpuId targetPc := by
  intro h
  have := (h 0x80001000 0x18000100c 0 (by decide) (by decide)).1.mp (by decide)
  revert this
  unfold inRange
  decide

end LibCheckpoint.Jal
