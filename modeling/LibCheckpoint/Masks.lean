import Mathlib.Data.Nat.Notation

/-!
Bits selected by a mask.
-/

namespace LibCheckpoint.Masks

variable {n : ℕ} {a b m w : BitVec n}

lemma and_eq_self_iff : w &&& m = w ↔ w &&& ~~~m = 0 := by
  constructor
  · intro h
    rw [← h, BitVec.and_assoc, BitVec.and_not_self]
    exact BitVec.and_zero
  · intro h
    have hsplit : w &&& (m ||| ~~~m) = w := by simp
    rw [BitVec.and_or_distrib_left, h] at hsplit
    exact BitVec.or_zero.symm.trans hsplit

/-- The bits of `a` in the mask, those of `b` elsewhere. -/
def sel (m a b : BitVec n) : BitVec n := (a &&& m) ||| (b &&& ~~~m)

lemma sel_eq_right (h : a &&& m = b &&& m) : sel m a b = b := by
  rw [sel, h, ← BitVec.and_or_distrib_left, BitVec.or_not_self, BitVec.and_allOnes]

lemma ushiftRight_shiftLeft (x : BitVec n) (k : ℕ) :
    (x >>> k) <<< k = x &&& (BitVec.allOnes n <<< k) := by
  refine BitVec.eq_of_getLsbD_eq fun i hi => ?_
  by_cases hk : i < k
  · simp [hi, hk]
  · have hsub : k + (i - k) = i := by omega
    simp [hi, hk, hsub]

/-- What a window shows of the bits of a mask, seen from outside. -/
lemma window_shiftLeft {k : ℕ} (hm : m &&& (BitVec.allOnes n <<< k) = m) (x : BitVec n) :
    ((x &&& m) >>> k) <<< k = x &&& m := by
  rw [ushiftRight_shiftLeft, BitVec.and_assoc, hm]

end LibCheckpoint.Masks
