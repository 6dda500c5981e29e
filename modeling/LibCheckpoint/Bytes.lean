import Mathlib.Data.Set.Basic
import Mathlib.Data.BitVec

/-!
Little-endian words in a store of bytes.

A store is addressed by natural numbers (a section of a program, by offset) or by machine
words (the whole address space); both read a word through the same eight bytes.
-/

namespace LibCheckpoint.Bytes

abbrev Byte := BitVec 8
abbrev Word := BitVec 64

/-- The word whose bytes are `f 0` (lowest) to `f 7`. -/
def leWord (f : ℕ → Byte) : Word :=
  f 7 ++ f 6 ++ f 5 ++ f 4 ++ f 3 ++ f 2 ++ f 1 ++ f 0

def byteOf (w : Word) (k : ℕ) : Byte := w.extractLsb' (8 * k) 8

lemma leWord_congr {f g : ℕ → Byte} (h : ∀ k < 8, f k = g k) : leWord f = leWord g := by
  simp [leWord, h]

lemma getLsbD_leWord (f : ℕ → Byte) {i : ℕ} (hi : i < 64) :
    (leWord f).getLsbD i = (f (i / 8)).getLsbD (i % 8) := by
  unfold leWord
  simp only [BitVec.getLsbD_append]
  split_ifs <;> congr 2 <;> omega

lemma leWord_byteOf (w : Word) : leWord (byteOf w) = w := by
  unfold byteOf
  ext i hi
  have hdiv : 8 * (i / 8) + i % 8 = i := by omega
  have hmod : i % 8 < 8 := by omega
  rw [← BitVec.getLsbD_eq_getElem, ← BitVec.getLsbD_eq_getElem, getLsbD_leWord _ hi,
    BitVec.getLsbD_extractLsb', hdiv]
  simp [hmod]

lemma leWord_zero : leWord (fun _ => 0) = 0 := by decide

/-! ### A section, addressed by offset -/

def getW (b : ℕ → Byte) (o : ℕ) : Word := leWord fun k => b (o + k)

def setW (b : ℕ → Byte) (o : ℕ) (w : Word) : ℕ → Byte := fun k =>
  if o ≤ k ∧ k < o + 8 then byteOf w (k - o) else b k

def setB (b : ℕ → Byte) (o : ℕ) (v : Byte) : ℕ → Byte := Function.update b o v

@[simp] lemma getW_setW_self (b : ℕ → Byte) (o : ℕ) (w : Word) : getW (setW b o w) o = w := by
  rw [← leWord_byteOf w]
  refine leWord_congr fun k hk => ?_
  simp [setW, hk, leWord_byteOf]

lemma getW_setW_of_apart (b : ℕ → Byte) {o p : ℕ} (w : Word) (h : o + 8 ≤ p ∨ p + 8 ≤ o) :
    getW (setW b p w) o = getW b o := by
  refine leWord_congr fun k hk => ?_
  have : ¬ (p ≤ o + k ∧ o + k < p + 8) := by omega
  simp [setW, this]

lemma getW_zero {b : ℕ → Byte} {o : ℕ} (h : ∀ k < 8, b (o + k) = 0) : getW b o = 0 := by
  unfold getW
  rw [leWord_congr (g := fun _ => 0) h, leWord_zero]

lemma byteOf_leWord (f : ℕ → Byte) {k : ℕ} (hk : k < 8) : byteOf (leWord f) k = f k := by
  unfold byteOf
  ext i hi
  have hdiv : (8 * k + i) / 8 = k := by omega
  have hmod : (8 * k + i) % 8 = i := by omega
  rw [← BitVec.getLsbD_eq_getElem, ← BitVec.getLsbD_eq_getElem, BitVec.getLsbD_extractLsb',
    getLsbD_leWord f (by omega), hdiv, hmod]
  simp [hi]

lemma eq_zero_of_leWord {f : ℕ → Byte} (h : leWord f = 0) {k : ℕ} (hk : k < 8) : f k = 0 := by
  rw [← byteOf_leWord f hk, h]
  simp [byteOf]

lemma getW_setB_zero {b : ℕ → Byte} {o : ℕ} (h : getW b o = 0) (i : ℕ) :
    getW (setB b i 0) o = 0 := by
  refine getW_zero fun k hk => ?_
  have h0 : b (o + k) = 0 := eq_zero_of_leWord h hk
  by_cases he : o + k = i
  · simp [setB, he]
  · simp [setB, he, h0]

/-! ### The address space -/

def ld64 (m : Word → Byte) (a : Word) : Word := leWord fun k => m (a + BitVec.ofNat 64 k)

lemma ld64_zero (a : Word) : ld64 (fun _ => 0) a = 0 := leWord_zero

def ld128 (m : Word → Byte) (a : Word) : BitVec 128 := ld64 m (a + 8) ++ ld64 m a

def region (a : Word) (n : ℕ) : Set Word := {x | ∃ k < n, x = a + BitVec.ofNat 64 k}

/-- Two memories with the same bytes on a set of addresses. -/
def AgreeOn (S : Set Word) (m m' : Word → Byte) : Prop := ∀ a ∈ S, m a = m' a

lemma AgreeOn.mono {S R : Set Word} {m m' : Word → Byte} (h : AgreeOn S m m') (hR : R ⊆ S) :
    AgreeOn R m m' := fun a ha => h a (hR ha)

lemma ld64_agree {m m' : Word → Byte} {a : Word} (h : AgreeOn (region a 8) m m') :
    ld64 m a = ld64 m' a :=
  leWord_congr fun k hk => h _ ⟨k, hk, rfl⟩

lemma region_sub (a : Word) {o l n : ℕ} (h : o + l ≤ n) :
    region (a + BitVec.ofNat 64 o) l ⊆ region a n := by
  rintro x ⟨k, hk, rfl⟩
  exact ⟨o + k, by omega, by rw [BitVec.add_assoc, BitVec.ofNat_add]⟩

lemma mem_region_iff {x a : Word} {n : ℕ} (hn : n ≤ 2 ^ 64) :
    x ∈ region a n ↔ (x - a).toNat < n := by
  constructor
  · rintro ⟨k, hk, rfl⟩
    rw [BitVec.add_comm, BitVec.add_sub_cancel, BitVec.toNat_ofNat]
    omega
  · intro h
    exact ⟨(x - a).toNat, h, by rw [BitVec.ofNat_toNat, BitVec.setWidth_eq, BitVec.add_comm,
      BitVec.sub_add_cancel]⟩

lemma ld128_agree {m m' : Word → Byte} {a : Word} (h : AgreeOn (region a 16) m m') :
    ld128 m a = ld128 m' a := by
  have h0 := h.mono (region_sub a (o := 0) (l := 8) (by omega))
  have h8 := h.mono (region_sub a (o := 8) (l := 8) (by omega))
  rw [show a + BitVec.ofNat 64 0 = a by simp] at h0
  rw [ld128, ld128, ld64_agree h0]
  exact congrArg (· ++ ld64 m' a) (ld64_agree h8)

end LibCheckpoint.Bytes
