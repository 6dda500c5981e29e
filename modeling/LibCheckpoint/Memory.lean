import LibCheckpoint.Bytes

/-!
The loops of `utils.c` over memory.

The compiler calls `memcpy` and `memset` for the assignments of the layouts and headers. The blocks
of `memcpy` may overlap, and addresses wrap around at the end of the address space.
-/

namespace LibCheckpoint.Memory

open LibCheckpoint.Bytes

/-- The first `n` rounds of a loop `for (i = 0; i < n; i++)`. -/
def rounds {σ : Type*} (f : ℕ → σ → σ) (s : σ) : ℕ → σ
  | 0 => s
  | n + 1 => f n (rounds f s n)

/-- `*((char *)dst + i) = *((char *)src + i)` -/
def copyByte (dst src : Word) (i : ℕ) (m : Word → Byte) : Word → Byte :=
  Function.update m (dst + BitVec.ofNat 64 i) (m (src + BitVec.ofNat 64 i))

def memcpy (dst src size : Word) (m : Word → Byte) : Word × (Word → Byte) :=
  (dst, rounds (copyByte dst src) m size.toNat)

/-- `*((char *)dst + i) = value` -/
def setByte (dst : Word) (value : BitVec 32) (i : ℕ) (m : Word → Byte) : Word → Byte :=
  Function.update m (dst + BitVec.ofNat 64 i) (value.setWidth 8)

def memset (dst : Word) (value : BitVec 32) (size : Word) (m : Word → Byte) :
    Word × (Word → Byte) :=
  (dst, rounds (setByte dst value) m size.toNat)

/-- `*(bss_start + i) = 0` -/
def clearBss (sBss eBss : Word) (m : Word → Byte) : Word → Byte :=
  rounds (setByte sBss 0) m (eBss - sBss).toNat

variable {dst src : Word} {n : ℕ} {x : Word} {m : Word → Byte}

/-! ### Addresses by their distance from the destination -/

lemma sub_add_ofNat (hn : n < 2 ^ 64) : (dst + BitVec.ofNat 64 n - dst).toNat = n := by
  rw [BitVec.add_comm, BitVec.add_sub_cancel, BitVec.toNat_ofNat, Nat.mod_eq_of_lt hn]

lemma eq_add_ofNat_iff (hn : n < 2 ^ 64) :
    x = dst + BitVec.ofNat 64 n ↔ (x - dst).toNat = n := by
  constructor
  · rintro rfl
    exact sub_add_ofNat hn
  · rintro rfl
    rw [BitVec.ofNat_toNat, BitVec.setWidth_eq, BitVec.add_comm, BitVec.sub_add_cancel]

lemma toNat_source (hn : n < 2 ^ 64) : (src + BitVec.ofNat 64 n - dst).toNat =
    if (dst - src).toNat ≤ n then n - (dst - src).toNat
    else n + (2 ^ 64 - (dst - src).toNat) := by
  have hd := (dst - src).isLt
  have hsrc : src + BitVec.ofNat 64 n - dst = BitVec.ofNat 64 n - (dst - src) := by
    rw [sub_sub_eq_add_sub, add_comm]
  rw [hsrc, BitVec.toNat_sub, BitVec.toNat_ofNat, Nat.mod_eq_of_lt hn]
  split_ifs <;> omega

/-- **The copy loop**: what it has read behind the first byte of the destination, it has written
before. So the bytes between the two beginnings are repeated. -/
theorem rounds_copyByte (hn : n ≤ 2 ^ 64) (x : Word) : rounds (copyByte dst src) m n x =
    if (x - dst).toNat < n then m (src + BitVec.ofNat 64 ((x - dst).toNat % (dst - src).toNat))
    else m x := by
  induction n generalizing x with
  | zero => rfl
  | succ n ih =>
    by_cases hx : (x - dst).toNat = n
    · obtain rfl := (eq_add_ofNat_iff (by omega)).mpr hx
      rw [rounds, copyByte, Function.update_self, ih (by omega), toNat_source (by omega), hx,
        if_pos (Nat.lt_succ_self n)]
      by_cases hd : (dst - src).toNat ≤ n
      · rw [if_pos hd]
        rcases Nat.eq_zero_or_pos (dst - src).toNat with h0 | hpos
        · rw [if_neg (by omega), h0, Nat.mod_zero]
        · rw [if_pos (by omega), ← Nat.mod_eq_sub_mod hd]
      · rw [if_neg hd, if_neg (by omega), Nat.mod_eq_of_lt (by omega)]
    · have hne : x ≠ dst + BitVec.ofNat 64 n := (eq_add_ofNat_iff (by omega)).not.mpr hx
      rw [rounds, copyByte, Function.update_of_ne hne, ih (by omega)]
      have hlt : (x - dst).toNat < n + 1 ↔ (x - dst).toNat < n := by omega
      simp only [hlt]

/-- **`memcpy`, whatever the blocks are**: it returns its destination, leaves what is outside of it
as it was, and repeats the bytes between the two beginnings; where these are equal, or further apart
than the size, `i % d` is `i`. -/
theorem memcpy_apply (dst src size x : Word) (m : Word → Byte) :
    (memcpy dst src size m).1 = dst ∧ (memcpy dst src size m).2 x =
      if (x - dst).toNat < size.toNat then
        m (src + BitVec.ofNat 64 ((x - dst).toNat % (dst - src).toNat))
      else m x :=
  ⟨rfl, rounds_copyByte (by omega) x⟩

/-- **When `memcpy` is `memmove`**: it copies the bytes that the source had before, whatever they
are, if and only if the destination does not begin inside the source, behind its first byte. -/
theorem memcpy_moves_iff (dst src size : Word) :
    (∀ (m : Word → Byte) (i : ℕ), i < size.toNat →
      (memcpy dst src size m).2 (dst + BitVec.ofNat 64 i) = m (src + BitVec.ofNat 64 i)) ↔
    ¬ (0 < (dst - src).toNat ∧ (dst - src).toNat < size.toNat) := by
  have hsize := size.isLt
  have hcopy (m : Word → Byte) {i : ℕ} (hi : i < size.toNat) :
      (memcpy dst src size m).2 (dst + BitVec.ofNat 64 i) =
        m (src + BitVec.ofNat 64 (i % (dst - src).toNat)) := by
    change rounds (copyByte dst src) m size.toNat _ = _
    rw [rounds_copyByte (by omega), sub_add_ofNat (by omega), if_pos hi]
  constructor
  · rintro h ⟨hpos, hlt⟩
    -- the first byte is copied again where the destination begins
    have hdst : src + BitVec.ofNat 64 (dst - src).toNat = dst := by
      rw [BitVec.ofNat_toNat, BitVec.setWidth_eq, BitVec.add_comm, BitVec.sub_add_cancel]
    have hne : src ≠ dst := by
      rintro rfl
      simp at hpos
    have hfirst := h (fun a => if a = dst then 1 else 0) _ hlt
    rw [hcopy _ hlt, Nat.mod_self, hdst] at hfirst
    simp [hne] at hfirst
  · intro h m i hi
    rw [hcopy m hi]
    rcases Nat.eq_zero_or_pos (dst - src).toNat with h0 | hpos
    · rw [h0, Nat.mod_zero]
    · rw [Nat.mod_eq_of_lt (by omega)]

/-! ### Filling -/

lemma rounds_setByte {value : BitVec 32} (hn : n ≤ 2 ^ 64) (x : Word) :
    rounds (setByte dst value) m n x = if (x - dst).toNat < n then value.setWidth 8 else m x := by
  induction n with
  | zero => rfl
  | succ n ih =>
    by_cases hx : (x - dst).toNat = n
    · obtain rfl := (eq_add_ofNat_iff (by omega)).mpr hx
      rw [rounds, setByte, Function.update_self, hx, if_pos (Nat.lt_succ_self n)]
    · have hne : x ≠ dst + BitVec.ofNat 64 n := (eq_add_ofNat_iff (by omega)).not.mpr hx
      have hlt : (x - dst).toNat < n + 1 ↔ (x - dst).toNat < n := by omega
      rw [rounds, setByte, Function.update_of_ne hne, ih (by omega)]
      simp only [hlt]

/-- **`memset`** writes the lowest byte of its value to the block, and nothing else. -/
theorem memset_apply (dst size x : Word) (value : BitVec 32) (m : Word → Byte) :
    (memset dst value size m).2 x =
      if (x - dst).toNat < size.toNat then value.setWidth 8 else m x :=
  rounds_setByte (by omega) x

/-- **`clear_bss`** leaves zeros from `s_bss` up to `e_bss`, and everything else as it was. -/
theorem clearBss_apply (sBss eBss x : Word) (m : Word → Byte) :
    clearBss sBss eBss m x = if (x - sBss).toNat < (eBss - sBss).toNat then 0 else m x :=
  memset_apply sBss (eBss - sBss) x 0 m

end LibCheckpoint.Memory
