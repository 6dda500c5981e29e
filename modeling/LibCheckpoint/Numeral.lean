import Mathlib.Data.Nat.Digits.Defs
import Mathlib.Data.Nat.Log

/-!
Numbers written in a base with digits, a sign and blanks around them, and read back.

A converter with a buffer of `k` digits divides until nothing is left or the buffer is full.
What it wrote denotes the number modulo the `k`-th power of the base.
-/

namespace LibCheckpoint.Numeral

open Nat (ofDigits)

/-! ### Digits -/

/-- The digits a converter with room for `k` of them writes, lowest first. -/
def lowDigits (b : ℕ) : ℕ → ℕ → List ℕ
  | 0, _ => []
  | k + 1, n => n % b :: if n / b = 0 then [] else lowDigits b k (n / b)

lemma length_lowDigits_le (b k n : ℕ) : (lowDigits b k n).length ≤ k := by
  induction k generalizing n with
  | zero => exact le_rfl
  | succ k ih =>
    rw [lowDigits, List.length_cons]
    split_ifs
    · simp
    · exact Nat.succ_le_succ (ih _)

lemma lowDigits_ne_nil {b k n : ℕ} (hk : 0 < k) : lowDigits b k n ≠ [] := by
  obtain ⟨k, rfl⟩ := Nat.exists_eq_succ_of_ne_zero hk.ne'
  simp [lowDigits]

variable {b : ℕ}

lemma lt_of_mem_lowDigits (hb : 0 < b) {k n d : ℕ} (h : d ∈ lowDigits b k n) : d < b := by
  induction k generalizing n with
  | zero => simp [lowDigits] at h
  | succ k ih =>
    rw [lowDigits, List.mem_cons] at h
    rcases h with rfl | h
    · exact Nat.mod_lt _ hb
    · split_ifs at h
      · simp at h
      · exact ih h

/-- **What the digits denote**: the number, as far as the buffer goes. -/
theorem ofDigits_lowDigits (hb : 0 < b) (k n : ℕ) :
    ofDigits b (lowDigits b k n) = n % b ^ k := by
  induction k generalizing n with
  | zero => simp [lowDigits, Nat.mod_one]
  | succ k ih =>
    rw [lowDigits, Nat.ofDigits_cons]
    split_ifs with h
    · have hn : n < b := (Nat.div_eq_zero_iff_lt hb).mp h
      have hle : b ≤ b ^ (k + 1) := Nat.le_self_pow (Nat.succ_ne_zero k) b
      simp [Nat.mod_eq_of_lt hn, Nat.mod_eq_of_lt (hn.trans_le hle)]
    · rw [ih, Nat.pow_succ', Nat.mod_mul]

/-- How many digits there are: one at least, else as many as the logarithm says. -/
lemma length_lowDigits (hb : 1 < b) (k n : ℕ) :
    (lowDigits b k n).length = min k (Nat.log b n + 1) := by
  induction k generalizing n with
  | zero => simp [lowDigits]
  | succ k ih =>
    rw [lowDigits, List.length_cons]
    split_ifs with h
    · have hn : n < b := (Nat.div_eq_zero_iff_lt (by omega)).mp h
      rw [Nat.log_of_lt hn, List.length_nil]
      omega
    · have hn : b ≤ n := by
        by_contra hlt
        exact h (Nat.div_eq_of_lt (by omega))
      rw [ih, Nat.log_of_one_lt_of_le hb hn]
      omega

lemma getLast_lowDigits_ne_zero (hb : 1 < b) {k n : ℕ} (hn : 0 < n) (hk : n < b ^ k)
    (h : lowDigits b k n ≠ []) : (lowDigits b k n).getLast h ≠ 0 := by
  induction k generalizing n with
  | zero => exact absurd rfl h
  | succ k ih =>
    by_cases hq : n / b = 0
    · have hlt : n < b := (Nat.div_eq_zero_iff_lt (by omega)).mp hq
      have : lowDigits b (k + 1) n = [n] := by
        rw [lowDigits, if_pos hq, Nat.mod_eq_of_lt hlt]
      simpa [this] using hn.ne'
    · have hlt : n / b < b ^ k := Nat.div_lt_of_lt_mul (by rwa [← Nat.pow_succ'])
      have hpos : 0 < k := by
        by_contra h0
        obtain rfl : k = 0 := by omega
        exact hq (Nat.lt_one_iff.mp (by rwa [pow_zero] at hlt))
      have hne := lowDigits_ne_nil (b := b) (n := n / b) hpos
      have : lowDigits b (k + 1) n = n % b :: lowDigits b k (n / b) := by
        rw [lowDigits, if_neg hq]
      simpa [this, List.getLast_cons hne] using ih (Nat.pos_of_ne_zero hq) hlt hne

/-- Digits without the highest ones, which are not all zero, denote a smaller number. -/
lemma ofDigits_take_lt {ds : List ℕ} (hb : 0 < b) (h : ds ≠ []) (hlast : ds.getLast h ≠ 0) {k : ℕ}
    (hk : k < ds.length) : ofDigits b (ds.take k) < ofDigits b ds := by
  have hdrop : ds.drop k ≠ [] := by
    rw [Ne, List.drop_eq_nil_iff]
    omega
  have hpos : 0 < ofDigits b (ds.drop k) := by
    rw [← List.dropLast_concat_getLast hdrop, Nat.ofDigits_append, Nat.ofDigits_singleton,
      List.getLast_drop]
    have := Nat.mul_pos (Nat.pow_pos (n := (ds.drop k).dropLast.length) hb)
      (Nat.pos_of_ne_zero hlast)
    omega
  calc ofDigits b (ds.take k)
      < ofDigits b (ds.take k) + b ^ (ds.take k).length * ofDigits b (ds.drop k) :=
        Nat.lt_add_of_pos_right (Nat.mul_pos (Nat.pow_pos hb) hpos)
    _ = ofDigits b ds := by rw [← Nat.ofDigits_append, List.take_append_drop]

/-! ### Reading digits -/

/-- The value of digits, highest first. -/
def value (b : ℕ) (ds : List ℕ) : ℕ := ds.foldl (fun a d => a * b + d) 0

lemma value_reverse (b : ℕ) (ds : List ℕ) : value b ds.reverse = ofDigits b ds := by
  unfold value
  rw [List.foldl_reverse, Nat.ofDigits_eq_foldr]
  simp only [Nat.cast_id]
  congr 1
  funext d a
  ring

variable {β : Type*}

/-- The longest run of digits at the front of a text, and what follows it. -/
def digitRun (val : β → Option ℕ) : List β → List ℕ × List β
  | [] => ([], [])
  | c :: s =>
    match val c with
    | none => ([], c :: s)
    | some d => (d :: (digitRun val s).1, (digitRun val s).2)

lemma digitRun_of_none {val : β → Option ℕ} {s : List β} (h : ∀ c ∈ s.head?, val c = none) :
    digitRun val s = ([], s) := by
  cases s with
  | nil => rfl
  | cons c s => simp [digitRun, h c rfl]

lemma digitRun_append {val : β → Option ℕ} {sym : ℕ → β} {ds : List ℕ} {s : List β}
    (hds : ∀ d ∈ ds, val (sym d) = some d) (hs : ∀ c ∈ s.head?, val c = none) :
    digitRun val (ds.map sym ++ s) = (ds, s) := by
  induction ds with
  | nil => exact digitRun_of_none hs
  | cons d ds ih =>
    have h := ih fun e he => hds e (List.mem_cons_of_mem _ he)
    simp [digitRun, hds d List.mem_cons_self, h]

/-! ### Fields -/

/-- The symbols that numbers are written with in a base. -/
structure Alphabet (β : Type*) (b : ℕ) where
  blank : β
  plus : β
  minus : β
  digit : ℕ → β
  val : β → Option ℕ
  val_digit : ∀ d < b, val (digit d) = some d
  val_blank : val blank = none
  val_plus : val plus = none
  val_minus : val minus = none
  plus_ne_blank : plus ≠ blank
  minus_ne_blank : minus ≠ blank
  minus_ne_plus : minus ≠ plus

/-- What stands in front of the digits. -/
inductive Mark
  | none
  | plus
  | minus
  deriving DecidableEq

namespace Alphabet

variable (A : Alphabet β b)

def mark : Mark → List β
  | .none => []
  | .plus => [A.plus]
  | .minus => [A.minus]

/-- A number in a field: blanks, a mark, the digits (highest first), blanks. -/
def field (k : ℕ) (s : Mark) (ds : List ℕ) (l : ℕ) : List β :=
  List.replicate k A.blank ++ (A.mark s ++ (ds.map A.digit ++ List.replicate l A.blank))

variable {A} in
lemma head?_blanks (l : ℕ) : ∀ c ∈ (List.replicate l A.blank).head?, A.val c = none := by
  intro c hc
  have : c = A.blank := List.eq_of_mem_replicate (List.mem_of_mem_head? hc)
  rw [this, A.val_blank]

variable {A} in
lemma digit_ne {d : ℕ} (hd : d < b) :
    A.digit d ≠ A.blank ∧ A.digit d ≠ A.plus ∧ A.digit d ≠ A.minus := by
  have h := A.val_digit d hd
  refine ⟨?_, ?_, ?_⟩ <;> intro heq <;> rw [heq] at h
  · simp [A.val_blank] at h
  · simp [A.val_plus] at h
  · simp [A.val_minus] at h

variable {A} in
lemma head?_mark (s : Mark) {d : ℕ} (hd : d < b) (cs : List β) :
    ∀ c ∈ (A.mark s ++ A.digit d :: cs).head?, c ≠ A.blank := by
  obtain ⟨hblank, -, -⟩ := digit_ne (A := A) hd
  cases s with
  | none => simpa [mark] using hblank
  | plus => simpa [mark] using A.plus_ne_blank
  | minus => simpa [mark] using A.minus_ne_blank

variable [DecidableEq β]

/-- The mark a text begins with, and the rest. -/
def readMark : List β → Mark × List β
  | [] => (.none, [])
  | c :: s =>
    if c = A.minus then (.minus, s) else if c = A.plus then (.plus, s) else (.none, c :: s)

def signed (s : Mark) (n : ℕ) : ℤ := if s = .minus then -n else n

/-- The number in a field, if the text is one. -/
def read (cs : List β) : Option ℤ :=
  let m := A.readMark (cs.dropWhile (· = A.blank))
  let r := digitRun A.val m.2
  if r.1 ≠ [] ∧ ∀ c ∈ r.2, c = A.blank then some (signed m.1 (value b r.1)) else none

variable {A}

lemma dropWhile_blanks (k : ℕ) {s : List β} (h : ∀ c ∈ s.head?, c ≠ A.blank) :
    (List.replicate k A.blank ++ s).dropWhile (· = A.blank) = s := by
  induction k with
  | zero =>
    cases s with
    | nil => rfl
    | cons c s => simp [h c rfl]
  | succ k ih => simpa [List.replicate_succ] using ih

lemma readMark_append (s : Mark) {d : ℕ} (hd : d < b) (cs : List β) :
    A.readMark (A.mark s ++ A.digit d :: cs) = (s, A.digit d :: cs) := by
  obtain ⟨-, hplus, hminus⟩ := digit_ne (A := A) hd
  cases s with
  | none => simp [mark, readMark, hplus, hminus]
  | plus => simp [mark, readMark, A.minus_ne_plus.symm]
  | minus => simp [mark, readMark]

/-- **Round trip**: the number in a field with digits is read back. -/
theorem read_field (k : ℕ) (s : Mark) {ds : List ℕ} (l : ℕ) (hds : ∀ d ∈ ds, d < b)
    (hne : ds ≠ []) : A.read (A.field k s ds l) = some (signed s (value b ds)) := by
  obtain ⟨d, ds, rfl⟩ := List.exists_cons_of_ne_nil hne
  have hd : d < b := hds d List.mem_cons_self
  have hval : ∀ e ∈ d :: ds, A.val (A.digit e) = some e := fun e he => A.val_digit e (hds e he)
  have hrun := digitRun_append hval (head?_blanks (A := A) l)
  have hdrop : (A.field k s (d :: ds) l).dropWhile (· = A.blank) =
      A.mark s ++ A.digit d :: (ds.map A.digit ++ List.replicate l A.blank) :=
    dropWhile_blanks k (head?_mark s hd _)
  unfold read
  simp only [hdrop, readMark_append s hd]
  rw [List.map_cons, List.cons_append] at hrun
  rw [hrun]
  simp [List.mem_replicate]

lemma read_field_nil (k : ℕ) (s : Mark) (l : ℕ) : A.read (A.field k s [] l) = none := by
  have hnone : ∀ cs : List β, (∀ c ∈ cs.head?, A.val c = none) →
      (digitRun A.val cs).1 = [] := fun cs h => by rw [digitRun_of_none h]
  have hblanks : ∀ n, (A.readMark ((List.replicate n A.blank).dropWhile (· = A.blank))).2 = [] := by
    intro n
    have := dropWhile_blanks (A := A) n (s := []) (by simp)
    rw [List.append_nil] at this
    rw [this]
    rfl
  have hrun : (digitRun A.val
      (A.readMark ((A.field k s [] l).dropWhile (· = A.blank))).2).1 = [] := by
    unfold field
    rw [List.map_nil, List.nil_append]
    cases s with
    | none =>
      rw [mark, List.nil_append, List.replicate_append_replicate, hblanks]
      rfl
    | plus =>
      rw [dropWhile_blanks k (by simpa [mark] using A.plus_ne_blank)]
      apply hnone
      simpa [mark, readMark, A.minus_ne_plus.symm] using head?_blanks (A := A) l
    | minus =>
      rw [dropWhile_blanks k (by simpa [mark] using A.minus_ne_blank)]
      apply hnone
      simpa [mark, readMark] using head?_blanks (A := A) l
  simp [read, hrun]

end Alphabet

end LibCheckpoint.Numeral
