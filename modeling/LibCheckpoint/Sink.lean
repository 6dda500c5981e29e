import Mathlib.Logic.Function.Iterate
import Mathlib.Data.List.Basic

/-!
Characters sent one by one to a sink that is told the index of each.

A routine that is given the next index and the state of a sink prints a text when it does
to every index and state what the characters of the text do in order. Sinks differ in what
they keep: a buffer of bounded size, a log of some of the characters, nothing.
-/

namespace LibCheckpoint.Sink

/-- What a character at an index does to the state. -/
abbrev Out (β σ : Type*) := β → ℕ → σ → σ

variable {β σ : Type*}

def put (out : Out β σ) (c : β) (p : ℕ × σ) : ℕ × σ := (p.1 + 1, out c p.1 p.2)

def puts (out : Out β σ) (cs : List β) (p : ℕ × σ) : ℕ × σ := cs.foldl (fun q c => put out c q) p

variable (out : Out β σ)

@[simp] lemma puts_nil (p : ℕ × σ) : puts out [] p = p := rfl
@[simp] lemma puts_cons (c : β) (cs : List β) (p : ℕ × σ) :
    puts out (c :: cs) p = puts out cs (put out c p) := rfl
lemma puts_append (cs ds : List β) (p : ℕ × σ) :
    puts out (cs ++ ds) p = puts out ds (puts out cs p) := by
  simp [puts, List.foldl_append]

@[simp] lemma puts_fst (cs : List β) (p : ℕ × σ) : (puts out cs p).1 = p.1 + cs.length := by
  induction cs generalizing p with
  | nil => rfl
  | cons c cs ih =>
    rw [puts_cons, ih, List.length_cons]
    simp only [put]
    omega

lemma iterate_put (c : β) (n : ℕ) (p : ℕ × σ) :
    (put out c)^[n] p = puts out (List.replicate n c) p := by
  induction n generalizing p with
  | zero => rfl
  | succ n ih => rw [Function.iterate_succ_apply, ih, List.replicate_succ, puts_cons]

/-! ### Buffers -/

section Store

variable {ι : Type*} [DecidableEq ι]

/-- The sink of a buffer: index `i` is the cell `f i`, and nothing is kept from `n` on. -/
def store (f : ℕ → ι) (n : ℕ) : Out β (ι → β) := fun c i m =>
  if i < n then Function.update m (f i) c else m

variable {f : ℕ → ι} {n : ℕ}

lemma puts_store_of_ne {cs : List β} {k : ℕ} {m : ι → β} {a : ι}
    (h : ∀ i, k ≤ i → i < k + cs.length → i < n → a ≠ f i) :
    (puts (store f n) cs (k, m)).2 a = m a := by
  induction cs generalizing k m with
  | nil => rfl
  | cons c cs ih =>
    rw [List.length_cons] at h
    rw [puts_cons, put, ih fun i hi hc hn => h i (by omega) (by omega) hn]
    unfold store
    split_ifs with hk
    · exact Function.update_of_ne (h k (by omega) (by omega) hk) _ _
    · rfl

lemma puts_store_of_lt (hf : ∀ i < n, ∀ j < n, f i = f j → i = j) {cs : List β} {k i : ℕ}
    {m : ι → β} (hi : i < cs.length) (hn : k + i < n) :
    (puts (store f n) cs (k, m)).2 (f (k + i)) = cs[i] := by
  induction cs generalizing k i m with
  | nil => simp at hi
  | cons c cs ih =>
    rw [puts_cons]
    cases i with
    | zero =>
      have hne : ∀ j, k + 1 ≤ j → j < k + 1 + cs.length → j < n → f k ≠ f j := by
        intro j hj _ hjn heq
        have := hf k (by omega) j hjn heq
        omega
      calc (puts (store f n) cs (k + 1, store f n c k m)).2 (f k)
          = store f n c k m (f k) := puts_store_of_ne hne
        _ = c := by rw [store, if_pos (by omega), Function.update_self]
    | succ i =>
      rw [List.length_cons] at hi
      have hstep := ih (k := k + 1) (i := i) (m := store f n c k m) (by omega) (by omega)
      rw [show k + 1 + i = k + (i + 1) by omega] at hstep
      exact hstep

lemma puts_store_congr (n' : ℕ) {cs : List β} {k : ℕ} (h : k + cs.length ≤ n)
    (h' : k + cs.length ≤ n') (m : ι → β) :
    puts (store f n) cs (k, m) = puts (store f n') cs (k, m) := by
  induction cs generalizing k m with
  | nil => rfl
  | cons c cs ih =>
    rw [List.length_cons] at h h'
    have hput : put (store f n) c (k, m) = put (store f n') c (k, m) := by
      unfold put store
      rw [if_pos (by omega), if_pos (by omega)]
    rw [puts_cons, puts_cons, hput]
    exact ih (by omega) (by omega) _

end Store

/-! ### Streams -/

/-- A sink that acts on some characters, whatever their index. -/
def forward (keep : β → Bool) (act : β → σ → σ) : Out β σ := fun c _ s =>
  if keep c then act c s else s

lemma puts_forward (keep : β → Bool) (act : β → σ → σ) (cs : List β) (p : ℕ × σ) :
    (puts (forward keep act) cs p).2 = (cs.filter keep).foldl (fun s c => act c s) p.2 := by
  induction cs generalizing p with
  | nil => rfl
  | cons c cs ih =>
    rw [puts_cons, ih, put, List.filter_cons]
    unfold forward
    split_ifs <;> rfl

lemma foldl_concat (l cs : List β) : cs.foldl (fun s c => s ++ [c]) l = l ++ cs := by
  induction cs generalizing l with
  | nil => simp
  | cons c cs ih => rw [List.foldl_cons, ih, List.append_assoc, List.singleton_append]

/-! ### Routines that print a text -/

/-- The routine does to every index and state what the characters of the text do. -/
def Prints (e : ℕ × σ → ℕ × σ) (cs : List β) : Prop := ∀ p, e p = puts out cs p

end LibCheckpoint.Sink
