import LibCheckpoint.Conversions
import LibCheckpoint.Spinlock
import Mathlib.Algebra.Order.BigOperators.Group.Finset

/-!
`mt_printf` on many harts that share the serial port, one character at a time.

Between `spinlock_lock` and `spinlock_unlock` the harts run `vprintf`, which sends its text in
single characters. A step of the system is one step of the lock functions, or one character.
-/

namespace LibCheckpoint.Console

open LibCheckpoint.Bytes LibCheckpoint.Interleave LibCheckpoint.Ntoa LibCheckpoint.Printf
open LibCheckpoint.Vsnprintf

/-! ### The calls -/

/-- A call of `mt_printf` that reads nothing but its format, its arguments and its strings. -/
structure Call (E : Env) where
  format : List Byte
  va : List Word
  ok : (printf_ E format va []).isSome

variable {E : Env}

def Call.sent (m : Call E) : List Byte :=
  ((printf_ E m.format m.va []).map Prod.snd).getD []

lemma Call.printf_eq (m : Call E) (console : List Byte) :
    (printf_ E m.format m.va console).map Prod.snd = some (console ++ m.sent) := by
  have hok := m.ok
  unfold Call.sent
  simp only [Vsnprintf.printf_eq] at hok ⊢
  cases ht : text E m.format m.va with
  | none => simp [ht] at hok
  | some cs => simp

/-- The calls of one hart, one after the other. -/
def sequential (ms : List (Call E)) (console : List Byte) : Option (List Byte) :=
  ms.foldlM (fun console m => (printf_ E m.format m.va console).map Prod.snd) console

lemma sequential_eq (ms : List (Call E)) (console : List Byte) :
    sequential ms console = some (console ++ ms.flatMap Call.sent) := by
  induction ms generalizing console with
  | nil => simp [sequential]
  | cons m ms ih =>
    unfold sequential at ih ⊢
    rw [List.foldlM_cons, m.printf_eq, List.flatMap_cons, ← List.append_assoc]
    exact ih _

/-! ### The harts -/

/-- A hart that calls `mt_printf` again and again: the lock functions, what `vprintf` has not
sent yet, and the calls, of which the first one is not over. -/
structure Hart (E : Env) where
  lock : Spinlock.Hart Unit
  rest : List Byte
  calls : List (Call E)

structure Shared where
  lock : Unit → Word
  console : List Byte

inductive Act
  | lock (a : Spinlock.Act Unit)
  | putchar (c : Byte)

def perform : Act → Shared → Shared × Word
  | .lock a, m => ({ m with lock := (Spinlock.perform a m.lock).1 }, (Spinlock.perform a m.lock).2)
  | .putchar c, m => ({ m with console := putchar c m.console }, 0)

def Printing (c : Hart E) : Prop := c.lock.pc = .program ∧ c.lock.inside () = true

instance (c : Hart E) : Decidable (Printing c) := inferInstanceAs (Decidable (_ ∧ _))

def act (c : Hart E) : Act :=
  match c.rest with
  | ch :: _ => if Printing c then .putchar ch else .lock (Spinlock.act c.lock)
  | [] => .lock (Spinlock.act c.lock)

/-- The function of the lock that `mt_printf` calls next. -/
def lockCall (c : Hart E) : Option (Spinlock.Call Unit) :=
  if c.lock.inside () then
    match c.rest with
    | [] => some (.spinlockUnlock ())
    | _ :: _ => none
  else
    match c.calls with
    | [] => none
    | _ :: _ => some (.spinlockLock ())

def resume (c : Hart E) (r : Word) : Hart E :=
  let lock := Spinlock.resume (lockCall c) c.lock r
  if c.lock.pc ≠ .program then { c with lock }
  else if c.lock.inside () then
    match c.rest with
    | [] => { c with lock, calls := c.calls.tail }  -- `spinlock_unlock(&mt_printf_lock)`
    | _ :: rest => { c with lock, rest }
  else
    match c.calls with
    | [] => { c with lock }
    | m :: _ => { c with lock, rest := m.sent }  -- `spinlock_lock(&mt_printf_lock)`

def harts (E : Env) : Threads Shared (Hart E) Act Word := ⟨act, perform, resume⟩

variable {ι : Type*} [DecidableEq ι]

abbrev State (ι : Type*) (E : Env) := St ι Shared (Hart E)

structure AtStart (s : State ι E) : Prop where
  word : s.mem.lock () = 0
  lock : ∀ i, (s.loc i).lock = ⟨.program, fun _ => false, fun _ => false⟩

variable {s : State ι E} {i : ι}

/-! ### The lock -/

/-- The word of the lock, and what the lock functions see of the harts. -/
def lockState (s : State ι E) : Spinlock.State ι Unit := ⟨s.mem.lock, fun i => (s.loc i).lock⟩

lemma resume_lock (c : Hart E) (r : Word) :
    (resume c r).lock = Spinlock.resume (lockCall c) c.lock r := by
  unfold resume
  split_ifs
  · rfl
  · cases c.rest <;> rfl
  · cases c.calls <;> rfl

lemma act_of_printing {c : Hart E} {ch : Byte} {rest : List Byte} (hp : Printing c)
    (hr : c.rest = ch :: rest) : act c = .putchar ch := by
  unfold act
  rw [hr]
  exact if_pos hp

lemma act_of_not {c : Hart E} (h : Printing c → c.rest = []) :
    act c = .lock (Spinlock.act c.lock) := by
  unfold act
  cases hr : c.rest with
  | nil => rfl
  | cons ch rest =>
    apply if_neg
    intro hp
    rw [h hp] at hr
    cases hr

lemma act_of_program {c : Spinlock.Hart Unit} (hp : c.pc = .program) : Spinlock.act c = .tau := by
  simp [Spinlock.act, hp]

/-- To the lock a character is no action. -/
lemma perform_act (c : Hart E) (m : Shared) :
    (perform (act c) m).1.lock = (Spinlock.perform (Spinlock.act c.lock) m.lock).1 ∧
      (perform (act c) m).2 = (Spinlock.perform (Spinlock.act c.lock) m.lock).2 := by
  by_cases hp : Printing c
  · cases hr : c.rest with
    | nil => rw [act_of_not fun _ => hr]; exact ⟨rfl, rfl⟩
    | cons ch rest =>
      rw [act_of_printing hp hr, act_of_program hp.1]
      exact ⟨rfl, rfl⟩
  · rw [act_of_not fun h => absurd h hp]
    exact ⟨rfl, rfl⟩

/-- **A step of the system is one step of the lock functions.** -/
lemma lockState_next (s : State ι E) (i : ι) : lockState (next (harts E) s i) =
    Spinlock.step (lockState s) ⟨i, lockCall (s.loc i)⟩ := by
  obtain ⟨hmem, hanswer⟩ := perform_act (s.loc i) s.mem
  set e : Spinlock.Event ι Unit := ⟨i, lockCall (s.loc i)⟩
  have hloc : ∀ j, ((next (harts E) s i).loc j).lock = (Spinlock.step (lockState s) e).loc j := by
    intro j
    by_cases hj : j = i
    · subst hj
      rw [next_loc_self, Spinlock.step_loc_self]
      exact (resume_lock _ _).trans (congrArg (Spinlock.resume _ _) hanswer)
    · rw [next_loc_of_ne _ _ hj, Spinlock.step_loc_of_ne _ hj]
      rfl
  exact congrArg₂ St.mk hmem (funext hloc)

/-- The calls of the lock functions in a run. -/
def events (s : State ι E) : List ι → List (Spinlock.Event ι Unit)
  | [] => []
  | i :: w => ⟨i, lockCall (s.loc i)⟩ :: events (next (harts E) s i) w

lemma lockState_run (s : State ι E) (w : List ι) :
    lockState (run (harts E) s w) = Spinlock.runs (lockState s) (events s w) := by
  induction w generalizing s with
  | nil => rfl
  | cons i w ih =>
    rw [run_cons, ih, lockState_next]
    rfl

lemma events_disciplined (s : State ι E) (w : List ι) :
    Spinlock.Disciplined (lockState s) (events s w) := by
  induction w generalizing s with
  | nil => exact Spinlock.disciplined_of_none fun e he => absurd he List.not_mem_nil
  | cons i w ih =>
    rw [events, ← List.singleton_append, Spinlock.disciplined_append,
      Spinlock.disciplined_singleton]
    constructor
    · intro l _ hcall
      have hcall : lockCall (s.loc i) = some (.spinlockUnlock l) := hcall
      show (s.loc i).lock.inside l = true
      unfold lockCall at hcall
      split_ifs at hcall with hin
      · exact hin
      · cases hc : (s.loc i).calls <;> rw [hc] at hcall <;> cases hcall
    · have hstep : Spinlock.runs (lockState s) [⟨i, lockCall (s.loc i)⟩] =
          lockState (next (harts E) s i) := (lockState_next s i).symm
      rw [hstep]
      exact ih _

omit [DecidableEq ι] in
lemma AtStart.lock_atStart (h : AtStart s) : Spinlock.AtStart (lockState s) where
  word _ := h.word
  pc i := congrArg Spinlock.Hart.pc (h.lock i)
  owned i l := congrFun (congrArg Spinlock.Hart.owned (h.lock i)) l
  inside i l := congrFun (congrArg Spinlock.Hart.inside (h.lock i)) l

/-- What the lock functions keep: one hart at most owns the lock, and its word is zero if and only
if none does. -/
structure Locked (s : State ι E) : Prop where
  owner : ∀ i j, (s.loc i).lock.owned () = true → (s.loc j).lock.owned () = true → i = j
  word : s.mem.lock () ≠ 0 ↔ ∃ i, (s.loc i).lock.owned () = true
  ok : ∀ i, Spinlock.Ok (s.loc i).lock

lemma locked_run (h : AtStart s) (w : List ι) : Locked (run (harts E) s w) := by
  obtain ⟨⟨o, -, ho⟩, hok⟩ :=
    Spinlock.represents_runs h.lock_atStart (events_disciplined s w)
  rw [← lockState_run] at ho hok
  exact ⟨fun _ _ hi hj => ho.owner_unique hi hj, ho.word_ne_zero_iff (), hok⟩

/-! ### One step of a hart -/

section Hart

variable {c : Hart E} (r : Word)

lemma lockCall_of_cons {ch : Byte} {rest : List Byte} (h : Printing c) (hr : c.rest = ch :: rest) :
    lockCall c = none := by
  unfold lockCall
  rw [if_pos h.2, hr]

lemma resume_putchar {ch : Byte} {rest : List Byte} (hp : Printing c) (hr : c.rest = ch :: rest) :
    resume c r = { c with rest := rest } := by
  have hlock : Spinlock.resume (lockCall c) c.lock r = c.lock := by
    rw [lockCall_of_cons hp hr]
    simp [Spinlock.resume, hp.1]
  unfold resume
  rw [if_neg (not_not.mpr hp.1), if_pos hp.2, hr, hlock]

lemma resume_unlock (hp : Printing c) (hr : c.rest = []) :
    resume c r = ⟨{ c.lock with pc := .unlock () }, [], c.calls.tail⟩ := by
  have hlock : Spinlock.resume (lockCall c) c.lock r = { c.lock with pc := .unlock () } := by
    simp [lockCall, hp.2, hr, Spinlock.resume, hp.1]
  unfold resume
  rw [if_neg (not_not.mpr hp.1), if_pos hp.2, hr, hlock]

lemma resume_calls (hp : ¬ Printing c) : (resume c r).calls = c.calls := by
  unfold resume
  split_ifs with hpc hin
  · rfl
  · exact absurd ⟨not_not.mp hpc, hin⟩ hp
  · cases c.calls <;> rfl

lemma resume_rest (hpc : c.lock.pc ≠ .program) : (resume c r).rest = c.rest := by
  unfold resume
  rw [if_pos hpc]

lemma pc_of_printing_resume (hp : ¬ Printing c) (h : Printing (resume c r)) :
    c.lock.pc = .mb () 0 := by
  unfold Printing at h
  rw [resume_lock] at h
  obtain ⟨hpc, hin⟩ := h
  unfold Spinlock.resume at hpc hin
  cases hc : c.lock.pc with
  | program =>
    have hout : c.lock.inside () = false := by
      rw [Bool.eq_false_iff]
      exact fun hin => hp ⟨hc, hin⟩
    cases hcalls : c.calls <;> simp [hc, lockCall, hout, hcalls] at hpc hin
  | read l =>
    rw [hc] at hpc
    dsimp only at hpc
    split_ifs at hpc with h0
    rw [hc] at hpc
    cases hpc
  | swap l => simp [hc] at hpc
  | mb l res =>
    rw [hc] at hpc
    dsimp only at hpc
    split_ifs at hpc with h0
    obtain rfl : res = 0 := by simpa using h0
    rfl
  | unlock l => simp [hc] at hpc
  | set l => simp [hc] at hin

def waiting : Spinlock.Pc Unit → Bool
  | .read _ | .swap _ | .mb _ _ => true
  | _ => false

/-- What a hart in `spinlock_lock` is going to send. -/
def Ready (c : Hart E) : Prop := waiting c.lock.pc = true →
  c.lock.inside () = false ∧ ∃ m ms, c.calls = m :: ms ∧ c.rest = m.sent

lemma Ready.resume (h : Ready c) : Ready (resume c r) := by
  intro hw
  by_cases hpc : c.lock.pc = .program
  · -- From its program a hart comes to wait with a call only.
    by_cases hin : c.lock.inside () = true
    · cases hr : c.rest with
      | nil => rw [resume_unlock r ⟨hpc, hin⟩ hr] at hw; cases hw
      | cons ch rest =>
        rw [resume_putchar r ⟨hpc, hin⟩ hr] at hw
        simp [hpc, waiting] at hw
    · cases hcalls : c.calls with
      | nil => simp [resume_lock, lockCall, hin, hcalls, Spinlock.resume, hpc, waiting] at hw
      | cons m ms =>
        have hresume : Console.resume c r = ⟨{ c.lock with pc := .read () }, m.sent, m :: ms⟩ := by
          unfold Console.resume
          simp [hpc, hin, hcalls, lockCall, Spinlock.resume]
        rw [hresume]
        exact ⟨by simpa using hin, m, ms, rfl, rfl⟩
  · -- In the lock functions what is to be sent stays the same.
    have hcalls : (Console.resume c r).calls = c.calls := resume_calls r fun hp => hpc hp.1
    rw [hcalls, resume_rest r hpc]
    rw [resume_lock] at hw ⊢
    unfold Spinlock.resume at hw ⊢
    cases hc : c.lock.pc with
    | program => exact absurd hc hpc
    | read l =>
      obtain ⟨hout, hm⟩ := h (by rw [hc]; rfl)
      refine ⟨?_, hm⟩
      dsimp only
      split_ifs <;> exact hout
    | swap l => exact h (by rw [hc]; rfl)
    | mb l res =>
      obtain ⟨hout, hm⟩ := h (by rw [hc]; rfl)
      refine ⟨?_, hm⟩
      rw [hc] at hw
      dsimp only at hw ⊢
      split_ifs at hw ⊢ with h0
      · exact hout
      · cases hw
    | unlock l => simp [hc, waiting] at hw
    | set l => simp [hc, waiting] at hw

end Hart

lemma ready_run (h : AtStart s) (w : List ι) (i : ι) : Ready ((run (harts E) s w).loc i) := by
  refine run_local (harts E) (P := fun _ c => Ready c) (fun i => ?_)
    (fun i c r hc => hc.resume r) w i
  intro hw
  rw [h.lock i] at hw
  cases hw

/-! ### The serial port in a run -/

def callsOf (order : List (ι × Call E)) (i : ι) : List (Call E) :=
  (order.filter fun m => m.1 = i).map Prod.snd

@[simp] lemma callsOf_nil (i : ι) : callsOf ([] : List (ι × Call E)) i = [] := rfl

lemma callsOf_concat (order : List (ι × Call E)) (j : ι) (m : Call E) (i : ι) :
    callsOf (order ++ [(j, m)]) i = callsOf order i ++ if j = i then [m] else [] := by
  unfold callsOf
  rw [List.filter_append, List.map_append]
  by_cases h : j = i <;> simp [h]

/-- From `s₀` on the calls of `order` have been over, one after the other, and `tail` is what the
hart inside `vprintf` has sent of its call. -/
structure Serial (s₀ : State ι E) (order : List (ι × Call E)) (tail : List Byte) (s : State ι E) :
    Prop where
  console : s.mem.console =
    s₀.mem.console ++ (order.map Prod.snd).flatMap Call.sent ++ tail
  calls : ∀ i, callsOf order i ++ (s.loc i).calls = (s₀.loc i).calls
  inside : ∀ i, Printing (s.loc i) → ∃ m ms, (s.loc i).calls = m :: ms ∧
    m.sent = tail ++ (s.loc i).rest
  outside : (∀ i, ¬ Printing (s.loc i)) → tail = []

omit [DecidableEq ι] in
lemma AtStart.not_printing (h : AtStart s) (i : ι) : ¬ Printing (s.loc i) := by
  intro hp
  rw [Printing, h.lock i] at hp
  exact absurd hp.2 (by decide)

lemma AtStart.serial (h : AtStart s) : Serial s [] [] s where
  console := by simp
  calls _ := rfl
  inside i hp := absurd hp (h.not_printing i)
  outside _ := rfl

omit [DecidableEq ι] in
lemma Locked.printing_unique (h : Locked s) {j : ι} (hi : Printing (s.loc i))
    (hj : Printing (s.loc j)) : i = j :=
  h.owner i j ((h.ok i).inside () hi.2) ((h.ok j).inside () hj.2)

variable {s₀ : State ι E} {order : List (ι × Call E)} {tail : List Byte}

lemma next_console (h : Printing (s.loc i) → (s.loc i).rest = []) :
    (next (harts E) s i).mem.console = s.mem.console := by
  show (perform (act (s.loc i)) s.mem).1.console = _
  rw [act_of_not h]
  rfl

lemma Serial.putchar (h : Serial s₀ order tail s) (hl : Locked s) (hp : Printing (s.loc i))
    {ch : Byte} {rest : List Byte} (hr : (s.loc i).rest = ch :: rest) :
    Serial s₀ order (tail ++ [ch]) (next (harts E) s i) := by
  have hself : (next (harts E) s i).loc i = { s.loc i with rest := rest } := by
    rw [next_loc_self]
    exact resume_putchar _ hp hr
  have hconsole : (next (harts E) s i).mem.console = s.mem.console ++ [ch] := by
    show (perform (act (s.loc i)) s.mem).1.console = _
    rw [act_of_printing hp hr]
    rfl
  have hsent : (next (harts E) s i).mem.console =
      s₀.mem.console ++ (order.map Prod.snd).flatMap Call.sent ++ (tail ++ [ch]) := by
    rw [hconsole, h.console, List.append_assoc]
  refine ⟨hsent, fun j => ?_, fun j hj => ?_, fun hno => ?_⟩
  · by_cases hji : j = i
    · subst hji
      rw [hself]
      exact h.calls j
    · rw [next_loc_of_ne _ _ hji]
      exact h.calls j
  · by_cases hji : j = i
    · subst hji
      obtain ⟨m, ms, hcalls, hsent⟩ := h.inside j hp
      rw [hself]
      exact ⟨m, ms, hcalls, by rw [hsent, hr]; simp⟩
    · rw [next_loc_of_ne _ _ hji] at hj
      exact absurd (hl.printing_unique hj hp) hji
  · have := hno i
    rw [hself] at this
    exact absurd hp this

lemma Serial.unlock (h : Serial s₀ order tail s) (hl : Locked s) (hp : Printing (s.loc i))
    (hr : (s.loc i).rest = []) :
    ∃ m, Serial s₀ (order ++ [(i, m)]) [] (next (harts E) s i) := by
  obtain ⟨m, ms, hcalls, hsent⟩ := h.inside i hp
  rw [hr, List.append_nil] at hsent
  have hself : (next (harts E) s i).loc i = ⟨{ (s.loc i).lock with pc := .unlock () }, [], ms⟩ := by
    rw [next_loc_self]
    refine (resume_unlock _ hp hr).trans ?_
    rw [hcalls]
    rfl
  refine ⟨m, ?_, fun j => ?_, fun j hj => ?_, fun _ => rfl⟩
  · rw [next_console fun _ => hr, h.console, ← hsent]
    simp
  · rw [callsOf_concat]
    by_cases hji : j = i
    · subst hji
      rw [hself, if_pos rfl, ← h.calls j, hcalls, List.append_assoc]
      rfl
    · rw [next_loc_of_ne _ _ hji, if_neg (Ne.symm hji), List.append_nil]
      exact h.calls j
  · by_cases hji : j = i
    · subst hji
      rw [hself] at hj
      cases hj.1
    · rw [next_loc_of_ne _ _ hji] at hj
      exact absurd (hl.printing_unique hj hp) hji

/-- Any other step leaves the serial port alone; a hart that gets inside `vprintf` finds nobody
there. -/
lemma Serial.other (h : Serial s₀ order tail s) (hl : Locked s) (hready : Ready (s.loc i))
    (hp : ¬ Printing (s.loc i)) : Serial s₀ order tail (next (harts E) s i) := by
  have hcalls (j : ι) : ((next (harts E) s i).loc j).calls = (s.loc j).calls := by
    by_cases hji : j = i
    · subst hji
      rw [next_loc_self]
      exact resume_calls _ hp
    · rw [next_loc_of_ne _ _ hji]
  -- A hart that comes into `vprintf` has taken the lock, so no other one is there.
  have henter (h' : Printing ((next (harts E) s i).loc i)) :
      (s.loc i).lock.pc = .mb () 0 ∧ ∀ j, ¬ Printing (s.loc j) := by
    rw [next_loc_self] at h'
    have hpc := pc_of_printing_resume _ hp h'
    refine ⟨hpc, fun j hj => ?_⟩
    have hji : j = i := hl.owner j i ((hl.ok j).inside () hj.2) ((hl.ok i).mb () hpc)
    exact hp (hji ▸ hj)
  refine ⟨?_, fun j => ?_, fun j hj => ?_, fun hno => ?_⟩
  · rw [next_console fun h' => absurd h' hp, h.console]
  · rw [hcalls]
    exact h.calls j
  · -- Either hart `i` begins its call, or the hart inside is another one.
    by_cases hji : j = i
    · subst hji
      obtain ⟨hpc, hno⟩ := henter hj
      obtain ⟨-, m, ms, hm, hrest⟩ := hready (by rw [hpc]; rfl)
      have hrest' : ((next (harts E) s j).loc j).rest = (s.loc j).rest := by
        rw [next_loc_self]
        exact resume_rest _ (by rw [hpc]; simp)
      rw [hcalls, hrest', h.outside hno, hrest]
      exact ⟨m, ms, hm, rfl⟩
    · rw [next_loc_of_ne _ _ hji] at hj ⊢
      exact h.inside j hj
  · apply h.outside
    intro j hj
    by_cases hji : j = i
    · exact hp (hji ▸ hj)
    · apply hno j
      rwa [next_loc_of_ne _ _ hji]

/-- **One step**: a character, the end of a call, or nothing to be seen at the serial port. -/
theorem Serial.next (h : Serial s₀ order tail s) (hl : Locked s) (hready : Ready (s.loc i)) :
    ∃ order' tail', Serial s₀ order' tail' (next (harts E) s i) := by
  by_cases hp : Printing (s.loc i)
  · cases hr : (s.loc i).rest with
    | nil =>
      obtain ⟨m, hm⟩ := h.unlock hl hp hr
      exact ⟨_, _, hm⟩
    | cons ch rest => exact ⟨_, _, h.putchar hl hp hr⟩
  · exact ⟨_, _, h.other hl hready hp⟩

lemma serial_run (h : AtStart s) (w : List ι) :
    ∃ order tail, Serial s order tail (run (harts E) s w) := by
  induction w using List.reverseRecOn with
  | nil => exact ⟨[], [], h.serial⟩
  | append_singleton w i ih =>
    obtain ⟨order, tail, hs⟩ := ih
    rw [run_concat]
    exact hs.next (locked_run h w) (ready_run h w i)

/-- **The messages of the harts do not mix**: after every schedule the serial port has been sent
what one hart alone sends that makes the calls that are over one after the other, and then a part
of one more call; the calls of each hart are in their order, and none is lost or made twice. -/
theorem console_run (h : AtStart s) (w : List ι) : ∃ (order : List (ι × Call E)) (tail : List Byte),
    (∃ console, sequential (order.map Prod.snd) s.mem.console = some console ∧
      (run (harts E) s w).mem.console = console ++ tail) ∧
    (∀ i, callsOf order i ++ ((run (harts E) s w).loc i).calls = (s.loc i).calls) ∧
    (tail = [] ∨ ∃ i m ms, ((run (harts E) s w).loc i).calls = m :: ms ∧ tail <+: m.sent) := by
  obtain ⟨order, tail, hs⟩ := serial_run h w
  refine ⟨order, tail, ⟨_, sequential_eq _ _, hs.console⟩, hs.calls, ?_⟩
  by_cases hno : ∀ i, ¬ Printing ((run (harts E) s w).loc i)
  · exact Or.inl (hs.outside hno)
  · obtain ⟨i, hi⟩ := not_forall_not.mp hno
    obtain ⟨m, ms, hcalls, hsent⟩ := hs.inside i hi
    exact Or.inr ⟨i, m, ms, hcalls, hsent ▸ List.prefix_append _ _⟩

/-- Two harts that print the same format once. -/
def twoHarts : State Bool emptyStrings :=
  ⟨⟨fun _ => 0, []⟩, fun _ => ⟨⟨.program, fun _ => false, fun _ => false⟩, [],
    [⟨[chr '%', chr '2', chr 'c', 0], [120], by rw [printf_eq, text_character]; rfl⟩]⟩⟩

lemma twoHarts_atStart : AtStart twoHarts := ⟨rfl, fun _ => rfl⟩

theorem console_run_two : ∃ (order : List (Bool × Call emptyStrings)) (tail : List Byte),
    (∃ console, sequential (order.map Prod.snd) twoHarts.mem.console = some console ∧
      (run (harts emptyStrings) twoHarts [true, false, true, false, true]).mem.console =
        console ++ tail) ∧
    (∀ i, callsOf order i ++ ((run (harts emptyStrings) twoHarts
      [true, false, true, false, true]).loc i).calls = (twoHarts.loc i).calls) ∧
    (tail = [] ∨ ∃ i m ms, ((run (harts emptyStrings) twoHarts
      [true, false, true, false, true]).loc i).calls = m :: ms ∧ tail <+: m.sent) :=
  console_run twoHarts_atStart [true, false, true, false, true]

/-! ### All calls can be made -/

section Alone

variable {m : Shared} {c : Hart E}

/-- Running alone, the hart leaves `mt_printf` with these calls to make. -/
def Leaves (p : Shared × Hart E) (ms : List (Call E)) : Prop :=
  ∃ n, ((alone (harts E))^[n] p).1.lock () = 0 ∧ ((alone (harts E))^[n] p).2.calls = ms

lemma Leaves.step {p q : Shared × Hart E} {ms : List (Call E)} (hq : alone (harts E) p = q)
    (h : Leaves q ms) : Leaves p ms := by
  obtain ⟨n, h⟩ := h
  exact ⟨n + 1, by rwa [Function.iterate_succ_apply, hq]⟩

lemma alone_eq (m : Shared) (c : Hart E) :
    alone (harts E) (m, c) = ((perform (act c) m).1, resume c (perform (act c) m).2) := rfl

lemma leaves_lock (g : List (Call E) → List (Call E)) (hp : c.lock.pc ≠ .program)
    (h : Leaves ({ m with lock := (Spinlock.perform (Spinlock.act c.lock) m.lock).1 },
      resume c (Spinlock.perform (Spinlock.act c.lock) m.lock).2)
        (g (resume c (Spinlock.perform (Spinlock.act c.lock) m.lock).2).calls)) :
    Leaves (m, c) (g c.calls) := by
  have hnot : ¬ Printing c := fun h' => hp h'.1
  rw [resume_calls _ hnot] at h
  refine Leaves.step ?_ h
  rw [alone_eq, act_of_not fun h' => absurd h' hnot]
  rfl

lemma leaves_set (hp : c.lock.pc = .set ()) : Leaves (m, c) c.calls := by
  apply leaves_lock id (by simp [hp])
  exact ⟨0, by simp [Spinlock.act, hp, Spinlock.perform], rfl⟩

lemma leaves_unlock (hp : c.lock.pc = .unlock ()) : Leaves (m, c) c.calls := by
  apply leaves_lock id (by simp [hp])
  apply leaves_set
  rw [resume_lock]
  simp [Spinlock.resume, hp]

/-- From inside `vprintf`, by induction on what is to be sent. -/
lemma leaves_printing (hp : Printing c) : Leaves (m, c) c.calls.tail := by
  obtain ⟨lock, rest, calls⟩ := c
  induction rest generalizing m with
  | nil =>
    refine Leaves.step (q := (m, ⟨{ lock with pc := .unlock () }, [], calls.tail⟩)) ?_
      (leaves_unlock rfl)
    rw [alone_eq, act_of_not fun _ => rfl, resume_unlock _ hp rfl, act_of_program hp.1]
    rfl
  | cons ch rest ih =>
    refine Leaves.step (q := ({ m with console := putchar ch m.console }, ⟨lock, rest, calls⟩)) ?_
      (ih hp)
    rw [alone_eq, act_of_printing hp rfl, resume_putchar _ hp rfl]
    rfl

lemma leaves_mb (hp : c.lock.pc = .mb () 0) : Leaves (m, c) c.calls.tail := by
  apply leaves_lock List.tail (by simp [hp])
  apply leaves_printing
  unfold Printing
  rw [resume_lock]
  simp [Spinlock.resume, hp]

lemma leaves_swap (hp : c.lock.pc = .swap ()) (h0 : m.lock () = 0) :
    Leaves (m, c) c.calls.tail := by
  apply leaves_lock List.tail (by simp [hp])
  apply leaves_mb
  rw [resume_lock]
  simp [Spinlock.resume, hp, Spinlock.act, Spinlock.perform, h0]

lemma leaves_read (hp : c.lock.pc = .read ()) (h0 : m.lock () = 0) :
    Leaves (m, c) c.calls.tail := by
  apply leaves_lock List.tail (by simp [hp])
  apply leaves_swap
  · rw [resume_lock]
    simp [Spinlock.resume, hp, Spinlock.act, Spinlock.perform, h0]
  · simp [Spinlock.act, hp, Spinlock.perform, h0]

lemma leaves_retry {res : Word} (hp : c.lock.pc = .mb () res) (hres : res ≠ 0)
    (h0 : m.lock () = 0) : Leaves (m, c) c.calls.tail := by
  apply leaves_lock List.tail (by simp [hp])
  apply leaves_read
  · have hne : res ≠ 0#64 := hres
    rw [resume_lock]
    simp [Spinlock.resume, hp, hne]
  · simp [Spinlock.act, hp, Spinlock.perform, h0]

lemma leaves_program (hp : c.lock.pc = .program) (hout : c.lock.inside () = false)
    (hcalls : c.calls ≠ []) (h0 : m.lock () = 0) : Leaves (m, c) c.calls.tail := by
  obtain ⟨call, calls, hcons⟩ := List.exists_cons_of_ne_nil hcalls
  have hnot : ¬ Printing c := fun h => Bool.false_ne_true (hout.symm.trans h.2)
  have hresume (r : Word) :
      resume c r = ⟨{ c.lock with pc := .read () }, call.sent, call :: calls⟩ := by
    unfold resume
    simp [hp, hout, hcons, lockCall, Spinlock.resume]
  refine Leaves.step (q := (m, ⟨{ c.lock with pc := .read () }, call.sent, call :: calls⟩)) ?_ ?_
  · rw [alone_eq, act_of_not fun h => absurd h hnot, act_of_program hp, hresume]
    rfl
  · rw [hcons]
    exact leaves_read rfl h0

/-- A hart that owns the lock has just taken it, or is inside. -/
def Holding (c : Hart E) : Prop :=
  c.lock.owned () = true → c.lock.pc = .mb () 0 ∨ c.lock.inside () = true

lemma Holding.resume (h : Holding c) (r : Word) : Holding (resume c r) := by
  unfold Holding at h ⊢
  rw [resume_lock]
  unfold Spinlock.resume
  cases hp : c.lock.pc with
  | program =>
    have hin : c.lock.owned () = true → c.lock.inside () = true := fun ho => by
      simpa [hp] using h ho
    rcases lockCall c with _ | _ | _
    · exact fun ho => Or.inr (hin ho)
    · exact fun ho => Or.inr (hin ho)
    · exact fun ho => Or.inr (hin ho)
  | read l =>
    have hin : c.lock.owned () = true → c.lock.inside () = true := fun ho => by
      simpa [hp] using h ho
    dsimp only
    split_ifs
    · exact fun ho => Or.inr (hin ho)
    · exact fun ho => Or.inr (hin ho)
  | swap l =>
    have hin : c.lock.owned () = true → c.lock.inside () = true := fun ho => by
      simpa [hp] using h ho
    intro ho
    -- Only a swap that finds the lock free makes an owner.
    by_cases hr : r = 0
    · exact Or.inl (by rw [hr])
    · have hne : r ≠ 0#64 := hr
      exact Or.inr (hin (by simpa [hne] using ho))
  | mb l res =>
    dsimp only
    split_ifs with hres
    · intro ho
      rcases h ho with hmb | hin
      · rw [hp] at hmb
        cases hmb
        simp at hres
      · exact Or.inr hin
    · -- Behind the fence of such a swap the hart is inside.
      exact fun _ => Or.inr (by simp)
  | unlock l =>
    intro ho
    rcases h ho with hmb | hin
    · simp [hp] at hmb
    · exact Or.inr hin
  | set l => simp

end Alone

lemma holding_run (h : AtStart s) (w : List ι) (i : ι) :
    Holding ((run (harts E) s w).loc i) := by
  refine run_local (harts E) (P := fun _ c => Holding c) (fun i => ?_)
    (fun i c r hc => hc.resume r) w i
  intro ho
  rw [h.lock i] at ho
  cases ho

/-- The owner of the lock can leave `mt_printf`; with the lock free any hart with a call to make
can make it. -/
lemma leaves_run (h : AtStart s) (w : List ι) (i : ι)
    (hi : (run (harts E) s w).mem.lock () = 0 ∨
      ((run (harts E) s w).loc i).lock.owned () = true) :
    ∃ ms, Leaves ((run (harts E) s w).mem, (run (harts E) s w).loc i) ms ∧
      ms.length ≤ ((run (harts E) s w).loc i).calls.length ∧
      ((run (harts E) s w).mem.lock () = 0 → ((run (harts E) s w).loc i).calls ≠ [] →
        ms.length < ((run (harts E) s w).loc i).calls.length) := by
  have hl := locked_run h w
  have hready := ready_run h w i
  have hhold := holding_run h w i
  have hok := hl.ok i
  set t := run (harts E) s w
  set c := t.loc i with hc
  have hfree : t.mem.lock () = 0 → c.lock.owned () = false := fun h0 => by
    rw [Bool.eq_false_iff]
    exact fun ho => hl.word.mpr ⟨i, ho⟩ h0
  have htail : c.calls ≠ [] → c.calls.tail.length < c.calls.length := fun hne => by
    rw [List.length_tail]
    have := List.length_pos_iff.mpr hne
    omega
  -- Inside, but not in `vprintf`: the call is over, and the lock is not free.
  have hover (hin : c.lock.inside () = true) (hleaves : Leaves (t.mem, c) c.calls) :
      ∃ ms, Leaves (t.mem, c) ms ∧ ms.length ≤ c.calls.length ∧
        (t.mem.lock () = 0 → c.calls ≠ [] → ms.length < c.calls.length) := by
    refine ⟨_, hleaves, le_rfl, fun h0 => ?_⟩
    have := hok.inside () hin
    rw [hfree h0] at this
    cases this
  have hcall (hleaves : Leaves (t.mem, c) c.calls.tail) :
      ∃ ms, Leaves (t.mem, c) ms ∧ ms.length ≤ c.calls.length ∧
        (t.mem.lock () = 0 → c.calls ≠ [] → ms.length < c.calls.length) :=
    ⟨_, hleaves, by rw [List.length_tail]; omega, fun _ => htail⟩
  -- A hart that waits does not own the lock.
  have hwait (hw : waiting c.lock.pc = true) (hmb : c.lock.pc ≠ .mb () 0) :
      t.mem.lock () = 0 := by
    rcases hi with h0 | ho
    · exact h0
    · rcases hhold ho with hp | hin
      · exact absurd hp hmb
      · rw [(hready hw).1] at hin
        cases hin
  cases hp : c.lock.pc with
  | program =>
    by_cases hin : c.lock.inside () = true
    · exact hcall (leaves_printing ⟨hp, hin⟩)
    · have hout : c.lock.inside () = false := by simpa using hin
      have h0 : t.mem.lock () = 0 := by
        rcases hi with h0 | ho
        · exact h0
        · rcases hhold ho with hp' | hin'
          · rw [hp] at hp'
            cases hp'
          · exact absurd hin' hin
      by_cases hcalls : c.calls = []
      · exact ⟨c.calls, ⟨0, h0, rfl⟩, le_rfl, fun _ hne => absurd hcalls hne⟩
      · exact hcall (leaves_program hp hout hcalls h0)
  | read l => exact hcall (leaves_read hp (hwait (by rw [hp]; rfl) (by simp [hp])))
  | swap l => exact hcall (leaves_swap hp (hwait (by rw [hp]; rfl) (by simp [hp])))
  | mb l res =>
    by_cases hres : res = 0
    · exact hcall (leaves_mb (by rw [hp, hres]))
    · refine hcall (leaves_retry hp hres (hwait (by rw [hp]; rfl) ?_))
      rw [hp]
      simpa using hres
  | unlock l => exact hover (hok.unlock () (.inl hp)) (leaves_unlock hp)
  | set l => exact hover (hok.unlock () (.inr hp)) (leaves_set hp)

lemma Leaves.exists_run {ms : List (Call E)} (h : Leaves (s.mem, s.loc i) ms) : ∃ v,
    (run (harts E) s v).mem.lock () = 0 ∧ ((run (harts E) s v).loc i).calls = ms ∧
      ∀ j ≠ i, (run (harts E) s v).loc j = s.loc j := by
  obtain ⟨n, hlock, hcalls⟩ := h
  refine ⟨List.replicate n i, ?_⟩
  rw [run_replicate]
  exact ⟨hlock, by simpa using hcalls, fun j hj => Function.update_of_ne hj _ _⟩

lemma exists_free_run (h : AtStart s) (w : List ι) :
    ∃ v, (run (harts E) s (w ++ v)).mem.lock () = 0 := by
  by_cases h0 : (run (harts E) s w).mem.lock () = 0
  · exact ⟨[], by rwa [List.append_nil]⟩
  · obtain ⟨i, ho⟩ := (locked_run h w).word.mp h0
    obtain ⟨ms, hleaves, -⟩ := leaves_run h w i (.inr ho)
    obtain ⟨v, hv, -⟩ := hleaves.exists_run
    exact ⟨v, by rwa [run_append]⟩

/-- By induction on the number of calls to be made. -/
lemma exists_done_run [Fintype ι] (h : AtStart s) (w : List ι)
    (h0 : (run (harts E) s w).mem.lock () = 0) :
    ∃ v, ∀ i, ((run (harts E) s (w ++ v)).loc i).calls = [] := by
  induction hn : ∑ i, ((run (harts E) s w).loc i).calls.length using Nat.strong_induction_on
    generalizing w with
  | _ n ih =>
    by_cases hdone : ∀ i, ((run (harts E) s w).loc i).calls = []
    · exact ⟨[], by simpa using hdone⟩
    · obtain ⟨i, hi⟩ := not_forall.mp hdone
      obtain ⟨ms, hleaves, -, hlt⟩ := leaves_run h w i (.inl h0)
      obtain ⟨v, hv0, hvi, hvj⟩ := hleaves.exists_run
      rw [← run_append] at hv0 hvi hvj
      have hsum : ∑ j, ((run (harts E) s (w ++ v)).loc j).calls.length < n := by
        rw [← hn]
        apply Finset.sum_lt_sum
        · intro j _
          by_cases hj : j = i
          · subst hj
            rw [hvi]
            exact (hlt h0 hi).le
          · rw [hvj j hj]
        · exact ⟨i, Finset.mem_univ i, by rw [hvi]; exact hlt h0 hi⟩
      obtain ⟨u, hu⟩ := ih _ hsum (w ++ v) hv0 rfl
      exact ⟨v ++ u, by rwa [← List.append_assoc]⟩

/-- **No message is lost**: whatever finitely many harts have done, they can go on so that the
serial port has been sent every message of every hart, whole and in the order of each hart. -/
theorem console_drains [Fintype ι] (h : AtStart s) (w : List ι) : ∃ v,
    ∃ order : List (ι × Call E), (∀ i, callsOf order i = (s.loc i).calls) ∧
      sequential (order.map Prod.snd) s.mem.console =
        some (run (harts E) s (w ++ v)).mem.console := by
  obtain ⟨v, hv⟩ := exists_free_run h w
  obtain ⟨u, hu⟩ := exists_done_run h (w ++ v) hv
  obtain ⟨order, tail, hs⟩ := serial_run h (w ++ v ++ u)
  have htail : tail = [] := by
    apply hs.outside
    intro i hi
    obtain ⟨m, ms, hcalls, -⟩ := hs.inside i hi
    rw [hu i] at hcalls
    cases hcalls
  refine ⟨v ++ u, order, fun i => ?_, ?_⟩
  · rw [← hs.calls i, hu i, List.append_nil]
  · rw [sequential_eq, ← List.append_assoc, hs.console, htail, List.append_nil]

theorem console_drains_two : ∃ v, ∃ order : List (Bool × Call emptyStrings),
    (∀ i, callsOf order i = (twoHarts.loc i).calls) ∧
      sequential (order.map Prod.snd) twoHarts.mem.console =
        some (run (harts emptyStrings) twoHarts ([true, false, true] ++ v)).mem.console :=
  console_drains twoHarts_atStart [true, false, true]

end LibCheckpoint.Console
