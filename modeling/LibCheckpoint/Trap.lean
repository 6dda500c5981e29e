import LibCheckpoint.Phase

/-!
Traps while the restorer runs: `gcpt_trap_handler` prints, and printing takes a lock.

From `enable_gcpt_trap` on, a trap abandons what the hart is doing, with the locks that it owns, and
enters the handler, which does not return.
-/

namespace LibCheckpoint.Trap

open LibCheckpoint.Bytes LibCheckpoint.Rv64 LibCheckpoint.Csr LibCheckpoint.Layout
open LibCheckpoint.Restorer LibCheckpoint.Interleave LibCheckpoint.Phase

/-! ### Harts that take traps -/

/-- What a trap leaves in `mepc`, `mcause` and `mtval`. -/
structure Cause where
  mepc : Word
  mcause : Word
  mtval : Word

def Cause.isInterrupt (t : Cause) : Bool := t.mcause.getLsbD 63

/-- `mstatus` after a trap from a privilege: `MPIE` takes `MIE`, and `MIE` is cleared. -/
def trapStatus (priv : BitVec 2) (mstatus : Word) : Word :=
  let mpie := if mie mstatus then mstatus ||| 0x80 else mstatus &&& ~~~0x80
  let mpp : Word := priv.setWidth 64 <<< 11
  mpie &&& ~~~0x1808 ||| mpp

def enter (a : Arch) (t : Cause) : Arch :=
  { a with
    priv := 3
    csr := Function.update (Function.update (Function.update (Function.update a.csr
        mstatusId (trapStatus a.priv (a.csr mstatusId))) mepcId t.mepc)
      0x342 t.mcause) 0x343 t.mtval }

/-- A hart, and what it was doing when it took its traps, the last one first. -/
structure Trapped where
  hart : Hart
  interrupted : List Hart

def behindEnable : Pc → Bool
  | .gcptCStart | .clearBss _ | .setBssLock | .waitBssLock | .mtPrintf .hello _
  | .enableGcptTrap | .gone _ | .nemuSignal _ | .stuck => false
  | _ => true

variable (cfg : Cfg)

/-- The hart takes a trap to `gcpt_trap`: an exception, or an interrupt while these are enabled. -/
def takes (c : Hart) (t : Cause) : Bool :=
  behindEnable c.pc && c.arch.csr csrMtvec == cfg.link.gcptTrap &&& 0xFFFFFFFFFFFFFFFC &&
    (!t.isInterrupt || mie (c.arch.csr mstatusId))

/-- `gcpt_trap` jumps to `gcpt_trap_handler`, which begins with the first of its prints. -/
def trap (c : Trapped) (t : Cause) : Trapped where
  hart := { c.hart with
    arch := enter c.hart.arch t
    pc := .mtPrintf (.handler 0) (.lock .read) }
  interrupted := c.hart :: c.interrupted

def trapHarts : Threads Shared Trapped Act Word where
  act c := act cfg c.hart
  perform := perform cfg.link
  resume c r := { c with hart := resume cfg c.hart r }

abbrev TrapSys (M : ℕ) := St (Fin M) Shared Trapped

variable {M : ℕ}

/-- A hart takes its next step, or a trap. -/
def step (s : TrapSys M) (e : Fin M × Option Cause) : TrapSys M :=
  match e.2 with
  | none => next (trapHarts cfg) s e.1
  | some t =>
    if takes cfg (s.loc e.1).hart t then
      { s with loc := Function.update s.loc e.1 (trap (s.loc e.1) t) }
    else s

def runs (s : TrapSys M) (es : List (Fin M × Option Cause)) : TrapSys M := es.foldl (step cfg) s

/-! ### Locks -/

/-- A hart owns a lock if what it does or has been doing owns it. -/
def Trapped.owns (p : Hart → Bool) (c : Trapped) : Bool := p c.hart || c.interrupted.any p

/-- The hart is in `spinlock_lock`, for a lock that it owns already. -/
inductive SelfSpin (c : Trapped) : Prop
  | print (p : LockPt) (hp : printPt c.hart.pc = some (.lock p)) (ho : c.owns holdsPrint = true)
  | globash (p : LockPt) (hp : c.hart.pc = .lockGlobash p) (ho : c.owns holdsGlobash = true)

def AtReset (s : TrapSys M) : Prop :=
  ∀ i, (s.loc i).hart.pc = .gcptCStart ∧ (s.loc i).interrupted = []

/-- **No deadlock of a hart with itself**, in a run: at no point of it a hart spins on a lock that
it owns; and a hart in the handler gets to its signal, if the print lock is free or taken by this
call of it. -/
structure NoSelfDeadlock (s : TrapSys M) (es : List (Fin M × Option Cause)) : Prop where
  spins : ∀ u v i, es = u ++ v → ¬ SelfSpin ((runs cfg s u).loc i)
  ends : ∀ u v i k p, es = u ++ v →
    ((runs cfg s u).loc i).hart.pc = .mtPrintf (.handler k) p →
    (runs cfg s u).mem.get cfg.link .mtPrintfLock = 0 ∨
      holdsPrint ((runs cfg s u).loc i).hart = true →
    ∃ n, ((runs cfg s (u ++ List.replicate n (i, none))).loc i).hart.pc = .nemuSignal gcptGetTrap

/-- No trap of a run is taken by a hart that owns the print lock. -/
def TrapsUnlocked (s : TrapSys M) (es : List (Fin M × Option Cause)) : Prop :=
  ∀ u i t v, es = u ++ (i, some t) :: v → takes cfg ((runs cfg s u).loc i).hart t = true →
    ((runs cfg s u).loc i).owns holdsPrint = false

variable {cfg} {s : TrapSys M} {c : Trapped}

lemma runs_append (u v : List (Fin M × Option Cause)) :
    runs cfg s (u ++ v) = runs cfg (runs cfg s u) v := by
  simp [runs, List.foldl_append]

/-! ### The handler alone -/

lemma runs_untrapped (w : List (Fin M)) :
    runs cfg s (w.map fun i => (i, none)) = run (trapHarts cfg) s w := by
  induction w generalizing s with
  | nil => rfl
  | cons i w ih => exact ih

/-- A call of `mt_printf` that finds the lock free, or owns it, returns. -/
lemma alone_print {m : Shared} {c : Hart} {site : Site} {p : PrintPt} (hp : c.pc = .mtPrintf site p)
    (h : m.get cfg.link .mtPrintfLock = 0 ∨ holdsPrint c = true) :
    ∃ n m', (alone (harts cfg))^[n] (m, c) = (m', { c with pc := site.next }) ∧
      m'.get cfg.link .mtPrintfLock = 0 := by
  have hunlock (m : Shared) (c : Hart) (hp : c.pc = .mtPrintf site .unlock) :
      alone (harts cfg) (m, c) = (m.set cfg.link .mtPrintfLock 0, { c with pc := site.next }) := by
    simp [alone, act, resume, hp, perform]
  have hout (m : Shared) (c : Hart) (hp : c.pc = .mtPrintf site .out) :
      alone (harts cfg) (m, c) = (m, { c with pc := .mtPrintf site .unlock }) := by
    simp [alone, act, resume, hp, perform]
  have hswap (m : Shared) (c : Hart) (hp : c.pc = .mtPrintf site (.lock .swap))
      (h0 : m.get cfg.link .mtPrintfLock = 0) : alone (harts cfg) (m, c) =
        (m.set cfg.link .mtPrintfLock (-1), { c with pc := .mtPrintf site .out }) := by
    simp [alone, act, resume, hp, perform, h0]
  have hread (m : Shared) (c : Hart) (hp : c.pc = .mtPrintf site (.lock .read))
      (h0 : m.get cfg.link .mtPrintfLock = 0) : alone (harts cfg) (m, c) =
        (m, { c with pc := .mtPrintf site (.lock .swap) }) := by
    simp [alone, act, resume, hp, perform, h0]
  -- One to four steps, by where the call is.
  cases p with
  | unlock => exact ⟨1, _, hunlock m c hp, by simp⟩
  | out =>
    refine ⟨2, _, ?_, Shared.get_set_self _ m _ 0⟩
    rw [Function.iterate_succ_apply, hout m c hp, Function.iterate_one, hunlock m _ rfl]
  | lock q =>
    have h0 : m.get cfg.link .mtPrintfLock = 0 := by
      simpa [holdsPrint, printPt, hp] using h
    cases q with
    | swap =>
      refine ⟨3, _, ?_, Shared.get_set_self _ (m.set cfg.link .mtPrintfLock (-1)) _ 0⟩
      rw [Function.iterate_succ_apply, hswap m c hp h0, Function.iterate_succ_apply, hout _ _ rfl,
        Function.iterate_one, hunlock _ _ rfl]
    | read =>
      refine ⟨4, _, ?_, Shared.get_set_self _ (m.set cfg.link .mtPrintfLock (-1)) _ 0⟩
      rw [Function.iterate_succ_apply, hread m c hp h0, Function.iterate_succ_apply,
        hswap m _ rfl h0, Function.iterate_succ_apply, hout _ _ rfl, Function.iterate_one,
        hunlock _ _ rfl]

/-- **The handler ends**: one print after the other, up to its signal. -/
lemma alone_handler (d : ℕ) {m : Shared} {c : Hart} {k : ℕ} {p : PrintPt} (hd : 4 ≤ k + d)
    (hp : c.pc = .mtPrintf (.handler k) p)
    (h : m.get cfg.link .mtPrintfLock = 0 ∨ holdsPrint c = true) :
    ∃ n, ((alone (harts cfg))^[n] (m, c)).2.pc = .nemuSignal gcptGetTrap := by
  induction d generalizing m c k p with
  | zero =>
    obtain ⟨n, m', hn, -⟩ := alone_print hp h
    exact ⟨n, by rw [hn]; simp [Site.next, show ¬ k < 4 by omega]⟩
  | succ d ih =>
    obtain ⟨n, m', hn, h0⟩ := alone_print hp h
    by_cases hk : k < 4
    · obtain ⟨n', hn'⟩ := ih (m := m') (c := { c with pc := (Site.handler k).next })
        (k := k + 1) (p := .lock .read) (by omega) (by simp [Site.next, hk]) (.inl h0)
      exact ⟨n' + n, by rw [Function.iterate_add_apply, hn, hn']⟩
    · exact ⟨n, by rw [hn]; simp [Site.next, hk]⟩

lemma alone_trapHarts (n : ℕ) (m : Shared) (c : Trapped) : (alone (trapHarts cfg))^[n] (m, c) =
    (((alone (harts cfg))^[n] (m, c.hart)).1,
      { c with hart := ((alone (harts cfg))^[n] (m, c.hart)).2 }) := by
  induction n generalizing m c with
  | zero => rfl
  | succ n ih =>
    rw [Function.iterate_succ_apply, Function.iterate_succ_apply]
    exact ih _ _

lemma runs_handler (s : TrapSys M) {i : Fin M} {k : ℕ} {p : PrintPt}
    (hp : (s.loc i).hart.pc = .mtPrintf (.handler k) p)
    (h : s.mem.get cfg.link .mtPrintfLock = 0 ∨ holdsPrint (s.loc i).hart = true) :
    ∃ n, ((runs cfg s (List.replicate n (i, none))).loc i).hart.pc = .nemuSignal gcptGetTrap := by
  obtain ⟨n, hn⟩ := alone_handler 4 (by omega) hp h
  refine ⟨n, ?_⟩
  have hmap : List.replicate n (i, (none : Option Cause)) =
      (List.replicate n i).map fun i => (i, none) := by simp
  rw [hmap, runs_untrapped, run_replicate]
  dsimp only
  rw [Function.update_self, alone_trapHarts]
  exact hn

/-! ### What a hart owns -/

def inHandler : Pc → Bool
  | .mtPrintf (.handler _) _ | .nemuSignal _ => true
  | _ => false

/-- A hart whose traps have abandoned no print lock; once it has taken one, it is in the handler. -/
structure Unlocked (c : Trapped) : Prop where
  print : c.interrupted.any holdsPrint = false
  handler : c.interrupted = [] ∨ inHandler c.hart.pc = true

lemma inHandler_resume {c : Hart} (r : Word) (h : inHandler c.pc = true) :
    inHandler (resume cfg c r).pc = true := by
  cases hp : c.pc with
  | mtPrintf site p =>
    cases site with
    | handler k =>
      obtain ⟨q, hres, ⟨p', rfl⟩ | ⟨-, rfl⟩⟩ := resume_print cfg c r hp
      · simp [hres, inHandler]
      · rw [hres, Site.next]
        split_ifs <;> rfl
    | _ => simp [inHandler, hp] at h
  | nemuSignal n => simp [resume, hp, inHandler]
  | _ => simp [inHandler, hp] at h

lemma Unlocked.resume (h : Unlocked c) (r : Word) : Unlocked ((trapHarts cfg).resume c r) where
  print := h.print
  handler := h.handler.imp_right (inHandler_resume r)

lemma unlocked_trap (h : c.owns holdsPrint = false) (t : Cause) : Unlocked (trap c t) where
  print := by simpa [trap, Trapped.owns] using h
  handler := .inr rfl

/-- A hart that has abandoned no print lock spins on no lock of its own. -/
lemma Unlocked.not_selfSpin (h : Unlocked c) : ¬ SelfSpin c := by
  rintro (⟨p, hp, ho⟩ | ⟨p, hp, ho⟩)
  · have hfree : holdsPrint c.hart = false := by simp [holdsPrint, hp]
    simp [Trapped.owns, hfree, h.print] at ho
  · have hnil : c.interrupted = [] := h.handler.resolve_right (by simp [hp, inHandler])
    simp [Trapped.owns, hnil, holdsGlobash, hp] at ho

lemma unlocked_runs (h : AtReset s) {es : List (Fin M × Option Cause)}
    (hes : TrapsUnlocked cfg s es) (u v : List (Fin M × Option Cause)) (huv : es = u ++ v)
    (i : Fin M) : Unlocked ((runs cfg s u).loc i) := by
  -- By induction on the part of the run that is over, from its end.
  induction u using List.reverseRecOn generalizing v with
  | nil => exact ⟨by simp [runs, (h i).2], .inl (h i).2⟩
  | append_singleton u e ih =>
    rw [List.append_assoc, List.singleton_append] at huv
    have hi := ih _ huv
    rw [runs_append]
    obtain ⟨j, t⟩ := e
    by_cases hij : i = j
    · subst hij
      cases t with
      | none =>
        change Unlocked ((next (trapHarts cfg) (runs cfg s u) i).loc i)
        rw [next_loc_self]
        exact hi.resume _
      | some t =>
        simp only [runs, List.foldl_cons, List.foldl_nil, step]
        split_ifs with ht
        · have htrap := unlocked_trap (hes u i t v huv ht) t
          rwa [← Function.update_self i (trap _ t) (runs cfg s u).loc] at htrap
        · exact hi
    · have hsame : ((runs cfg (runs cfg s u) [(j, t)]).loc i) = (runs cfg s u).loc i := by
        cases t with
        | none => exact next_loc_of_ne _ _ hij
        | some t =>
          simp only [runs, List.foldl_cons, List.foldl_nil, step]
          split_ifs
          · exact Function.update_of_ne hij _ _
          · rfl
      rw [hsame]
      exact hi

/-- A trap that is taken with the print lock leaves the hart spinning on it. -/
lemma selfSpin_trap (s : TrapSys M) {i : Fin M} {t : Cause} (ht : takes cfg (s.loc i).hart t = true)
    (ho : (s.loc i).owns holdsPrint = true) : SelfSpin ((runs cfg s [(i, some t)]).loc i) := by
  have hloc : (runs cfg s [(i, some t)]).loc i = trap (s.loc i) t := by
    simp [runs, step, ht]
  rw [hloc]
  refine .print .read rfl ?_
  simpa [trap, Trapped.owns, holdsPrint, printPt] using ho

/-- **When no hart deadlocks with itself**: in every run from reset, if and only if each of its
traps is taken by a hart that does not own the print lock. -/
theorem noSelfDeadlock_iff (h : AtReset s) (es : List (Fin M × Option Cause)) :
    NoSelfDeadlock cfg s es ↔ TrapsUnlocked cfg s es := by
  constructor
  · intro hes u i t v huv ht
    by_contra ho
    rw [Bool.not_eq_false] at ho
    refine hes.spins (u ++ [(i, some t)]) v i (by simpa using huv) ?_
    rw [runs_append]
    exact selfSpin_trap _ ht ho
  · intro hes
    refine ⟨fun u v i huv => (unlocked_runs h hes u v huv i).not_selfSpin, ?_⟩
    intro u v i k p _ hp hl
    obtain ⟨n, hn⟩ := runs_handler _ hp hl
    exact ⟨n, by rw [runs_append]; exact hn⟩

/-! ### An interrupt of one hart -/

def farRam (a : Word) : Byte := if a = 0x800ECDC0 then 3 else 0

def resetSys : TrapSys 1 where
  mem := (smallSys 1 .gcptCStart 0).mem
  loc i := ⟨(smallSys 1 .gcptCStart 0).loc i, []⟩

lemma resetSys_atReset : AtReset resetSys := fun _ => ⟨rfl, rfl⟩

def timer : Cause := ⟨0, 0x8000000000000007, 0⟩

lemma trapsUnlocked_one {i : Fin M} (n : ℕ) (t : Cause)
    (ho : ((runs cfg s (List.replicate n (i, none))).loc i).owns holdsPrint = false) :
    TrapsUnlocked cfg s (List.replicate n (i, none) ++ [(i, some t)]) := by
  intro u j t' v huv _
  have hu : u = List.replicate n (i, none) ∧ j = i := by
    rcases List.append_eq_append_iff.mp huv with ⟨w, rfl, hw⟩ | ⟨w, hw, hv⟩
    · cases w with
      | nil => simp_all
      | cons e w => simp at hw
    · cases w with
      | nil => simp_all
      | cons e w =>
        obtain ⟨rfl, -⟩ := List.cons.inj hv
        have hmem : (j, some t') ∈ List.replicate n (i, (none : Option Cause)) := by
          rw [hw]
          simp
        simp at hmem
  obtain ⟨rfl, rfl⟩ := hu
  exact ho

theorem noSelfDeadlock_iff_small : NoSelfDeadlock (smallCfg farRam) resetSys
    (List.replicate 48 (0, none) ++ [(0, some timer)]) :=
  (noSelfDeadlock_iff resetSys_atReset _).mpr (trapsUnlocked_one 48 timer (by decide +kernel))

/-- A timer interrupt while the hart prints that its offset is bad. -/
theorem not_noSelfDeadlock_small : ¬ ∀ (cfg : Cfg) (M : ℕ) (s : TrapSys M)
    (es : List (Fin M × Option Cause)) (i : Fin M), AtReset s →
      ¬ SelfSpin ((runs cfg s es).loc i) := by
  intro h
  refine h (smallCfg farRam) 1 resetSys (List.replicate 54 (0, none) ++ [(0, some timer)]) 0
    resetSys_atReset ?_
  rw [runs_append]
  exact selfSpin_trap _ (by decide +kernel) (by decide +kernel)

end LibCheckpoint.Trap
