import LibCheckpoint.Exit

/-!
The way of one hart from the entry of the restore to the barrier: at every point of it the state is
what the code before that point has made of the state at the entry, and a hart alone reaches every
point of it.
-/

namespace LibCheckpoint.Solo

open LibCheckpoint.Bytes LibCheckpoint.Rv64 LibCheckpoint.Csr LibCheckpoint.Layout LibCheckpoint.Jal
open LibCheckpoint.Restorer LibCheckpoint.Interleave LibCheckpoint.Phase LibCheckpoint.Path
open LibCheckpoint.Exit

variable {cfg : Cfg}

/-! ### Calls -/

section
variable (m : Shared) (c : Hart)

def callSteps (cfg : Cfg) (g : Gates) (q : Routine) : ℕ :=
  if calls g q then (q.code cfg).length + 2 else 1

lemma called_noStore {q : Routine} (h1 : callStage q = 1) (hq : q ≠ .restoreMtimeCmp) :
    (q.code cfg).all (fun i => !i.isStore) = true := by
  cases q <;> first
    | exact absurd rfl hq
    | (simp only [Routine.code]; decide +kernel)
    | cases h1

lemma alone_enter {q : Routine} (hp : c.pc = .call q) (hg : calls c.gates q = true) :
    alone (harts cfg) (m, c) =
      (m, { c with arch := withArgs cfg c.cpuId c.arch q, pc := .asm q (q.code cfg) }) := by
  simp [alone, act, resume, hp, hg, perform]

lemma alone_call {q : Routine} (h1 : callStage q = 1) (hq : q ≠ .restoreMtimeCmp)
    (hp : c.pc = .call q) : (alone (harts cfg))^[callSteps cfg c.gates q] (m, c) =
      (m, { c with arch := callOne cfg c.cpuId c.gates c.arch q, pc := q.next }) := by
  unfold callSteps callOne
  split_ifs with hg
  · have hret (d : Hart) (hd : d.pc = .asm q []) :
        alone (harts cfg) (m, d) = (m, { d with pc := q.next }) := by
      have hf : finish cfg d q = { d with pc := q.next } := by
        cases q <;> first | rfl | cases h1
      simp [alone, act, resume, hd, perform, hf]
    rw [Function.iterate_succ_apply', Function.iterate_succ_apply, alone_enter m c hp hg,
      alone_asm (q := q) (t := []) cfg m _ (called_noStore h1 hq) (by simp), hret _ rfl]
  · simp [alone, act, resume, hp, hg, perform]

end

/-! ### The way to the barrier -/

/-- The routines that are called before a given one. -/
def done : Routine → List Routine
  | .rvvRestore => [.rvhCsrRestore]
  | .restoreFloatVector => [.rvhCsrRestore, .rvvRestore]
  | .restoreCsrVector => [.rvhCsrRestore, .rvvRestore, .restoreFloatVector]
  | .restoreMtimeCmp =>
    [.rvhCsrRestore, .rvvRestore, .restoreFloatVector, .restoreCsrVector]
  | _ => []

/-- The hart stops at an offset that no jump has. -/
def badImm (cfg : Cfg) (cpuId : BitVec 32) : Bool :=
  modeM cfg cpuId && !isValidImm (cfg.offset cpuId)

/-- The outcome of `checkpoint_ext_check` for a hart at the entry. -/
def gatesOf (cfg : Cfg) (c : Hart) : Gates := cfg.gates c.cpuId (c.arch.readCsr csrMisa)

def atCall (cfg : Cfg) (c : Hart) (q : Routine) : Hart :=
  { c with
    pc := .call q
    arch := callAll cfg c.cpuId (gatesOf cfg c) (done q) c.arch
    gates := gatesOf cfg c
    allCpuNum := (cfg.ld (cfg.layout c.cpuId).csrReserve).setWidth 32 }

def inside (cfg : Cfg) (c : Hart) (q : Routine) (l rest : List Instr) : Hart :=
  { atCall cfg c q with
    pc := .asm q rest
    arch := execs cfg.env l (withArgs cfg c.cpuId (atCall cfg c q).arch q) }

/-- The points of a hart that has called no routine yet. -/
def startPoint : Pc → Bool
  | .readAllCpuNum | .extCheck | .patchJal | .nemuSignal _ => true
  | .mtPrintf s _ => s = .badImm
  | _ => false

variable (cfg) in
/-- Where a hart is that was `c₀` at the entry: it has called no routine yet, or it is at a call or
in a routine before the barrier, or it has arrived there. -/
inductive Way (c₀ c : Hart) : Prop
  | start (hp : startPoint c.pc = true) (ha : c.arch = c₀.arch)
      (hg : (c.pc = .readAllCpuNum ∨ c.pc = .extCheck) ∨ c.gates = gatesOf cfg c₀)
  | call (q : Routine) (hp : c.pc = .call q) (h1 : callStage q = 1)
      (ha : c.arch = (atCall cfg c₀ q).arch) (hg : c.gates = gatesOf cfg c₀)
      (hbad : badImm cfg c₀.cpuId = false)
  | asm (q : Routine) (u l : List Instr) (hp : c.pc = .asm q l) (h1 : asmStage q = 1)
      (hcode : q.code cfg = u ++ l) (ha : c.arch = (inside cfg c₀ q u l).arch)
      (hcalls : calls c.gates q = true) (hg : c.gates = gatesOf cfg c₀)
      (hbad : badImm cfg c₀.cpuId = false)
  | late (h2 : 2 ≤ stage c.pc) (hg : c.gates = gatesOf cfg c₀)
      (hcode : ∀ q l, c.pc = .asm q l → l <:+ q.code cfg) (hbad : badImm cfg c₀.cpuId = false)

variable {c₀ c : Hart} {r : Word}

lemma callStage_of_asmStage {q : Routine} (h : asmStage q = 1) : callStage q = 1 := by
  cases q <;> first | rfl | cases h

lemma asmStage_of_callStage {q : Routine} (h : callStage q = 1) : asmStage q = 1 := by
  cases q <;> first | rfl | cases h

lemma atCall_next {q q' : Routine} (hd : done q' = done q ++ [q]) : (atCall cfg c₀ q').arch =
    callOne cfg c₀.cpuId (gatesOf cfg c₀) (atCall cfg c₀ q).arch q := by
  simp [atCall, hd, callAll]

lemma way_next {q : Routine} (h1 : callStage q = 1) (hp : c.pc = q.next)
    (ha : c.arch = callOne cfg c₀.cpuId (gatesOf cfg c₀) (atCall cfg c₀ q).arch q)
    (hg : c.gates = gatesOf cfg c₀) (hbad : badImm cfg c₀.cpuId = false) : Way cfg c₀ c := by
  cases q with
  | restoreMtimeCmp => exact .late (by simp [hp, Routine.next]) hg (by simp [hp, Routine.next]) hbad
  | rvhCsrRestore => exact .call .rvvRestore hp rfl (ha.trans (atCall_next rfl).symm) hg hbad
  | rvvRestore =>
    exact .call .restoreFloatVector hp rfl (ha.trans (atCall_next rfl).symm) hg hbad
  | restoreFloatVector =>
    exact .call .restoreCsrVector hp rfl (ha.trans (atCall_next rfl).symm) hg hbad
  | restoreCsrVector =>
    exact .call .restoreMtimeCmp hp rfl (ha.trans (atCall_next rfl).symm) hg hbad
  | _ => cases h1

lemma way_start (hid : c.cpuId = c₀.cpuId) (hp : startPoint c.pc = true) (ha : c.arch = c₀.arch)
    (hg : (c.pc = .readAllCpuNum ∨ c.pc = .extCheck) ∨ c.gates = gatesOf cfg c₀) :
    Way cfg c₀ (resume cfg c r) := by
  cases hpc : c.pc with
  | readAllCpuNum =>
    exact .start (by simp [resume, hpc, startPoint]) (by simp only [resume, hpc, ha])
      (.inl (.inr (by simp [resume, hpc])))
  | extCheck =>
    exact .start (by simp [resume, hpc, startPoint]) (by simp only [resume, hpc, ha])
      (.inr (by simp only [resume, hpc, hid, ha, gatesOf]))
  | patchJal =>
    have hgates : c.gates = gatesOf cfg c₀ := by simpa [hpc] using hg
    have hgate : (c.gates.shouldJumpToMepc && !isValidImm (cfg.offset c.cpuId)) =
        badImm cfg c₀.cpuId := by
      rw [hgates, hid]
      rfl
    -- A bad offset stops the hart, with a message.
    cases hbad : badImm cfg c₀.cpuId with
    | true =>
      exact .start (by simp [resume, hpc, hgate, hbad, startPoint])
        (by simp [resume, hpc, ha]) (.inr (by simp [resume, hpc, hgates]))
    | false =>
      exact .call .rvhCsrRestore (by simp [resume, hpc, hgate, hbad]) rfl
        (by simp [resume, hpc, ha, atCall, done, callAll]) (by simp [resume, hpc, hgates]) hbad
  | mtPrintf s p =>
    have hgates : c.gates = gatesOf cfg c₀ := by simpa [hpc] using hg
    obtain rfl : s = .badImm := by simpa [startPoint, hpc] using hp
    obtain ⟨q, hres, hq⟩ := resume_print cfg c r hpc
    rw [hres]
    refine .start ?_ ha (.inr hgates)
    rcases hq with ⟨p', rfl⟩ | ⟨-, rfl⟩ <;> rfl
  | nemuSignal n =>
    have hstay : resume cfg c r = c := by simp only [resume, hpc]
    rw [hstay]
    exact .start hp ha hg
  | _ => simp [startPoint, hpc] at hp

lemma way_call {q : Routine} (hid : c.cpuId = c₀.cpuId) (hp : c.pc = .call q)
    (h1 : callStage q = 1) (ha : c.arch = (atCall cfg c₀ q).arch) (hg : c.gates = gatesOf cfg c₀)
    (hbad : badImm cfg c₀.cpuId = false) : Way cfg c₀ (resume cfg c r) := by
  by_cases hcalls : calls c.gates q = true
  · have hres : resume cfg c r =
        { c with arch := withArgs cfg c.cpuId c.arch q, pc := .asm q (q.code cfg) } := by
      simp only [resume, hp, hcalls, if_true]
    rw [hres]
    exact .asm q [] (q.code cfg) rfl (asmStage_of_callStage h1) rfl
      (by simp [inside, ha, hid]) hcalls hg hbad
  · rw [Bool.not_eq_true] at hcalls
    have hres : resume cfg c r = { c with pc := q.next } := by
      simp only [resume, hp, hcalls, Bool.false_eq_true, if_false]
    rw [hg] at hcalls
    rw [hres]
    exact way_next h1 rfl (by simp [callOne, hcalls, ha]) hg hbad

lemma way_asm {q : Routine} {u l : List Instr} (hp : c.pc = .asm q l) (h1 : asmStage q = 1)
    (hcode : q.code cfg = u ++ l) (ha : c.arch = (inside cfg c₀ q u l).arch)
    (hcalls : calls c.gates q = true) (hg : c.gates = gatesOf cfg c₀)
    (hbad : badImm cfg c₀.cpuId = false) : Way cfg c₀ (resume cfg c r) := by
  cases l with
  | nil =>
    have hf : finish cfg c q = { c with pc := q.next } := by
      cases q <;> first | rfl | cases h1
    have hres : resume cfg c r = { c with pc := q.next } := by simp only [resume, hp, hf]
    rw [List.append_nil] at hcode
    rw [hg] at hcalls
    rw [hres]
    refine way_next (callStage_of_asmStage h1) rfl ?_ hg hbad
    simp [callOne, hcalls, ha, inside, hcode]
  | cons i l =>
    refine .asm q (u ++ [i]) l (by simp [resume, hp]) h1 (by simp [hcode]) ?_
      (by simpa [resume, hp] using hcalls) (by simp [resume, hp, hg]) hbad
    simp [resume, hp, ha, inside, execs_append]

/-- **The way is kept** by every step of the hart. -/
theorem Way.next (hid : c.cpuId = c₀.cpuId) (h : Way cfg c₀ c) (r : Word) :
    Way cfg c₀ (resume cfg c r) := by
  cases h with
  | start hp ha hg => exact way_start hid hp ha hg
  | call q hp h1 ha hg hbad => exact way_call hid hp h1 ha hg hbad
  | asm q u l hp h1 hcode ha hcalls hg hbad => exact way_asm hp h1 hcode ha hcalls hg hbad
  | late h2 hg hcode hbad =>
    refine .late (h2.trans (stage_mono cfg c r)) ((gates_of_late r (.inl h2)).trans hg) ?_ hbad
    intro q l hl
    rcases resume_asm cfg c r hl with ⟨-, -, rfl, -⟩ | ⟨i, hp, -⟩ | ⟨-, -, rfl, -⟩
    · exact List.suffix_rfl
    · exact (List.suffix_cons i l).trans (hcode q _ hp)
    · exact List.suffix_rfl

variable (cfg) in
/-- Whatever it is answered, a hart is on its way, and on the path of its outcome. -/
theorem way_feed (hp : c₀.pc = .readAllCpuNum) (rs : List Word) :
    (feed (harts cfg) c₀ rs).cpuId = c₀.cpuId ∧ Way cfg c₀ (feed (harts cfg) c₀ rs) ∧
      OnPath cfg (restoreAll cfg c₀.cpuId c₀.arch) (feed (harts cfg) c₀ rs) := by
  refine feed_inv (harts cfg) (P := fun c => c.cpuId = c₀.cpuId ∧ Way cfg c₀ c ∧
    OnPath cfg (restoreAll cfg c₀.cpuId c₀.arch) c) ⟨rfl, ?_, ?_⟩ (fun c r hc => ?_) rs
  · exact .start (by simp [hp, startPoint]) rfl (.inl (.inl hp))
  · exact ⟨by simp [hp], by simp [hp], by simp [hp], by simp [arrival, hp], by simp [hp]⟩
  · obtain ⟨hid, hway, hpath⟩ := hc
    exact ⟨(resume_cpuId cfg c r).trans hid, hway.next hid r, hpath.next r⟩

variable (cfg) in
/-- In every run a hart is on its way. -/
theorem way_run {M : ℕ} {s : Sys M} (i : Fin M) (hp : (s.loc i).pc = .readAllCpuNum)
    (w : List (Fin M)) : ((run (harts cfg) s w).loc i).cpuId = (s.loc i).cpuId ∧
      Way cfg (s.loc i) ((run (harts cfg) s w).loc i) := by
  obtain ⟨rs, hrs⟩ := run_loc_feed (harts cfg) s w i
  rw [hrs]
  exact ⟨(way_feed cfg hp rs).1, (way_feed cfg hp rs).2.1⟩

/-! ### A part of the state that a routine sets -/

/-- The hart is behind the instructions of a routine that set something: in the routine, with only
such instructions ahead that keep it, or behind the routine. -/
def behind (keeps : Instr → Bool) (q : Routine) : Pc → Bool
  | .call p => q ∈ done p ∨ 2 ≤ callStage p
  | .asm p l => (p = q ∧ l.all keeps = true) ∨ q ∈ done p ∨ 2 ≤ asmStage p
  | p => 2 ≤ stage p

/-- A part of the state of a hart that a routine sets to a value, and that the instructions of the
routines behind it keep. -/
structure Part {β : Type*} (cfg : Cfg) (cpuId : BitVec 32) (K : Arch → β) (val : β) (q : Routine)
    (keeps : Instr → Bool) : Prop where
  notX : ∀ a b, SameButX a b → K a = K b
  keep : ∀ i a, keeps i = true → K (i.exec cfg.env a) = K a
  first : callStage q = 1
  sets : ∀ a, K (execs cfg.env (q.code cfg) (withArgs cfg cpuId a q)) = val
  later : ∀ p, q ∈ done p → (p.code cfg).all keeps = true
  last : q ∈ done .restoreMtimeCmp

lemma behind_startPoint {keeps : Instr → Bool} {q : Routine} {p : Pc} (h : startPoint p = true) :
    behind keeps q p = false := by
  cases p with
  | mtPrintf site _ =>
    obtain rfl : site = .badImm := of_decide_eq_true h
    rfl
  | readAllCpuNum | extCheck | patchJal | nemuSignal => rfl
  | _ => cases h

lemma behind_late {keeps : Instr → Bool} {q : Routine} {p : Pc} (h : 2 ≤ stage p) :
    behind keeps q p = true := by
  cases p with
  | call => exact decide_eq_true (.inr h)
  | asm => exact decide_eq_true (.inr (.inr h))
  | _ => exact decide_eq_true h

lemma done_last {p q : Routine} (h : q ∈ done p) : ∃ p', done p = done p' ++ [p'] ∧
    (p' = q ∨ q ∈ done p') := by
  cases p with
  | rvvRestore => exact ⟨.rvhCsrRestore, rfl, by simpa [done, eq_comm] using h⟩
  | restoreFloatVector => exact ⟨.rvvRestore, rfl, by simpa [done, eq_comm, or_comm] using h⟩
  | restoreCsrVector =>
    refine ⟨.restoreFloatVector, rfl, ?_⟩
    simp only [done, List.mem_cons, List.not_mem_nil, or_false] at h ⊢
    grind
  | restoreMtimeCmp =>
    refine ⟨.restoreCsrVector, rfl, ?_⟩
    simp only [done, List.mem_cons, List.not_mem_nil, or_false] at h ⊢
    grind
  | _ => simp [done] at h

namespace Part

variable {β : Type*} {cpuId : BitVec 32} {K : Arch → β} {val : β} {q : Routine}
  {keeps : Instr → Bool} {M : ℕ} {s : Sys M}

lemma kept (h : Part cfg cpuId K val q keeps) {l : List Instr} (hl : l.all keeps = true)
    (a : Arch) : K (execs cfg.env l a) = K a := by
  induction l generalizing a with
  | nil => rfl
  | cons i l ih =>
    rw [List.all_cons, Bool.and_eq_true] at hl
    rw [execs_cons, ih hl.2, h.keep i a hl.1]

lemma callAll (h : Part cfg cpuId K val q keeps) {g : Gates} (hg : calls g q = true) (a : Arch)
    {p : Routine} (hp : q ∈ done p) : K (callAll cfg cpuId g (done p) a) = val := by
  obtain ⟨p', hd, hp'⟩ := done_last hp
  rw [hd, Path.callAll, List.foldl_append, List.foldl_cons, List.foldl_nil, callOne]
  rcases hp' with rfl | hp'
  · rw [if_pos hg, h.sets]
  · have ih : K (Path.callAll cfg cpuId g (done p') a) = val := h.callAll hg a hp'
    split_ifs
    · rw [h.kept (h.later p' hp'), h.notX _ _ (sameButX_withArgs cpuId _ p')]
      exact ih
    · exact ih
termination_by (done p).length
decreasing_by rw [hd, List.length_append]; simp

lemma restoreAll (h : Part cfg cpuId K val q keeps) (a : Arch)
    (hg : calls (cfg.gates cpuId (a.readCsr csrMisa)) q = true) :
    K (restoreAll cfg cpuId a) = val := by
  have hall : Path.restoreAll cfg cpuId a =
      callOne cfg cpuId (cfg.gates cpuId (a.readCsr csrMisa)) (Path.callAll cfg cpuId
        (cfg.gates cpuId (a.readCsr csrMisa)) (done .restoreMtimeCmp) a) .restoreMtimeCmp := by
    simp only [Path.restoreAll, Path.callAll, before, done, List.foldl_cons, List.foldl_nil]
  rw [hall, callOne, if_pos (show calls _ .restoreMtimeCmp = true from rfl),
    h.kept (h.later _ h.last), h.notX _ _ (sameButX_withArgs cpuId _ _), h.callAll hg a h.last]

/-- **The part in every run of a hart**: behind the instructions that set it, a part of the state
has the value that the routine has given it, up to an `mret` that changes it. -/
theorem feed (h : Part cfg cpuId K val q keeps) {c₀ : Hart} (hp₀ : c₀.pc = .readAllCpuNum)
    (hid : c₀.cpuId = cpuId) (rs : List Word) (hg : calls (gatesOf cfg c₀) q = true)
    (hp : behind keeps q (Interleave.feed (harts cfg) c₀ rs).pc = true)
    (hend : (∀ a, K a.mret = K a) ∨ ∀ p, (Interleave.feed (harts cfg) c₀ rs).pc = .gone p →
      (Interleave.feed (harts cfg) c₀ rs).gates.shouldJumpToMepc = true) :
    K (Interleave.feed (harts cfg) c₀ rs).arch = val := by
  obtain ⟨-, hway, hpath⟩ := way_feed cfg hp₀ rs
  subst hid
  have hlate := hpath.late
  generalize Interleave.feed (harts cfg) c₀ rs = c at *
  have hcall (p : Routine) (hqp : q ∈ done p) : K (atCall cfg c₀ p).arch = val :=
    h.callAll hg _ hqp
  -- Behind the barrier the routines change integer registers only, and then `mret` may.
  have hbehind (h2 : 2 ≤ stage c.pc) : K c.arch = val := by
    rw [h.notX _ _ (hlate h2)]
    have hA := h.restoreAll c₀.arch hg
    unfold Path.atEnd
    split
    · rename_i p hgone
      split_ifs with hj
      · exact hA
      · rcases hend with hm | hm
        · rw [hm, hA]
        · exact absurd (hm p hgone) hj
    · exact hA
  rcases hway with ⟨hpc, -, -⟩ | ⟨p, hpc, h1, ha, -, -⟩ |
    ⟨p, u, l, hpc, h1, hcode, ha, hcalls, -, -⟩ | ⟨h2, -, -, -⟩
  · rw [behind_startPoint hpc] at hp
    cases hp
  · rw [hpc] at hp
    rcases of_decide_eq_true hp with hq | h2
    · rw [ha, hcall p hq]
    · omega
  · rw [hpc] at hp
    have hin : c.arch = execs cfg.env u (withArgs cfg c₀.cpuId (atCall cfg c₀ p).arch p) := ha
    rw [hin]
    -- Inside the routine itself, behind its writes; or inside a later one.
    rcases of_decide_eq_true hp with ⟨rfl, hl⟩ | hq | h2
    · rw [← h.kept hl, ← execs_append, ← hcode, h.sets]
    · have hall := h.later p hq
      rw [hcode, List.all_append, Bool.and_eq_true] at hall
      rw [h.kept hall.1, h.notX _ _ (sameButX_withArgs c₀.cpuId _ p), hcall p hq]
    · omega
  · exact hbehind h2

/-- The part in a run of all harts. -/
theorem run (h : Part cfg cpuId K val q keeps) {i : Fin M} (hp₀ : (s.loc i).pc = .readAllCpuNum)
    (hid : (s.loc i).cpuId = cpuId) {w : List (Fin M)} (hg : calls (gatesOf cfg (s.loc i)) q = true)
    (hp : behind keeps q ((Interleave.run (harts cfg) s w).loc i).pc = true)
    (hend : (∀ a, K a.mret = K a) ∨ ∀ p, ((Interleave.run (harts cfg) s w).loc i).pc = .gone p →
      ((Interleave.run (harts cfg) s w).loc i).gates.shouldJumpToMepc = true) :
    K ((Interleave.run (harts cfg) s w).loc i).arch = val := by
  obtain ⟨rs, hrs⟩ := run_loc_feed (harts cfg) s w i
  rw [hrs] at hp hend ⊢
  exact h.feed hp₀ hid rs hg hp hend

end Part

/-! ### A hart alone -/

def reachSteps (cfg : Cfg) (g : Gates) (q : Routine) : ℕ :=
  (done q).foldl (fun n p => callSteps cfg g p + n) 3

/-- **The way of one hart**: alone, it comes from the entry of the restore to the call of every
routine, unless it stops at a bad offset. -/
theorem alone_reach (m : Shared) {c : Hart} (hp : c.pc = .readAllCpuNum)
    (hbad : badImm cfg c.cpuId = false) {q : Routine} (h1 : callStage q = 1) :
    ∃ m', (alone (harts cfg))^[reachSteps cfg (gatesOf cfg c) q] (m, c) = (m', atCall cfg c q) ∧
      (modeM cfg c.cpuId = false → m' = m) := by
  -- Three steps lead to the first call; the patch is the only store among them.
  have hfirst : ∃ m', (alone (harts cfg))^[3] (m, c) = (m', atCall cfg c .rvhCsrRestore) ∧
      (modeM cfg c.cpuId = false → m' = m) := by
    have hgate : ((cfg.gates c.cpuId (c.arch.readCsr csrMisa)).shouldJumpToMepc &&
        !isValidImm (cfg.offset c.cpuId)) = false := hbad
    refine ⟨_, Prod.ext rfl ?_, fun hm => ?_⟩
    · simp only [Function.iterate_succ_apply, Function.iterate_zero, id, alone, harts_resume,
        resume, hp, hgate, atCall, gatesOf, done, callAll, List.foldl_nil, Bool.false_eq_true,
        if_false]
    · have hjump : (cfg.gates c.cpuId (c.arch.readCsr csrMisa)).shouldJumpToMepc = false := hm
      simp only [Function.iterate_succ_apply, Function.iterate_zero, id, alone, harts_act,
        harts_perform, harts_resume, act, resume, hp, hjump, Bool.false_and, Bool.false_eq_true,
        if_false, perform]
  -- From the call of a routine to the call of the next one.
  have hstep (q q' : Routine) (hq : q ≠ .restoreMtimeCmp) (hn : q.next = .call q')
      (hd : done q' = done q ++ [q]) (h1 : callStage q = 1)
      (h : ∃ m', (alone (harts cfg))^[reachSteps cfg (gatesOf cfg c) q] (m, c) =
        (m', atCall cfg c q) ∧ (modeM cfg c.cpuId = false → m' = m)) :
      ∃ m', (alone (harts cfg))^[reachSteps cfg (gatesOf cfg c) q'] (m, c) =
        (m', atCall cfg c q') ∧ (modeM cfg c.cpuId = false → m' = m) := by
    obtain ⟨m', h, hm⟩ := h
    have hsteps : reachSteps cfg (gatesOf cfg c) q' =
        callSteps cfg (gatesOf cfg c) q + reachSteps cfg (gatesOf cfg c) q := by
      rw [reachSteps, hd, List.foldl_append]
      rfl
    refine ⟨m', ?_, hm⟩
    rw [hsteps, Function.iterate_add_apply, h]
    refine (alone_call m' (atCall cfg c q) h1 hq rfl).trans ?_
    rw [hn]
    simp [atCall, hd, callAll]
  have hrvv := hstep .rvhCsrRestore .rvvRestore (by decide) rfl rfl rfl hfirst
  have hfloat := hstep .rvvRestore .restoreFloatVector (by decide) rfl rfl rfl hrvv
  have hcsr := hstep .restoreFloatVector .restoreCsrVector (by decide) rfl rfl rfl hfloat
  have hcmp := hstep .restoreCsrVector .restoreMtimeCmp (by decide) rfl rfl rfl hcsr
  cases q with
  | rvhCsrRestore => exact hfirst
  | rvvRestore => exact hrvv
  | restoreFloatVector => exact hfloat
  | restoreCsrVector => exact hcsr
  | restoreMtimeCmp => exact hcmp
  | _ => cases h1

/-- A run in which one hart comes to any point of a routine that it calls. -/
theorem exists_run {M : ℕ} {s : Sys M} (i : Fin M) (hp : (s.loc i).pc = .readAllCpuNum)
    (hbad : badImm cfg (s.loc i).cpuId = false) {q : Routine} (h1 : callStage q = 1)
    (hg : calls (atCall cfg (s.loc i) q).gates q = true) {l rest : List Instr}
    (hcode : q.code cfg = l ++ rest) (hl : l.all (fun i => !i.isStore) = true) :
    ∃ w, (run (harts cfg) s w).loc i = inside cfg (s.loc i) q l rest := by
  obtain ⟨m', hreach, -⟩ := alone_reach s.mem hp hbad h1
  refine ⟨List.replicate (l.length + (1 + reachSteps cfg (gatesOf cfg (s.loc i)) q)) i, ?_⟩
  rw [run_replicate]
  simp only [Function.update_self]
  rw [Function.iterate_add_apply, Function.iterate_add_apply, hreach, Function.iterate_one,
    alone_enter m' _ rfl hg, alone_asm (q := q) (t := rest) cfg m' _ hl (by simp [hcode])]
  rfl

end LibCheckpoint.Solo
