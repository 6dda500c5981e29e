import LibCheckpoint.Restorer

/-!
`boot.S`: from the first instruction of the image to `gcpt_c_start`.

Every hart checks that the image has been loaded to its end, takes its id from `mhartid`, and sets
its stack pointer. The harts come out of `boot.S` one after the other, so that some of them run the
restorer while others are still in it.
-/

namespace LibCheckpoint.Entry

open LibCheckpoint.Bytes LibCheckpoint.Rv64 LibCheckpoint.Asm LibCheckpoint.Restorer
open LibCheckpoint.Interleave

abbrev ra : Reg := 1
abbrev s0 : Reg := 8

/-- Where the image lies: its first instruction, the one behind the call of
`get_restorer_entry_pc`, `read_complete_flag` and `gcpt_stack`. -/
structure Image where
  placeOfGcptSize : Word
  returnAddress : Word
  readCompleteFlag : Word
  gcptStack : Word

def completeFlag : Word := 0xcaff
def gcptIncomplete : Word := 0x2

/-! ### The code -/

/-- The instructions of `boot.S`: `op` is one that `restore.S` uses too, `auipc` knows its own
address, and `jal` the one behind it. -/
inductive BootInstr
  | op (i : Instr)
  | auipc (rd : Reg) (pc : Word)
  | sub (rd rs rt : Reg)
  | jal (rd : Reg) (next : Word)
  deriving DecidableEq

def BootInstr.exec (E : Env) (a : Arch) : BootInstr → Arch
  | .op i => i.exec E a
  | .auipc rd pc => a.setX rd pc
  | .sub rd rs rt => a.setX rd (a.getX rs - a.getX rt)
  | .jal rd next => a.setX rd next

def bootExecs (E : Env) (code : List BootInstr) (a : Arch) : Arch := code.foldl (BootInstr.exec E) a

@[simp] lemma bootExecs_nil (E : Env) (a : Arch) : bootExecs E [] a = a := rfl
@[simp] lemma bootExecs_cons (E : Env) (i : BootInstr) (code : List BootInstr) (a : Arch) :
    bootExecs E (i :: code) a = bootExecs E code (i.exec E a) := rfl

variable (img : Image)

/-- `boot_check` up to its branch. -/
def bootCheck : List BootInstr :=
  [.op (.li s0 img.readCompleteFlag), .op (.ld t1 0 s0), .op (.li t2 completeFlag)]

/-- `read_incomplete`, up to the trap. -/
def readIncomplete : List BootInstr := [.op (.li a0 gcptIncomplete)]

/-- `get_restorer_entry_pc` up to its return: it lies eight bytes behind the start of the image. -/
def getRestorerEntryPc : List BootInstr :=
  [.auipc t0 (img.placeOfGcptSize + 8), .op (.li t1 0x8), .sub t0 t0 t1]

/-- `_entry` up to its jump to `gcpt_c_start`, with the routine that it calls in line. -/
def entry : List BootInstr :=
  [.op (.csrr a0 mhartidId), .op (.mv t0 a0), .op (.slli t0 t0 12), .op (.li t1 4096),
   .op (.add t0 t0 t1), .op (.li sp img.gcptStack), .op (.add sp sp t0),
   .jal ra img.returnAddress] ++
  getRestorerEntryPc img ++ [.op (.mv a1 t0)]

/-! ### The hart -/

inductive Point
  | bootCheck (code : List BootInstr)
  | readIncomplete (code : List BootInstr)
  | readIncompleteTrap
  | entry (code : List BootInstr)
  deriving DecidableEq

/-- A hart in `boot.S`, or behind it, in a program that goes on from `gcpt_c_start`. -/
inductive EntryHart (τ : Type*)
  | boot (point : Point) (hart : Hart)
  | left (c : τ)

/-- The call of `gcpt_c_start`: its first argument is an `int`. -/
def gcptCStart (c : Hart) : Hart :=
  { c with pc := .gcptCStart, cpuId := (c.arch.getX a0).setWidth 32 }

variable {τ : Type*} (E : Env) (T : Threads Shared τ Act Word) (enter : Hart → τ)

def execHart (c : Hart) (i : BootInstr) : Hart := { c with arch := i.exec E c.arch }

def entryAct : EntryHart τ → Act
  | .boot _ _ => .tau
  | .left c => T.act c

def entryResume (c : EntryHart τ) (r : Word) : EntryHart τ :=
  match c with
  | .boot (.bootCheck (i :: code)) c => .boot (.bootCheck code) (execHart E c i)
  | .boot (.bootCheck []) c =>
    .boot (if c.arch.getX t1 != c.arch.getX t2 then .readIncomplete readIncomplete
      else .entry (entry img)) c
  | .boot (.readIncomplete (i :: code)) c => .boot (.readIncomplete code) (execHart E c i)
  | .boot (.readIncomplete []) c => .boot .readIncompleteTrap c
  | .boot .readIncompleteTrap c => .boot .readIncompleteTrap c
  | .boot (.entry (i :: code)) c => .boot (.entry code) (execHart E c i)
  | .boot (.entry []) c => .left (enter (gcptCStart c))
  | .left c => .left (T.resume c r)

def entryHarts : Threads Shared (EntryHart τ) Act Word where
  act := entryAct T
  perform := T.perform
  resume := entryResume img E T enter

/-- The image has been loaded to its end. -/
def Complete : Prop := ld64 E.ram img.readCompleteFlag = completeFlag

instance : Decidable (Complete img E) := inferInstanceAs (Decidable (_ = _))

variable {M : ℕ}

abbrev EntrySys (M : ℕ) (τ : Type*) := Interleave.St (Fin M) Shared (EntryHart τ)

/-- Every hart is at the first instruction of the image, and the harts are numbered. -/
structure PowerOn (s : EntrySys M τ) (c₀ : Fin M → Hart) : Prop where
  loc : ∀ i, s.loc i = .boot (.bootCheck (bootCheck img)) (c₀ i)
  hartid : ∀ i, (c₀ i).arch.hartid = BitVec.ofNat 64 i

/-! ### What `boot.S` computes -/

def stackPointer (hartid : Word) : Word := img.gcptStack + (hartid <<< 12 + 4096)

/-- A hart at `gcpt_c_start`, of one at the first instruction. -/
def started (c : Hart) : Hart :=
  gcptCStart { c with arch := bootExecs E (bootCheck img ++ entry img) c.arch }

variable {img E T enter} {s : EntrySys M τ} {c₀ : Fin M → Hart} {a : Arch}

lemma bootExecs_append (u l : List BootInstr) (a : Arch) :
    bootExecs E (u ++ l) a = bootExecs E l (bootExecs E u a) := by
  simp [bootExecs, List.foldl_append]

lemma getX_entry_a0 : (bootExecs E (entry img) a).getX a0 = a.hartid := by
  simp [entry, getRestorerEntryPc, BootInstr.exec, Instr.exec, Arch.getX_setX, Arch.readCsr,
    sp, t0, t1, a0, a1, ra]

lemma getX_entry_a1 : (bootExecs E (entry img) a).getX a1 = img.placeOfGcptSize := by
  simp [entry, getRestorerEntryPc, BootInstr.exec, Instr.exec, Arch.getX_setX, Arch.readCsr,
    sp, t0, t1, a0, a1, ra]

lemma getX_entry_sp : (bootExecs E (entry img) a).getX sp = stackPointer img a.hartid := by
  simp [entry, getRestorerEntryPc, BootInstr.exec, Instr.exec, Arch.getX_setX, Arch.readCsr,
    sp, t0, t1, a0, a1, ra, stackPointer]

lemma hartid_bootExecs (code : List BootInstr) (a : Arch) :
    (bootExecs E code a).hartid = a.hartid := by
  induction code generalizing a with
  | nil => rfl
  | cons i code ih =>
    rw [bootExecs_cons, ih]
    cases i with
    | op i => exact exec_hartid E a i
    | auipc | sub | jal => exact Arch.setX_hartid ..

lemma bootCheck_iff : (bootExecs E (bootCheck img) a).getX t1 =
    (bootExecs E (bootCheck img) a).getX t2 ↔ Complete img E := by
  simp [bootCheck, BootInstr.exec, Instr.exec, Arch.getX_setX, ea, s0, t1, t2, Complete]

variable (img E) in
lemma started_args (c : Hart) : (started img E c).cpuId = c.arch.hartid.setWidth 32 ∧
    (started img E c).arch.hartid = c.arch.hartid ∧
    (started img E c).arch.getX a1 = img.placeOfGcptSize ∧
    (started img E c).arch.getX sp = stackPointer img c.arch.hartid := by
  simp only [started, gcptCStart, bootExecs_append, getX_entry_a0, getX_entry_a1, getX_entry_sp,
    hartid_bootExecs, and_self]

/-! ### A complete image -/

variable (img E enter) in
/-- What a hart in `boot.S` is going to be behind it. -/
def ahead : EntryHart τ → τ
  | .boot (.bootCheck code) c =>
    enter (gcptCStart { c with arch := bootExecs E (code ++ entry img) c.arch })
  | .boot (.entry code) c => enter (gcptCStart { c with arch := bootExecs E code c.arch })
  | .boot _ c => enter c
  | .left c => c

variable (E) in
/-- The hart is to pass the check within so many turns, or has passed it. -/
inductive Passing : ℕ → EntryHart τ → Prop
  | check (code : List BootInstr) (c : Hart) (ht : (bootExecs E code c.arch).getX t1 =
      (bootExecs E code c.arch).getX t2) : Passing (code.length + 14) (.boot (.bootCheck code) c)
  | enter (code : List BootInstr) (c : Hart) : Passing (code.length + 1) (.boot (.entry code) c)
  | left (c : τ) : Passing 0 (.left c)

lemma Passing.next {n : ℕ} {c : EntryHart τ} (h : Passing E n c) (r : Word) :
    Passing E (n - 1) (entryResume img E T enter c r) := by
  cases h with
  | check code c ht =>
    cases code with
    | nil =>
      have hsame : c.arch.getX t1 = c.arch.getX t2 := ht
      have hres : entryResume img E T enter (.boot (.bootCheck []) c) r =
          .boot (.entry (entry img)) c := by
        simp [entryResume, hsame]
      rw [hres]
      exact .enter (entry img) c
    | cons i code => exact .check code _ ht
  | enter code c =>
    cases code with
    | nil => exact .left _
    | cons i code => exact .enter code _
  | left c => exact .left _

/-- A turn of a hart in `boot.S` changes nothing behind it; any other is one of the program. -/
lemma Passing.alone (hT : ∀ m, (T.perform .tau m).1 = m) {n : ℕ} {c : EntryHart τ}
    (h : Passing E n c) (m : Shared) :
    ((alone (entryHarts img E T enter) (m, c)).1 = m ∧
      ahead img E enter (alone (entryHarts img E T enter) (m, c)).2 = ahead img E enter c) ∨
    alone T (m, ahead img E enter c) = ((alone (entryHarts img E T enter) (m, c)).1,
      ahead img E enter (alone (entryHarts img E T enter) (m, c)).2) := by
  cases h with
  | check code c ht =>
    refine .inl ⟨hT m, ?_⟩
    cases code with
    | nil =>
      have hsame : c.arch.getX t1 = c.arch.getX t2 := ht
      simp [Interleave.alone, entryHarts, entryResume, ahead, hsame]
    | cons i code => rfl
  | enter code c =>
    refine .inl ⟨hT m, ?_⟩
    cases code with
    | nil => rfl
    | cons i code => rfl
  | left c => exact .inr rfl

lemma Passing.left_of_zero {c : EntryHart τ} (h : Passing E 0 c) : ∃ d, c = .left d := by
  generalize hn : 0 = n at h
  cases h with
  | check code => omega
  | enter code => omega
  | left d => exact ⟨d, rfl⟩

lemma PowerOn.passing (h : PowerOn img s c₀) (hc : Complete img E) (i : Fin M) :
    Passing E 17 (s.loc i) := by
  rw [h.loc i]
  exact .check _ _ (bootCheck_iff.mpr hc)

variable (img E enter) in
/-- The machine as if every hart had come out of `boot.S` already. -/
def startedSys (mem : Shared) (c₀ : Fin M → Hart) : St (Fin M) Shared τ :=
  ⟨mem, fun i => enter (started img E (c₀ i))⟩

/-- A run of the image is, behind `boot.S`, a run of the program. -/
lemma entry_run (hT : ∀ m, (T.perform .tau m).1 = m) (h : PowerOn img s c₀)
    (hc : Complete img E) (w : List (Fin M)) : ∃ v, v.Sublist w ∧
      (run (entryHarts img E T enter) s w).map (ahead img E enter) =
        run T (startedSys img E enter s.mem c₀) v := by
  have hs : s.map (ahead img E enter) = startedSys img E enter s.mem c₀ := by
    refine congrArg (St.mk s.mem) (funext fun i => ?_)
    rw [h.loc i]
    rfl
  rw [← hs]
  refine run_map (entryHarts img E T enter) (P := fun c => ∃ n, Passing E n c) ?_ ?_
    (fun i => ⟨17, h.passing hc i⟩) w
  · rintro m c ⟨n, hn⟩
    exact ⟨n - 1, hn.next _⟩
  · rintro m c ⟨n, hn⟩
    exact hn.alone hT m

/-- **`boot.S` refines reset**: whatever the order in which the harts come out of `boot.S`, a run
from the first instruction of a complete image is, behind `boot.S`, a run of harts that have started
together, each with its id, the address of the image and a stack; and a hart that has had 17 turns
has come out. -/
theorem entry_refines (hT : ∀ m, (T.perform .tau m).1 = m) (h : PowerOn img s c₀)
    (hc : Complete img E) (w : List (Fin M)) :
    (∃ v, v.Sublist w ∧ (run (entryHarts img E T enter) s w).map (ahead img E enter) =
      run T (startedSys img E enter s.mem c₀) v) ∧
    (∀ i, (started img E (c₀ i)).cpuId = BitVec.ofNat 32 i ∧
      (started img E (c₀ i)).arch.getX a1 = img.placeOfGcptSize ∧
      (started img E (c₀ i)).arch.getX sp = stackPointer img (BitVec.ofNat 64 i)) ∧
    ∀ i, 17 ≤ w.count i → ∃ c, (run (entryHarts img E T enter) s w).loc i = .left c := by
  refine ⟨entry_run hT h hc w, fun i => ?_, fun i hi => ?_⟩
  · obtain ⟨hcpu, -, ha1, hsp⟩ := started_args img E (c₀ i)
    rw [h.hartid i] at hcpu hsp
    exact ⟨hcpu.trans (BitVec.setWidth_ofNat_of_le (by decide) _), ha1, hsp⟩
  · have hpass : Passing E (17 - w.count i) ((run (entryHarts img E T enter) s w).loc i) :=
      run_countdown (entryHarts img E T enter) (fun _ _ r hn => hn.next r) (h.passing hc i) w
    rw [Nat.sub_eq_zero_of_le hi] at hpass
    exact hpass.left_of_zero

/-- An image at the start of the memory, loaded up to its flag. -/
def smallImage : Image where
  placeOfGcptSize := 0x80000000
  returnAddress := 0x80000054
  readCompleteFlag := 0x800C0000
  gcptStack := 0x80010000

def smallEntry : EntrySys 2 Hart where
  mem := (smallSys 2 .gcptCStart 0).mem
  loc i := .boot (.bootCheck (bootCheck smallImage)) ((smallSys 2 .gcptCStart 0).loc i)

lemma smallEntry_powerOn : PowerOn smallImage smallEntry (smallSys 2 .gcptCStart 0).loc :=
  ⟨fun _ => rfl, fun _ => rfl⟩

/-- The checkpoint of two harts, behind an image that is complete. -/
def loadedRam (a : Word) : Byte :=
  if a = 0x800C0000 then 0xff else if a = 0x800C0001 then 0xca else countRam 2 a

/-- Hart `0` comes out of `boot.S` and clears while hart `1` is at its first instruction. -/
theorem entry_refines_small : ∃ v, v.Sublist (List.replicate 40 0 ++ [1]) ∧
    (run (entryHarts smallImage (smallCfg loadedRam).env (harts (smallCfg loadedRam)) id) smallEntry
      (List.replicate 40 0 ++ [1])).map (ahead smallImage (smallCfg loadedRam).env id) =
    run (harts (smallCfg loadedRam))
      (startedSys smallImage (smallCfg loadedRam).env id smallEntry.mem
        (smallSys 2 .gcptCStart 0).loc) v :=
  (entry_refines (fun _ => rfl) smallEntry_powerOn (by decide) _).1

/-! ### An incomplete image -/

variable (E) in
/-- The hart is to fail the check, and to be in the trap after so many turns. -/
inductive Failing : ℕ → EntryHart τ → Prop
  | check (code : List BootInstr) (c : Hart) (ht : (bootExecs E code c.arch).getX t1 ≠
      (bootExecs E code c.arch).getX t2) : Failing (code.length + 3) (.boot (.bootCheck code) c)
  | signal (code : List BootInstr) (c : Hart)
      (ha : (bootExecs E code c.arch).getX a0 = gcptIncomplete) :
      Failing (code.length + 1) (.boot (.readIncomplete code) c)
  | trap (c : Hart) (ha : c.arch.getX a0 = gcptIncomplete) :
      Failing 0 (.boot .readIncompleteTrap c)

lemma Failing.next {n : ℕ} {c : EntryHart τ} (h : Failing E n c) (r : Word) :
    Failing E (n - 1) (entryResume img E T enter c r) := by
  cases h with
  | check code c ht =>
    cases code with
    | nil =>
      have hne : c.arch.getX t1 ≠ c.arch.getX t2 := ht
      have hres : entryResume img E T enter (.boot (.bootCheck []) c) r =
          .boot (.readIncomplete readIncomplete) c := by
        simp [entryResume, hne]
      rw [hres]
      refine .signal readIncomplete c ?_
      simp [readIncomplete, BootInstr.exec, Instr.exec, Arch.getX_setX, a0]
    | cons i code => exact .check code _ ht
  | signal code c ha =>
    cases code with
    | nil => exact .trap c ha
    | cons i code => exact .signal code _ ha
  | trap c ha => exact .trap c ha

lemma Failing.trap_of_zero {c : EntryHart τ} (h : Failing E 0 c) :
    ∃ d, c = .boot .readIncompleteTrap d ∧ d.arch.getX a0 = gcptIncomplete := by
  generalize hn : 0 = n at h
  cases h with
  | check code => omega
  | signal code => omega
  | trap d ha => exact ⟨d, rfl, ha⟩

lemma PowerOn.failing (h : PowerOn img s c₀) (hc : ¬ Complete img E) (i : Fin M) :
    Failing E 6 (s.loc i) := by
  rw [h.loc i]
  exact .check _ _ (bootCheck_iff.not.mpr hc)

variable (T enter) in
lemma failing_run (h : PowerOn img s c₀) (hc : ¬ Complete img E) (w : List (Fin M)) (i : Fin M) :
    Failing E (6 - w.count i) ((run (entryHarts img E T enter) s w).loc i) :=
  run_countdown (entryHarts img E T enter) (fun _ _ r hn => hn.next r) (h.failing hc i) w

lemma Failing.not_left {n : ℕ} {c : τ} (h : Failing E n (.left c)) : False := by
  cases h

/-- **An incomplete image does nothing**: in every run no hart leaves `boot.S`, no byte of memory is
written, and every hart that has had six turns has given the signal. -/
theorem incomplete_run (hT : ∀ m, (T.perform .tau m).1 = m) (h : PowerOn img s c₀)
    (hc : ¬ Complete img E) (w : List (Fin M)) :
    (run (entryHarts img E T enter) s w).mem = s.mem ∧
    (∀ i c, (run (entryHarts img E T enter) s w).loc i ≠ .left c) ∧
    ∀ i, 6 ≤ w.count i → ∃ c, (run (entryHarts img E T enter) s w).loc i =
      .boot .readIncompleteTrap c ∧ c.arch.getX a0 = gcptIncomplete := by
  refine ⟨?_, fun i c hi => (hi ▸ failing_run T enter h hc w i).not_left, fun i hi => ?_⟩
  · induction w using List.reverseRecOn with
    | nil => rfl
    | append_singleton w i ih =>
      have hi := failing_run T enter h hc w i
      rw [run_concat, ← ih]
      generalize run (entryHarts img E T enter) s w = t at hi ⊢
      simp only [Interleave.next, entryHarts]
      generalize t.loc i = c at hi
      generalize 6 - w.count i = n at hi
      cases hi with
      | check | signal | trap => exact hT t.mem
  · have hfail := failing_run T enter h hc w i
    rw [Nat.sub_eq_zero_of_le hi] at hfail
    exact hfail.trap_of_zero

theorem incomplete_run_small : ∃ c : Hart,
    (run (entryHarts smallImage (smallCfg (countRam 2)).env (harts (smallCfg (countRam 2))) id)
      smallEntry (List.replicate 6 1)).loc 1 = .boot .readIncompleteTrap c ∧
    c.arch.getX a0 = gcptIncomplete :=
  (incomplete_run (fun _ => rfl) smallEntry_powerOn (by decide) _).2.2 1 (by decide)

/-! ### The stacks -/

/-- The page below the stack pointer. -/
def stack (a : Arch) : Set Word := region (a.getX sp - (4096 : Word)) 4096

/-- Seen from `gcpt_stack`, the pages are numbered as the harts are. -/
lemma mem_stack_iff {x : Word} : x ∈ stack (bootExecs E (entry img) a) ↔
    (x - img.gcptStack).toNat / 4096 = a.hartid.toNat % 2 ^ 52 := by
  have hd : x - (stackPointer img a.hartid - (4096 : Word)) =
      x - img.gcptStack - a.hartid <<< 12 := by
    rw [stackPointer, ← BitVec.add_assoc, BitVec.add_sub_cancel, sub_add_eq_sub_sub]
  rw [stack, getX_entry_sp, mem_region_iff (by decide), hd, BitVec.toNat_sub,
    BitVec.toNat_shiftLeft, Nat.shiftLeft_eq]
  have hx := (x - img.gcptStack).isLt
  omega

variable (img) in
lemma base_mem_stack (E : Env) (a : Arch) :
    img.gcptStack + a.hartid <<< 12 ∈ stack (bootExecs E (entry img) a) := by
  refine ⟨0, by decide, ?_⟩
  rw [getX_entry_sp, stackPointer, ← BitVec.add_assoc, BitVec.add_sub_cancel]
  exact (BitVec.add_zero _).symm

/-- **The stacks of two harts**: they share no byte if and only if the ids of the harts differ in
their lower 52 bits. -/
theorem stacks_disjoint_iff (E : Env) (a b : Arch) :
    stack (bootExecs E (entry img) a) ∩ stack (bootExecs E (entry img) b) = ∅ ↔
      a.hartid.toNat % 2 ^ 52 ≠ b.hartid.toNat % 2 ^ 52 := by
  rw [Set.eq_empty_iff_forall_notMem]
  constructor
  · intro h heq
    have hbase := mem_stack_iff.mp (base_mem_stack img E a)
    exact h _ ⟨base_mem_stack img E a, mem_stack_iff.mpr (hbase.trans heq)⟩
  · rintro hne x ⟨hx, hy⟩
    exact hne ((mem_stack_iff.mp hx).symm.trans (mem_stack_iff.mp hy))

/-- **The stack of a hart** lies in the space of `gcpt_stack` if and only if the id of the hart is,
in its lower 52 bits, less than 128. -/
theorem stack_subset_iff (E : Env) (a : Arch) :
    stack (bootExecs E (entry img) a) ⊆ region img.gcptStack (4096 * 128) ↔
      a.hartid.toNat % 2 ^ 52 < 128 := by
  have hspace (x : Word) : x ∈ region img.gcptStack (4096 * 128) ↔
      (x - img.gcptStack).toNat / 4096 < 128 := by
    rw [mem_region_iff (by decide), Nat.div_lt_iff_lt_mul (by decide), Nat.mul_comm]
  constructor
  · intro h
    have hbase := mem_stack_iff.mp (base_mem_stack img E a)
    rw [← hbase]
    exact (hspace _).mp (h (base_mem_stack img E a))
  · intro h x hx
    rw [hspace, mem_stack_iff.mp hx]
    exact h

end LibCheckpoint.Entry
