import LibCheckpoint.Conversions
import LibCheckpoint.Delimited
import LibCheckpoint.Layout
import Mathlib.Data.List.TakeWhile

/-!
`display_checkpoint_registers`: what a build with `DISPLAY` prints of the checkpoint of a hart
before it restores it.
-/

namespace LibCheckpoint.Display

open LibCheckpoint.Bytes LibCheckpoint.Numeral LibCheckpoint.Ntoa LibCheckpoint.Field
open LibCheckpoint.Printf LibCheckpoint.Format LibCheckpoint.Vsnprintf LibCheckpoint.Conversions
open LibCheckpoint.Layout
open LibCheckpoint.Delimited (lines)

/-! ### The functions of the source -/

def cstr (s : String) : List Byte := s.toList.map chr

abbrev PrintfCall := List Byte × List Word

def printf (format : String) (va : List Word) : PrintfCall := (cstr format ++ [0], va)

/-- Calls of `printf`, one after the other, on what the serial port has been sent. -/
def printAll (E : Printf.Env) (calls : List PrintfCall) (console : List Byte) :
    Option (List Byte) :=
  calls.foldlM (fun console c => (printf_ E c.1 c.2 console).map Prod.snd) console

/-- `csr_id2name_t`; `none` is the null pointer -/
structure CsrId2name where
  id : ℕ
  name : Option String
  deriving DecidableEq

/-- The elements of `regs` that have an initializer, with their indices. -/
def regsInit : List (ℕ × CsrId2name) :=
  [(0x100, ⟨0x100, some "sstatus"⟩), (0x105, ⟨0x105, some "stvec"⟩),
    (0x106, ⟨0x106, some "scounteren"⟩), (0x140, ⟨0x140, some "sscratch"⟩),
    (0x141, ⟨0x141, some "sepc"⟩), (0x142, ⟨0x142, some "scause"⟩),
    (0x14d, ⟨0x14d, some "stimecmp"⟩), (0x180, ⟨0x180, some "satp"⟩),
    (0x1c0, ⟨0x1c0, some "smte"⟩), (0x200, ⟨0x200, some "vsstatus"⟩),
    (0x300, ⟨0x300, some "mstatus"⟩), (0x301, ⟨0x301, some "misa"⟩),
    (0x302, ⟨0x302, some "medeleg"⟩), (0x303, ⟨0x303, some "mideleg"⟩),
    (0x304, ⟨0x304, some "mie"⟩), (0x305, ⟨0x305, some "mtvec"⟩),
    (0x306, ⟨0x306, some "mcounteren"⟩), (0x30a, ⟨0x30a, some "menvcfg"⟩),
    (0x310, ⟨0x310, some "mstatush"⟩), (0x31a, ⟨0x31a, some "menvcfgh"⟩),
    (0x320, ⟨0x320, some "mcountinhibit"⟩), (0x323, ⟨0x323, some "mhpmevent3"⟩),
    (0x324, ⟨0x324, some "mhpmevent4"⟩), (0x325, ⟨0x325, some "mhpmevent5"⟩),
    (0x326, ⟨0x326, some "mhpmevent6"⟩), (0x327, ⟨0x327, some "mhpmevent7"⟩),
    (0x328, ⟨0x328, some "mhpmevent8"⟩), (0x329, ⟨0x329, some "mhpmevent9"⟩),
    (0x32a, ⟨0x32a, some "mhpmevent10"⟩), (0x32b, ⟨0x32b, some "mhpmevent11"⟩),
    (0x32c, ⟨0x32c, some "mhpmevent12"⟩), (0x32d, ⟨0x32d, some "mhpmevent13"⟩),
    (0x32e, ⟨0x32e, some "mhpmevent14"⟩), (0x32f, ⟨0x32f, some "mhpmevent15"⟩),
    (0x330, ⟨0x330, some "mhpmevent16"⟩), (0x331, ⟨0x331, some "mhpmevent17"⟩),
    (0x332, ⟨0x332, some "mhpmevent18"⟩), (0x340, ⟨0x340, some "mscratch"⟩),
    (0x341, ⟨0x341, some "mepc"⟩), (0x342, ⟨0x342, some "mcause"⟩), (0x344, ⟨0x344, some "mip"⟩),
    (0x3a0, ⟨0x3a0, some "pmpcfg0"⟩), (0x3b0, ⟨0x3b0, some "pmpaddr0"⟩),
    (0x3b1, ⟨0x3b1, some "pmpaddr1"⟩), (0x3b2, ⟨0x3b2, some "pmpaddr2"⟩),
    (0x3b3, ⟨0x3b3, some "pmpaddr3"⟩), (0x3c0, ⟨0x3c0, some "mmte"⟩),
    (0x600, ⟨0x600, some "hstatus"⟩), (0x60a, ⟨0x60a, some "henvcfg"⟩),
    (0x61a, ⟨0x61a, some "henvcfgh"⟩), (0x646, ⟨0x646, some "hviprio1"⟩),
    (0x647, ⟨0x647, some "hviprio2"⟩), (0x7a1, ⟨0x7a1, some "tdata1"⟩),
    (0x7a4, ⟨0x7a4, some "tinfo"⟩), (0xb00, ⟨0xb00, some "mcycle"⟩),
    (0xb02, ⟨0xb02, some "minstret"⟩), (0xb03, ⟨0xb03, some "mhpmcounter3"⟩),
    (0xb80, ⟨0xb80, some "mcycleh"⟩), (0xb82, ⟨0xb82, some "minstreth"⟩),
    (0xc00, ⟨0xc00, some "cycle"⟩), (0xc01, ⟨0xc01, some "time"⟩),
    (0xc02, ⟨0xc02, some "instret"⟩), (0xc03, ⟨0xc03, some "hpmcounter3"⟩),
    (0xc22, ⟨0xc22, some "vlenb"⟩), (0xc80, ⟨0xc80, some "cycleh"⟩),
    (0xc82, ⟨0xc82, some "instreth"⟩), (0xda0, ⟨0xda0, some "scountovf"⟩),
    (0xdb0, ⟨0xdb0, some "stopi"⟩)]

/-- `regs`; the other elements are zero -/
def regs (i : ℕ) : CsrId2name := (regsInit.lookup i).getD ⟨0, none⟩

/-- Where the names of `regs` are. -/
structure Names (E : Printf.Env) where
  name : ℕ → Word
  null : ∀ i, (regs i).name = none → name i = 0
  str : ∀ i s, (regs i).name = some s → ∃ junk, E.str (name i) = cstr s ++ 0 :: junk

/-- `for (int i = startIdx; i < idxMax; i++)` -/
def loop (startIdx idxMax : ℕ) (body : ℕ → List PrintfCall) : List PrintfCall :=
  (List.range' startIdx (idxMax - startIdx)).flatMap body

def displayRegs (startIdx idxMax wrapWidth : ℕ) (format : String) (va : ℕ → List Word) :
    List PrintfCall :=
  loop startIdx idxMax fun i =>
    printf format (va i) :: if (i + 1) % wrapWidth = 0 then [printf "\n" []] else []

section Calls

variable (name : ℕ → Word) (ram : Word → Byte)

/-- `*(uint64_t *)(buffer_offset + i * 8)` -/
def word (bufferOffset : Word) (i : ℕ) : Word := ld64 ram (bufferOffset + BitVec.ofNat 64 (i * 8))

/-- The loop over the vector registers, two words in a line. -/
def displayVector (bufferOffset : Word) : List PrintfCall :=
  loop 0 (32 * 2) fun i =>
    if (i + 1) % 2 = 0 then
      [printf "[%lx]: 0x%016lx_%016lx\n" [bufferOffset + BitVec.ofNat 64 ((i - 1) * 8),
        word ram bufferOffset (i - 1), word ram bufferOffset i]]
    else []

/-- The loop over the CSRs, those that are not zero. -/
def displayCsrs (bufferOffset : Word) : List PrintfCall :=
  loop 0 4096 fun i =>
    let val := word ram bufferOffset i
    if val ≠ 0 then
      if (regs i).id = i then
        [printf "csr id %x name: %s value %lx\n" [BitVec.ofNat 64 i, name i, val]]
      else [printf "csr id %x value %lx\n" [BitVec.ofNat 64 i, val]]
    else []

def displayCheckpointRegisters (m : Memlayout) : List PrintfCall :=
  printf "Int Register display: \n" [] ::
  displayRegs 0 32 4 "gpr %04d value %016lx "
    (fun i => [BitVec.ofNat 64 i, word ram m.intRegCptAddr i]) ++
  printf "Float Register display: \n" [] ::
  displayRegs 0 32 4 "fpr %04d value %016lx "
    (fun i => [BitVec.ofNat 64 i, word ram m.floatRegCptAddr i]) ++
  printf "Vector Register display: \n" [] :: displayVector ram m.vectorRegCptAddr ++
  printf "Csr registers display\n" [] :: displayCsrs name ram m.csrRegCptAddr ++
  [printf "mtime_cmp registers memory: %lx %lx\n" [ld64 ram m.mtimeCmpCptAddr, m.mtimeCmpCptAddr],
    printf "mtime registers memory: %lx %lx\n" [ld64 ram m.mtimeCptAddr, m.mtimeCptAddr]]

end Calls

/-! ### The texts of the formats -/

section Texts

/-- Characters that are printed as they are. -/
def Literal (cs : List Byte) : Prop := ∀ c ∈ cs, c ≠ 0 ∧ c ≠ chr '%'

@[simp] lemma literal_cstr (s : String) :
    Literal (cstr s) ↔ ∀ c ∈ s.toList, chr c ≠ 0 ∧ chr c ≠ chr '%' := by
  simp [Literal, cstr]

lemma Literal.zero_not_mem {cs : List Byte} (h : Literal cs) : 0 ∉ cs := fun h0 => (h 0 h0).1 rfl

variable {E : Printf.Env} {fmt rest cs : List Byte} {va : List Word}

lemma text_literal (h : Literal cs) :
    text E (cs ++ fmt) va = (text E fmt va).map (cs ++ ·) := by
  induction cs with
  | nil => simp
  | cons c cs ih =>
    obtain ⟨⟨h0, hc⟩, hcs⟩ := List.forall_mem_cons.mp h
    rw [List.cons_append, text_lit h0 hc, ih hcs, Option.map_map]
    rfl

lemma text_field {d : Directive} {c : Byte} {w : Word} (h : Literal cs)
    (hconv : conversion fmt (w :: va) = some (.conv d c w, rest, va)) :
    text E (cs ++ chr '%' :: fmt) (w :: va) =
      (convText E d c w).bind fun ds => (text E rest va).map fun es => cs ++ (ds ++ es) := by
  rw [text_literal h, text_conv hconv]
  cases hd : convText E d c w with
  | none => simp [itemText, hd]
  | some ds => simp [itemText, hd, Function.comp_def]

/-- The digits of a word in base 16 behind the zeros that fill a width. -/
def hexShown (width : ℕ) (w : Word) : List ℕ :=
  (lowDigits 16 ntoaBufferSize w.toNat ++
    List.replicate (width - (lowDigits 16 ntoaBufferSize w.toNat).length) 0).reverse

def hexText (width : ℕ) (w : Word) : List Byte := (hexShown width w).map (digitChar false)

lemma mem_hexShown_lt {width : ℕ} {w : Word} {d : ℕ} (h : d ∈ hexShown width w) : d < 16 := by
  unfold hexShown at h
  rw [List.mem_reverse, List.mem_append, List.mem_replicate] at h
  rcases h with h | ⟨-, rfl⟩
  · exact lt_of_mem_lowDigits (by decide) h
  · decide

lemma hexVal_lt {width : ℕ} {w : Word} {c : Byte} (h : c ∈ hexText width w) : hexVal c < 16 := by
  obtain ⟨d, hd, rfl⟩ := List.mem_map.mp h
  rw [hexVal_digitChar false d (mem_hexShown_lt hd)]
  exact mem_hexShown_lt hd

lemma not_mem_hexText {width : ℕ} {w : Word} {c : Byte} (h : hexVal c = 16) :
    c ∉ hexText width w := fun hmem => by
  have := hexVal_lt hmem
  omega

lemma hexText_inj {width : ℕ} {w w' : Word} (h : hexText width w = hexText width w') :
    w = w' := by
  have hval (w : Word) : (hexText width w).map hexVal = hexShown width w := by
    have hid : ∀ d ∈ hexShown width w, (hexVal ∘ digitChar false) d = id d := fun d hd =>
      hexVal_digitChar false d (mem_hexShown_lt hd)
    rw [hexText, List.map_map, List.map_congr_left hid, List.map_id]
  have hword (w : Word) : value 16 (hexShown width w) = w.toNat := by
    rw [hexShown, value_reverse, Nat.ofDigits_append_replicate_zero, ofDigits_lowDigits (by decide),
      Nat.mod_eq_of_lt (lt_pow_ntoaBufferSize w (by decide))]
  have hshown : hexShown width w = hexShown width w' := by rw [← hval, h, hval]
  exact BitVec.eq_of_toNat_eq (by rw [← hword w, hshown, hword])

lemma length_hexText (w : Word) : (hexText 16 w).length = 16 := by
  have hlog : Nat.log 16 w.toNat < 16 :=
    Nat.log_lt_of_lt_pow' (by decide) (w.isLt.trans_eq (by norm_num))
  have hlen := length_lowDigits (b := 16) (by decide) ntoaBufferSize w.toNat
  have hle : (lowDigits 16 ntoaBufferSize w.toNat).length ≤ 16 := by omega
  simp only [hexText, hexShown, List.length_map, List.length_reverse, List.length_append,
    List.length_replicate]
  omega

lemma convText_hex {flags : Flags} {width : ℕ} (hbare : Bare (integerFlags (chr 'x') flags) width)
    (hprecision : flags.precision = false) (huppercase : flags.uppercase = false)
    (hwidth : width ≤ ntoaBufferSize) (w : Word) : convText E ⟨flags, width, 0⟩ (chr 'x') w =
      some (hexText width (integerArg flags (chr 'x') w).1) := by
  set f := integerFlags (chr 'x') flags with hf
  have hupper : f.uppercase = false := by
    have hx : (chr 'x' == chr 'X') = false := by decide
    rw [hf, integerFlags, huppercase, hx]
    rfl
  -- The zeros that fill the width are those of the zero flag, or there is no width.
  have hshown (v : Word) : shown v false 16 0 width f = hexShown width v := by
    have hdigits : digitsOf v 16 f = lowDigits 16 ntoaBufferSize v.toNat := by
      simp [digitsOf, hf, integerFlags, hprecision]
    have hpad : padWidth false width f = width := by simp [padWidth, hbare.plus, hbare.space]
    have hbody : body v false 16 0 width f - (lowDigits 16 ntoaBufferSize v.toNat).length =
        width - (lowDigits 16 ntoaBufferSize v.toNat).length := by
      unfold body bodyLen
      rw [hpad, hdigits, hbare.left]
      rcases hbare.filled with hzero | rfl
      · simp only [hzero, if_true, Bool.false_eq_true, if_false]
        omega
      · simp
    rw [shown, padded, hexShown, hdigits, hbody]
  have hneg : (integerArg flags (chr 'x') w).2 = false := by
    have hsigned : isSigned (chr 'x') = false := by decide
    unfold integerArg
    simp only [hsigned, Bool.false_eq_true, if_false]
    split_ifs <;> rfl
  have htext := ntoaText_bare (integerArg flags (chr 'x') w).1 16 0 hbare
  rw [hshown, hupper] at htext
  have hconv : convText E ⟨flags, width, 0⟩ (chr 'x') w =
      some (ntoaText (integerArg flags (chr 'x') w).1 (integerArg flags (chr 'x') w).2 16 0 width
        f) := rfl
  rw [hconv, hneg, htext]
  rfl

lemma integerArg_int {i : ℕ} (hi : i < 2 ^ 32) :
    (integerArg {} (chr 'x') (BitVec.ofNat 64 i)).1 = BitVec.ofNat 64 i := by
  have hsigned : isSigned (chr 'x') = false := by decide
  apply BitVec.eq_of_toNat_eq
  simp [integerArg, unsignedInt, hsigned]
  omega

def decText (i : ℕ) : List Byte :=
  integerText ⟨{ zeropad := true }, 4, 0⟩ (chr 'd') (BitVec.ofNat 64 i)

lemma convText_name (w : Word) : convText E ⟨{}, 0, 0⟩ (chr 's') w =
    if 0 ∈ E.str w then some ((E.str w).takeWhile (· ≠ 0)) else none := by
  have hread : Readable ⟨{}, 0, 0⟩ (E.str w) ↔ 0 ∈ E.str w := by simp [Readable]
  rw [convText_string]
  simp only [hread]
  simp [stringText, stringChars, pad]

lemma text_end (h : Literal cs) : text E (cs ++ [0]) va = some cs := by
  rw [text_literal h, text_stop]
  simp

lemma text_hex (h : Literal cs) (w : Word) :
    text E (cs ++ chr '%' :: (cstr "lx" ++ fmt)) (w :: va) =
      (text E fmt va).map fun es => cs ++ (hexText 0 w ++ es) := by
  have hconv : conversion (cstr "lx" ++ fmt) (w :: va) =
      some (.conv ⟨{ long := true }, 0, 0⟩ (chr 'x') w, fmt, va) := rfl
  rw [text_field h hconv, convText_hex ⟨rfl, rfl, rfl, rfl, .inr rfl⟩ rfl rfl (by decide)]
  rfl

lemma text_hex16 (h : Literal cs) (w : Word) :
    text E (cs ++ chr '%' :: (cstr "016lx" ++ fmt)) (w :: va) =
      (text E fmt va).map fun es => cs ++ (hexText 16 w ++ es) := by
  have hconv : conversion (cstr "016lx" ++ fmt) (w :: va) =
      some (.conv ⟨{ zeropad := true, long := true }, 16, 0⟩ (chr 'x') w, fmt, va) := rfl
  rw [text_field h hconv, convText_hex ⟨rfl, rfl, rfl, rfl, .inl rfl⟩ rfl rfl (by decide)]
  rfl

lemma text_hexInt (h : Literal cs) {i : ℕ} (hi : i < 2 ^ 32) :
    text E (cs ++ chr '%' :: (cstr "x" ++ fmt)) (BitVec.ofNat 64 i :: va) =
      (text E fmt va).map fun es => cs ++ (hexText 0 (BitVec.ofNat 64 i) ++ es) := by
  have hconv : conversion (cstr "x" ++ fmt) (BitVec.ofNat 64 i :: va) =
      some (.conv ⟨{}, 0, 0⟩ (chr 'x') (BitVec.ofNat 64 i), fmt, va) := rfl
  rw [text_field h hconv, convText_hex ⟨rfl, rfl, rfl, rfl, .inr rfl⟩ rfl rfl (by decide),
    integerArg_int hi]
  rfl

lemma text_dec (h : Literal cs) (i : ℕ) :
    text E (cs ++ chr '%' :: (cstr "04d" ++ fmt)) (BitVec.ofNat 64 i :: va) =
      (text E fmt va).map fun es => cs ++ (decText i ++ es) := by
  have hconv : conversion (cstr "04d" ++ fmt) (BitVec.ofNat 64 i :: va) =
      some (.conv ⟨{ zeropad := true }, 4, 0⟩ (chr 'd') (BitVec.ofNat 64 i), fmt, va) := rfl
  rw [text_field h hconv]
  rfl

lemma text_name (h : Literal cs) (w : Word) :
    text E (cs ++ chr '%' :: (cstr "s" ++ fmt)) (w :: va) =
      if 0 ∈ E.str w then
        (text E fmt va).map fun es => cs ++ ((E.str w).takeWhile (· ≠ 0) ++ es)
      else none := by
  have hconv : conversion (cstr "s" ++ fmt) (w :: va) =
      some (.conv ⟨{}, 0, 0⟩ (chr 's') w, fmt, va) := rfl
  rw [text_field h hconv, convText_name]
  split_ifs <;> rfl

end Texts

/-! ### The lines -/

section Lines

variable (E : Printf.Env)

/-- Calls that send a text, whatever has been sent before. -/
def Sends (calls : List PrintfCall) (cs : List Byte) : Prop :=
  ∀ console, printAll E calls console = some (console ++ cs)

variable {E} {calls calls' : List PrintfCall} {cs cs' : List Byte}

lemma printAll_append (calls calls' : List PrintfCall) (console : List Byte) :
    printAll E (calls ++ calls') console = (printAll E calls console).bind (printAll E calls') :=
  List.foldlM_append ..

lemma Sends.printAll_append (h : Sends E calls cs) (calls' : List PrintfCall)
    (console : List Byte) :
    printAll E (calls ++ calls') console = printAll E calls' (console ++ cs) := by
  rw [Display.printAll_append, h, Option.bind_some]

lemma sends_nil : Sends E [] [] := fun console => by simp [printAll]

lemma Sends.append (h : Sends E calls cs) (h' : Sends E calls' cs') :
    Sends E (calls ++ calls') (cs ++ cs') := fun console => by
  rw [h.printAll_append, h', List.append_assoc]

lemma sends_if {p : Prop} [Decidable p] (h : p → Sends E calls cs) :
    Sends E (if p then calls else []) (if p then cs else []) := by
  split_ifs with hp
  · exact h hp
  · exact sends_nil

lemma sends_printf {format : String} {va : List Word} (h : text E (cstr format ++ [0]) va = some cs)
    (h0 : 0 ∉ cs) : Sends E [printf format va] cs := fun console => by
  have hfilter : cs.filter (fun c => c ≠ 0) = cs :=
    List.filter_eq_self.mpr fun c hc => decide_eq_true fun heq => h0 (heq ▸ hc)
  unfold printAll printf
  rw [List.foldlM_cons, printf_eq, h, Option.map_some, hfilter]
  rfl

lemma sends_loop {startIdx idxMax : ℕ} {body : ℕ → List PrintfCall} {f : ℕ → List Byte}
    (h : ∀ i, startIdx ≤ i → i < idxMax → Sends E (body i) (f i)) :
    Sends E (loop startIdx idxMax body)
      ((List.range' startIdx (idxMax - startIdx)).flatMap f) := by
  have hmem : ∀ i ∈ List.range' startIdx (idxMax - startIdx), Sends E (body i) (f i) := by
    intro i hi
    rw [List.mem_range'_1] at hi
    exact h i hi.1 (by omega)
  unfold loop
  generalize List.range' startIdx (idxMax - startIdx) = l at hmem ⊢
  induction l with
  | nil => exact sends_nil
  | cons i l ih =>
    rw [List.flatMap_cons, List.flatMap_cons]
    exact (hmem i List.mem_cons_self).append (ih fun j hj => hmem j (List.mem_cons_of_mem _ hj))

lemma sends_literal (format : String) (h : Literal (cstr format)) :
    Sends E [printf format []] (cstr format) :=
  sends_printf (text_end h) h.zero_not_mem

def regText (label : String) (i : ℕ) (w : Word) : List Byte :=
  cstr label ++ (decText i ++ (cstr " value " ++ (hexText 16 w ++ cstr " ")))

lemma sends_reg {format label : String}
    (hformat : cstr format = cstr label ++ chr '%' :: cstr "04d value %016lx ")
    (hlabel : Literal (cstr label)) (i : ℕ) (w : Word) :
    Sends E [printf format [BitVec.ofNat 64 i, w]] (regText label i w) := by
  refine sends_printf ?_ ?_
  · have hsplit : cstr format ++ [0] = cstr label ++ chr '%' :: (cstr "04d" ++
        (cstr " value " ++ chr '%' :: (cstr "016lx" ++ (cstr " " ++ [0])))) := by
      rw [hformat, List.append_assoc]
      rfl
    rw [hsplit, text_dec hlabel, text_hex16 (by simp [chr]), text_end (by simp [chr])]
    rfl
  · unfold regText
    simp only [List.mem_append, not_or]
    refine ⟨hlabel.zero_not_mem, ?_, by decide, not_mem_hexText (by decide), by decide⟩
    exact zero_not_mem_ntoaText (by decide) (by decide) _ _ _ _ rfl

/-- The registers, with a line break behind every fourth. -/
def regsText (label : String) (f : ℕ → Word) : List Byte :=
  (List.range' 0 32).flatMap fun i =>
    regText label i (f i) ++ if (i + 1) % 4 = 0 then cstr "\n" else []

lemma sends_regs (format label : String)
    (hformat : cstr format = cstr label ++ chr '%' :: cstr "04d value %016lx ")
    (hlabel : Literal (cstr label)) (f : ℕ → Word) :
    Sends E (displayRegs 0 32 4 format fun i => [BitVec.ofNat 64 i, f i]) (regsText label f) :=
  sends_loop fun i _ _ => (sends_reg hformat hlabel i (f i)).append
    (sends_if fun _ => sends_literal _ (by simp [chr]))

def vectorLine (a w w' : Word) : List Byte :=
  cstr "[" ++ (hexText 0 a ++ (cstr "]: 0x" ++
    (hexText 16 w ++ (cstr "_" ++ (hexText 16 w' ++ cstr "\n")))))

lemma sends_vectorLine (a w w' : Word) :
    Sends E [printf "[%lx]: 0x%016lx_%016lx\n" [a, w, w']] (vectorLine a w w') := by
  refine sends_printf ?_ ?_
  · have hsplit : cstr "[%lx]: 0x%016lx_%016lx\n" ++ [0] = cstr "[" ++ chr '%' :: (cstr "lx" ++
        (cstr "]: 0x" ++ chr '%' :: (cstr "016lx" ++
          (cstr "_" ++ chr '%' :: (cstr "016lx" ++ (cstr "\n" ++ [0])))))) := by simp [cstr]
    rw [hsplit, text_hex (by simp [chr]), text_hex16 (by simp [chr]), text_hex16 (by simp [chr]),
      text_end (by simp [chr])]
    rfl
  · unfold vectorLine
    simp only [List.mem_append, not_or]
    exact ⟨by decide, not_mem_hexText (by decide), by decide, not_mem_hexText (by decide),
      by decide, not_mem_hexText (by decide), by decide⟩

/-- The vector registers that lie at an address. -/
def vectorText (a : Word) (f : ℕ → Word) : List Byte :=
  (List.range' 0 (32 * 2)).flatMap fun i =>
    if (i + 1) % 2 = 0 then vectorLine (a + BitVec.ofNat 64 ((i - 1) * 8)) (f (i - 1)) (f i)
    else []

lemma sends_vector (ram : Word → Byte) (a : Word) :
    Sends E (displayVector ram a) (vectorText a (word ram a)) :=
  sends_loop fun _ _ _ => sends_if fun _ => sends_vectorLine _ _ _

def timerLine (label : String) (w a : Word) : List Byte :=
  cstr label ++ (hexText 0 w ++ (cstr " " ++ (hexText 0 a ++ cstr "\n")))

lemma sends_timer (format label : String)
    (hformat : cstr format = cstr label ++ chr '%' :: cstr "lx %lx\n")
    (hlabel : Literal (cstr label)) (w a : Word) :
    Sends E [printf format [w, a]] (timerLine label w a) := by
  refine sends_printf ?_ ?_
  · have hsplit : cstr format ++ [0] = cstr label ++ chr '%' :: (cstr "lx" ++
        (cstr " " ++ chr '%' :: (cstr "lx" ++ (cstr "\n" ++ [0])))) := by
      rw [hformat, List.append_assoc]
      rfl
    rw [hsplit, text_hex hlabel, text_hex (by simp [chr]), text_end (by simp [chr])]
    rfl
  · unfold timerLine
    simp only [List.mem_append, not_or]
    exact ⟨hlabel.zero_not_mem, not_mem_hexText (by decide), by decide,
      not_mem_hexText (by decide), by decide⟩

/-! ### The CSRs -/

variable (N : Names E)

def nameText (i : ℕ) : List Byte :=
  if (regs i).id = i then
    cstr "name: " ++ ((E.str (N.name i)).takeWhile (· ≠ 0) ++ cstr " ")
  else []

def csrLine (i : ℕ) (v : Word) : List Byte :=
  cstr "csr id " ++ (hexText 0 (BitVec.ofNat 64 i) ++ (cstr " " ++ (nameText N i ++
    (cstr "value " ++ (hexText 0 v ++ cstr "\n")))))

def csrCalls (name : ℕ → Word) (i : ℕ) (v : Word) : List PrintfCall :=
  if (regs i).id = i then
    [printf "csr id %x name: %s value %lx\n" [BitVec.ofNat 64 i, name i, v]]
  else [printf "csr id %x value %lx\n" [BitVec.ofNat 64 i, v]]

lemma format_named : cstr "csr id %x name: %s value %lx\n" ++ [0] = cstr "csr id " ++ chr '%' ::
    (cstr "x" ++ (cstr " name: " ++ chr '%' :: (cstr "s" ++
      (cstr " value " ++ chr '%' :: (cstr "lx" ++ (cstr "\n" ++ [0])))))) := by
  simp [cstr]

lemma sends_csr {i : ℕ} (hi : i < 2 ^ 32) (h : (regs i).id = i → 0 ∈ E.str (N.name i))
    (v : Word) : Sends E (csrCalls N.name i v) (csrLine N i v) := by
  have hvalue : text E (cstr " value " ++ chr '%' :: (cstr "lx" ++ (cstr "\n" ++ [0]))) [v] =
      some (cstr " value " ++ (hexText 0 v ++ cstr "\n")) := by
    rw [text_hex (by simp [chr]), text_end (by simp [chr])]
    rfl
  have hzero : 0 ∉ csrLine N i v := by
    unfold csrLine nameText
    simp only [List.mem_append, not_or]
    refine ⟨by decide, not_mem_hexText (by decide), by decide, ?_, by decide,
      not_mem_hexText (by decide), by decide⟩
    split_ifs
    · simp only [List.mem_append, not_or]
      refine ⟨by decide, fun hmem => ?_, by decide⟩
      simpa using List.mem_takeWhile_imp hmem
    · exact List.not_mem_nil
  have hblank : cstr " value " = cstr " " ++ cstr "value " := by simp [cstr]
  unfold csrCalls
  split_ifs with hid
  · refine sends_printf ?_ hzero
    rw [format_named, text_hexInt (by simp [chr]) hi, text_name (by simp [chr]), if_pos (h hid),
      hvalue]
    have hname : cstr " name: " = cstr " " ++ cstr "name: " := by simp [cstr]
    simp [csrLine, nameText, hid, hblank, hname]
  · refine sends_printf ?_ hzero
    have hsplit : cstr "csr id %x value %lx\n" ++ [0] = cstr "csr id " ++ chr '%' ::
        (cstr "x" ++ (cstr " value " ++ chr '%' :: (cstr "lx" ++ (cstr "\n" ++ [0])))) := by
      simp [cstr]
    rw [hsplit, text_hexInt (by simp [chr]) hi, hvalue]
    simp [csrLine, nameText, hid, hblank]

lemma printAll_csr {i : ℕ} (hi : i < 2 ^ 32) (hid : (regs i).id = i) (h : 0 ∉ E.str (N.name i))
    (v : Word) (console : List Byte) : printAll E (csrCalls N.name i v) console = none := by
  unfold csrCalls printAll printf
  rw [if_pos hid, List.foldlM_cons, printf_eq, format_named, text_hexInt (by simp [chr]) hi,
    text_name (by simp [chr]), if_neg h]
  rfl

/-- Each row of `regs` is at its own index, and has a name. -/
lemma regs_cases (i : ℕ) :
    regs i = ⟨0, none⟩ ∨ (i ≠ 0 ∧ i < 4096) ∧ ∃ s, regs i = ⟨i, some s⟩ := by
  have hrows : ∀ r ∈ regsInit, (r.1 ≠ 0 ∧ r.1 < 4096) ∧ r.2.id = r.1 ∧ r.2.name.isSome := by
    decide
  unfold regs
  cases h : regsInit.lookup i with
  | none => exact .inl rfl
  | some r =>
    obtain ⟨l, l', hl, -⟩ := List.lookup_eq_some_iff.mp h
    obtain ⟨hi, hid, hname⟩ := hrows (i, r) (by simp [hl])
    obtain ⟨s, hs⟩ := Option.isSome_iff_exists.mp hname
    refine .inr ⟨hi, s, ?_⟩
    cases r
    simp_all

lemma name_mem {i : ℕ} (hi : i ≠ 0) (hid : (regs i).id = i) : 0 ∈ E.str (N.name i) := by
  rcases regs_cases i with h | ⟨-, s, h⟩
  · rw [h] at hid
    exact absurd hid.symm hi
  · obtain ⟨junk, hstr⟩ := N.str i s (by rw [h])
    simp [hstr]

/-- The first element of `regs` has the number of its index, but no name. -/
lemma name_zero : (regs 0).id = 0 ∧ N.name 0 = 0 := by
  have h : regs 0 = ⟨0, none⟩ := (regs_cases 0).resolve_right fun h => h.1.1 rfl
  exact ⟨by rw [h], N.null 0 (by rw [h])⟩

def csrsText (f : ℕ → Word) : List Byte :=
  lines 0 (fun i (f : ℕ → Word) => f i) (csrLine N) (List.range' 0 4096) f

lemma displayCsrs_eq (ram : Word → Byte) (a : Word) : displayCsrs N.name ram a =
    loop 0 4096 fun i => if word ram a i ≠ 0 then csrCalls N.name i (word ram a i) else [] := rfl

lemma sends_csrs {ram : Word → Byte} {a : Word} (h : word ram a 0 = 0 ∨ 0 ∈ E.str 0) :
    Sends E (displayCsrs N.name ram a) (csrsText N (word ram a)) := by
  rw [displayCsrs_eq]
  refine sends_loop fun i _ hi => sends_if fun hv => sends_csr N (by omega) (fun hid => ?_) _
  by_cases h0 : i = 0
  · subst h0
    rw [(name_zero N).2]
    exact h.resolve_left hv
  · exact name_mem N h0 hid

/-- The first CSR has no name to print. -/
lemma printAll_csrs {ram : Word → Byte} {a : Word} (h : ¬ (word ram a 0 = 0 ∨ 0 ∈ E.str 0))
    (console : List Byte) : printAll E (displayCsrs N.name ram a) console = none := by
  obtain ⟨hv, hstr⟩ := not_or.mp h
  have hloop : displayCsrs N.name ram a = csrCalls N.name 0 (word ram a 0) ++
      (List.range' 1 4095).flatMap fun i =>
        if word ram a i ≠ 0 then csrCalls N.name i (word ram a i) else [] := by
    rw [displayCsrs_eq, loop, List.range'_succ, List.flatMap_cons, if_pos hv]
  rw [hloop, printAll_append, printAll_csr N (by decide) (name_zero N).1]
  · rfl
  · rwa [(name_zero N).2]

/-! ### The whole display -/

def displayText (ram : Word → Byte) (m : Memlayout) : List Byte :=
  cstr "Int Register display: \n" ++ regsText "gpr " (word ram m.intRegCptAddr) ++
  (cstr "Float Register display: \n" ++ regsText "fpr " (word ram m.floatRegCptAddr)) ++
  (cstr "Vector Register display: \n" ++
    vectorText m.vectorRegCptAddr (word ram m.vectorRegCptAddr)) ++
  (cstr "Csr registers display\n" ++ csrsText N (word ram m.csrRegCptAddr)) ++
  (timerLine "mtime_cmp registers memory: " (ld64 ram m.mtimeCmpCptAddr) m.mtimeCmpCptAddr ++
    timerLine "mtime registers memory: " (ld64 ram m.mtimeCptAddr) m.mtimeCptAddr)

/-- **What the display reads**: it reads nothing but the checkpoint and strings, and prints all of
its text, if and only if the first CSR of the checkpoint is zero, or there is a string at the null
pointer. -/
theorem display_eq (ram : Word → Byte) (m : Memlayout) (console : List Byte) :
    printAll E (displayCheckpointRegisters N.name ram m) console =
      if word ram m.csrRegCptAddr 0 = 0 ∨ 0 ∈ E.str 0 then some (console ++ displayText N ram m)
      else none := by
  have hint := (sends_literal (E := E) "Int Register display: \n" (by simp [chr])).append
    (sends_regs "gpr %04d value %016lx " "gpr " (by simp [cstr]) (by simp [chr])
      (word ram m.intRegCptAddr))
  have hfloat := (sends_literal (E := E) "Float Register display: \n" (by simp [chr])).append
    (sends_regs "fpr %04d value %016lx " "fpr " (by simp [cstr]) (by simp [chr])
      (word ram m.floatRegCptAddr))
  have hvector := (sends_literal (E := E) "Vector Register display: \n" (by simp [chr])).append
    (sends_vector ram m.vectorRegCptAddr)
  have hcsr := sends_literal (E := E) "Csr registers display\n" (by simp [chr])
  have hcmp := sends_timer (E := E) "mtime_cmp registers memory: %lx %lx\n"
    "mtime_cmp registers memory: " (by simp [cstr]) (by simp [chr]) (ld64 ram m.mtimeCmpCptAddr)
    m.mtimeCmpCptAddr
  have hmtime := sends_timer (E := E) "mtime registers memory: %lx %lx\n"
    "mtime registers memory: " (by simp [cstr]) (by simp [chr]) (ld64 ram m.mtimeCptAddr)
    m.mtimeCptAddr
  have hunits := (hint.append hfloat).append hvector
  split_ifs with h
  · exact ((hunits.append (hcsr.append (sends_csrs N h))).append (hcmp.append hmtime)) console
  · refine (printAll_append _ _ console).trans ?_
    have hnone := (hunits.printAll_append ([printf "Csr registers display\n" []] ++
      displayCsrs N.name ram m.csrRegCptAddr) console).trans (hcsr.printAll_append _ _)
    rw [printAll_csrs N h] at hnone
    exact congrArg (Option.bind · _) hnone

end Lines

end LibCheckpoint.Display
