import LibCheckpoint.Jal
import LibCheckpoint.Payload

/-!
The normal build: the header of a checkpoint and its layout are messages at the start of the image.

Every hart decodes both. Without them, or with another magic number in the header, it boots the
payload. The decoder is nanopb's, and may be any.
-/

namespace LibCheckpoint.Decode

open LibCheckpoint.Bytes LibCheckpoint.Rv64 LibCheckpoint.Asm LibCheckpoint.Layout
open LibCheckpoint.Restorer LibCheckpoint.Interleave LibCheckpoint.Phase LibCheckpoint.Payload
open LibCheckpoint.Jal

/-! ### The build -/

structure CheckpointHeader where
  magicNumber : Word
  cptOffset : Word
  cpuNum : Word
  singleCoreSize : Word
  version : Word

def magicNumber : Word := 0xdeadbeef
def protobufBufferSize : ℕ := 4096

/-- `pb_istream_t`: the position in the buffer, and the bytes that are left. -/
abbrev Stream := Word × ℕ

/-- `pb_decode_ex` for the two messages: what it makes of a stream, and the stream behind it. -/
structure Nanopb where
  header : (Word → Byte) → Stream → Option (CheckpointHeader × Stream)
  memlayout : (Word → Byte) → Stream → Option (Memlayout × Stream)

structure Normal where
  nanopb : Nanopb
  startAddress : Word
  payloadBin : Word
  link : Link
  env : Env
  stopCpu : Option (BitVec 32)

variable (img : Normal)

/-- The two messages, if `gcpt_c_start` does not go to `boot_payload`. -/
def Normal.decode : Option (CheckpointHeader × Memlayout) :=
  match img.nanopb.header img.env.ram (img.startAddress, protobufBufferSize) with
  | none => none
  | some (header, stream) =>
    if header.magicNumber == magicNumber then
      (img.nanopb.memlayout img.env.ram stream).map fun m => (header, m.1)
    else none

def zeroHeader : CheckpointHeader := ⟨0, 0, 0, 0, 0⟩
def zeroMemlayout : Memlayout := ⟨0, 0, 0, 0, 0, 0, 0, 0, 0, 0, 0, 0, 0, 0, 0, 0⟩

def Normal.cfgOf (header : CheckpointHeader) (memlayout : Memlayout) : Cfg where
  link := img.link
  env := img.env
  cptBaseAddress := img.startAddress + header.cptOffset
  singleCoreSize := header.singleCoreSize
  memlayout
  stopCpu := img.stopCpu

def Normal.cfg : Cfg :=
  let messages := img.decode.getD (zeroHeader, zeroMemlayout)
  img.cfgOf messages.1 messages.2

def Normal.targetAddress : Word := bootTarget img.startAddress img.payloadBin

/-! ### The hart -/

/-- The check is that both messages can be decoded. -/
def Normal.guard : Guard := ⟨img.cfg, img.decode.isSome, img.targetAddress⟩

abbrev normalAct : BootHart → Act := img.guard.act

abbrev normalResume : BootHart → Word → BootHart := img.guard.resume

abbrev normalHarts : Threads Shared BootHart Act Word where
  act := normalAct img
  perform := perform img.link
  resume := normalResume img

variable {M : ℕ}

/-- No hart has come to the decoding yet. -/
def Before (s : BootSys M) : Prop :=
  ∀ i, (s.loc i).point = .restorer ∧ unchecked (s.loc i).hart.pc = true

variable {img} {s : BootSys M} {c : BootHart}

/-! ### Both messages are there -/

lemma decode_magicNumber {header : CheckpointHeader} {memlayout : Memlayout}
    (hd : img.decode = some (header, memlayout)) : header.magicNumber = magicNumber := by
  unfold Normal.decode at hd
  split at hd
  · cases hd
  · rename_i h stream _
    split_ifs at hd with hm
    obtain ⟨m, -, heq⟩ := Option.map_eq_some_iff.mp hd
    obtain ⟨rfl, -⟩ := Prod.mk.inj heq
    exact beq_iff_eq.mp hm

lemma cfg_of_decode {header : CheckpointHeader} {memlayout : Memlayout}
    (hd : img.decode = some (header, memlayout)) : img.cfg = img.cfgOf header memlayout := by
  simp [Normal.cfg, hd]

/-- **The normal build restores**: with both messages and the magic number, no hart boots the
payload, and every run is one of the restorer of the checkpoint that the messages describe. -/
theorem normal_refines {header : CheckpointHeader} {memlayout : Memlayout}
    (hd : img.decode = some (header, memlayout)) (hs : Before s) (w : List (Fin M)) :
    header.magicNumber = magicNumber ∧
    (∀ i, ¬ refused ((run (normalHarts img) s w).loc i)) ∧
    ∃ v, v.Sublist w ∧ (run (normalHarts img) s w).map BootHart.hart =
      run (harts (img.cfgOf header memlayout)) (s.map BootHart.hart) v := by
  have hpasses : img.guard.passes = true := by simp [Normal.guard, hd]
  have hpassing : ∀ j, Passing (s.loc j) := fun j => .inl (hs j).1
  refine ⟨decode_magicNumber hd, fun i hr => ?_, ?_⟩
  · rcases run_local (normalHarts img) (P := fun _ c => Passing c) hpassing
      (fun _ _ r hc => hc.resume hpasses r) w i with hp | hp
    · exact hr.1 hp
    · exact hr.2 hp
  · rw [← cfg_of_decode hd]
    exact passing_run hpasses hpassing w

/-- A header with the magic number and nothing else, on the wire. -/
def headerBytes : List Byte := [0x08, 0xef, 0xfd, 0xb6, 0xf5, 0x0d, 0x00]

def headerRam (a : Word) : Byte := headerBytes.getD (a - 0x80000000).toNat 0

/-- The decoder on this header, and on messages without fields. -/
def smallNanopb : Nanopb where
  header ram stream :=
    if ∀ k < 7, ram (stream.1 + BitVec.ofNat 64 k) = headerBytes.getD k 0 then
      some ({ zeroHeader with magicNumber := 0xdeadbeef }, (stream.1 + 7, stream.2 - 7))
    else if ram stream.1 = 0 then some (zeroHeader, (stream.1 + 1, stream.2 - 1))
    else none
  memlayout ram stream :=
    if ram stream.1 = 0 then some (zeroMemlayout, (stream.1 + 1, stream.2 - 1)) else none

def smallNormal (ram : Word → Byte) : Normal where
  nanopb := smallNanopb
  startAddress := 0x80000000
  payloadBin := 0x80100000
  link := smallLink
  env := (smallCfg ram).env
  stopCpu := none

def smallBefore : BootSys 1 where
  mem := (smallSys 1 .gcptCStart 0).mem
  loc i := ⟨.restorer, (smallSys 1 .gcptCStart 0).loc i⟩

lemma smallBefore_before : Before smallBefore := fun _ => ⟨rfl, rfl⟩

theorem normal_refines_small : ∃ v, v.Sublist (List.replicate 60 0) ∧
    (run (normalHarts (smallNormal headerRam)) smallBefore (List.replicate 60 0)).map
      BootHart.hart =
    run (harts ((smallNormal headerRam).cfgOf { zeroHeader with magicNumber := 0xdeadbeef }
      zeroMemlayout)) (smallBefore.map BootHart.hart) v :=
  (normal_refines (by rfl) smallBefore_before _).2.2

/-! ### A message is missing -/

lemma not_passes (hd : img.decode = none) : img.guard.passes = false := by
  simp [Normal.guard, hd]

lemma Before.starts (hs : Before s) (i : Fin M) : Starts (s.loc i).hart.cpuId (s.loc i) :=
  ⟨rfl, (hs i).1, (hs i).2⟩

lemma not_restores (hd : img.decode = none) (hs : Before s) (w : List (Fin M)) (i : Fin M) :
    ¬ restores ((run (normalHarts img) s w).loc i) := by
  intro hr
  have hpasses := (bootWay_run img.guard (hs.starts i) w).passes hr
  rw [not_passes hd] at hpasses
  cases hpasses

/-- **The normal build boots the payload**: if a message is missing, or the magic number is wrong,
no hart restores; a hart that boots the payload does so at the right address, with the registers of
its start; and every hart that has failed can get there. -/
theorem normal_rejects (hd : img.decode = none) (hs : Before s) (hok : PrintOk img.guard s)
    (w : List (Fin M)) (i : Fin M) :
    ¬ restores ((run (normalHarts img) s w).loc i) ∧
    (∀ a, ((run (normalHarts img) s w).loc i).point = .payload a → a = img.targetAddress ∧
      ((run (normalHarts img) s w).loc i).hart.arch =
        payloadArch img.guard (s.loc i).hart.arch) ∧
    (refused ((run (normalHarts img) s w).loc i) →
      ∃ v a, ((run (normalHarts img) s (w ++ v)).loc i).point = .payload a) :=
  ⟨not_restores hd hs w i, fun _ hp => (bootWay_run img.guard (hs.starts i) w).payload hp,
    exists_run_payload (hs.starts i) hok w⟩

/-- An empty memory holds a header, but not the magic number. -/
theorem normal_rejects_small : ¬ restores ((run (normalHarts (smallNormal fun _ => 0)) smallBefore
    (List.replicate 60 0)).loc 0) :=
  (normal_rejects (by rfl) smallBefore_before (fun h => absurd rfl h) _ 0).1

/-! ### The message and the image -/

/-- The decoder refuses a message whose first tag, of one byte and with a field number, has the wire
type 7: there is none. -/
def Nanopb.Strict (nanopb : Nanopb) : Prop :=
  ∀ ram stream, 0 < stream.2 → 8 ≤ (ram stream.1).toNat → (ram stream.1).toNat < 128 →
    ram stream.1 &&& 0x7 = 7 → nanopb.header ram stream = none

/-- The first instruction of the image, `j boot_check`, lies at an address. -/
def ImageAt (ram : Word → Byte) (a : Word) : Prop :=
  ∃ imm, ∀ k < 4, ram (a + BitVec.ofNat 64 k) = (generateJal imm 0).extractLsb' (8 * k) 8

/-- The lowest byte of a `jal` to `zero`: as a tag, the wire type 7 and the field 13. -/
lemma generateJal_byte (imm : BitVec 32) : (generateJal imm 0).extractLsb' 0 8 = 0x6f := by
  have hop : (generateJal imm 0).extractLsb' 0 7 = 0x6f := (JalInstr.inst_low _).1
  have hrd : (generateJal imm 0).extractLsb' 7 5 = 0 := (JalInstr.inst_low _).2
  refine BitVec.eq_of_getLsbD_eq fun i hi => ?_
  rw [BitVec.getLsbD_extractLsb', Nat.zero_add, decide_eq_true hi, Bool.true_and]
  rcases Nat.lt_succ_iff_lt_or_eq.mp hi with hlt | rfl
  · have hbit := congrArg (BitVec.getLsbD · i) hop
    simp only [BitVec.getLsbD_extractLsb', Nat.zero_add, decide_eq_true hlt, Bool.true_and] at hbit
    rw [hbit, show (0x6f : BitVec 7) = (0x6f : BitVec 8).setWidth 7 from rfl,
      BitVec.getLsbD_setWidth, decide_eq_true hlt, Bool.true_and]
  · -- the lowest bit of `rd`
    have hbit := congrArg (BitVec.getLsbD · 0) hrd
    simpa [BitVec.getLsbD_extractLsb'] using hbit

lemma decode_own_image (hpb : img.nanopb.Strict) (himage : ImageAt img.env.ram img.startAddress) :
    img.decode = none := by
  obtain ⟨imm, himm⟩ := himage
  have hkey : img.env.ram img.startAddress = 0x6f := by
    have h0 := himm 0 (by decide)
    rwa [BitVec.add_zero, Nat.mul_zero, generateJal_byte] at h0
  have hnone : img.nanopb.header img.env.ram (img.startAddress, protobufBufferSize) = none := by
    refine hpb _ _ (Nat.zero_lt_succ _) ?_ ?_ ?_ <;> dsimp only <;> rw [hkey] <;> decide
  rw [Normal.decode, hnone]

/-- **The normal build does not restore from its own image**: where the start address holds the
first instruction of the image, this is where the header is looked for, and in every run no hart
restores, and each that has looked for the header can get to the payload. -/
theorem own_image_rejects (hpb : img.nanopb.Strict)
    (himage : ImageAt img.env.ram img.startAddress) (hs : Before s) (hok : PrintOk img.guard s)
    (w : List (Fin M)) (i : Fin M) : ¬ restores ((run (normalHarts img) s w).loc i) ∧
      (refused ((run (normalHarts img) s w).loc i) →
        ∃ v a, ((run (normalHarts img) s (w ++ v)).loc i).point = .payload a) :=
  have hd := decode_own_image hpb himage
  ⟨not_restores hd hs w i, exists_run_payload (hs.starts i) hok w⟩

def imageRam (a : Word) : Byte :=
  (generateJal 12 0).extractLsb' (8 * (a - 0x80000000).toNat) 8

lemma smallNanopb_strict : smallNanopb.Strict := by
  intro ram stream _ _ _ htag
  have hheader : ¬ ∀ k < 7, ram (stream.1 + BitVec.ofNat 64 k) = headerBytes.getD k 0 := by
    intro h
    have h0 := h 0 (by decide)
    rw [BitVec.add_zero] at h0
    rw [h0] at htag
    exact absurd htag (by decide)
  have hzero : ram stream.1 ≠ 0 := by
    intro h0
    rw [h0] at htag
    exact absurd htag (by decide)
  simp only [smallNanopb, hheader, hzero, if_false]

theorem own_image_rejects_small : ¬ restores ((run (normalHarts (smallNormal imageRam))
    smallBefore (List.replicate 60 0)).loc 0) :=
  (own_image_rejects smallNanopb_strict ⟨12, by decide⟩ smallBefore_before
    (fun h => absurd rfl h) _ 0).1

end LibCheckpoint.Decode
