import LibCheckpoint.Display
import LibCheckpoint.Resume

/-!
What one can tell from a display: the registers that are displayed, and so what is restored.
-/

namespace LibCheckpoint.Shown

open LibCheckpoint.Bytes LibCheckpoint.Ntoa LibCheckpoint.Field LibCheckpoint.Printf
open LibCheckpoint.Layout LibCheckpoint.Delimited LibCheckpoint.Display

/-! ### What the display tells -/

section Tells

variable {α : Type*}

lemma tells_hex (v : α → Word) {c : Byte} (hc : hexVal c = 16) (cs : List Byte) :
    Tells (fun a => hexText 0 (v a) ++ c :: cs) fun a b => v a = v b := by
  have hstop : Tells (fun a => hexText 0 (v a) ++ [c]) fun a b => v a = v b :=
    tells_of_stop (fun _ => not_mem_hexText hc) fun _ _ => hexText_inj
  simpa using hstop.before cs

lemma tells_hex16 (v : α → Word) : Tells (fun a => hexText 16 (v a)) fun a b => v a = v b :=
  tells_of_length (fun _ _ => (length_hexText _).trans (length_hexText _).symm) fun _ _ =>
    hexText_inj

lemma tells_regs (label : String) (f : α → ℕ → Word) :
    Tells (fun a => regsText label (f a)) fun a b => ∀ i < 32, f a i = f b i := by
  have hreg (i : ℕ) : Tells (fun a => regText label i (f a i)) fun a b => f a i = f b i :=
    ((((tells_hex16 fun a => f a i).before _).after _).after _).after _
  have hregs := tells_flatMap (l := List.range' 0 32) fun i _ =>
    (hreg i).before (if (i + 1) % 4 = 0 then cstr "\n" else [])
  exact hregs.mono fun a b h i hi => h i (by simpa using hi)

lemma tells_vectorLine (u v w : α → Word) :
    Tells (fun a => vectorLine (u a) (v a) (w a)) fun a b => u a = u b ∧ v a = v b ∧ w a = w b := by
  have hwords := (tells_hex16 v).append (((tells_hex16 w).before (cstr "\n")).after (cstr "_"))
  have haddr : Tells (fun a => hexText 0 (u a) ++ cstr "]: 0x") fun a b => u a = u b :=
    tells_hex u (c := chr ']') (by decide) (cstr ": 0x")
  exact (haddr.append_after hwords).after (cstr "[")

lemma tells_vector (u : α → Word) (f : α → ℕ → Word) :
    Tells (fun a => vectorText (u a) (f a)) fun a b => u a = u b ∧ ∀ i < 64, f a i = f b i := by
  have hline (i : ℕ) : Tells
      (fun a => if (i + 1) % 2 = 0 then
        vectorLine (u a + BitVec.ofNat 64 ((i - 1) * 8)) (f a (i - 1)) (f a i) else [])
      fun a b => (i + 1) % 2 = 0 → u a = u b ∧ f a (i - 1) = f b (i - 1) ∧ f a i = f b i := by
    split_ifs with hodd
    · exact (tells_vectorLine _ (fun a => f a (i - 1)) fun a => f a i).mono fun a b h _ =>
        ⟨BitVec.add_left_inj _ |>.mp h.1, h.2⟩
    · exact (tells_const []).mono fun a b _ h => absurd h hodd
  have hlines := tells_flatMap (l := List.range' 0 (32 * 2)) fun i _ => hline i
  refine hlines.mono fun a b h => ⟨(h 1 (by simp) rfl).1, fun i hi => ?_⟩
  rcases Nat.even_or_odd' i with ⟨k, rfl | rfl⟩
  · exact (h (2 * k + 1) (by simp; omega) (by omega)).2.1
  · exact (h (2 * k + 1) (by simp; omega) (by omega)).2.2

lemma tells_timer (label : String) (v u : α → Word) :
    Tells (fun a => timerLine label (v a) (u a)) fun a b => v a = v b ∧ u a = u b := by
  have hword : Tells (fun a => hexText 0 (v a) ++ cstr " ") fun a b => v a = v b :=
    tells_hex v (c := chr ' ') (by decide) []
  have haddr : Tells (fun a => hexText 0 (u a) ++ cstr "\n") fun a b => u a = u b :=
    tells_hex u (c := chr '\n') (by decide) []
  exact (hword.append_after haddr).after (cstr label)

end Tells

section Same

variable {E : Printf.Env} (N : Names E)

/-- The line of a CSR tells its number and its value, and is no line of the timer. -/
lemma distinct_csr :
    Distinct (csrLine N) (cstr "mtime_cmp registers memory: ") (List.range' 0 4096) where
  eq i hi j hj x y s t h := by
    have hnum : Tells (fun i : ℕ => hexText 0 (BitVec.ofNat 64 i) ++ cstr " ") fun i j =>
        BitVec.ofNat 64 i = BitVec.ofNat 64 j := tells_hex _ (c := chr ' ') (by decide) []
    have hval : Tells (fun v : Word => hexText 0 v ++ cstr "\n") fun x y => x = y :=
      tells_hex _ (c := chr '\n') (by decide) []
    simp only [csrLine, List.append_assoc, List.append_cancel_left_eq] at h
    rw [← List.append_assoc, ← List.append_assoc (hexText 0 (BitVec.ofNat 64 j))] at h
    obtain ⟨hij, hrest⟩ := hnum h
    have heq : i = j := by
      have := congrArg BitVec.toNat hij
      simp only [List.mem_range'_1, BitVec.toNat_ofNat] at hi hj this
      omega
    subst heq
    simp only [List.append_cancel_left_eq] at hrest
    rw [← List.append_assoc, ← List.append_assoc (hexText 0 y)] at hrest
    obtain ⟨hxy, hst⟩ := hval hrest
    exact ⟨rfl, hxy, hst⟩
  ne i _ x s t h := by
    have hc : some (chr 'c') = some (chr 'm') := congrArg List.head? h
    exact absurd hc (by decide)

lemma tells_csrs : Tells (fun f => csrsText N f ++ cstr "mtime_cmp registers memory: ") fun f g =>
    ∀ i ∈ List.range' 0 4096, f i = g i :=
  tells_lines List.nodup_range' (distinct_csr N)

abbrev Checkpoint := (Word → Byte) × Memlayout

/-- Two checkpoints agree on what is displayed. -/
structure Same (p q : Checkpoint) : Prop where
  int : ∀ i < 32, word p.1 p.2.intRegCptAddr i = word q.1 q.2.intRegCptAddr i
  float : ∀ i < 32, word p.1 p.2.floatRegCptAddr i = word q.1 q.2.floatRegCptAddr i
  vectorAddr : p.2.vectorRegCptAddr = q.2.vectorRegCptAddr
  vector : ∀ i < 64, word p.1 p.2.vectorRegCptAddr i = word q.1 q.2.vectorRegCptAddr i
  csr : ∀ i < 4096, word p.1 p.2.csrRegCptAddr i = word q.1 q.2.csrRegCptAddr i
  mtimeCmpAddr : p.2.mtimeCmpCptAddr = q.2.mtimeCmpCptAddr
  mtimeCmp : ld64 p.1 p.2.mtimeCmpCptAddr = ld64 q.1 q.2.mtimeCmpCptAddr
  mtimeAddr : p.2.mtimeCptAddr = q.2.mtimeCptAddr
  mtime : ld64 p.1 p.2.mtimeCptAddr = ld64 q.1 q.2.mtimeCptAddr

lemma tells_display : Tells (fun p : Checkpoint => displayText N p.1 p.2) Same := by
  have hint := tells_regs "gpr " fun p : Checkpoint => word p.1 p.2.intRegCptAddr
  have hfloat := tells_regs "fpr " fun p : Checkpoint => word p.1 p.2.floatRegCptAddr
  have hvector := tells_vector (fun p : Checkpoint => p.2.vectorRegCptAddr) fun p =>
    word p.1 p.2.vectorRegCptAddr
  -- The first words behind the CSRs show that the list is over.
  have hcsr := (tells_csrs N).comp fun p : Checkpoint => word p.1 p.2.csrRegCptAddr
  have hcmp := tells_timer "" (fun p : Checkpoint => ld64 p.1 p.2.mtimeCmpCptAddr) fun p =>
    p.2.mtimeCmpCptAddr
  have hmtime := tells_timer "mtime registers memory: "
    (fun p : Checkpoint => ld64 p.1 p.2.mtimeCptAddr) fun p => p.2.mtimeCptAddr
  have hunits := ((hint.after (cstr "Int Register display: \n")).append
    (hfloat.after (cstr "Float Register display: \n"))).append
      (hvector.after (cstr "Vector Register display: \n"))
  have hrest := (hcsr.append_after (hcmp.append hmtime)).after (cstr "Csr registers display\n")
  have hempty : cstr "" = [] := rfl
  intro p q s t h
  obtain ⟨⟨⟨⟨hint, hfloat⟩, haddr, hvector⟩, hcsr, ⟨hcmp, hcmpAddr⟩, hmtime, hmtimeAddr⟩, hst⟩ :=
    hunits.append hrest (a := p) (b := q) (s := s) (t := t)
      (by simpa [displayText, timerLine, hempty] using h)
  exact ⟨⟨hint, hfloat, haddr, hvector, fun i hi => hcsr i (by simpa using hi), hcmpAddr, hcmp,
    hmtimeAddr, hmtime⟩, hst⟩

lemma loop_congr {startIdx idxMax : ℕ} {body body' : ℕ → List PrintfCall}
    (h : ∀ i, startIdx ≤ i → i < idxMax → body i = body' i) :
    loop startIdx idxMax body = loop startIdx idxMax body' := by
  refine List.flatMap_congr fun i hi => ?_
  rw [List.mem_range'_1] at hi
  exact h i hi.1 (by omega)

lemma Same.calls_eq {p q : Checkpoint} (h : Same p q) (name : ℕ → Word) :
    displayCheckpointRegisters name p.1 p.2 = displayCheckpointRegisters name q.1 q.2 := by
  have hregs {format : String} {f f' : ℕ → Word} (hf : ∀ i < 32, f i = f' i) :
      displayRegs 0 32 4 format (fun i => [BitVec.ofNat 64 i, f i]) =
        displayRegs 0 32 4 format fun i => [BitVec.ofNat 64 i, f' i] :=
    loop_congr fun i _ hi => by simp only [hf i hi]
  have hvector : displayVector p.1 p.2.vectorRegCptAddr =
      displayVector q.1 q.2.vectorRegCptAddr :=
    loop_congr fun i _ hi => by
      rw [h.vector i hi, h.vector (i - 1) (by omega), h.vectorAddr]
  have hcsrs : displayCsrs name p.1 p.2.csrRegCptAddr =
      displayCsrs name q.1 q.2.csrRegCptAddr :=
    loop_congr fun i _ hi => by rw [h.csr i hi]
  unfold displayCheckpointRegisters
  rw [hregs h.int, hregs h.float, hvector, hcsrs, h.mtimeCmp, h.mtimeCmpAddr, h.mtime, h.mtimeAddr]

/-- **What the display tells**: of two checkpoints, whatever their memory and their layouts are,
the same is displayed if and only if they have the same integer, float and vector registers, the
same CSRs and timers, and these at the same addresses as far as addresses are displayed. -/
theorem display_eq_iff {p q : Checkpoint} {console out out' : List Byte}
    (hp : printAll E (displayCheckpointRegisters N.name p.1 p.2) console = some out)
    (hq : printAll E (displayCheckpointRegisters N.name q.1 q.2) console = some out') :
    out = out' ↔ Same p q := by
  constructor
  · intro h
    rw [display_eq] at hp hq
    split_ifs at hp hq
    obtain rfl := Option.some_inj.mp hp
    obtain rfl := Option.some_inj.mp hq
    have heq := List.append_cancel_left h
    exact (tells_display N (a := p) (b := q) (s := []) (t := []) (by simpa using heq)).1
  · intro h
    rw [h.calls_eq, hq] at hp
    exact (Option.some_inj.mp hp).symm

/-- The names of `regs` at the addresses that are their indices. -/
def tableStrings : Printf.Env where
  str w := ((regs w.toNat).name.map fun s => cstr s ++ [0]).getD []
  ftoa _ _ _ _ := []
  etoa _ _ _ _ := []

def tableNames : Names tableStrings where
  name i := if (regs i).name.isSome then BitVec.ofNat 64 i else 0
  null i h := by simp [h]
  str i s h := by
    have hi : i < 4096 := by
      rcases regs_cases i with hnone | ⟨hi, -⟩
      · simp [hnone] at h
      · exact hi.2
    have hnat : (BitVec.ofNat 64 i).toNat = i := by
      rw [BitVec.toNat_ofNat]
      omega
    exact ⟨[], by simp [tableStrings, h, hnat]⟩

/-- Two memories without CSRs, with the fields of one word each. -/
theorem display_eq_iff_words : [] ++ displayText tableNames (fun _ => 0) defaultQemuMemlayout =
      [] ++ displayText tableNames (fun a => if a = 0xECDC8 then 1 else 0) defaultQemuMemlayout ↔
    Same (fun _ => 0, defaultQemuMemlayout)
      (fun a => if a = 0xECDC8 then 1 else 0, defaultQemuMemlayout) :=
  display_eq_iff tableNames (p := (_, _)) (q := (_, _))
    ((display_eq tableNames _ _ []).trans (if_pos (.inl (by decide))))
    ((display_eq tableNames _ _ []).trans (if_pos (.inl (by decide))))

end Same

/-! ### What is displayed and what is restored -/

section Restored

open LibCheckpoint.Interleave LibCheckpoint.Rv64 LibCheckpoint.Csr LibCheckpoint.Restorer
open LibCheckpoint.Exit LibCheckpoint.Vector LibCheckpoint.Host LibCheckpoint.Status
open LibCheckpoint.Resume

variable {cfg cfg' : Cfg} {cpuId : BitVec 32} {legal : CsrNum → Word → Prop}

/-- What a build with `DISPLAY` prints of the checkpoint of a hart. -/
def display {E : Printf.Env} (N : Names E) (cfg : Cfg) (cpuId : BitVec 32) : Option (List Byte) :=
  printAll E (displayCheckpointRegisters N.name cfg.env.ram (cfg.layout cpuId)) []

abbrev SameAt (cfg cfg' : Cfg) (cpuId : BitVec 32) : Prop :=
  Same (cfg.env.ram, cfg.layout cpuId) (cfg'.env.ram, cfg'.layout cpuId)

lemma SameAt.slotX (h : SameAt cfg cfg' cpuId) (r : Reg) :
    slotX cfg cpuId r = slotX cfg' cpuId r := by
  have := h.int r r.isLt
  rwa [word, word, Nat.mul_comm] at this

lemma SameAt.slotF (h : SameAt cfg cfg' cpuId) (r : Reg) :
    slotF cfg cpuId r = slotF cfg' cpuId r := by
  have := h.float r r.isLt
  rwa [word, word, Nat.mul_comm] at this

lemma SameAt.slotV (h : SameAt cfg cfg' cpuId) (r : Reg) :
    slotV cfg cpuId r = slotV cfg' cpuId r := by
  have hword (ram : Word → Byte) (a : Word) : ld128 ram (a + BitVec.ofNat 64 (16 * r)) =
      word ram a (2 * r + 1) ++ word ram a (2 * r) := by
    have hlow : 2 * (r : ℕ) * 8 = 16 * r := by omega
    have hhigh : a + BitVec.ofNat 64 ((2 * r + 1) * 8) = a + BitVec.ofNat 64 (16 * r) + 8 := by
      have h8 : (8 : Word).toNat = 8 := rfl
      rw [BitVec.add_assoc]
      congr 1
      apply BitVec.eq_of_toNat_eq
      simp only [BitVec.toNat_ofNat, BitVec.toNat_add, h8]
      omega
    rw [ld128, word, word, hlow, hhigh]
  have hr := r.isLt
  have hlow := h.vector (2 * r) (by omega)
  have hhigh := h.vector (2 * r + 1) (by omega)
  unfold Vector.slotV
  rw [hword, hword, hlow, hhigh]

lemma SameAt.slotCsr (h : SameAt cfg cfg' cpuId) (c : CsrNum) :
    cfg.slotCsr cpuId c = cfg'.slotCsr cpuId c := by
  have hslot (a : Word) : slot a c = a + BitVec.ofNat 64 (c.toNat * 8) := by
    unfold slot
    congr 1
    apply BitVec.eq_of_toNat_eq
    have := c.isLt
    simp only [BitVec.toNat_shiftLeft, BitVec.toNat_setWidth, BitVec.toNat_ofNat,
      Nat.shiftLeft_eq]
    omega
  have hcsr := h.csr c.toNat c.isLt
  unfold word at hcsr
  unfold Cfg.slotCsr Cfg.ld
  rw [hslot, hslot, hcsr]

/-- Two harts that agree on what the display shows: their registers, their units, the CSRs that the
host keeps; and, if they leave in the same way, their status, privilege and where they go. -/
structure Alike (cfg cfg' : Cfg) (legal : CsrNum → Word → Prop) (cpuId : BitVec 32)
    (c c' : Arch) (target target' : Word) : Prop where
  x : ∀ r : Reg, r ≠ 0 → c.getX r = c'.getX r
  f : c.f = c'.f
  v : c.v = c'.v
  csr : ∀ x, Plain cfg.env legal x → Plain cfg'.env legal x → legal x (cfg.slotCsr cpuId x) →
    c.csr x = c'.csr x
  mstatus : modeM cfg cpuId = modeM cfg' cpuId → c.csr mstatusId = c'.csr mstatusId
  priv : modeM cfg cpuId = modeM cfg' cpuId → c.priv = c'.priv
  mret : modeM cfg cpuId = false → modeM cfg' cpuId = false → Plain cfg.env legal mepcId →
    Plain cfg'.env legal mepcId → legal mepcId (cfg.slotCsr cpuId mepcId) → target = target'

lemma SameAt.gates (h : SameAt cfg cfg' cpuId) (hostMisa : Word) :
    (cfg.gates cpuId hostMisa).rvfCouldRestore = (cfg'.gates cpuId hostMisa).rvfCouldRestore ∧
    (cfg.gates cpuId hostMisa).rvvCouldRestore = (cfg'.gates cpuId hostMisa).rvvCouldRestore ∧
    (cfg.gates cpuId hostMisa).rvhCouldRestore = (cfg'.gates cpuId hostMisa).rvhCouldRestore := by
  have hmstatus := h.slotCsr mstatusId
  have hmisa := h.slotCsr csrMisa
  unfold Cfg.slotCsr at hmstatus hmisa
  simp only [Cfg.gates, checkpointExtCheck, hmstatus, hmisa, and_self]

lemma SameAt.alike (h : SameAt cfg cfg' cpuId) {hostMisa : Word} {a c c' : Arch}
    {target target' : Word}
    (hc : Resumed cfg legal cpuId (cfg.gates cpuId hostMisa) a c target)
    (hc' : Resumed cfg' legal cpuId (cfg'.gates cpuId hostMisa) a c' target') :
    Alike cfg cfg' legal cpuId c c' target target' := by
  obtain ⟨hrvf, hrvv, hrvh⟩ := h.gates hostMisa
  refine ⟨fun r hr => ?_, ?_, ?_, fun x hx hx' hlegal => ?_, fun hm => ?_, fun hm => ?_,
    fun hm hm' hx hx' hlegal => ?_⟩
  · rw [hc.x r hr, hc'.x r hr, h.slotX]
  · funext r
    rw [hc.f, hc'.f, hrvf, h.slotF]
  · funext r
    rw [hc.v, hc'.v, hrvv, h.slotV]
  · rw [hc.csr x hx hlegal, hc'.csr x hx' (h.slotCsr x ▸ hlegal), hrvh, h.slotCsr]
  · rw [hc.mstatus, hc'.mstatus, hm, h.slotCsr]
  · rw [hc.priv, hc'.priv, hm, h.slotCsr]
  · rw [hc.mret hm hx hlegal, hc'.mret hm' hx' (h.slotCsr mepcId ▸ hlegal), h.slotCsr]

variable {E : Printf.Env} {M : ℕ} {s s' : Sys M}

/-- **What is displayed alike is restored alike**: two machines, whatever else their checkpoints
hold and in whatever order their harts run; if the display of a hart is the same in both, and the
hart starts in the same state, then it leaves with the same registers, units and CSRs, and, if its
mode is the same, with the same status and privilege. -/
theorem alike_run (N : Names E) (hE : StatusHost cfg.env (legal mstatusId))
    (hE' : StatusHost cfg'.env (legal mstatusId)) (hV : KeepsVector cfg.env)
    (hV' : KeepsVector cfg'.env) (hM : M ≤ 128) (h : AtStart cfg s) (h' : AtStart cfg' s')
    {i : Fin M} (hstart : entered cfg (s.loc i).arch = entered cfg' (s'.loc i).arch)
    (hsaved : legal mstatusId (cfg.slotCsr (BitVec.ofNat 32 i) mstatusId)) {out : List Byte}
    (hd : display N cfg (BitVec.ofNat 32 i) = some out)
    (hd' : display N cfg' (BitVec.ofNat 32 i) = some out) {w w' : List (Fin M)}
    {target target' : Word} (hp : ((run (harts cfg) s w).loc i).pc = .gone target)
    (hp' : ((run (harts cfg') s' w').loc i).pc = .gone target') :
    Alike cfg cfg' legal (BitVec.ofNat 32 i) ((run (harts cfg) s w).loc i).arch
      ((run (harts cfg') s' w').loc i).arch target target' := by
  have hsame : SameAt cfg cfg' (BitVec.ofNat 32 i) :=
    (display_eq_iff N (p := (_, _)) (q := (_, _)) hd hd').mp rfl
  have hresumed := resumed_run hE hV hM h hsaved hp
  have hresumed' := resumed_run hE' hV' hM h' (hsame.slotCsr mstatusId ▸ hsaved) hp'
  rw [← hstart] at hresumed'
  exact hsame.alike hresumed hresumed'

/-- **Another word of the timer**: the `mtime_cmp` that is displayed is the one that the hart
restores, whatever the memory is, only for hart `0`, up to a wrap of the index. -/
theorem mtimeCmp_displayed_iff (m : Memlayout) (cpuId : BitVec 32) :
    (∀ ram, ld64 ram m.mtimeCmpCptAddr = ld64 ram (mtimecmpSource m cpuId)) ↔
      cpuId.toNat % 2 ^ 29 = 0 := by
  have hindex : cpuId.toNat % 2 ^ 29 = 0 ↔ cpuId * 8 = 0 := by
    have h8 : (cpuId * 8).toNat = cpuId.toNat * 8 % 2 ^ 32 := BitVec.toNat_mul ..
    have h0 : (0 : BitVec 32).toNat = 0 := rfl
    rw [← BitVec.toNat_inj, h8, h0]
    omega
  have hsource : mtimecmpSource m cpuId = m.mtimeCmpCptAddr ↔ cpuId * 8 = 0 := by
    have h0 : (0 : BitVec 32).toInt = (0 : Word).toInt := rfl
    rw [mtimecmpSource, ← BitVec.toInt_inj (y := 0), h0,
      ← BitVec.toInt_signExtend_of_le (v := 64) (by decide), BitVec.toInt_inj]
    exact add_eq_left
  rw [hindex, ← hsource]
  constructor
  · intro h
    by_contra hne
    -- A memory with a byte at the source only.
    have hbyte := congrArg (byteOf · 0)
      (h fun x => if x = mtimecmpSource m cpuId then 1 else 0)
    simp [ld64, byteOf_leWord, Ne.symm hne] at hbyte
  · intro h ram
    rw [h]

def otherRam (a : Word) : Byte := if a = 0x800ECDB8 then 4 else slotRam unitsSlots a

lemma sameAt_other : SameAt unitsCfg (updateHost otherRam) (BitVec.ofNat 32 (0 : Fin 1)) := by
  have hagree (a : Word) (ha : 8 ≤ (0x800ECDB8 - a).toNat) :
      ld64 (slotRam unitsSlots) a = ld64 otherRam a := by
    refine ld64_agree fun x hx => ?_
    rw [mem_region_iff (by decide)] at hx
    refine (if_neg ?_).symm
    rintro rfl
    omega
  have hword (a : Word) (ha : 0x800ECDC0 ≤ a.toNat ∧ a.toNat < 0x80200000) (i : ℕ)
      (hi : i < 4096) : word (slotRam unitsSlots) a i = word otherRam a i := by
    refine hagree _ ?_
    have hpc : (0x800ECDB8 : Word).toNat = 0x800ECDB8 := rfl
    rw [BitVec.toNat_sub, BitVec.toNat_add, BitVec.toNat_ofNat, hpc]
    omega
  exact {
    int := fun i hi => hword _ (by decide) i (by omega)
    float := fun i hi => hword _ (by decide) i (by omega)
    vectorAddr := rfl
    vector := fun i hi => hword _ (by decide) i (by omega)
    csr := fun i hi => hword _ (by decide) i hi
    mtimeCmpAddr := rfl
    mtimeCmp := hagree _ (by decide)
    mtimeAddr := rfl
    mtime := hagree _ (by decide) }

lemma display_units {cfg : Cfg} (h : SameAt unitsCfg cfg (BitVec.ofNat 32 (0 : Fin 1))) :
    display tableNames cfg (BitVec.ofNat 32 (0 : Fin 1)) =
      some ([] ++ displayText tableNames unitsCfg.env.ram
        (unitsCfg.layout (BitVec.ofNat 32 (0 : Fin 1)))) := by
  unfold display
  rw [← h.calls_eq]
  exact (display_eq tableNames _ _ []).trans (if_pos (.inl (by decide)))

/-- One hart, and two checkpoints of a guest that differ in a `pc` that is not displayed. -/
theorem alike_run_units : Alike unitsCfg (updateHost otherRam) (fun _ _ => True)
    (BitVec.ofNat 32 (0 : Fin 1))
    ((run (harts unitsCfg) (soloStart unitsFile) (List.replicate 700 0)).loc 0).arch
    ((run (harts (updateHost otherRam)) (soloStart unitsFile) (List.replicate 701 0)).loc 0).arch
    0 0 :=
  have hV' : KeepsVector (updateHost otherRam).env := smallCfg_keepsVector _
  have h' : AtStart (updateHost otherRam) (soloStart unitsFile) :=
    ⟨fun _ => rfl, fun _ => rfl, fun _ => rfl, (soloStart_atStart unitsFile).words⟩
  have hsame : SameAt unitsCfg unitsCfg (BitVec.ofNat 32 (0 : Fin 1)) :=
    ⟨fun _ _ => rfl, fun _ _ => rfl, rfl, fun _ _ => rfl, fun _ _ => rfl, rfl, rfl, rfl, rfl⟩
  have hstart : entered unitsCfg ((soloStart unitsFile).loc 0).arch =
      entered (updateHost otherRam) ((soloStart unitsFile).loc 0).arch := rfl
  have hp : ((run (harts unitsCfg) (soloStart unitsFile) (List.replicate 700 0)).loc 0).pc =
      .gone 0 := by decide +kernel
  have hp' : ((run (harts (updateHost otherRam)) (soloStart unitsFile)
      (List.replicate 701 0)).loc 0).pc = .gone 0 := by decide +kernel
  alike_run tableNames unitsCfg_status (updateHost_status otherRam) unitsCfg_keepsVector hV'
    (by decide) (soloStart_atStart _) h' hstart trivial (display_units hsame)
    (display_units sameAt_other) hp hp'

end Restored

end LibCheckpoint.Shown
