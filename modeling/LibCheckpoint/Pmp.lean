import LibCheckpoint.Host

/-!
Physical memory protection: sixteen entries, with a lock in the configuration of each.

The list of `restore_csr_vector` writes the configurations before the addresses, so a saved lock
is in force when the addresses are written.
-/

namespace LibCheckpoint.Pmp

open LibCheckpoint.Bytes LibCheckpoint.Rv64 LibCheckpoint.Csr LibCheckpoint.Registers
open LibCheckpoint.Restorer LibCheckpoint.Interleave LibCheckpoint.Phase LibCheckpoint.Exit
open LibCheckpoint.Vector LibCheckpoint.Host

/-! ### The rule -/

def pmpcfg0 : CsrNum := 0x3a0
def pmpcfg2 : CsrNum := 0x3a2
def pmpaddr (k : Fin 16) : CsrNum := 0x3b0 + BitVec.ofNat 12 k

/-- `cfg0` and `cfg2` hold the configurations of eight entries each. -/
structure Entries where
  cfg0 : Word
  cfg2 : Word
  addr : Fin 16 → Word

namespace Entries

def cfg (p : Entries) (k : ℕ) : Byte := byteOf (if k < 8 then p.cfg0 else p.cfg2) (k % 8)

def locked (p : Entries) (k : ℕ) : Bool := (p.cfg k).msb

def tor (p : Entries) (k : ℕ) : Bool := (p.cfg k).extractLsb' 3 2 = 1

/-- The address of an entry may not be written: the entry is locked, or the one behind it is
and begins at this address. -/
def blocked (p : Entries) (k : Fin 16) : Bool :=
  p.locked k || (k.val < 15 && p.locked (k + 1) && p.tor (k + 1))

/-- A word of configurations behind a write: a locked one stays as it is. -/
def keepLocked (old new : Word) : Word :=
  leWord fun k => if (byteOf old k).msb then byteOf old k else byteOf new k

def write (p : Entries) (c : CsrNum) (w : Word) : Entries :=
  if c = pmpcfg0 then { p with cfg0 := keepLocked p.cfg0 w }
  else if c = pmpcfg2 then { p with cfg2 := keepLocked p.cfg2 w }
  else { p with addr := fun k => if c = pmpaddr k ∧ p.blocked k = false then w else p.addr k }

def ofFile (f : CsrFile) : Entries := ⟨f pmpcfg0, f pmpcfg2, fun k => f (pmpaddr k)⟩

end Entries

open Entries

/-- The CSRs of the sixteen entries, in the order of the list. -/
def pmpCsrs : List CsrNum := pmpcfg0 :: pmpcfg2 :: (List.finRange 16).map pmpaddr

lemma pmp_apart {c : CsrNum} (hc : c ∈ freeCsrs) : c ∉ pmpCsrs := by
  have hall : (freeCsrs.all fun c => c ∉ pmpCsrs) = true := by decide +kernel
  exact of_decide_eq_true (List.all_eq_true.mp hall c hc)

lemma write_of_not_mem {c : CsrNum} (hc : c ∉ pmpCsrs) (p : Entries) (w : Word) :
    p.write c w = p := by
  simp only [pmpCsrs, List.mem_cons, List.mem_map, List.mem_finRange, true_and, not_or,
    not_exists] at hc
  obtain ⟨h0, h2, haddr⟩ := hc
  simp only [Entries.write, h0, h2, if_false, Ne.symm (haddr _), false_and]

def rule (legal : CsrNum → Word → Prop) : Rule Entries where
  shows p f := ofFile f = p
  write := Entries.write
  legal c w := c ∈ pmpCsrs → legal c w
  mstatus w := by
    have hm : mstatusId ∉ pmpCsrs := pmp_apart (by decide)
    exact ⟨fun h => absurd h hm, fun p => write_of_not_mem hm p w⟩
  unseen c hc w p f h := by
    have hne (x : CsrNum) (hx : x ∈ pmpCsrs) : Function.update f c w x = f x :=
      Function.update_of_ne (by rintro rfl; exact pmp_apart hc hx) _ _
    rw [← h, ofFile, hne pmpcfg0 (by simp [pmpCsrs]), hne pmpcfg2 (by simp [pmpCsrs])]
    simp only [hne (pmpaddr _) (by simp [pmpCsrs])]
    rfl

/-! ### The writes of the list -/

variable {legal : CsrNum → Word → Prop} {val : CsrNum → Word} {p : Entries}

lemma pmpaddr_inj {j k : Fin 16} (h : pmpaddr j = pmpaddr k) : j = k := by
  revert j k
  decide

lemma pmpaddr_ne (k : Fin 16) : pmpaddr k ≠ pmpcfg0 ∧ pmpaddr k ≠ pmpcfg2 := by
  revert k
  decide

lemma write_pmpaddr (j : Fin 16) (w : Word) : p.write (pmpaddr j) w =
    { p with addr := fun k => if k = j ∧ p.blocked j = false then w else p.addr k } := by
  obtain ⟨h0, h2⟩ := pmpaddr_ne j
  simp only [Entries.write, h0, h2, if_false, Entries.mk.injEq, true_and]
  funext k
  by_cases hk : k = j
  · simp [hk]
  · have hjk : pmpaddr j ≠ pmpaddr k := fun h => hk (pmpaddr_inj h).symm
    simp [hk, hjk]

/-- The writes of the addresses, with the configurations in place. -/
lemma writes_addr (js : List (Fin 16)) : writes Entries.write val (js.map pmpaddr) p =
    { p with addr := fun k => if k ∈ js ∧ p.blocked k = false then val (pmpaddr k)
                              else p.addr k } := by
  induction js generalizing p with
  | nil => simp
  | cons j js ih =>
    rw [List.map_cons, writes_cons, write_pmpaddr, ih]
    simp only [Entries.mk.injEq, true_and]
    funext k
    have hb (addr : Fin 16 → Word) : blocked { p with addr := addr } k = p.blocked k := rfl
    rw [hb]
    by_cases hk : k = j
    · subst hk
      by_cases hkb : p.blocked k = false <;> by_cases hkj : k ∈ js <;> simp [hkb, hkj]
    · simp [hk]

lemma keepLocked_of_unlocked {old : Word} (h : ∀ k < 8, (byteOf old k).msb = false) (new : Word) :
    keepLocked old new = new := by
  rw [keepLocked, leWord_congr (g := byteOf new) fun k hk => by simp [h k hk], leWord_byteOf]

/-- The state of the saved values, but for the addresses. -/
def savedCfg (val : CsrNum → Word) (addr : Fin 16 → Word) : Entries :=
  ⟨val pmpcfg0, val pmpcfg2, addr⟩

lemma order_filter (rvh : Bool) : (Rule.order rvh).filter (fun c => c ∈ pmpCsrs) = pmpCsrs := by
  cases rvh <;> decide +kernel

/-- **What the list makes of the entries**: an address that a saved lock blocks keeps its value. -/
lemma restored_eq (rvh : Bool) (h : ∀ k < 16, p.locked k = false) :
    (rule legal).restored rvh val p = savedCfg val fun k =>
      if (savedCfg val p.addr).blocked k = false then val (pmpaddr k) else p.addr k := by
  have h0 (k : ℕ) (hk : k < 8) : (byteOf p.cfg0 k).msb = false := by
    simpa [locked, cfg, hk, Nat.mod_eq_of_lt hk] using h k (by omega)
  have h2 (k : ℕ) (hk : k < 8) : (byteOf p.cfg2 k).msb = false := by
    simpa [locked, cfg, Nat.mod_eq_of_lt hk] using h (8 + k) (by omega)
  rw [Rule.restored, writes_filter (p := fun c => c ∈ pmpCsrs), order_filter, pmpCsrs, writes_cons,
    writes_cons]
  · have hcfg : (rule legal).write ((rule legal).write p pmpcfg0 (val pmpcfg0)) pmpcfg2
        (val pmpcfg2) = savedCfg val p.addr := by
      simp [rule, Entries.write, savedCfg, keepLocked_of_unlocked h0, keepLocked_of_unlocked h2,
        show pmpcfg2 ≠ pmpcfg0 by decide]
    rw [hcfg]
    refine (writes_addr (List.finRange 16)).trans ?_
    simp only [savedCfg, List.mem_finRange, true_and]
    congr
  · exact fun c s hc => write_of_not_mem (of_decide_eq_false hc) s _

/-! ### What is restored -/

variable {cfg : Cfg} {M : ℕ} {s : Sys M}

/-- **The entries that are restored**: on a host without locked entries, the CSRs of the sixteen
entries read as saved if and only if the address of every entry that a saved lock blocks was the
saved one from the start. -/
theorem entries_restored_iff (hE : (rule legal).Obeyed cfg.env) (hM : M ≤ 128) (h : AtEntry cfg s)
    {i : Fin M} (hlegal : ∀ c ∈ pmpCsrs, legal c (cfg.slotCsr (BitVec.ofNat 32 i) c))
    (h0 : ∀ k < 16, (ofFile (s.loc i).arch.csr).locked k = false) {w : List (Fin M)}
    (h2 : 2 ≤ stage ((run (harts cfg) s w).loc i).pc) :
    (∀ c ∈ pmpCsrs, ((run (harts cfg) s w).loc i).arch.csr c =
      cfg.slotCsr (BitVec.ofNat 32 i) c) ↔
      ∀ k, (ofFile (cfg.slotCsr (BitVec.ofNat 32 i))).blocked k = true →
        (s.loc i).arch.csr (pmpaddr k) = cfg.slotCsr (BitVec.ofNat 32 i) (pmpaddr k) := by
  have hshow := Rule.shows_run hM h hE (i := i) (fun c _ => hlegal c) (s := _) rfl h2
  rw [restored_eq _ h0] at hshow
  simp only [rule, ofFile, savedCfg, Entries.mk.injEq, funext_iff] at hshow
  obtain ⟨hcfg0, hcfg2, haddr⟩ := hshow
  have hblocked (k : Fin 16) (addr : Fin 16 → Word) :
      blocked ⟨cfg.slotCsr (BitVec.ofNat 32 i) pmpcfg0, cfg.slotCsr (BitVec.ofNat 32 i) pmpcfg2,
        addr⟩ k = (ofFile (cfg.slotCsr (BitVec.ofNat 32 i))).blocked k := rfl
  simp only [hblocked] at haddr
  simp only [pmpCsrs, List.forall_mem_cons, List.forall_mem_map, List.mem_finRange, true_implies,
    hcfg0, hcfg2, haddr, true_and]
  refine forall_congr' fun k => ?_
  by_cases hb : (ofFile (cfg.slotCsr (BitVec.ofNat 32 i))).blocked k = true <;> simp [hb]

/-! ### A run of one hart -/

def lockingCsrw (f : CsrFile) (c : CsrNum) (w : Word) : CsrFile := fun x =>
  let p := (ofFile f).write c w
  if x = pmpcfg0 then p.cfg0 else if x = pmpcfg2 then p.cfg2
  else match (List.finRange 16).find? fun k => pmpaddr k = x with
    | some k => p.addr k
    | none => if x = c then w else f x

lemma lockingCsrw_obeyed (ram : Word → Byte) :
    (rule fun _ _ => True).Obeyed (hostCfg lockingCsrw ram).env := by
  intro c _ w _ p f hf
  have hfind : ∀ k, (List.finRange 16).find? (fun j => pmpaddr j = pmpaddr k) = some k := by
    decide
  have haddr (k : Fin 16) : lockingCsrw f c w (pmpaddr k) = ((ofFile f).write c w).addr k := by
    simp [lockingCsrw, (pmpaddr_ne k).1, (pmpaddr_ne k).2, hfind]
  change ofFile (lockingCsrw f c w) = p.write c w
  rw [← show ofFile f = p from hf, ofFile]
  simp only [haddr]
  rfl

def lockedSlots (b : Word) (c : CsrNum) : Word :=
  if c = pmpcfg0 then b else if c = pmpaddr 0 then 1 else 0

theorem entries_restored_iff_small :
    ((run (harts (hostCfg lockingCsrw (slotRam (lockedSlots 0x18)))) (soloSys fun _ => 0)
      (List.replicate 400 0)).loc 0).arch.csr (pmpaddr 0) =
        (hostCfg lockingCsrw (slotRam (lockedSlots 0x18))).slotCsr (BitVec.ofNat 32 (0 : Fin 1))
          (pmpaddr 0) :=
  (entries_restored_iff (lockingCsrw_obeyed _) (by decide) (soloSys_atEntry _ _ _)
    (fun _ _ => trivial) (by decide) (by decide +kernel)).mpr
    (by decide +kernel) (pmpaddr 0) (by decide)

/-- The address of a locked entry is lost. -/
theorem not_entriesRestored_small :
    ¬ ∀ (legal : CsrNum → Word → Prop) (cfg : Cfg) (M : ℕ) (s : Sys M) (i : Fin M)
      (w : List (Fin M)), (rule legal).Obeyed cfg.env → M ≤ 128 → AtEntry cfg s →
      (∀ c ∈ pmpCsrs, legal c (cfg.slotCsr (BitVec.ofNat 32 i) c)) →
      (∀ k < 16, (ofFile (s.loc i).arch.csr).locked k = false) →
      2 ≤ stage ((run (harts cfg) s w).loc i).pc →
      ∀ c ∈ pmpCsrs, ((run (harts cfg) s w).loc i).arch.csr c =
        cfg.slotCsr (BitVec.ofNat 32 i) c := by
  intro h
  have hall := h (fun _ _ => True) (hostCfg lockingCsrw (slotRam (lockedSlots 0x98))) 1
    (soloSys fun _ => 0) 0 (List.replicate 400 0) (lockingCsrw_obeyed _) (by decide)
    (soloSys_atEntry _ _ _) (fun _ _ => trivial) (by decide)
    (by decide +kernel)
  have haddr := hall (pmpaddr 0) (by decide)
  revert haddr
  decide +kernel

end LibCheckpoint.Pmp
