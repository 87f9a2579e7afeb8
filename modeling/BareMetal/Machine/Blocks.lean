import BareMetal.Machine.Hart

/-!
# Save and restore blocks

A trap handler saves a list of registers to fixed slots of one base register
and later reloads them.  Written as instruction lists these blocks are thirty
lines long; their effect is one function of the list.  The rules below give
that effect once, by induction on the list, so that no handler is executed
instruction by instruction.

The lookup rules are stated for a *slot table*: a list of registers whose
offsets are given by one function `slot`.  Loading needs no condition on the
table; saving needs the slots of different registers to differ.
-/

namespace BareMetal
namespace Machine

/-! ## What a fragment does not write -/

/-- The register an instruction writes. -/
def Instr.dst : Instr → Option Reg
  | .ld dst _ _ | .mv dst _ | .li dst _ | .la dst _ | .addi dst _ _ | .add dst _ _
  | .slli dst _ _ | .srli dst _ _ | .csrr dst _ | .csrrw dst _ _ | .rdtime dst
  | .rdcycle dst => some dst
  | .sd .. | .csrw .. | .csrs .. | .csrc .. => none

/-- The control and status register an instruction writes. -/
def Instr.csrDst : Instr → Option Csr
  | .csrw c _ | .csrs c _ | .csrc c _ | .csrrw _ c _ => some c
  | _ => none

theorem Instr.exec_regs_of_ne {i : Instr} {r : Reg} (hi : i.dst ≠ some r) (h : Hart) :
    (i.exec h).regs r = h.regs r := by
  have hne : ∀ q, i.dst = some q → r ≠ q := fun q hq hr => hi (hr ▸ hq)
  cases i with
  | sd | csrw | csrs | csrc => rfl
  | _ => exact Function.update_of_ne (hne _ rfl) _ _

theorem Instr.exec_csr_of_ne {i : Instr} {c : Csr} (hi : i.csrDst ≠ some c) (h : Hart) :
    (i.exec h).csr c = h.csr c := by
  have hne : ∀ q, i.csrDst = some q → c ≠ q := fun q hq hc => hi (hc ▸ hq)
  cases i with
  | csrw | csrs | csrc | csrrw => exact Function.update_of_ne (hne _ rfl) _ _
  | _ => rfl

/-- A register that no instruction of a fragment writes is the same behind it. -/
theorem run_keeps_reg {is : List Instr} {r : Reg} (his : ∀ i ∈ is, i.dst ≠ some r) (h : Hart) :
    (run is h).regs r = h.regs r := by
  induction is generalizing h with
  | nil => rfl
  | cons i is ih =>
      have hi : i.dst ≠ some r := his i (by simp)
      rw [run_cons, ih fun j hj => his j (by simp [hj]), Instr.exec_regs_of_ne hi]

/-- The same for control and status registers. -/
theorem run_keeps_csr {is : List Instr} {c : Csr} (his : ∀ i ∈ is, i.csrDst ≠ some c) (h : Hart) :
    (run is h).csr c = h.csr c := by
  induction is generalizing h with
  | nil => rfl
  | cons i is ih =>
      have hi : i.csrDst ≠ some c := his i (by simp)
      rw [run_cons, ih fun j hj => his j (by simp [hj]), Instr.exec_csr_of_ne hi]

/-! ## Blocks of stores and loads -/

/-- `sd r, off(base)` for every pair `(r, off)`, in order. -/
def sdAll (base : Reg) (ps : List (Reg × Nat)) : List Instr :=
  ps.map fun p => .sd p.1 p.2 base

/-- `ld r, off(base)` for every pair `(r, off)`, in order. -/
def ldAll (base : Reg) (ps : List (Reg × Nat)) : List Instr :=
  ps.map fun p => .ld p.1 p.2 base

/-- Memory after storing the listed registers relative to `base`. -/
def storeAll (regs : Reg → Word) (base : Word) : List (Reg × Nat) → Mem → Mem
  | [], m => m
  | p :: ps, m =>
      storeAll regs base ps (Function.update m (addr base p.2) (regs p.1))

/-- The register file after loading the listed registers relative to `base`. -/
def loadAll (m : Mem) (base : Word) :
    List (Reg × Nat) → (Reg → Word) → (Reg → Word)
  | [], regs => regs
  | p :: ps, regs =>
      loadAll m base ps (Function.update regs p.1 (m (addr base p.2)))

/-- A save block changes memory only, by `storeAll`. -/
theorem run_sdAll (base : Reg) (ps : List (Reg × Nat)) (h : Hart) :
    run (sdAll base ps) h =
      { h with mem := storeAll h.regs (h.regs base) ps h.mem } := by
  induction ps generalizing h with
  | nil => rfl
  | cons p ps ih =>
      change run (sdAll base ps)
        (h.store (addr (h.regs base) p.2) (h.regs p.1)) = _
      rw [ih]
      rfl

/-- A restore block that does not overwrite its base register changes the
register file only, by `loadAll`. -/
theorem run_ldAll (base : Reg) (ps : List (Reg × Nat)) (h : Hart)
    (hbase : ∀ p ∈ ps, p.1 ≠ base) :
    run (ldAll base ps) h =
      { h with regs := loadAll h.mem (h.regs base) ps h.regs } := by
  induction ps generalizing h with
  | nil => rfl
  | cons p ps ih =>
      have hp : p.1 ≠ base := hbase p (by simp)
      have hps : ∀ q ∈ ps, q.1 ≠ base := fun q hq => hbase q (by simp [hq])
      change run (ldAll base ps)
        (h.setReg p.1 (h.mem (addr (h.regs base) p.2))) = _
      rw [ih _ hps]
      simp only [Hart.setReg, Function.update_of_ne hp.symm]
      rfl

/-- A save block leaves every other address alone. -/
theorem storeAll_of_ne (regs : Reg → Word) (base : Word)
    (ps : List (Reg × Nat)) (m : Mem) (a : Word)
    (ha : ∀ p ∈ ps, a ≠ addr base p.2) :
    storeAll regs base ps m a = m a := by
  induction ps generalizing m with
  | nil => rfl
  | cons p ps ih =>
      have hp : a ≠ addr base p.2 := ha p (by simp)
      have hps : ∀ q ∈ ps, a ≠ addr base q.2 := fun q hq => ha q (by simp [hq])
      rw [storeAll, ih _ hps, Function.update_of_ne hp]

section SlotTable

variable (slot : Reg → Nat) (rs : List Reg)

/-- The pairs of a slot table. -/
def table : List (Reg × Nat) :=
  rs.map fun r => (r, slot r)

variable {slot rs}

theorem mem_table {p : Reg × Nat} : p ∈ table slot rs ↔ p.1 ∈ rs ∧ p.2 = slot p.1 := by
  constructor
  · intro hp
    obtain ⟨r, hr, rfl⟩ := List.mem_map.mp hp
    exact ⟨hr, rfl⟩
  · rintro ⟨hr, hoff⟩
    exact List.mem_map.mpr ⟨p.1, hr, by rw [← hoff]⟩

/-- Loading a slot table gives every listed register its own slot and leaves
the others alone. -/
theorem loadAll_table (m : Mem) (base : Word) (regs : Reg → Word) (r : Reg) :
    loadAll m base (table slot rs) regs r =
      if r ∈ rs then m (addr base (slot r)) else regs r := by
  induction rs generalizing regs with
  | nil => rfl
  | cons q rs ih =>
      change loadAll m base (table slot rs)
        (Function.update regs q (m (addr base (slot q)))) r = _
      rw [ih]
      by_cases hr : r ∈ rs
      · simp [hr]
      · by_cases hq : r = q
        · subst hq
          simp [hr]
        · simp [hr, hq]

/-- Saving a slot table puts every listed register into its own slot.  The
slots of the listed registers must be separate, or a later store would hit an
earlier one. -/
theorem storeAll_table (regs : Reg → Word) (base : Word) (m : Mem) {r : Reg} (hr : r ∈ rs)
    (hinj : ∀ q ∈ rs, slot q = slot r → q = r) (hbound : ∀ q ∈ rs, slot q < 2 ^ 64) :
    storeAll regs base (table slot rs) m (addr base (slot r)) = regs r := by
  have hr64 : slot r < 2 ^ 64 := hbound r hr
  induction rs generalizing m with
  | nil => simp at hr
  | cons q rs ih =>
      have hinj' : ∀ p ∈ rs, slot p = slot r → p = r :=
        fun p hp => hinj p (List.mem_cons_of_mem q hp)
      have hbound' : ∀ p ∈ rs, slot p < 2 ^ 64 :=
        fun p hp => hbound p (List.mem_cons_of_mem q hp)
      change storeAll regs base (table slot rs)
        (Function.update m (addr base (slot q)) (regs q)) _ = _
      by_cases hmem : r ∈ rs
      · exact ih _ hmem hinj' hbound'
      · have hq : r = q := by simpa [hmem] using hr
        subst hq
        rw [storeAll_of_ne, Function.update_self]
        intro p hp haddr
        obtain ⟨hp₁, hp₂⟩ := mem_table.mp hp
        rw [hp₂, addr_inj hr64 (hbound' _ hp₁)] at haddr
        exact hmem (hinj' p.1 hp₁ haddr.symm ▸ hp₁)

/-- Saving a slot table leaves every address outside the listed slots alone. -/
theorem storeAll_table_of_ne (regs : Reg → Word) (base : Word) (m : Mem) (a : Word)
    (ha : ∀ r ∈ rs, a ≠ addr base (slot r)) :
    storeAll regs base (table slot rs) m a = m a := by
  apply storeAll_of_ne
  intro p hp
  obtain ⟨hp₁, hp₂⟩ := mem_table.mp hp
  rw [hp₂]
  exact ha p.1 hp₁

end SlotTable

/-! ## Records through a scratch register -/

/-- What a handler records besides registers: a control and status register or
the cycle counter. -/
inductive Source
  | csr (c : Csr)
  | cycle
  deriving DecidableEq, Repr

/-- The instruction that reads the source. -/
def Source.load (dst : Reg) : Source → Instr
  | .csr c => .csrr dst c
  | .cycle => .rdcycle dst

/-- The value it reads. -/
def Source.read (h : Hart) : Source → Word
  | .csr c => h.csr c
  | .cycle => h.cycle

/-- Read every source into `tmp` and store it to its slot, in order. -/
def recordAll (tmp base : Reg) : List (Source × Nat) → List Instr
  | [] => []
  | p :: ps => p.1.load tmp :: .sd tmp p.2 base :: recordAll tmp base ps

/-- Memory after recording the listed sources relative to `base`. -/
def recordMem (read : Source → Word) (base : Word) : List (Source × Nat) → Mem → Mem
  | [], m => m
  | p :: ps, m => recordMem read base ps (Function.update m (addr base p.2) (read p.1))

/-- Recording changes the scratch register and the memory. -/
theorem run_recordAll {tmp base : Reg} (hne : base ≠ tmp) (ps : List (Source × Nat)) (h : Hart) :
    ∃ v, run (recordAll tmp base ps) h =
      { h with
        regs := Function.update h.regs tmp v
        mem := recordMem (Source.read h) (h.regs base) ps h.mem } := by
  induction ps generalizing h with
  | nil => exact ⟨h.regs tmp, by simp [recordAll, recordMem]⟩
  | cons p ps ih =>
      have hload : (p.1.load tmp).exec h = h.setReg tmp (Source.read h p.1) := by
        cases p.1 <;> rfl
      let stored := (h.setReg tmp (Source.read h p.1)).store (addr (h.regs base) p.2)
        (Source.read h p.1)
      have hstore : (Instr.sd tmp p.2 base).exec (h.setReg tmp (Source.read h p.1)) = stored := by
        simp [Instr.exec, hne, stored]
      have hread : Source.read stored = Source.read h := by
        funext s
        cases s <;> rfl
      have hbase : stored.regs base = h.regs base := Function.update_of_ne hne _ _
      obtain ⟨v, hv⟩ := ih stored
      refine ⟨v, ?_⟩
      rw [recordAll, run_cons, run_cons, hload, hstore, hv, hread, hbase, recordMem]
      simp [stored, Hart.store, Hart.setReg]

/-- Recording leaves every other address alone. -/
theorem recordMem_of_ne (read : Source → Word) (base : Word) (ps : List (Source × Nat)) (m : Mem)
    (a : Word) (ha : ∀ p ∈ ps, a ≠ addr base p.2) :
    recordMem read base ps m a = m a := by
  induction ps generalizing m with
  | nil => rfl
  | cons p ps ih =>
      have hp : a ≠ addr base p.2 := ha p (by simp)
      have hps : ∀ q ∈ ps, a ≠ addr base q.2 := fun q hq => ha q (by simp [hq])
      rw [recordMem, ih _ hps, Function.update_of_ne hp]

/-- Each record is at its own slot when no two records share one. -/
theorem recordMem_of_mem (read : Source → Word) (base : Word) {ps : List (Source × Nat)} (m : Mem)
    (hnodup : (ps.map Prod.snd).Nodup) (hbound : ∀ p ∈ ps, p.2 < 2 ^ 64) {p : Source × Nat}
    (hp : p ∈ ps) : recordMem read base ps m (addr base p.2) = read p.1 := by
  induction ps generalizing m with
  | nil => simp at hp
  | cons q ps ih =>
      rw [List.map_cons, List.nodup_cons] at hnodup
      obtain ⟨hfresh, hrest⟩ := hnodup
      rw [recordMem]
      rcases List.mem_cons.mp hp with rfl | hmem
      -- the record just made: the later ones go elsewhere
      · rw [recordMem_of_ne, Function.update_self]
        intro r hr haddr
        rw [addr_inj (hbound p (by simp)) (hbound r (by simp [hr]))] at haddr
        exact hfresh (List.mem_map.mpr ⟨r, hr, haddr.symm⟩)
      · exact ih _ hrest (fun r hr => hbound r (by simp [hr])) hmem

/-! ## Save areas indexed by register number -/

/-- Byte offset of `xk` in a save area whose word `k` belongs to `xk`. -/
def numOff (r : Reg) : Nat :=
  8 * r.num

theorem numOff_injective : Function.Injective numOff := by
  intro r r' h
  apply Reg.num_injective
  unfold numOff at h
  omega

theorem numOff_pos (r : Reg) : 8 ≤ numOff r := by
  have hr := r.num_pos
  unfold numOff
  omega

theorem numOff_lt (r : Reg) : numOff r < 256 := by
  have hr := r.num_lt
  unfold numOff
  omega

/-- `a` is one of the `n` doublewords from `base` on. -/
def InArea (base : Word) (n : Nat) (a : Word) : Prop :=
  ∃ i < n, a = addr base (8 * i)

instance (base : Word) (n : Nat) (a : Word) : Decidable (InArea base n a) :=
  inferInstanceAs (Decidable (∃ i < n, a = addr base (8 * i)))

theorem inArea_addr {base : Word} {n i off : Nat} (hi : i < n) (hoff : off = 8 * i) :
    InArea base n (addr base off) :=
  ⟨i, hi, by rw [hoff]⟩

theorem ne_addr_of_not_inArea {base a : Word} {n : Nat} (ha : ¬ InArea base n a)
    {i off : Nat} (hi : i < n) (hoff : off = 8 * i) : a ≠ addr base off := by
  rintro rfl
  exact ha (inArea_addr hi hoff)

/-- Storing to a doubleword of the area leaves every address outside alone. -/
theorem update_of_not_inArea {base a : Word} {n : Nat} (ha : ¬ InArea base n a)
    (m : Mem) (v : Word) {off : Nat} (hoff : off % 8 = 0 ∧ off < 8 * n) :
    Function.update m (addr base off) v a = m a :=
  Function.update_of_ne
    (ne_addr_of_not_inArea ha (i := off / 8) (by omega) (by omega)) _ _

theorem inArea_numOff (base : Word) {n : Nat} (hn : 32 ≤ n) (r : Reg) :
    InArea base n (addr base (numOff r)) :=
  inArea_addr (lt_of_lt_of_le r.num_lt hn) rfl

end Machine
end BareMetal
