import BareMetal.Machine.Pmp

/-!
# Sv39 address translation

The page-table walk of the privileged architecture, for the 39-bit scheme: three
levels of tables of 512 entries, leaves at any of them, and a page fault for
everything that is not a well-formed, permitted leaf.  Physical memory is a map
from the addresses of doublewords to their contents.

A walk only looks at one entry of each table, so it is determined by the
contents of the tables it visits.  `walk_of_pointer`, `walk_of_leaf` and
`walk_of_invalid` say what each kind of entry does to it; entries are given as
the C code of the labs makes them, a page number shifted by ten and the flags.
-/

namespace BareMetal
namespace Machine
namespace Sv39

/-- Physical memory by doublewords. -/
abbrev PhysMem := Nat → Word

/-- The state an access is made in: its mode, and `mstatus.SUM` and `MXR`. -/
structure Ctx where
  priv : Priv
  sum : Bool
  mxr : Bool

/-! ## Page-table entries -/

section Pte

variable (pte : Word)

def pteV : Bool := pte.getLsbD 0
def pteR : Bool := pte.getLsbD 1
def pteW : Bool := pte.getLsbD 2
def pteX : Bool := pte.getLsbD 3
def pteU : Bool := pte.getLsbD 4
def pteA : Bool := pte.getLsbD 6
def pteD : Bool := pte.getLsbD 7

/-- The physical page number (bits 53:10). -/
def ppn : Nat := pte.toNat / 2 ^ 10 % 2 ^ 44

/-- Not valid, an encoding that is reserved, or a reserved bit (63:54) set. -/
def malformed : Bool :=
  !pteV pte || (!pteR pte && pteW pte) || decide (pte.toNat / 2 ^ 54 ≠ 0)

def isLeaf : Bool :=
  pteR pte || pteX pte

/-- The leaf allows the access. -/
def permitted (c : Ctx) (access : Access) : Bool :=
  (match c.priv with
    | .user => pteU pte
    | _ => !pteU pte || (c.sum && decide (access ≠ .fetch))) &&
  (match access with
    | .load => pteR pte || (c.mxr && pteX pte)
    | .store => pteW pte
    | .fetch => pteX pte)

/-- The accessed bit is set, and for a store the dirty bit. -/
def accessed (access : Access) : Bool :=
  pteA pte && (pteD pte || decide (access ≠ .store))

end Pte

/-! ## The walk -/

/-- The page number of a virtual address at a level. -/
def vpn (va level : Nat) : Nat :=
  va / 2 ^ (12 + 9 * level) % 512

/-- Bits 63:38 are all the same. -/
def canonical (va : Nat) : Bool :=
  va < 2 ^ 38 || 2 ^ 64 - 2 ^ 38 ≤ va

/-- The translation by a leaf found at `level`. -/
def leafAddress (c : Ctx) (access : Access) (va level : Nat) (pte : Word) : Option Nat :=
  -- a superpage has to be aligned
  if ppn pte % 2 ^ (9 * level) ≠ 0 then none
  else if !permitted pte c access then none
  else if !accessed pte access then none
  else some (ppn pte / 2 ^ (9 * level) * 2 ^ (12 + 9 * level) + va % 2 ^ (12 + 9 * level))

/-- What an entry found at `level` does; `next` is the rest of the walk. -/
def visit (c : Ctx) (access : Access) (va level : Nat) (pte : Word) (next : Option Nat) :
    Option Nat :=
  if malformed pte then none
  else if isLeaf pte then leafAddress c access va level pte
  else next

/-- The walk from the table at `table`; `none` is a page fault. -/
def walk (m : PhysMem) (c : Ctx) (access : Access) (va : Nat) : Nat → Nat → Option Nat
  | 0, table => visit c access va 0 (m (table + 8 * vpn va 0)) none
  | level + 1, table =>
      let pte := m (table + 8 * vpn va (level + 1))
      visit c access va (level + 1) pte (walk m c access va level (ppn pte * 2 ^ 12))

/-- `satp.MODE` of Sv39. -/
def MODE_SV39 : Nat := 8

/-- The translation under a `satp` value.  Every other mode is `Bare` here. -/
def translate (m : PhysMem) (c : Ctx) (satp : Word) (access : Access) (va : Word) : Option Nat :=
  if satp.toNat / 2 ^ 60 = MODE_SV39 then
    if canonical va.toNat then
      walk m c access va.toNat 2 (satp.toNat % 2 ^ 44 * 2 ^ 12)
    else none
  else some va.toNat

/-! ## Entries as the labs write them -/

/-- An entry for the page at `pa`: `((pa >> 12) << 10) | flags`. -/
def mkPte (pa flags : Word) : Word :=
  ((pa >>> 12) <<< 10) ||| flags

/-- The address of a page in physical memory. -/
structure PageAt (pa : Word) : Prop where
  aligned : pa.toNat % 4096 = 0
  bound : pa.toNat < 2 ^ 56

section MkPte

variable {pa flags : Word}

theorem mkPte_toNat (hpa : PageAt pa) (hflags : flags.toNat < 2 ^ 10) :
    (mkPte pa flags).toNat = pa.toNat / 2 ^ 12 * 2 ^ 10 + flags.toNat := by
  have hbound := hpa.bound
  have hshift : pa.toNat >>> 12 <<< 10 % 2 ^ 64 = 2 ^ 10 * (pa.toNat / 2 ^ 12) := by
    rw [Nat.shiftRight_eq_div_pow, Nat.shiftLeft_eq, Nat.mul_comm]
    apply Nat.mod_eq_of_lt
    omega
  rw [mkPte, BitVec.toNat_or, BitVec.toNat_shiftLeft, BitVec.toNat_ushiftRight, hshift,
    ← Nat.two_pow_add_eq_or_of_lt hflags, Nat.mul_comm]

theorem mkPte_getLsbD {i : Nat} (hi : i < 10) : (mkPte pa flags).getLsbD i = flags.getLsbD i := by
  simp [mkPte, hi]

theorem ppn_mkPte (hpa : PageAt pa) (hflags : flags.toNat < 2 ^ 10) :
    ppn (mkPte pa flags) = pa.toNat / 2 ^ 12 := by
  have hbound := hpa.bound
  rw [ppn, mkPte_toNat hpa hflags]
  omega

theorem mkPte_reserved (hpa : PageAt pa) (hflags : flags.toNat < 2 ^ 10) :
    (mkPte pa flags).toNat / 2 ^ 54 = 0 := by
  have hbound := hpa.bound
  rw [mkPte_toNat hpa hflags]
  omega

/-- The shape of an entry is the shape of its flags. -/
theorem malformed_mkPte (hpa : PageAt pa) (hflags : flags.toNat < 2 ^ 10) :
    malformed (mkPte pa flags) = (!pteV flags || (!pteR flags && pteW flags)) := by
  simp only [malformed, pteV, pteR, pteW, mkPte_getLsbD (show 0 < 10 by omega),
    mkPte_getLsbD (show 1 < 10 by omega), mkPte_getLsbD (show 2 < 10 by omega),
    mkPte_reserved hpa hflags, ne_eq, not_true_eq_false, decide_false, Bool.or_false]

theorem isLeaf_mkPte : isLeaf (mkPte pa flags) = isLeaf flags := by
  simp only [isLeaf, pteR, pteX, mkPte_getLsbD (show 1 < 10 by omega),
    mkPte_getLsbD (show 3 < 10 by omega)]

theorem permitted_mkPte (c : Ctx) (access : Access) :
    permitted (mkPte pa flags) c access = permitted flags c access := by
  simp only [permitted, pteU, pteR, pteW, pteX, mkPte_getLsbD (show 1 < 10 by omega),
    mkPte_getLsbD (show 2 < 10 by omega), mkPte_getLsbD (show 3 < 10 by omega),
    mkPte_getLsbD (show 4 < 10 by omega)]

theorem accessed_mkPte (access : Access) :
    accessed (mkPte pa flags) access = accessed flags access := by
  simp only [accessed, pteA, pteD, mkPte_getLsbD (show 6 < 10 by omega),
    mkPte_getLsbD (show 7 < 10 by omega)]

end MkPte

/-! ## Flags -/

def PTE_V : Word := 0x001
def PTE_R : Word := 0x002
def PTE_W : Word := 0x004
def PTE_X : Word := 0x008
def PTE_A : Word := 0x040
def PTE_D : Word := 0x080

/-- An access from S-mode with `MXR` clear. -/
def supervisor (sum : Bool) : Ctx :=
  ⟨.supervisor, sum, false⟩

/-- A leaf of S-mode with all three permissions. -/
theorem permitted_rwx (sum : Bool) (access : Access) :
    permitted (PTE_V ||| PTE_R ||| PTE_W ||| PTE_X ||| PTE_A ||| PTE_D) (supervisor sum) access =
      true := by
  cases access <;> rfl

/-- A leaf of S-mode that can be read and written. -/
theorem permitted_rw (sum : Bool) (access : Access) :
    permitted (PTE_V ||| PTE_R ||| PTE_W ||| PTE_A ||| PTE_D) (supervisor sum) access =
      decide (access ≠ .fetch) := by
  cases access <;> rfl

/-! ## Tables -/

/-- The table at `table` holds the entries `f`. -/
def Entries (m : PhysMem) (table : Word) (f : Nat → Word) : Prop :=
  ∀ i < 512, m (table.toNat + 8 * i) = f i

/-- The C assignment `table[i] = pte`. -/
def setEntry (m : PhysMem) (table : Word) (i : Nat) (pte : Word) : PhysMem :=
  Function.update m (table.toNat + 8 * i) pte

section Tables

variable {m : PhysMem} {table other : Word} {f : Nat → Word}

theorem Entries.set_self (h : Entries m table f) (i : Nat) (pte : Word) :
    Entries (setEntry m table i pte) table (Function.update f i pte) := by
  intro j hj
  by_cases hij : j = i
  · subst hij
    rw [setEntry, Function.update_self, Function.update_self]
  · rw [setEntry, Function.update_of_ne (by omega), Function.update_of_ne hij, h j hj]

/-- An assignment to another table leaves this one alone. -/
theorem Entries.set_other (h : Entries m table f) (htable : PageAt table) (hother : PageAt other)
    (hne : table ≠ other) {i : Nat} (hi : i < 512) (pte : Word) :
    Entries (setEntry m other i pte) table f := by
  intro j hj
  have haligned := htable.aligned
  have haligned' := hother.aligned
  have hne' : table.toNat ≠ other.toNat := fun heq => hne (BitVec.eq_of_toNat_eq heq)
  rw [setEntry, Function.update_of_ne (by omega), h j hj]

end Tables

/-- An assignment to a table that is still to be made. -/
structure Assign where
  table : Word
  index : Nat
  pte : Word

/-- Make the assignments, in order. -/
def assignAll (m : PhysMem) (as : List Assign) : PhysMem :=
  as.foldl (fun m s => setEntry m s.table s.index s.pte) m

/-- What a table with the entries `f` holds after the assignments. -/
def entriesAfter (table : Word) (f : Nat → Word) (as : List Assign) : Nat → Word :=
  as.foldl (fun f s => if s.table = table then Function.update f s.index s.pte else f) f

section Assign

variable {m : PhysMem} {table : Word} {f : Nat → Word}

theorem Entries.assignAll (h : Entries m table f) (htable : PageAt table) {as : List Assign}
    (has : ∀ s ∈ as, PageAt s.table ∧ s.index < 512) :
    Entries (assignAll m as) table (entriesAfter table f as) := by
  induction as generalizing m f with
  | nil => exact h
  | cons s as ih =>
      obtain ⟨hs, hindex⟩ := has s (by simp)
      have hrest : ∀ t ∈ as, PageAt t.table ∧ t.index < 512 := fun t ht => has t (by simp [ht])
      rw [Sv39.assignAll, entriesAfter, List.foldl_cons, List.foldl_cons]
      by_cases hsame : s.table = table
      · rw [if_pos hsame, hsame]
        exact ih (h.set_self s.index s.pte) hrest
      · rw [if_neg hsame]
        exact ih (h.set_other htable hs (Ne.symm hsame) hindex s.pte) hrest

theorem entriesAfter_append (table : Word) (f : Nat → Word) (as bs : List Assign) :
    entriesAfter table f (as ++ bs) = entriesAfter table (entriesAfter table f as) bs :=
  List.foldl_append

/-- Assignments to other tables. -/
theorem entriesAfter_of_forall_ne {as : List Assign} (has : ∀ s ∈ as, s.table ≠ table) :
    entriesAfter table f as = f := by
  induction as with
  | nil => rfl
  | cons s as ih =>
      have hs : s.table ≠ table := has s (by simp)
      have hrest : ∀ t ∈ as, t.table ≠ table := fun t ht => has t (by simp [ht])
      rw [entriesAfter, List.foldl_cons, if_neg hs]
      exact ih hrest

/-- A loop that fills the first `n` entries. -/
theorem entriesAfter_range (g : Nat → Word) (n i : Nat) :
    entriesAfter table f ((List.range n).map fun j => ⟨table, j, g j⟩) i =
      if i < n then g i else f i := by
  induction n with
  | zero => rfl
  | succ n ih =>
      have hlast : ∀ e : Nat → Word,
          entriesAfter table e [⟨table, n, g n⟩] = Function.update e n (g n) :=
        fun e => if_pos rfl
      rw [List.range_succ, List.map_append, entriesAfter_append, List.map_singleton, hlast,
        Function.update_apply, ih]
      by_cases hi : i = n
      · rw [if_pos hi, if_pos (by omega), hi]
      · rw [if_neg hi]
        by_cases hlt : i < n
        · rw [if_pos hlt, if_pos (by omega)]
        · rw [if_neg hlt, if_neg (by omega)]

end Assign

/-! ## Rules for the walk -/

/-- Flags of an entry that points to the next table: `V` only. -/
def PointerFlags (flags : Word) : Prop :=
  flags.toNat < 2 ^ 10 ∧ pteV flags = true ∧ pteR flags = false ∧ pteW flags = false ∧
    pteX flags = false

/-- Flags of a leaf that can be read and has been accessed and written already. -/
def LeafFlags (flags : Word) : Prop :=
  flags.toNat < 2 ^ 10 ∧ pteV flags = true ∧ pteR flags = true ∧ pteA flags = true ∧
    pteD flags = true

instance : DecidablePred PointerFlags :=
  fun _ => inferInstanceAs (Decidable (_ ∧ _))

instance : DecidablePred LeafFlags :=
  fun _ => inferInstanceAs (Decidable (_ ∧ _))

section Walk

variable {m : PhysMem} {c : Ctx} {access : Access} {va : Nat} {table pa flags : Word}
variable {f : Nat → Word}

theorem visit_zero (level : Nat) (next : Option Nat) : visit c access va level 0 next = none := by
  rw [visit, if_pos (by decide)]

theorem visit_pointer (hpa : PageAt pa) (hflags : PointerFlags flags) (level : Nat)
    (next : Option Nat) : visit c access va level (mkPte pa flags) next = next := by
  obtain ⟨hbound, hv, hr, hw, hx⟩ := hflags
  have hwell : malformed (mkPte pa flags) = false := by
    rw [malformed_mkPte hpa hbound, hv, hr, hw]
    rfl
  have hpointer : isLeaf (mkPte pa flags) = false := by
    rw [isLeaf_mkPte, isLeaf, hr, hx]
    rfl
  rw [visit, hwell, hpointer]
  rfl

theorem visit_leaf (hpa : PageAt pa) (hflags : LeafFlags flags) {level : Nat}
    (halign : pa.toNat % 2 ^ (12 + 9 * level) = 0) (next : Option Nat) :
    visit c access va level (mkPte pa flags) next =
      if permitted flags c access then some (pa.toNat + va % 2 ^ (12 + 9 * level)) else none := by
  obtain ⟨hbound, hv, hr, ha, hd⟩ := hflags
  have hwell : malformed (mkPte pa flags) = false := by
    rw [malformed_mkPte hpa hbound, hv, hr]
    rfl
  have hleaf : isLeaf (mkPte pa flags) = true := by
    rw [isLeaf_mkPte, isLeaf, hr]
    rfl
  have haccessed : accessed (mkPte pa flags) access = true := by
    rw [accessed_mkPte, accessed, ha, hd]
    rfl
  obtain ⟨q, hq⟩ := Nat.dvd_of_mod_eq_zero halign
  have hpage : ppn (mkPte pa flags) = 2 ^ (9 * level) * q := by
    rw [ppn_mkPte hpa hbound, hq, pow_add, Nat.mul_assoc]
    exact Nat.mul_div_cancel_left _ (Nat.two_pow_pos 12)
  have hbase : ppn (mkPte pa flags) / 2 ^ (9 * level) * 2 ^ (12 + 9 * level) = pa.toNat := by
    rw [hpage, Nat.mul_div_cancel_left _ (Nat.two_pow_pos _), hq, Nat.mul_comm]
  rw [visit, hwell, hleaf, leafAddress, permitted_mkPte, haccessed, hbase, hpage]
  simp only [Nat.mul_mod_right, ne_eq, not_true_eq_false, if_false, Bool.not_true,
    Bool.false_eq_true, if_true]
  cases permitted flags c access <;> rfl

/-- A canonical address whose walk starts in the lower half of the root. -/
theorem div_of_canonical {va k : Nat} (hva : va < 2 ^ 64) (hcanonical : canonical va = true)
    (hk : k < 256) (hroot : vpn va 2 = k) : va / 2 ^ 30 = k := by
  have hvpn : va / 2 ^ 30 % 512 = k := hroot
  simp only [canonical, Bool.or_eq_true, decide_eq_true_eq] at hcanonical
  omega

theorem vpn_lt (va level : Nat) : vpn va level < 512 :=
  Nat.mod_lt _ (by omega)

/-- The walk looks at one entry of the table. -/
theorem walk_eq_visit (h : Entries m table f) (c : Ctx) (access : Access) (va level : Nat) :
    ∃ next, walk m c access va level table.toNat =
      visit c access va level (f (vpn va level)) next := by
  cases level with
  | zero => exact ⟨none, by rw [walk, h _ (vpn_lt va 0)]⟩
  | succ level => exact ⟨_, by rw [walk, h _ (vpn_lt va (level + 1))]⟩

theorem walk_of_invalid (h : Entries m table f) {level : Nat} (hf : f (vpn va level) = 0) :
    walk m c access va level table.toNat = none := by
  obtain ⟨next, hwalk⟩ := walk_eq_visit h c access va level
  rw [hwalk, hf, visit_zero]

/-- A pointer hands the walk on to the table it names. -/
theorem walk_of_pointer (h : Entries m table f) (hpa : PageAt pa) (hflags : PointerFlags flags)
    {level : Nat} (hf : f (vpn va (level + 1)) = mkPte pa flags) :
    walk m c access va (level + 1) table.toNat = walk m c access va level pa.toNat := by
  have hnext : ppn (mkPte pa flags) * 2 ^ 12 = pa.toNat := by
    have haligned := hpa.aligned
    rw [ppn_mkPte hpa hflags.1]
    omega
  rw [walk, h _ (vpn_lt va (level + 1)), hf, visit_pointer hpa hflags, hnext]

/-- A leaf translates to its page, if it permits the access. -/
theorem walk_of_leaf (h : Entries m table f) (hpa : PageAt pa) (hflags : LeafFlags flags)
    {level : Nat} (halign : pa.toNat % 2 ^ (12 + 9 * level) = 0)
    (hf : f (vpn va level) = mkPte pa flags) :
    walk m c access va level table.toNat =
      if permitted flags c access then some (pa.toNat + va % 2 ^ (12 + 9 * level)) else none := by
  obtain ⟨next, hwalk⟩ := walk_eq_visit h c access va level
  rw [hwalk, hf, visit_leaf hpa hflags halign]

/-- One entry in a table that is otherwise empty. -/
def single (i : Nat) (pte : Word) : Nat → Word :=
  Function.update (fun _ => 0) i pte

theorem single_of_ne {i j : Nat} (pte : Word) (h : j ≠ i) : single i pte j = 0 :=
  Function.update_of_ne h _ _

theorem walk_single_pointer {i : Nat} (h : Entries m table (single i (mkPte pa flags)))
    (hpa : PageAt pa) (hflags : PointerFlags flags) (level : Nat) :
    walk m c access va (level + 1) table.toNat =
      if vpn va (level + 1) = i then walk m c access va level pa.toNat else none := by
  split
  next hi => exact walk_of_pointer h hpa hflags (by rw [hi, single, Function.update_self])
  next hi => exact walk_of_invalid h (single_of_ne _ hi)

theorem walk_single_leaf {i : Nat} (h : Entries m table (single i (mkPte pa flags)))
    (hpa : PageAt pa) (hflags : LeafFlags flags) :
    walk m c access va 0 table.toNat =
      if vpn va 0 = i then
        if permitted flags c access then some (pa.toNat + va % 4096) else none
      else none := by
  split
  next hi =>
    exact walk_of_leaf h hpa hflags hpa.aligned (by rw [hi, single, Function.update_self])
  next hi => exact walk_of_invalid h (single_of_ne _ hi)

/-- The translation under a `satp` value made of the mode and an ASID in `high`
and the number of the root page. -/
theorem translate_of_satp {root high : Word} {va : Word} (hroot : PageAt root)
    (hmode : high.toNat / 2 ^ 60 = MODE_SV39) (hlow : high.toNat % 2 ^ 44 = 0) :
    translate m c (high ||| (root >>> 12)) access va =
      if canonical va.toNat then walk m c access va.toNat 2 root.toNat else none := by
  have hbound := hroot.bound
  have haligned := hroot.aligned
  have hsatp : (high ||| (root >>> 12)).toNat = high.toNat + root.toNat / 2 ^ 12 := by
    have hhigh : high.toNat = 2 ^ 44 * (high.toNat / 2 ^ 44) := by omega
    rw [BitVec.toNat_or, BitVec.toNat_ushiftRight, Nat.shiftRight_eq_div_pow, hhigh,
      ← Nat.two_pow_add_eq_or_of_lt (by omega)]
  have hmode' : (high ||| (root >>> 12)).toNat / 2 ^ 60 = MODE_SV39 := by
    rw [hsatp, ← hmode]
    omega
  have hppn : (high ||| (root >>> 12)).toNat % 2 ^ 44 * 2 ^ 12 = root.toNat := by
    rw [hsatp]
    omega
  rw [translate, if_pos hmode', hppn]

end Walk

end Sv39
end Machine
end BareMetal
