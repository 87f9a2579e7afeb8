import BareMetal.SfenceVma.Hart
import BareMetal.SfenceVmaRs2Scoped

/-!
# The page tables of the sfence-vma labs

All three labs write their tables and canaries entry by entry, each entry once, so
what memory holds behind the construction is the list of the assignments
(`Holds`).  The identity window is the same in the three (`WindowAt`), and so is
the chain to a page under test (`LeafAt`); their macros and the identity entries
are those of `SfenceVmaRs2Scoped`.

`Seen` bounds what an access can see: the address itself in the window, and for a
load of a tested address one of the pages it may be mapped to.  `keeps_of_trees`
takes the bound from the assignments.
-/

namespace BareMetal
namespace SfenceVma

open Machine Sv39 SfenceVmaRs2Scoped

/-! ## Memory by assignments -/

/-- The doubleword that an assignment writes. -/
def slot (a : Assign) : Nat :=
  a.table.toNat + 8 * a.index

/-- Memory holds what the assignments say. -/
def Holds (m : PhysMem) (as : List Assign) : Prop :=
  ∀ a ∈ as, m (slot a) = a.pte

section Holds

variable {m : PhysMem} {as : List Assign}

theorem Holds.read (h : Holds m as) {table pte : Word} {index : Nat}
    (ha : ⟨table, index, pte⟩ ∈ as) : m (table.toNat + 8 * index) = pte :=
  h _ ha

theorem Holds.update_of_ne (h : Holds m as) {x : Nat} (hx : ∀ a ∈ as, slot a ≠ x) (v : Word) :
    Holds (Function.update m x v) as := by
  intro a ha
  rw [Function.update_of_ne (hx a ha)]
  exact h a ha

theorem assignAll_of_ne {x : Nat} (hx : ∀ a ∈ as, slot a ≠ x) : assignAll m as x = m x := by
  induction as generalizing m with
  | nil => rfl
  | cons a as ih =>
      rw [Sv39.assignAll, List.foldl_cons]
      change Sv39.assignAll (setEntry m a.table a.index a.pte) as x = m x
      rw [ih fun b hb => hx b (by simp [hb]), setEntry]
      exact Function.update_of_ne (hx a (by simp)).symm _ _

/-- Assignments to different doublewords. -/
theorem holds_assignAll (hslots : (as.map slot).Nodup) (m : PhysMem) :
    Holds (assignAll m as) as := by
  induction as generalizing m with
  | nil => exact fun a ha => absurd ha (by simp)
  | cons a as ih =>
      obtain ⟨hfirst, hrest⟩ := List.nodup_cons.mp hslots
      intro b hb
      rcases List.mem_cons.mp hb with rfl | hb
      · have hne : ∀ c ∈ as, slot c ≠ slot b := by
          intro c hc heq
          exact hfirst (List.mem_map.mpr ⟨c, hc, heq⟩)
        change assignAll (setEntry m b.table b.index b.pte) as (slot b) = b.pte
        rw [assignAll_of_ne hne]
        exact Function.update_self _ _ _
      · exact ih hrest _ b hb

/-- Assignments behind what memory holds elsewhere. -/
theorem Holds.assignAll_append {kept : List Assign} (h : Holds m kept)
    (hslots : ((kept ++ as).map slot).Nodup) : Holds (assignAll m as) (kept ++ as) := by
  rw [List.map_append, List.nodup_append] at hslots
  obtain ⟨-, has, hdisjoint⟩ := hslots
  intro a ha
  rcases List.mem_append.mp ha with ha | ha
  · have hne : ∀ b ∈ as, slot b ≠ slot a := by
      intro b hb heq
      exact hdisjoint _ (List.mem_map_of_mem ha) _ (List.mem_map_of_mem hb) heq.symm
    rw [assignAll_of_ne hne]
    exact h a ha
  · exact holds_assignAll has m a ha

/-- Assigning an entry again. -/
theorem Holds.reassign {pre post : List Assign} {a b : Assign} (h : Holds m (pre ++ a :: post))
    (hslots : ((pre ++ a :: post).map slot).Nodup) (hslot : slot b = slot a) :
    Holds (setEntry m b.table b.index b.pte) (pre ++ b :: post) := by
  rw [List.map_append, List.map_cons, List.nodup_middle, List.nodup_cons] at hslots
  have hother : ∀ c ∈ pre ++ post, slot c ≠ slot a := by
    intro c hc heq
    refine hslots.1 ?_
    rw [← List.map_append, ← heq]
    exact List.mem_map_of_mem hc
  intro c hc
  change Function.update m (slot b) b.pte (slot c) = c.pte
  rcases List.mem_append.mp hc with hc | hc
  · rw [hslot, Function.update_of_ne (hother c (by simp [hc]))]
    exact h c (by simp [hc])
  · rcases List.mem_cons.mp hc with rfl | hc
    · exact Function.update_self _ _ _
    · rw [hslot, Function.update_of_ne (hother c (by simp [hc]))]
      exact h c (by simp [hc])

/-- Entries of pages are different doublewords if they differ in the page or in the
index. -/
theorem slots_nodup (hpages : ∀ a ∈ as, PageAt a.table ∧ a.index < 512)
    (hentries : (as.map fun a => (a.table, a.index)).Nodup) : (as.map slot).Nodup := by
  have hdistinct : as.Nodup := List.Nodup.of_map _ hentries
  rw [List.nodup_map_iff_inj_on hdistinct] at hentries ⊢
  intro a ha b hb heq
  apply hentries a ha b hb
  obtain ⟨hpage, hindex⟩ := hpages a ha
  obtain ⟨hpage', hindex'⟩ := hpages b hb
  have haligned := hpage.aligned
  have haligned' := hpage'.aligned
  unfold slot at heq
  have htable : a.table = b.table := BitVec.eq_of_toNat_eq (by omega)
  rw [htable] at heq ⊢
  rw [show a.index = b.index by omega]

end Holds

/-! ## Entries -/

section Pte

variable {page flags : Word}

/-- The flags of an entry. -/
theorem mkPte_and {mask : Word} (hmask : mask.toNat < 2 ^ 10) :
    mkPte page flags &&& mask = flags &&& mask := by
  have hlow : ((page >>> 12) <<< 10) &&& mask = 0 := by
    apply BitVec.eq_of_getLsbD_eq
    intro i hi
    by_cases hlt : i < 10
    · simp [hlt]
    · have hbit : mask.getLsbD i = false := by
        apply Nat.testBit_lt_two_pow
        exact lt_of_lt_of_le hmask (Nat.pow_le_pow_right (by omega) (by omega))
      simp [hbit]
  rw [mkPte, BitVec.and_or_distrib_right, hlow]
  exact BitVec.zero_or

/-- The alignment check of the labs. -/
theorem page_aligned (hpage : PageAt page) : page &&& 0xFFF = 0 := by
  apply BitVec.eq_of_toNat_eq
  rw [BitVec.toNat_and, show (0xFFF : Word).toNat = 2 ^ 12 - 1 by decide,
    Nat.and_two_pow_sub_one_eq_mod]
  exact hpage.aligned

/-- `SATP_PPN_MASK`, and the mask for the page number of an entry. -/
def PPN_MASK : Word := 0xFFFFFFFFFFF

theorem and_ppn_mask (w : Word) : (w &&& PPN_MASK).toNat = w.toNat % 2 ^ 44 := by
  rw [BitVec.toNat_and, show PPN_MASK.toNat = 2 ^ 44 - 1 by decide, Nat.and_two_pow_sub_one_eq_mod]

/-- The page number of an entry. -/
theorem mkPte_page (hpage : PageAt page) (hflags : flags.toNat < 2 ^ 10) :
    (mkPte page flags >>> 10) &&& PPN_MASK = page >>> 12 := by
  have hbound := hpage.bound
  apply BitVec.eq_of_toNat_eq
  rw [and_ppn_mask, BitVec.toNat_ushiftRight, mkPte_toNat hpage hflags, BitVec.toNat_ushiftRight,
    Nat.shiftRight_eq_div_pow, Nat.shiftRight_eq_div_pow]
  omega

/-- The fields of a `satp` value made of a mode, an ASID and a root. -/
theorem satp_fields {high root : Word} (hroot : PageAt root) (hlow : high.toNat % 2 ^ 44 = 0) :
    (high ||| (root >>> 12)).toNat = high.toNat + root.toNat / 2 ^ 12 ∧
      (high ||| (root >>> 12)) &&& PPN_MASK = root >>> 12 := by
  have hbound := hroot.bound
  have hsum : (high ||| (root >>> 12)).toNat = high.toNat + root.toNat / 2 ^ 12 := by
    have hhigh : high.toNat = 2 ^ 44 * (high.toNat / 2 ^ 44) := by omega
    rw [BitVec.toNat_or, BitVec.toNat_ushiftRight, Nat.shiftRight_eq_div_pow, hhigh,
      ← Nat.two_pow_add_eq_or_of_lt (by omega)]
  refine ⟨hsum, BitVec.eq_of_toNat_eq ?_⟩
  rw [and_ppn_mask, hsum, BitVec.toNat_ushiftRight, Nat.shiftRight_eq_div_pow]
  omega

theorem satp_mode {high root : Word} (hroot : PageAt root) (hlow : high.toNat % 2 ^ 44 = 0) :
    (high ||| (root >>> 12)) >>> 60 = high >>> 60 := by
  have hbound := hroot.bound
  apply BitVec.eq_of_toNat_eq
  rw [BitVec.toNat_ushiftRight, BitVec.toNat_ushiftRight, (satp_fields hroot hlow).1,
    Nat.shiftRight_eq_div_pow, Nat.shiftRight_eq_div_pow]
  omega

theorem asidOf_satp {high root : Word} (hroot : PageAt root) (hlow : high.toNat % 2 ^ 44 = 0) :
    asidOf (high ||| (root >>> 12)) = high.toNat / 2 ^ 44 % 2 ^ 16 := by
  have hbound := hroot.bound
  rw [asidOf, (satp_fields hroot hlow).1]
  omega

end Pte

/-! ## Walks -/

/-- The identity window `[0x80000000, 0x80080000)`. -/
def InWindow (va : Word) : Prop :=
  0x80000000 ≤ va.toNat ∧ va.toNat < 0x80080000

/-- The tables of the identity window, below a root. -/
def windowTables (root l1Id l0Id : Word) : List Assign :=
  [⟨root, 2, mkPte l1Id PTE_V⟩, ⟨l1Id, 0, mkPte l0Id PTE_V⟩] ++
    (List.range MAP_PAGES).map fun i => ⟨l0Id, i, identPte i⟩

/-- The tables of a page under test, below entry `index` of a root. -/
def leafTables (root : Word) (index : Nat) (l1 l0 page : Word) : List Assign :=
  [⟨root, index, mkPte l1 PTE_V⟩, ⟨l1, 0, mkPte l0 PTE_V⟩, ⟨l0, 0, mkPte page PTE_LEAF_RW⟩]

section Walk

variable {m : PhysMem} {root l1 l0 page flags high : Word} {va : Word}

/-- A walk that reads two pointers and a leaf of a 4 KiB page. -/
theorem translate_of_reads (hflags : LeafFlags flags) (hroot : PageAt root) (hl1 : PageAt l1)
    (hl0 : PageAt l0) (hpage : PageAt page) (hmode : high.toNat / 2 ^ 60 = MODE_SV39)
    (hlow : high.toNat % 2 ^ 44 = 0) (hcanonical : canonical va.toNat = true)
    (h2 : m (root.toNat + 8 * vpn va.toNat 2) = mkPte l1 PTE_V)
    (h1 : m (l1.toNat + 8 * vpn va.toNat 1) = mkPte l0 PTE_V)
    (h0 : m (l0.toNat + 8 * vpn va.toNat 0) = mkPte page flags) (c : Ctx) (access : Access) :
    translate m c (high ||| (root >>> 12)) access va =
      if permitted flags c access then some (page.toNat + va.toNat % 4096) else none := by
  have hentries : ∀ table : Word, Entries m table fun i => m (table.toNat + 8 * i) :=
    fun _ _ _ => rfl
  rw [translate_of_satp hroot hmode hlow, if_pos hcanonical,
    walk_of_pointer (hentries root) hl1 (by decide) h2,
    walk_of_pointer (hentries l1) hl0 (by decide) h1,
    walk_of_leaf (hentries l0) hpage hflags hpage.aligned h0]
  rfl

theorem leafFlags_rwx : LeafFlags (PTE_V ||| PTE_R ||| PTE_W ||| PTE_X ||| PTE_A ||| PTE_D) := by
  decide

theorem leafFlags_rw : LeafFlags PTE_LEAF_RW := by
  decide

theorem permitted_rwx_supervisor (sum mxr : Bool) (access : Access) :
    permitted (PTE_V ||| PTE_R ||| PTE_W ||| PTE_X ||| PTE_A ||| PTE_D) ⟨.supervisor, sum, mxr⟩
      access = true := by
  cases access <;> rfl

/-- The window is mapped to itself for every access. -/
theorem translate_window (l1Id l0Id : Word) (hroot : PageAt root) (hl1 : PageAt l1Id)
    (hl0 : PageAt l0Id) (hmode : high.toNat / 2 ^ 60 = MODE_SV39) (hlow : high.toNat % 2 ^ 44 = 0)
    (hm : Holds m (windowTables root l1Id l0Id)) (hva : InWindow va) (sum mxr : Bool)
    (access : Access) :
    translate m ⟨.supervisor, sum, mxr⟩ (high ||| (root >>> 12)) access va = some va.toNat := by
  obtain ⟨hlo, hhi⟩ := hva
  have hvpn : vpn va.toNat 2 = 2 ∧ vpn va.toNat 1 = 0 ∧
      vpn va.toNat 0 = (va.toNat - 0x80000000) / 4096 := by
    simp only [vpn]
    omega
  have hindex : vpn va.toNat 0 < MAP_PAGES := by
    unfold MAP_PAGES
    omega
  have hcanonical : canonical va.toNat = true := by
    simp only [canonical, Bool.or_eq_true, decide_eq_true_eq]
    omega
  have h2 : m (root.toNat + 8 * 2) = mkPte l1Id PTE_V := hm.read (by simp [windowTables])
  have h1 : m (l1Id.toNat + 8 * 0) = mkPte l0Id PTE_V := hm.read (by simp [windowTables])
  have h0 : m (l0Id.toNat + 8 * vpn va.toNat 0) = identPte (vpn va.toNat 0) :=
    hm.read (by simp [windowTables, hindex])
  rw [translate_of_reads leafFlags_rwx hroot hl1 hl0 (identPage_pageAt hindex) hmode hlow hcanonical
    (by rw [hvpn.1]; exact h2) (by rw [hvpn.2.1]; exact h1)
    (by rw [← identPte_eq hindex]; exact h0), permitted_rwx_supervisor, if_pos rfl, identPage_toNat hindex, hvpn.2.2]
  congr 1
  omega

/-- A load of the tested address goes to its page. -/
theorem translate_leaf (index : Nat) (l1 l0 : Word) (hroot : PageAt root) (hl1 : PageAt l1)
    (hl0 : PageAt l0) (hpage : PageAt page) (hmode : high.toNat / 2 ^ 60 = MODE_SV39)
    (hlow : high.toNat % 2 ^ 44 = 0) (hm : Holds m (leafTables root index l1 l0 page))
    (hindex : index < 256) (hva : va.toNat = 2 ^ 30 * index) (sum mxr : Bool) :
    translate m ⟨.supervisor, sum, mxr⟩ (high ||| (root >>> 12)) .load va = some page.toNat := by
  have hvpn : vpn va.toNat 2 = index ∧ vpn va.toNat 1 = 0 ∧ vpn va.toNat 0 = 0 := by
    simp only [vpn]
    omega
  have hcanonical : canonical va.toNat = true := by
    simp only [canonical, Bool.or_eq_true, decide_eq_true_eq]
    omega
  have h2 : m (root.toNat + 8 * index) = mkPte l1 PTE_V := hm.read (by simp [leafTables])
  have h1 : m (l1.toNat + 8 * 0) = mkPte l0 PTE_V := hm.read (by simp [leafTables])
  have h0 : m (l0.toNat + 8 * 0) = mkPte page PTE_LEAF_RW := hm.read (by simp [leafTables])
  have hpermitted : permitted PTE_LEAF_RW ⟨.supervisor, sum, mxr⟩ .load = true := rfl
  rw [translate_of_reads leafFlags_rw hroot hl1 hl0 hpage hmode hlow hcanonical
    (by rw [hvpn.1]; exact h2) (by rw [hvpn.2.1]; exact h1) (by rw [hvpn.2.2]; exact h0),
    hpermitted, if_pos rfl]
  congr 1
  omega

end Walk

/-! ## What can be seen -/

/-- What an access can see: the identity in the window, and one of the `pages` of a
tested address. -/
structure Seen (pages : Nat → Word → Option (List Word)) (k : Key) (v : Option Nat) : Prop where
  window : InWindow k.va → v = some k.va.toNat
  tested : k.access = .load → ∀ ps, pages k.asid k.va = some ps → ∃ p ∈ ps, v = some p.toNat

/-- Assignments that keep the window of a root, and for each tested address the tables of
a page it may be mapped to, bound what walks find. -/
theorem keeps_of_trees {Fn X : Type} [DecidableEq X] {as : List Assign} {root high : Word}
    {pages : Nat → Word → Option (List Word)} (l1Id l0Id : Word) (hroot : PageAt root)
    (hl1 : PageAt l1Id) (hl0 : PageAt l0Id) (hmode : high.toNat / 2 ^ 60 = MODE_SV39)
    (hlow : high.toNat % 2 ^ 44 = 0) (hwindow : ∀ a ∈ windowTables root l1Id l0Id, a ∈ as)
    (htested : ∀ asid va ps, pages asid va = some ps →
      ∃ index l1 l0 page, page ∈ ps ∧ index < 256 ∧ va.toNat = 2 ^ 30 * index ∧
        (∀ p ∈ [l1, l0, page], PageAt p) ∧ ∀ a ∈ leafTables root index l1 l0 page, a ∈ as) :
    Keeps Fn X (fun m => Holds m as) (high ||| (root >>> 12)) (Seen pages) := by
  intro c hm hsatp k v hwalk
  obtain ⟨-, hv⟩ := hwalk
  rw [hsatp] at hv
  constructor
  · intro hva
    rw [← hv]
    exact translate_window l1Id l0Id hroot hl1 hl0 hmode hlow (fun a ha => hm a (hwindow a ha)) hva
      _ _ _
  · intro haccess ps hps
    obtain ⟨index, l1, l0, page, hpage, hindex, hva, hat, hleaf⟩ := htested _ _ ps hps
    refine ⟨page, hpage, ?_⟩
    rw [← hv, haccess]
    exact translate_leaf index l1 l0 hroot (hat l1 (by simp)) (hat l0 (by simp))
      (hat page (by simp)) hmode hlow (fun a ha => hm a (hleaf a ha)) hindex hva _ _

end SfenceVma
end BareMetal
