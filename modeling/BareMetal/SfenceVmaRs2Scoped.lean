import BareMetal.Machine.Sv39

/-!
# The two table trees of the sfence-vma-rs2-scoped lab

`main`, `mid_to_B` and `mid_to_C` of `src/sfence-vma-rs2-scoped/srs2_main.c`: two
roots that map the same test page to different frames and share the subtree of
their identity window, and the rewrite of the two test leaves.

Both trees are one shape (`Tree`) with different tables.  `Tree.translate` gives
its map, so that whatever the two roots disagree about is in the test page.
-/

namespace BareMetal
namespace SfenceVmaRs2Scoped

open Machine Sv39

def TEST_VA : Nat := 0x40000000
def TEST_VPN2 : Nat := 1
def MAP_PAGES : Nat := 128
def MAP_BASE : Word := 0x80000000

def PTE_LEAF_RW : Word := PTE_V ||| PTE_R ||| PTE_W ||| PTE_A ||| PTE_D

def SATP_MODE_SV39 : Word := 8 <<< 60
def SATP_ASID1 : Word := 1 <<< 44
def SATP_ASID2 : Word := 2 <<< 44

/-- Where the linker put the table pages and the backing pages. -/
structure Layout where
  root1 : Word
  l1a : Word
  l0a : Word
  root2 : Word
  l1b : Word
  l0b : Word
  l1Id : Word
  l0Id : Word
  scratch1 : Word
  scratch2 : Word
  scratch3 : Word
  scratch4 : Word

namespace Layout

variable (L : Layout)

def tables : List Word :=
  [L.root1, L.l1a, L.l0a, L.root2, L.l1b, L.l0b, L.l1Id, L.l0Id]

def scratch : List Word :=
  [L.scratch1, L.scratch2, L.scratch3, L.scratch4]

/-- Twelve different pages of physical memory. -/
structure Placed : Prop where
  page : ∀ p ∈ L.tables ++ L.scratch, PageAt p
  distinct : (L.tables ++ L.scratch).Nodup

/-- The tables are still as BSS clearing left them. -/
def Cleared (m : PhysMem) : Prop :=
  ∀ p ∈ L.tables, Entries m p fun _ => 0

end Layout

/-- Entry `i` of the identity window. -/
def identPte (i : Nat) : Word :=
  (((MAP_BASE >>> 12) + BitVec.ofNat 64 i) <<< 10) |||
    (PTE_V ||| PTE_R ||| PTE_W ||| PTE_X ||| PTE_A ||| PTE_D)

/-- The single assignments of the table construction in `main`. -/
def pointerConstruction (L : Layout) : List Assign :=
  [⟨L.root1, TEST_VPN2, mkPte L.l1a PTE_V⟩,
   ⟨L.l1a, 0, mkPte L.l0a PTE_V⟩,
   ⟨L.l0a, 0, mkPte L.scratch1 PTE_LEAF_RW⟩,
   ⟨L.root2, TEST_VPN2, mkPte L.l1b PTE_V⟩,
   ⟨L.l1b, 0, mkPte L.l0b PTE_V⟩,
   ⟨L.l0b, 0, mkPte L.scratch2 PTE_LEAF_RW⟩,
   ⟨L.root1, 2, mkPte L.l1Id PTE_V⟩,
   ⟨L.root2, 2, mkPte L.l1Id PTE_V⟩,
   ⟨L.l1Id, 0, mkPte L.l0Id PTE_V⟩]

/-- The table construction of `main`: the single assignments and the loop. -/
def tableConstruction (L : Layout) : List Assign :=
  pointerConstruction L ++ (List.range MAP_PAGES).map fun i => ⟨L.l0Id, i, identPte i⟩

/-- The rewrite of the two leaves in `mid_to_C`. -/
def midToC (L : Layout) : List Assign :=
  [⟨L.l0a, 0, mkPte L.scratch3 PTE_LEAF_RW⟩,
   ⟨L.l0b, 0, mkPte L.scratch4 PTE_LEAF_RW⟩]

/-- The `satp` value of `main`. -/
def satp1 (L : Layout) : Word :=
  SATP_MODE_SV39 ||| SATP_ASID1 ||| (L.root1 >>> 12)

/-- The `satp` value of `mid_to_B`. -/
def satp2 (L : Layout) : Word :=
  SATP_MODE_SV39 ||| SATP_ASID2 ||| (L.root2 >>> 12)

/-! ## One tree -/

/-- The entries of a root: the test chain and the shared identity chain. -/
def rootEntries (l1 l1Id : Word) : Nat → Word :=
  Function.update (single TEST_VPN2 (mkPte l1 PTE_V)) 2 (mkPte l1Id PTE_V)

/-- The entries of the shared identity table. -/
def identEntries : Nat → Word :=
  fun i => if i < MAP_PAGES then identPte i else 0

/-- A tree of the lab: a chain to the test leaf, and the shared identity window. -/
structure Tree (L : Layout) (m : PhysMem) (root l1 l0 leaf : Word) : Prop where
  rootAt : PageAt root
  l1At : PageAt l1
  l0At : PageAt l0
  leafAt : PageAt leaf
  l1IdAt : PageAt L.l1Id
  l0IdAt : PageAt L.l0Id
  root : Entries m root (rootEntries l1 L.l1Id)
  l1 : Entries m l1 (single 0 (mkPte l0 PTE_V))
  l0 : Entries m l0 (single 0 (mkPte leaf PTE_LEAF_RW))
  l1Id : Entries m L.l1Id (single 0 (mkPte L.l0Id PTE_V))
  l0Id : Entries m L.l0Id identEntries

/-- The map of a tree whose test leaf is `leaf`. -/
def treeMap (leaf : Word) (access : Access) (va : Nat) : Option Nat :=
  if TEST_VA ≤ va ∧ va < TEST_VA + 4096 then
    if access = .fetch then none else some (leaf.toNat + (va - TEST_VA))
  else if 0x80000000 ≤ va ∧ va < 0x80080000 then some va
  else none

/-- The address of page `i` of the identity window. -/
def identPage (i : Nat) : Word :=
  MAP_BASE + BitVec.ofNat 64 (4096 * i)

theorem identPage_toNat {i : Nat} (hi : i < MAP_PAGES) :
    (identPage i).toNat = 0x80000000 + 4096 * i := by
  have hbase : MAP_BASE.toNat = 0x80000000 := by decide
  unfold MAP_PAGES at hi
  rw [identPage, BitVec.toNat_add, hbase, BitVec.toNat_ofNat]
  omega

theorem identPage_pageAt {i : Nat} (hi : i < MAP_PAGES) : PageAt (identPage i) := by
  have hpage := identPage_toNat hi
  unfold MAP_PAGES at hi
  refine ⟨?_, ?_⟩ <;> omega

theorem identPte_eq {i : Nat} (hi : i < MAP_PAGES) :
    identPte i =
      mkPte (identPage i) (PTE_V ||| PTE_R ||| PTE_W ||| PTE_X ||| PTE_A ||| PTE_D) := by
  have hnumber : (MAP_BASE >>> 12) + BitVec.ofNat 64 i = identPage i >>> 12 := by
    apply BitVec.eq_of_toNat_eq
    have hbase : (MAP_BASE >>> 12).toNat = 0x80000 := by decide
    rw [BitVec.toNat_add, hbase, BitVec.toNat_ushiftRight, identPage_toNat hi,
      Nat.shiftRight_eq_div_pow, BitVec.toNat_ofNat]
    unfold MAP_PAGES at hi
    omega
  rw [identPte, mkPte, hnumber]

section Tree

variable {L : Layout} {m : PhysMem} {root l1 l0 leaf : Word} (ht : Tree L m root l1 l0 leaf)
variable (sum : Bool) (access : Access) {va : Nat}

include ht

theorem walk_test (hroot : vpn va 2 = 1) :
    walk m (supervisor sum) access va 2 root.toNat =
      if vpn va 1 = 0 ∧ vpn va 0 = 0 then
        if access = .fetch then none else some (leaf.toNat + va % 4096)
      else none := by
  have hentry : rootEntries l1 L.l1Id (vpn va 2) = mkPte l1 PTE_V := by
    rw [hroot]
    rfl
  rw [walk_of_pointer ht.root ht.l1At (by decide) hentry,
    walk_single_pointer ht.l1 ht.l0At (by decide), walk_single_leaf ht.l0 ht.leafAt (by decide),
    PTE_LEAF_RW, permitted_rw]
  by_cases h1 : vpn va 1 = 0 <;> by_cases h0 : vpn va 0 = 0 <;> simp [h1, h0]

theorem walk_ident (hroot : vpn va 2 = 2) :
    walk m (supervisor sum) access va 2 root.toNat =
      if vpn va 1 = 0 ∧ vpn va 0 < MAP_PAGES then
        some (0x80000000 + 4096 * vpn va 0 + va % 4096)
      else none := by
  have hentry : rootEntries l1 L.l1Id (vpn va 2) = mkPte L.l1Id PTE_V := by
    rw [hroot]
    rfl
  rw [walk_of_pointer ht.root ht.l1IdAt (by decide) hentry,
    walk_single_pointer ht.l1Id ht.l0IdAt (by decide)]
  by_cases h0 : vpn va 0 < MAP_PAGES
  · have hpte : identEntries (vpn va 0) = mkPte (identPage (vpn va 0))
        (PTE_V ||| PTE_R ||| PTE_W ||| PTE_X ||| PTE_A ||| PTE_D) := by
      rw [identEntries, if_pos h0, identPte_eq h0]
    rw [walk_of_leaf ht.l0Id (identPage_pageAt h0) (by decide) (identPage_pageAt h0).aligned hpte,
      permitted_rwx, identPage_toNat h0]
    simp [h0]
  · have hpte : identEntries (vpn va 0) = 0 := by rw [identEntries, if_neg h0]
    rw [walk_of_invalid ht.l0Id hpte]
    simp [h0]

theorem walk_elsewhere (hone : vpn va 2 ≠ 1) (htwo : vpn va 2 ≠ 2) :
    walk m (supervisor sum) access va 2 root.toNat = none := by
  apply walk_of_invalid ht.root
  rw [rootEntries, Function.update_of_ne htwo]
  exact single_of_ne _ hone

/-- The map of a tree, for every address. -/
theorem Tree.translate {high : Word} (hmode : high.toNat / 2 ^ 60 = MODE_SV39)
    (hlow : high.toNat % 2 ^ 44 = 0) (va : Word) :
    translate m (supervisor sum) (high ||| (root >>> 12)) access va =
      treeMap leaf access va.toNat := by
  have hva : va.toNat < 2 ^ 64 := va.isLt
  rw [translate_of_satp ht.rootAt hmode hlow]
  generalize va.toNat = n at hva
  have hvpn0 : vpn n 0 = n / 2 ^ 12 % 512 := rfl
  have hvpn1 : vpn n 1 = n / 2 ^ 21 % 512 := rfl
  have hvpn2 : vpn n 2 = n / 2 ^ 30 % 512 := rfl
  unfold treeMap TEST_VA
  by_cases hcanonical : canonical n = true
  · rw [if_pos hcanonical]
    by_cases hone : vpn n 2 = 1
    · have hn := div_of_canonical hva hcanonical (by omega) hone
      have hpage : (vpn n 1 = 0 ∧ vpn n 0 = 0) ↔
          0x40000000 ≤ n ∧ n < 0x40000000 + 4096 := by omega
      have hident : ¬ (0x80000000 ≤ n ∧ n < 0x80080000) := by omega
      rw [walk_test ht sum access hone, if_neg hident]
      simp only [hpage]
      split
      next hin =>
        have hoff : n % 4096 = n - 0x40000000 := by omega
        rw [hoff]
      next => rfl
    · by_cases htwo : vpn n 2 = 2
      · have hn := div_of_canonical hva hcanonical (by omega) htwo
        have hwindow : (vpn n 1 = 0 ∧ vpn n 0 < MAP_PAGES) ↔
            0x80000000 ≤ n ∧ n < 0x80080000 := by
          unfold MAP_PAGES
          omega
        have htest : ¬ (0x40000000 ≤ n ∧ n < 0x40000000 + 4096) := by omega
        rw [walk_ident ht sum access htwo, if_neg htest]
        simp only [hwindow]
        split
        next hin =>
          have hident : 0x80000000 + 4096 * vpn n 0 + n % 4096 = n := by omega
          rw [hident]
        next => rfl
      · rw [walk_elsewhere ht sum access hone htwo, if_neg (by omega), if_neg (by omega)]
  · rw [if_neg hcanonical]
    simp only [canonical, Bool.or_eq_true, decide_eq_true_eq, not_or] at hcanonical
    rw [if_neg (by omega), if_neg (by omega)]

end Tree

/-! ## Both trees -/

section Built

variable {L : Layout} {m : PhysMem}

theorem placed_pageAt (hL : L.Placed) {p : Word} (hp : p ∈ L.tables) : PageAt p :=
  hL.page p (List.mem_append_left _ hp)

theorem tableConstruction_assigns (hL : L.Placed) :
    ∀ s ∈ tableConstruction L, PageAt s.table ∧ s.index < 512 := by
  have hpage : ∀ p ∈ L.tables, PageAt p := fun p hp => placed_pageAt hL hp
  intro s hs
  rcases List.mem_append.mp hs with hs | hs
  · simp only [pointerConstruction, List.mem_cons, List.not_mem_nil, or_false] at hs
    rcases hs with rfl | rfl | rfl | rfl | rfl | rfl | rfl | rfl | rfl <;>
      exact ⟨hpage _ (by simp [Layout.tables]), by simp [TEST_VPN2]⟩
  · obtain ⟨i, hi, rfl⟩ := List.mem_map.mp hs
    have hbound : i < 128 := List.mem_range.mp hi
    exact ⟨hpage _ (by simp [Layout.tables]), by simp only; omega⟩

/-- Every table but the identity table is made by the single assignments. -/
theorem entriesAfter_tableConstruction {table : Word} (hne : table ≠ L.l0Id) :
    entriesAfter table (fun _ => 0) (tableConstruction L) =
      entriesAfter table (fun _ => 0) (pointerConstruction L) := by
  rw [tableConstruction, entriesAfter_append]
  apply entriesAfter_of_forall_ne
  intro s hs
  obtain ⟨i, -, rfl⟩ := List.mem_map.mp hs
  exact hne.symm

/-- The tables of both trees, with the test leaves `leaf1` and `leaf2`. -/
structure Built (L : Layout) (m : PhysMem) (leaf1 leaf2 : Word) : Prop where
  root1 : Entries m L.root1 (rootEntries L.l1a L.l1Id)
  l1a : Entries m L.l1a (single 0 (mkPte L.l0a PTE_V))
  l0a : Entries m L.l0a (single 0 (mkPte leaf1 PTE_LEAF_RW))
  root2 : Entries m L.root2 (rootEntries L.l1b L.l1Id)
  l1b : Entries m L.l1b (single 0 (mkPte L.l0b PTE_V))
  l0b : Entries m L.l0b (single 0 (mkPte leaf2 PTE_LEAF_RW))
  l1Id : Entries m L.l1Id (single 0 (mkPte L.l0Id PTE_V))
  l0Id : Entries m L.l0Id identEntries

/-- The tables are pairwise different. -/
theorem tables_pairwise (hL : L.Placed) : L.tables.Pairwise (· ≠ ·) :=
  (List.nodup_append.mp hL.distinct).1

theorem tableConstruction_built (hL : L.Placed) (hm : L.Cleared m) :
    Built L (assignAll m (tableConstruction L)) L.scratch1 L.scratch2 := by
  have hentries : ∀ p ∈ L.tables, ∀ f,
      entriesAfter p (fun _ => 0) (tableConstruction L) = f →
        Entries (assignAll m (tableConstruction L)) p f := by
    rintro p hp f rfl
    exact (hm p hp).assignAll (placed_pageAt hL hp) (tableConstruction_assigns hL)
  have hne := tables_pairwise hL
  have hne' := hne.imp Ne.symm
  simp only [Layout.tables, List.pairwise_cons, List.mem_cons, List.not_mem_nil, or_false,
    forall_eq_or_imp, forall_eq] at hne hne'
  refine ⟨hentries L.root1 (by simp [Layout.tables]) _ ?_,
    hentries L.l1a (by simp [Layout.tables]) _ ?_, hentries L.l0a (by simp [Layout.tables]) _ ?_,
    hentries L.root2 (by simp [Layout.tables]) _ ?_, hentries L.l1b (by simp [Layout.tables]) _ ?_,
    hentries L.l0b (by simp [Layout.tables]) _ ?_, hentries L.l1Id (by simp [Layout.tables]) _ ?_,
    hentries L.l0Id (by simp [Layout.tables]) _ ?_⟩
  case refine_8 =>
    ext1 i
    rw [tableConstruction, entriesAfter_append, entriesAfter_range]
    have hfirst : entriesAfter L.l0Id (fun _ => 0) (pointerConstruction L) = fun _ => 0 := by
      simp [entriesAfter, pointerConstruction, hne]
    rw [hfirst]
    rfl
  all_goals
    rw [entriesAfter_tableConstruction (by simp [hne])]
    simp [entriesAfter, pointerConstruction, rootEntries, single, hne, hne']

/-- The rewrite moves the two leaves and nothing else. -/
theorem midToC_built (hL : L.Placed) {leaf1 leaf2 : Word} (hb : Built L m leaf1 leaf2) :
    Built L (assignAll m (midToC L)) L.scratch3 L.scratch4 := by
  have hassigns : ∀ s ∈ midToC L, PageAt s.table ∧ s.index < 512 := by
    intro s hs
    simp only [midToC, List.mem_cons, List.not_mem_nil, or_false] at hs
    rcases hs with rfl | rfl <;>
      exact ⟨placed_pageAt hL (by simp [Layout.tables]), by simp⟩
  have hentries : ∀ {p : Word} {f g : Nat → Word}, p ∈ L.tables → Entries m p f →
      entriesAfter p f (midToC L) = g → Entries (assignAll m (midToC L)) p g := by
    rintro p f g hp hf rfl
    exact hf.assignAll (placed_pageAt hL hp) hassigns
  have hne := tables_pairwise hL
  have hne' := hne.imp Ne.symm
  simp only [Layout.tables, List.pairwise_cons, List.mem_cons, List.not_mem_nil, or_false,
    forall_eq_or_imp, forall_eq] at hne hne'
  refine ⟨hentries (by simp [Layout.tables]) hb.root1 ?_,
    hentries (by simp [Layout.tables]) hb.l1a ?_, hentries (by simp [Layout.tables]) hb.l0a ?_,
    hentries (by simp [Layout.tables]) hb.root2 ?_, hentries (by simp [Layout.tables]) hb.l1b ?_,
    hentries (by simp [Layout.tables]) hb.l0b ?_, hentries (by simp [Layout.tables]) hb.l1Id ?_,
    hentries (by simp [Layout.tables]) hb.l0Id ?_⟩
  all_goals simp [entriesAfter, midToC, single, hne, hne']

theorem Built.tree1 (hL : L.Placed) {leaf1 leaf2 : Word} (hb : Built L m leaf1 leaf2)
    (hleaf : PageAt leaf1) : Tree L m L.root1 L.l1a L.l0a leaf1 where
  rootAt := placed_pageAt hL (by simp [Layout.tables])
  l1At := placed_pageAt hL (by simp [Layout.tables])
  l0At := placed_pageAt hL (by simp [Layout.tables])
  leafAt := hleaf
  l1IdAt := placed_pageAt hL (by simp [Layout.tables])
  l0IdAt := placed_pageAt hL (by simp [Layout.tables])
  root := hb.root1
  l1 := hb.l1a
  l0 := hb.l0a
  l1Id := hb.l1Id
  l0Id := hb.l0Id

theorem Built.tree2 (hL : L.Placed) {leaf1 leaf2 : Word} (hb : Built L m leaf1 leaf2)
    (hleaf : PageAt leaf2) : Tree L m L.root2 L.l1b L.l0b leaf2 where
  rootAt := placed_pageAt hL (by simp [Layout.tables])
  l1At := placed_pageAt hL (by simp [Layout.tables])
  l0At := placed_pageAt hL (by simp [Layout.tables])
  leafAt := hleaf
  l1IdAt := placed_pageAt hL (by simp [Layout.tables])
  l0IdAt := placed_pageAt hL (by simp [Layout.tables])
  root := hb.root2
  l1 := hb.l1b
  l0 := hb.l0b
  l1Id := hb.l1Id
  l0Id := hb.l0Id

end Built

/-- The address is in the page under test. -/
def InTestPage (va : Word) : Prop :=
  TEST_VA ≤ va.toNat ∧ va.toNat < TEST_VA + 4096

/-- The identity window, and a page fault everywhere else. -/
def identMap (va : Word) : Option Nat :=
  if 0x80000000 ≤ va.toNat ∧ va.toNat < 0x80080000 then some va.toNat else none

/-- The test page mapped to a frame for loads and stores. -/
def testMap (leaf : Word) (access : Access) (va : Word) : Option Nat :=
  if access = .fetch then none else some (leaf.toNat + (va.toNat - TEST_VA))

theorem treeMap_of_inTestPage (leaf : Word) (access : Access) {va : Word} (h : InTestPage va) :
    treeMap leaf access va.toNat = testMap leaf access va := by
  unfold InTestPage at h
  rw [treeMap, if_pos h, testMap]

theorem treeMap_of_not_inTestPage (leaf : Word) (access : Access) {va : Word}
    (h : ¬ InTestPage va) : treeMap leaf access va.toNat = identMap va := by
  unfold InTestPage at h
  rw [treeMap, if_neg h, identMap]

/-- The walks under both roots, before and after the rewrite: all four are the
identity window outside the page under test, and there they lead to four
different frames. -/
theorem two_root_maps (L : Layout) (hL : L.Placed) (m : PhysMem) (hm : L.Cleared m) (sum : Bool)
    (access : Access) (va : Word) :
    let before := assignAll m (tableConstruction L)
    let after := assignAll before (midToC L)
    let walk1 := fun m => translate m (supervisor sum) (satp1 L) access va
    let walk2 := fun m => translate m (supervisor sum) (satp2 L) access va
    (¬ InTestPage va →
      walk1 before = walk2 before ∧ walk1 before = identMap va ∧
        walk1 after = walk1 before ∧ walk2 after = walk2 before) ∧
    (InTestPage va →
      walk1 before = testMap L.scratch1 access va ∧ walk2 before = testMap L.scratch2 access va ∧
        walk1 after = testMap L.scratch3 access va ∧
        walk2 after = testMap L.scratch4 access va) := by
  intro before after walk1 walk2
  have hpage : ∀ p ∈ L.scratch, PageAt p := fun p hp => hL.page p (List.mem_append_right _ hp)
  have hbefore : Built L before L.scratch1 L.scratch2 := tableConstruction_built hL hm
  have hafter : Built L after L.scratch3 L.scratch4 := midToC_built hL hbefore
  have h1 : walk1 before = treeMap L.scratch1 access va.toNat :=
    (hbefore.tree1 hL (hpage _ (by simp [Layout.scratch]))).translate sum access
      (by decide) (by decide) va
  have h2 : walk2 before = treeMap L.scratch2 access va.toNat :=
    (hbefore.tree2 hL (hpage _ (by simp [Layout.scratch]))).translate sum access
      (by decide) (by decide) va
  have h3 : walk1 after = treeMap L.scratch3 access va.toNat :=
    (hafter.tree1 hL (hpage _ (by simp [Layout.scratch]))).translate sum access
      (by decide) (by decide) va
  have h4 : walk2 after = treeMap L.scratch4 access va.toNat :=
    (hafter.tree2 hL (hpage _ (by simp [Layout.scratch]))).translate sum access
      (by decide) (by decide) va
  constructor
  · intro hout
    simp only [treeMap_of_not_inTestPage _ access hout] at h1 h2 h3 h4
    exact ⟨h1.trans h2.symm, h1, h3.trans h1.symm, h4.trans h2.symm⟩
  · intro hin
    simp only [treeMap_of_inTestPage _ access hin] at h1 h2 h3 h4
    exact ⟨h1, h2, h3, h4⟩

/-- Twelve pages in a row. -/
def sampleLayout : Layout where
  root1 := 0x80010000
  l1a := 0x80011000
  l0a := 0x80012000
  root2 := 0x80013000
  l1b := 0x80014000
  l0b := 0x80015000
  l1Id := 0x80016000
  l0Id := 0x80017000
  scratch1 := 0x80018000
  scratch2 := 0x80019000
  scratch3 := 0x8001A000
  scratch4 := 0x8001B000

theorem sampleLayout_placed : sampleLayout.Placed where
  page := by
    intro p hp
    simp only [Layout.tables, Layout.scratch, sampleLayout, List.cons_append, List.nil_append,
      List.mem_cons, List.not_mem_nil, or_false] at hp
    rcases hp with rfl | rfl | rfl | rfl | rfl | rfl | rfl | rfl | rfl | rfl | rfl | rfl <;>
      exact ⟨by decide, by decide⟩
  distinct := by decide

/-- The second root maps the page under test to the second frame, then to the
fourth; the window stays. -/
theorem sample_two_root_maps :
    let before := assignAll (fun _ => 0) (tableConstruction sampleLayout)
    let after := assignAll before (midToC sampleLayout)
    translate before (supervisor false) (satp2 sampleLayout) .load 0x40000010 = some 0x80019010 ∧
      translate after (supervisor false) (satp2 sampleLayout) .load 0x40000010 =
        some 0x8001B010 ∧
      translate after (supervisor false) (satp2 sampleLayout) .fetch 0x80000100 =
        translate before (supervisor false) (satp2 sampleLayout) .fetch 0x80000100 := by
  intro before after
  have hcleared : sampleLayout.Cleared fun _ => 0 := fun _ _ _ _ => rfl
  have hmaps := two_root_maps sampleLayout sampleLayout_placed (fun _ => 0) hcleared false
  obtain ⟨-, hin⟩ := hmaps .load 0x40000010
  obtain ⟨hout, -⟩ := hmaps .fetch 0x80000100
  have htest : InTestPage 0x40000010 := ⟨by decide, by decide⟩
  have hother : ¬ InTestPage 0x80000100 := fun h => absurd h.2 (by decide)
  exact ⟨(hin htest).2.1, (hin htest).2.2.2, (hout hother).2.2.2⟩

end SfenceVmaRs2Scoped
end BareMetal
