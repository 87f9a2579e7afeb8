import BareMetal.Machine.Sv39

/-!
# The address map of the Sv39 lab

The tables `main` of `src/sv39/sv39_main.c` builds: a 1 GiB identity leaf in the
root, and two pointer chains to one 4 KiB leaf each, for the data page and for
the UART.  `address_map` is the whole map, for every address and access and
wherever the linker has put the pages.
-/

namespace BareMetal
namespace Sv39Lab

open Machine Sv39

def MAPPED_VA : Nat := 0x40000000
def IDENT_BASE : Word := 0x80000000
def IDENT_END : Word := 0xC0000000
def UART_BASE : Word := 0x10000000

def SATP_MODE_SV39 : Word := 8 <<< 60

/-- Where the linker put the table pages and the data page. -/
structure Layout where
  rootPt : Word
  l1Test : Word
  l0Test : Word
  l1Uart : Word
  l0Uart : Word
  page : Word

namespace Layout

variable (L : Layout)

/-- The table pages. -/
def tables : List Word :=
  [L.rootPt, L.l1Test, L.l0Test, L.l1Uart, L.l0Uart]

/-- Six different pages inside the identity window. -/
structure Placed : Prop where
  aligned : ∀ p ∈ L.page :: L.tables, p.toNat % 4096 = 0
  window : ∀ p ∈ L.page :: L.tables, IDENT_BASE ≤ p ∧ p < IDENT_END
  distinct : (L.page :: L.tables).Nodup

/-- The tables are still as BSS clearing left them. -/
def Cleared (m : PhysMem) : Prop :=
  ∀ p ∈ L.tables, Entries m p fun _ => 0

end Layout

/-- The table construction of `main`. -/
def tableConstruction (L : Layout) : List Assign :=
  [⟨L.rootPt, 2, mkPte IDENT_BASE (PTE_V ||| PTE_R ||| PTE_W ||| PTE_X ||| PTE_A ||| PTE_D)⟩,
   ⟨L.rootPt, 1, mkPte L.l1Test PTE_V⟩,
   ⟨L.rootPt, 0, mkPte L.l1Uart PTE_V⟩,
   ⟨L.l1Test, 0, mkPte L.l0Test PTE_V⟩,
   ⟨L.l0Test, 0, mkPte L.page (PTE_V ||| PTE_R ||| PTE_W ||| PTE_A ||| PTE_D)⟩,
   ⟨L.l1Uart, 128, mkPte L.l0Uart PTE_V⟩,
   ⟨L.l0Uart, 0, mkPte UART_BASE (PTE_V ||| PTE_R ||| PTE_W ||| PTE_A ||| PTE_D)⟩]

/-- The value `main` gives to `set_satp`. -/
def satpOf (L : Layout) : Word :=
  SATP_MODE_SV39 ||| (L.rootPt >>> 12)

/-! ## The tables -/

theorem placed_pageAt {L : Layout} (hL : L.Placed) {p : Word} (hp : p ∈ L.page :: L.tables) :
    PageAt p := by
  have hend : p.toNat < IDENT_END.toNat := (hL.window p hp).2
  refine ⟨hL.aligned p hp, ?_⟩
  have hbound : IDENT_END.toNat < 2 ^ 56 := by decide
  omega

/-- The entries of the root. -/
def rootEntries (L : Layout) : Nat → Word :=
  Function.update (Function.update (single 2
    (mkPte IDENT_BASE (PTE_V ||| PTE_R ||| PTE_W ||| PTE_X ||| PTE_A ||| PTE_D)))
    1 (mkPte L.l1Test PTE_V)) 0 (mkPte L.l1Uart PTE_V)

/-- What every table holds when `main` is done. -/
structure Built (L : Layout) (m : PhysMem) : Prop where
  root : Entries m L.rootPt (rootEntries L)
  l1Test : Entries m L.l1Test (single 0 (mkPte L.l0Test PTE_V))
  l0Test : Entries m L.l0Test
    (single 0 (mkPte L.page (PTE_V ||| PTE_R ||| PTE_W ||| PTE_A ||| PTE_D)))
  l1Uart : Entries m L.l1Uart (single 128 (mkPte L.l0Uart PTE_V))
  l0Uart : Entries m L.l0Uart
    (single 0 (mkPte UART_BASE (PTE_V ||| PTE_R ||| PTE_W ||| PTE_A ||| PTE_D)))

theorem tableConstruction_built {L : Layout} (hL : L.Placed) {m : PhysMem} (hm : L.Cleared m) :
    Built L (assignAll m (tableConstruction L)) := by
  have hpage : ∀ p ∈ L.tables, PageAt p := fun p hp =>
    placed_pageAt hL (List.mem_cons_of_mem _ hp)
  have hassign : ∀ s ∈ tableConstruction L, PageAt s.table ∧ s.index < 512 := by
    intro s hs
    simp only [tableConstruction, List.mem_cons, List.not_mem_nil, or_false] at hs
    rcases hs with rfl | rfl | rfl | rfl | rfl | rfl | rfl <;>
      exact ⟨hpage _ (by simp [Layout.tables]), by simp⟩
  have hentries : ∀ p ∈ L.tables, Entries (assignAll m (tableConstruction L)) p
      (entriesAfter p (fun _ => 0) (tableConstruction L)) := fun p hp =>
    (hm p hp).assignAll (hpage p hp) hassign
  have hdistinct := hL.distinct
  simp only [Layout.tables, List.nodup_cons, List.mem_cons, List.not_mem_nil, or_false, not_or]
    at hdistinct
  obtain ⟨-, ⟨h01, h02, h03, h04⟩, ⟨h12, h13, h14⟩, ⟨h23, h24⟩, h34, -⟩ := hdistinct
  have hbuilt : ∀ p ∈ L.tables, ∀ f,
      entriesAfter p (fun _ => 0) (tableConstruction L) = f →
        Entries (assignAll m (tableConstruction L)) p f := by
    rintro p hp f rfl
    exact hentries p hp
  refine ⟨hbuilt _ (by simp [Layout.tables]) _ ?_, hbuilt _ (by simp [Layout.tables]) _ ?_,
    hbuilt _ (by simp [Layout.tables]) _ ?_, hbuilt _ (by simp [Layout.tables]) _ ?_,
    hbuilt _ (by simp [Layout.tables]) _ ?_⟩
  · simp [entriesAfter, tableConstruction, rootEntries, single, Ne.symm h01, Ne.symm h02,
      Ne.symm h03, Ne.symm h04]
  · simp [entriesAfter, tableConstruction, single, h01, Ne.symm h12, Ne.symm h13, Ne.symm h14]
  · simp [entriesAfter, tableConstruction, single, h02, h12, Ne.symm h23, Ne.symm h24]
  · simp [entriesAfter, tableConstruction, single, h03, h13, h23, Ne.symm h34]
  · simp [entriesAfter, tableConstruction, single, h04, h14, h24, h34]

/-! ## The map -/

/-- The address map the lab is built for. -/
def addressMap (L : Layout) (access : Access) (va : Nat) : Option Nat :=
  if 0x80000000 ≤ va ∧ va < 0xC0000000 then some va
  else if 0x10000000 ≤ va ∧ va < 0x10001000 then
    if access = .fetch then none else some va
  else if MAPPED_VA ≤ va ∧ va < MAPPED_VA + 4096 then
    if access = .fetch then none else some (L.page.toNat + (va - MAPPED_VA))
  else none

section Walk

variable {L : Layout} {m : PhysMem} (hL : L.Placed) (hb : Built L m) (sum : Bool)
variable (access : Access) {va : Nat}

include hL hb

theorem walk_uart (hroot : vpn va 2 = 0) :
    walk m (supervisor sum) access va 2 L.rootPt.toNat =
      if vpn va 1 = 128 ∧ vpn va 0 = 0 then
        if access = .fetch then none else some (UART_BASE.toNat + va % 4096)
      else none := by
  have huart : PageAt UART_BASE := ⟨by decide, by decide⟩
  have hl1 : PageAt L.l1Uart := placed_pageAt hL (by simp [Layout.tables])
  have hl0 : PageAt L.l0Uart := placed_pageAt hL (by simp [Layout.tables])
  have hentry : rootEntries L (vpn va 2) = mkPte L.l1Uart PTE_V := by
    rw [hroot]
    rfl
  rw [walk_of_pointer hb.root hl1 (by decide) hentry,
    walk_single_pointer hb.l1Uart hl0 (by decide), walk_single_leaf hb.l0Uart huart (by decide),
    permitted_rw]
  by_cases h1 : vpn va 1 = 128 <;> by_cases h0 : vpn va 0 = 0 <;> simp [h1, h0]

theorem walk_test (hroot : vpn va 2 = 1) :
    walk m (supervisor sum) access va 2 L.rootPt.toNat =
      if vpn va 1 = 0 ∧ vpn va 0 = 0 then
        if access = .fetch then none else some (L.page.toNat + va % 4096)
      else none := by
  have hpage : PageAt L.page := placed_pageAt hL (by simp [Layout.tables])
  have hl1 : PageAt L.l1Test := placed_pageAt hL (by simp [Layout.tables])
  have hl0 : PageAt L.l0Test := placed_pageAt hL (by simp [Layout.tables])
  have hentry : rootEntries L (vpn va 2) = mkPte L.l1Test PTE_V := by
    rw [hroot]
    rfl
  rw [walk_of_pointer hb.root hl1 (by decide) hentry,
    walk_single_pointer hb.l1Test hl0 (by decide), walk_single_leaf hb.l0Test hpage (by decide),
    permitted_rw]
  by_cases h1 : vpn va 1 = 0 <;> by_cases h0 : vpn va 0 = 0 <;> simp [h1, h0]

omit hL in
/-- The 1 GiB leaf of the root. -/
theorem walk_ident (hroot : vpn va 2 = 2) :
    walk m (supervisor sum) access va 2 L.rootPt.toNat = some (0x80000000 + va % 2 ^ 30) := by
  have hident : PageAt IDENT_BASE := ⟨by decide, by decide⟩
  have hentry : rootEntries L (vpn va 2) =
      mkPte IDENT_BASE (PTE_V ||| PTE_R ||| PTE_W ||| PTE_X ||| PTE_A ||| PTE_D) := by
    rw [hroot]
    rfl
  rw [walk_of_leaf hb.root hident (by decide) (by decide) hentry, permitted_rwx]
  rfl

omit hL in
theorem walk_elsewhere (hroot : 3 ≤ vpn va 2) :
    walk m (supervisor sum) access va 2 L.rootPt.toNat = none := by
  apply walk_of_invalid hb.root
  rw [rootEntries, Function.update_of_ne (by omega), Function.update_of_ne (by omega),
    single_of_ne _ (by omega)]

end Walk

/-- The translation of every address, for every access from S-mode and wherever
the pages have been placed: the identity window, the UART page and the data page
with the permissions of their leaves, and a page fault everywhere else. -/
theorem address_map (L : Layout) (hL : L.Placed) (m : PhysMem) (hm : L.Cleared m) (sum : Bool)
    (access : Access) (va : Word) :
    translate (assignAll m (tableConstruction L)) (supervisor sum) (satpOf L) access va =
      addressMap L access va.toNat := by
  have hb := tableConstruction_built hL hm
  have hroot : PageAt L.rootPt := placed_pageAt hL (by simp [Layout.tables])
  have huart : UART_BASE.toNat = 0x10000000 := by decide
  have hva : va.toNat < 2 ^ 64 := va.isLt
  rw [satpOf, translate_of_satp hroot (by decide) (by decide)]
  generalize va.toNat = n at hva
  have hvpn0 : vpn n 0 = n / 2 ^ 12 % 512 := rfl
  have hvpn1 : vpn n 1 = n / 2 ^ 21 % 512 := rfl
  have hvpn2 : vpn n 2 = n / 2 ^ 30 % 512 := rfl
  unfold addressMap MAPPED_VA
  by_cases hcanonical : canonical n = true
  · rw [if_pos hcanonical]
    obtain h2 | h2 | h2 | h2 : vpn n 2 = 0 ∨ vpn n 2 = 1 ∨ vpn n 2 = 2 ∨ 3 ≤ vpn n 2 := by omega
    · have hn := div_of_canonical hva hcanonical (by omega) h2
      have hpage : (vpn n 1 = 128 ∧ vpn n 0 = 0) ↔ 0x10000000 ≤ n ∧ n < 0x10001000 := by omega
      have hident : ¬ (0x80000000 ≤ n ∧ n < 0xC0000000) := by omega
      have hdata : ¬ (0x40000000 ≤ n ∧ n < 0x40000000 + 4096) := by omega
      rw [walk_uart hL hb sum access h2, if_neg hident, if_neg hdata, huart]
      simp only [hpage]
      split
      next hin =>
        have hoff : 0x10000000 + n % 4096 = n := by omega
        rw [hoff]
      next => rfl
    · have hn := div_of_canonical hva hcanonical (by omega) h2
      have hpage : (vpn n 1 = 0 ∧ vpn n 0 = 0) ↔
          0x40000000 ≤ n ∧ n < 0x40000000 + 4096 := by omega
      have hident : ¬ (0x80000000 ≤ n ∧ n < 0xC0000000) := by omega
      have hdevice : ¬ (0x10000000 ≤ n ∧ n < 0x10001000) := by omega
      rw [walk_test hL hb sum access h2, if_neg hident, if_neg hdevice]
      simp only [hpage]
      split
      next hin =>
        have hoff : n % 4096 = n - 0x40000000 := by omega
        rw [hoff]
      next => rfl
    · have hn := div_of_canonical hva hcanonical (by omega) h2
      have hident : 0x80000000 + n % 2 ^ 30 = n := by omega
      rw [walk_ident hb sum access h2, if_pos (by omega), hident]
    · rw [walk_elsewhere hb sum access h2, if_neg (by omega), if_neg (by omega), if_neg (by omega)]
  · rw [if_neg hcanonical]
    simp only [canonical, Bool.or_eq_true, decide_eq_true_eq, not_or] at hcanonical
    rw [if_neg (by omega), if_neg (by omega), if_neg (by omega)]

/-- A placement in the middle of the RAM, and memory that is all zero. -/
def sampleLayout : Layout where
  rootPt := 0x80010000
  l1Test := 0x80011000
  l0Test := 0x80012000
  l1Uart := 0x80013000
  l0Uart := 0x80014000
  page := 0x80015000

theorem sampleLayout_placed : sampleLayout.Placed where
  aligned := by
    intro p hp
    simp only [Layout.tables, sampleLayout, List.mem_cons, List.not_mem_nil, or_false] at hp
    rcases hp with rfl | rfl | rfl | rfl | rfl | rfl <;> decide
  window := by
    intro p hp
    simp only [Layout.tables, sampleLayout, List.mem_cons, List.not_mem_nil, or_false] at hp
    rcases hp with rfl | rfl | rfl | rfl | rfl | rfl <;> decide
  distinct := by decide

/-- The data page is mapped, and behind it the walk faults. -/
theorem sample_address_map :
    let m := assignAll (fun _ => 0) (tableConstruction sampleLayout)
    translate m (supervisor false) (satpOf sampleLayout) .load 0x40000008 = some 0x80015008 ∧
      translate m (supervisor false) (satpOf sampleLayout) .fetch 0x40000008 = none ∧
      translate m (supervisor false) (satpOf sampleLayout) .load 0x40001000 = none := by
  intro m
  have hcleared : sampleLayout.Cleared fun _ => 0 := fun _ _ _ _ => rfl
  have hmap := address_map sampleLayout sampleLayout_placed (fun _ => 0) hcleared false
  exact ⟨hmap .load 0x40000008, hmap .fetch 0x40000008, hmap .load 0x40001000⟩

end Sv39Lab
end BareMetal
