import BareMetal.SfenceVma.Course

/-!
# A fence for one address space

`src/sfence-vma-rs2-scoped/srs2_main.c`: one address is mapped under two roots, each
with its own ASID.  Both leaves are rewritten under the second ASID, read once
without a fence and once behind a fence for the first ASID.  The lab expects the
first of these reads to be stale and the second to be fresh.

`rs2_verdict` is about every hart: the reads under freshly installed roots are
decided, the two in between can each be either, and the run passes exactly if they
are as the lab expects.  The tables are those of `SfenceVmaRs2Scoped`.
-/

namespace BareMetal
namespace SfenceVma
namespace Rs2Scoped

open Machine Sv39 SfenceVmaRs2Scoped

def CANARY_A : Word := 0xAAAAAAAAAAAAAAAA
def CANARY_B : Word := 0xBBBBBBBBBBBBBBBB
def CANARY_C : Word := 0xCCCCCCCCCCCCCCCC
def CANARY_D : Word := 0xDDDDDDDDDDDDDDDD

/-- The functions. -/
inductive Fn
  | main | midToB | midToC | midToD | midToE | reportMmode
  | smodePhaseA | smodePhaseB | smodePhaseC | smodePhaseD | smodePhaseE

/-- The statics that M-mode writes. -/
inductive Var
  | satpARb | satpBRb | satpERb | pte1Before | pte1After | pte2Before | pte2After
  | pAMcause | pAMepc | pBMcause | pBMepc | pCMcause | pCMepc | pDMcause | pDMepc
  | pEMcause | pEMepc | satpRestored | pmpRestored
deriving DecidableEq

/-- The statics that the phases write. -/
inductive PhaseVar
  | pA | pB | pC | pD | pE | pAEpc | pBEpc | pCEpc | pDEpc | pEEpc
deriving DecidableEq

/-- Where the linker put the pages, the variables of the phases, the statements of
the functions, the S-mode trap entry and the last word of `s_regs`. -/
structure Layout extends SfenceVmaRs2Scoped.Layout where
  var : PhaseVar → Word
  site : Fn → Nat → Word
  sTrapEntry : Word
  sRegs9 : Word

namespace Layout

variable (L : Layout)

def pages : List Word :=
  [L.root1, L.l1a, L.l0a, L.root2, L.l1b, L.l0b, L.l1Id, L.l0Id, L.scratch1, L.scratch2,
    L.scratch3, L.scratch4]

/-- Twelve different pages, and everything else in the identity window and outside
of them. -/
structure Placed : Prop extends Apart L.pages L.var where
  siteWindow : ∀ f i, InWindow (L.site f i)
  entryWindow : InWindow L.sTrapEntry
  regsWindow : InWindow L.sRegs9

end Layout

abbrev LabData := Data Fn Var
abbrev LabStmt := Stmt Fn Var

variable (L : Layout)

def canaries : List Assign :=
  [⟨L.scratch1, 0, CANARY_A⟩, ⟨L.scratch2, 0, CANARY_B⟩, ⟨L.scratch3, 0, CANARY_C⟩,
   ⟨L.scratch4, 0, CANARY_D⟩]

/-- The last words of the backing pages, which nothing writes. -/
def sentinels : List Assign :=
  [⟨L.scratch1, 511, 0⟩, ⟨L.scratch2, 511, 0⟩, ⟨L.scratch3, 511, 0⟩, ⟨L.scratch4, 511, 0⟩]

def plantChecks : List (Check Fn Var) :=
  [(fun d => entry d L.scratch1 0 == CANARY_A, "canary A plant failed"),
   (fun d => entry d L.scratch2 0 == CANARY_B, "canary B plant failed"),
   (fun d => entry d L.scratch3 0 == CANARY_C, "canary C plant failed"),
   (fun d => entry d L.scratch4 0 == CANARY_D, "canary D plant failed"),
   misaligned L.root1 "root1 misaligned", misaligned L.l1a "l1a misaligned",
   misaligned L.l0a "l0a misaligned", misaligned L.root2 "root2 misaligned",
   misaligned L.l1b "l1b misaligned", misaligned L.l0b "l0b misaligned",
   misaligned L.l1Id "l1_id misaligned", misaligned L.l0Id "l0_id misaligned",
   misaligned L.scratch1 "scratch1 misaligned", misaligned L.scratch2 "scratch2 misaligned",
   misaligned L.scratch3 "scratch3 misaligned", misaligned L.scratch4 "scratch4 misaligned"]

def tableChecks : List (Check Fn Var) :=
  pointerChecks L.root1 TEST_VPN2 L.l1a "root1 test entry is not a pure pointer (V only)"
    "root1 test entry PPN != l1a page number" ++
  pointerChecks L.l1a 0 L.l0a "l1a entry 0 is not a pure pointer (V only)"
    "l1a[0] PPN != l0a page number" ++
  leafChecks L.l0a L.scratch1 "ASID1 test leaf missing V/R/W"
    "ASID1 test leaf PPN != scratch1 page number" ++
  pointerChecks L.root2 TEST_VPN2 L.l1b "root2 test entry is not a pure pointer (V only)"
    "root2 test entry PPN != l1b page number" ++
  pointerChecks L.l1b 0 L.l0b "l1b entry 0 is not a pure pointer (V only)"
    "l1b[0] PPN != l0b page number" ++
  leafChecks L.l0b L.scratch2 "ASID2 test leaf missing V/R/W"
    "ASID2 test leaf PPN != scratch2 page number" ++
  -- the identity entries are checked for their flags only
  [(fun d => entry d L.root1 2 &&& (PTE_V ||| PTE_R ||| PTE_W ||| PTE_X) == PTE_V,
     "root1 identity entry is not a pure pointer (V only)"),
   (fun d => entry d L.root2 2 &&& (PTE_V ||| PTE_R ||| PTE_W ||| PTE_X) == PTE_V,
     "root2 identity entry is not a pure pointer (V only)"),
   outside (L.site .smodePhaseA 0) "smode_phaseA outside identity window",
   outside (L.site .smodePhaseB 0) "smode_phaseB outside identity window",
   outside (L.site .smodePhaseC 0) "smode_phaseC outside identity window",
   outside (L.site .smodePhaseD 0) "smode_phaseD outside identity window",
   outside (L.site .smodePhaseE 0) "smode_phaseE outside identity window",
   outside L.sTrapEntry "s_trap_entry outside identity window",
   outside L.sRegs9 "s_regs outside identity window"]

/-- `main` behind `set_satp`, up to the drop. -/
def mainRecord : List LabStmt :=
  [.set .satpARb fun d => d.satp, .set .pte1Before fun d => entry d L.l0a 0,
   .set .pte2Before fun d => entry d L.l0b 0, .arm .midToB]

def main : List LabStmt :=
  buildTables (canaries L) (plantChecks L) (tableConstruction L.toLayout) (tableChecks L) ++
    (setSatp (satp1 L.toLayout) ++ (mainRecord L ++ [.drop .smodePhaseA]))

def phase (f : Fn) (rb epc : PhaseVar) : List LabStmt :=
  phaseRead (BitVec.ofNat 64 TEST_VA) (L.var rb) ++ phaseLeave (L.var epc) (L.site f 5)

def smodePhaseA : List LabStmt := phase L .smodePhaseA .pA .pAEpc
def smodePhaseB : List LabStmt := phase L .smodePhaseB .pB .pBEpc
def smodePhaseC : List LabStmt := phase L .smodePhaseC .pC .pCEpc
def smodePhaseD : List LabStmt := phase L .smodePhaseD .pD .pDEpc
def smodePhaseE : List LabStmt := phase L .smodePhaseE .pE .pEEpc

def midToB : List LabStmt :=
  snapshot .pAMcause .pAMepc ++
    (setSatp (satp2 L.toLayout) ++
      ([.set .satpBRb fun d => d.satp, .arm .midToC] ++ [.drop .smodePhaseB]))

/-- What `mid_to_C` records of the rewrite. -/
def rewriteRecord : List LabStmt :=
  [.set .pte1After fun d => entry d L.l0a 0, .set .pte2After fun d => entry d L.l0b 0,
   .check (fun d => d.vars .pte1After == mkPte L.scratch3 PTE_LEAF_RW)
     "root1 PTE rewrite did not land in memory",
   .check (fun d => d.vars .pte2After == mkPte L.scratch4 PTE_LEAF_RW)
     "root2 PTE rewrite did not land in memory",
   .arm .midToD]

def midToC : List LabStmt :=
  snapshot .pBMcause .pBMepc ++
    (assigns (SfenceVmaRs2Scoped.midToC L.toLayout) ++
      (rewriteRecord L ++ [.drop .smodePhaseC]))

def midToD : List LabStmt :=
  snapshot .pCMcause .pCMepc ++
    (.sfence none (some 1) :: ([.arm .midToE] ++ [.drop .smodePhaseD]))

def midToE : List LabStmt :=
  snapshot .pDMcause .pDMepc ++
    (setSatp (satp1 L.toLayout) ++
      ([.set .satpERb fun d => d.satp, .arm .reportMmode] ++ [.drop .smodePhaseE]))

/-- The readback or ecall site that a phase left. -/
def left (d : LabData) (x : PhaseVar) : Word :=
  d.mem (L.var x).toNat

/-- The checks of a `satp` value that was read back. -/
def satpChecks (x : Var) (asid root : Word) (modeMsg asidMsg ppnMsg : String) :
    List (Check Fn Var) :=
  [(fun d => d.vars x >>> 60 == 8, modeMsg),
   (fun d => (d.vars x >>> 44) &&& 0xFFF == asid, asidMsg),
   (fun d => d.vars x &&& PPN_MASK == root >>> 12, ppnMsg)]

def reportChecks : List (Check Fn Var) :=
  satpChecks .satpARb 1 L.root1 "satpA MODE != 8 (Sv39)" "satpA ASID != 1"
    "satpA PPN != root1 page" ++
  satpChecks .satpBRb 2 L.root2 "satpB MODE != 8 (Sv39)" "satpB ASID != 2"
    "satpB PPN != root2 page" ++
  satpChecks .satpERb 1 L.root1 "satpE MODE != 8 (Sv39)" "satpE ASID != 1"
    "satpE PPN != root1 page" ++
  [(fun d => d.vars .pte1Before == mkPte L.scratch1 PTE_LEAF_RW,
     "pte1_before != ASID1->PA1 leaf encoding"),
   (fun d => d.vars .pte2Before == mkPte L.scratch2 PTE_LEAF_RW,
     "pte2_before != ASID2->PA2 leaf encoding"),
   (fun d => d.vars .pte1After == mkPte L.scratch3 PTE_LEAF_RW,
     "pte1_after != ASID1->PA3 leaf encoding"),
   (fun d => d.vars .pte2After == mkPte L.scratch4 PTE_LEAF_RW,
     "pte2_after != ASID2->PA4 leaf encoding"),
   (fun d => left L d .pA == CANARY_A, "phase-A ASID1 readback != canary A"),
   (fun d => left L d .pA != CANARY_B && left L d .pA != CANARY_C && left L d .pA != CANARY_D,
     "phase-A readback is not cleanly canary A"),
   (fun d => left L d .pB == CANARY_B, "phase-B ASID2 readback != canary B"),
   (fun d => left L d .pB != CANARY_A && left L d .pB != CANARY_C && left L d .pB != CANARY_D,
     "phase-B readback is not cleanly canary B"),
   (fun d => left L d .pC == CANARY_B,
     "phase-C readback != stale canary B (baseline broken)"),
   (fun d => left L d .pC != CANARY_D,
     "phase-C unexpectedly fresh (rewrite invalidated it?)"),
   (fun d => left L d .pD == CANARY_D,
     "phase-D ASID2 did not go fresh after the rs2=1 fence"),
   (fun d => left L d .pD != CANARY_B,
     "phase-D ASID2 unexpectedly stale (fence scoped on this run?)"),
   (fun d => left L d .pE == CANARY_C, "phase-E ASID1 readback != fresh canary C"),
   (fun d => left L d .pE != CANARY_A, "phase-E ASID1 still shows the stale mapping"),
   (fun d => entry d L.scratch1 0 == CANARY_A, "canary A corrupted"),
   (fun d => entry d L.scratch2 0 == CANARY_B, "canary B corrupted"),
   (fun d => entry d L.scratch3 0 == CANARY_C, "canary C corrupted"),
   (fun d => entry d L.scratch4 0 == CANARY_D, "canary D corrupted"),
   (fun d => entry d L.scratch1 511 == 0, "scratch1 sentinel moved (side effect)"),
   (fun d => entry d L.scratch2 511 == 0, "scratch2 sentinel moved (side effect)"),
   (fun d => entry d L.scratch3 511 == 0, "scratch3 sentinel moved (side effect)"),
   (fun d => entry d L.scratch4 511 == 0, "scratch4 sentinel moved (side effect)"),
   (fun d => d.sTraps == 0, "S-mode trap fired (expected 0)"),
   (fun d => d.mRegs.count == 5, "M-mode trap count != 5 (the five ecalls)"),
   (fun d => d.vars .pAMcause == CAUSE_ECALL_FROM_S && d.vars .pBMcause == CAUSE_ECALL_FROM_S &&
       d.vars .pCMcause == CAUSE_ECALL_FROM_S && d.vars .pDMcause == CAUSE_ECALL_FROM_S &&
       d.vars .pEMcause == CAUSE_ECALL_FROM_S,
     "an M-mode trap was not the expected S-mode ecall"),
   (fun d => d.vars .pAMepc == left L d .pAEpc, "phase-A mepc != its ecall site"),
   (fun d => d.vars .pBMepc == left L d .pBEpc, "phase-B mepc != its ecall site"),
   (fun d => d.vars .pCMepc == left L d .pCEpc, "phase-C mepc != its ecall site"),
   (fun d => d.vars .pDMepc == left L d .pDEpc, "phase-D mepc != its ecall site"),
   (fun d => d.vars .pEMepc == left L d .pEEpc, "phase-E mepc != its ecall site"),
   (fun d => d.vars .satpRestored == 0, "satp did not restore to Bare"),
   (fun d => d.vars .pmpRestored == 0, "pmpcfg0 did not restore to 0"),
   (fun d => d.mRegs.count == 5 && d.sTraps == 0, "trap count moved during the quiet window")]

def reportMmode : List LabStmt :=
  restore .pEMcause .pEMepc .satpRestored .pmpRestored ++ checkAll (reportChecks L) ++ [.finish]

def code : Fn → List LabStmt
  | .main => main L
  | .midToB => midToB L
  | .midToC => midToC L
  | .midToD => midToD
  | .midToE => midToE L
  | .reportMmode => reportMmode L
  | .smodePhaseA => smodePhaseA L
  | .smodePhaseB => smodePhaseB L
  | .smodePhaseC => smodePhaseC L
  | .smodePhaseD => smodePhaseD L
  | .smodePhaseE => smodePhaseE L

def lab : Lab Fn Var where
  code := code L
  site := L.site

/-! ## The tables -/

/-- The tables, with the leaves under test on `page1` and `page2`. -/
def trees (page1 page2 : Word) : List Assign :=
  leafTables L.root1 TEST_VPN2 L.l1a L.l0a page1 ++
    (leafTables L.root2 TEST_VPN2 L.l1b L.l0b page2 ++
      (⟨L.root1, 2, mkPte L.l1Id PTE_V⟩ :: windowTables L.root2 L.l1Id L.l0Id))

theorem trees_built : trees L L.scratch1 L.scratch2 = tableConstruction L.toLayout :=
  rfl

/-- Everything that is kept in the pages, with the leaves on `page1` and `page2`. -/
def contents (page1 page2 : Word) : List Assign :=
  sentinels L ++ (canaries L ++ trees L page1 page2)

/-- Under the ASID `asid₀` the tested address may be mapped to one of the pages. -/
def pagesOf (asid₀ : Nat) (ps : List Word) (asid : Nat) (va : Word) : Option (List Word) :=
  if asid = asid₀ ∧ va.toNat = TEST_VA then some ps else none

theorem pagesOf_mono {asid₀ : Nat} {ps qs : List Word} (hsub : ∀ p ∈ ps, p ∈ qs) {k : Key}
    {v : Option Nat} (h : Seen (pagesOf asid₀ ps) k v) : Seen (pagesOf asid₀ qs) k v := by
  refine ⟨h.window, fun haccess rs hrs => ?_⟩
  unfold pagesOf at hrs
  split at hrs
  next hva =>
    obtain rfl : qs = rs := Option.some.inj hrs
    obtain ⟨p, hp, hv⟩ := h.tested haccess ps (if_pos hva)
    exact ⟨p, hsub p hp, hv⟩
  next => cases hrs

section Tables

variable {L} (hL : L.Placed)

omit hL in
theorem contents_pages {page1 page2 : Word} :
    ∀ a ∈ contents L page1 page2, a.table ∈ L.pages ∧ a.index < 512 := by
  intro a ha
  simp only [contents, sentinels, canaries, trees, leafTables, windowTables, List.mem_append,
    List.mem_cons, List.mem_map, List.mem_range, List.not_mem_nil, or_false] at ha
  rcases ha with (rfl | rfl | rfl | rfl) | (rfl | rfl | rfl | rfl) | (rfl | rfl | rfl) |
    (rfl | rfl | rfl) | rfl | (rfl | rfl) | ⟨i, hi, rfl⟩
  case inr.inr.inr.inr.inr.inr =>
    unfold MAP_PAGES at hi
    exact ⟨by simp [Layout.pages], by simp only; omega⟩
  all_goals exact ⟨by simp [Layout.pages], by simp [TEST_VPN2]⟩

include hL

theorem contents_slots (page1 page2 : Word) : ((contents L page1 page2).map slot).Nodup := by
  refine slots_nodup (fun a ha => ?_) ?_
  · obtain ⟨htable, hindex⟩ := contents_pages a ha
    exact ⟨hL.page _ htable, hindex⟩
  · have hne : L.pages.Pairwise (· ≠ ·) := hL.distinct
    have hne' := hne.imp Ne.symm
    simp only [Layout.pages, List.pairwise_cons, List.mem_cons, List.not_mem_nil, or_false,
      forall_eq_or_imp, forall_eq] at hne hne'
    have hident : ((List.range MAP_PAGES).map fun i => (L.l0Id, i)).Nodup :=
      List.Nodup.map (fun i j h => (Prod.mk.inj h).2) List.nodup_range
    simp [contents, sentinels, canaries, trees, leafTables, windowTables, TEST_VPN2, hne, hne',
      hident, Function.comp_def]

/-- The root of an address space, and its tables in front of the tested page. -/
structure Space (L : Layout) (asid₀ : Nat) (root l1 l0 high : Word) : Prop where
  root : root ∈ L.pages
  tables : l1 ∈ L.pages ∧ l0 ∈ L.pages
  mode : high.toNat / 2 ^ 60 = MODE_SV39
  low : high.toNat % 2 ^ 44 = 0
  asid : high.toNat / 2 ^ 44 % 2 ^ 16 = asid₀

omit hL in
theorem space1 : Space L 1 L.root1 L.l1a L.l0a (SATP_MODE_SV39 ||| SATP_ASID1) := by
  refine ⟨?_, ?_, by decide, by decide, by decide⟩ <;> simp [Layout.pages]

omit hL in
theorem space2 : Space L 2 L.root2 L.l1b L.l0b (SATP_MODE_SV39 ||| SATP_ASID2) := by
  refine ⟨?_, ?_, by decide, by decide, by decide⟩ <;> simp [Layout.pages]

/-- Under a root, walks find the identity in the window and its page at the tested
address. -/
theorem Space.keeps {asid₀ : Nat} {root l1 l0 high page page1 page2 : Word} {ps : List Word}
    (hspace : Space L asid₀ root l1 l0 high) (hpage : page ∈ L.pages) (hps : page ∈ ps)
    (hwindow : ∀ a ∈ windowTables root L.l1Id L.l0Id, a ∈ contents L page1 page2)
    (hleaf : ∀ a ∈ leafTables root 1 l1 l0 page, a ∈ contents L page1 page2) :
    Keeps Fn Var (fun m => Holds m (contents L page1 page2)) (high ||| (root >>> 12))
      (Seen (pagesOf asid₀ ps)) := by
  have hpages : ∀ p ∈ L.pages, PageAt p := hL.page
  obtain ⟨hl1, hl0⟩ := hspace.tables
  refine keeps_of_trees L.l1Id L.l0Id (hpages _ hspace.root) (hpages _ (by simp [Layout.pages]))
    (hpages _ (by simp [Layout.pages])) hspace.mode hspace.low hwindow fun asid va qs hqs => ?_
  unfold pagesOf at hqs
  split at hqs
  next hva =>
    obtain rfl : ps = qs := Option.some.inj hqs
    refine ⟨1, l1, l0, page, hps, by decide, by rw [hva.2]; rfl, ?_, hleaf⟩
    simp [hpages page hpage, hpages l1 hl1, hpages l0 hl0]
  next => cases hqs

theorem keeps1 {page1 page2 : Word} (hpage1 : page1 ∈ L.pages) {ps : List Word}
    (hps : page1 ∈ ps) : Keeps Fn Var (fun m => Holds m (contents L page1 page2))
      (satp1 L.toLayout) (Seen (pagesOf 1 ps)) := by
  refine space1.keeps hL hpage1 hps (fun a ha => ?_) fun a ha => ?_
  · simp only [contents, trees, windowTables, List.mem_append, List.mem_cons] at ha ⊢
    tauto
  · simp only [contents, trees, List.mem_append]
    exact Or.inr (Or.inr (Or.inl ha))

theorem keeps2 {page1 page2 : Word} (hpage2 : page2 ∈ L.pages) {ps : List Word}
    (hps : page2 ∈ ps) : Keeps Fn Var (fun m => Holds m (contents L page1 page2))
      (satp2 L.toLayout) (Seen (pagesOf 2 ps)) := by
  refine space2.keeps hL hpage2 hps (fun a ha => ?_) fun a ha => ?_
  · simp only [contents, trees, List.mem_append, List.mem_cons]
    exact Or.inr (Or.inr (Or.inr (Or.inr (Or.inr ha))))
  · simp only [contents, trees, List.mem_append]
    exact Or.inr (Or.inr (Or.inr (Or.inl ha)))

theorem asidOf_satp1 : asidOf (satp1 L.toLayout) = 1 := by
  have hspace := space1 (L := L)
  exact (asidOf_satp (hL.page _ hspace.root) hspace.low).trans hspace.asid

theorem asidOf_satp2 : asidOf (satp2 L.toLayout) = 2 := by
  have hspace := space2 (L := L)
  exact (asidOf_satp (hL.page _ hspace.root) hspace.low).trans hspace.asid

/-- The two rewrites of `mid_to_C`. -/
theorem rewrite1 {m : PhysMem} {page1 page1' page2 : Word} (hm : Holds m (contents L page1 page2)) :
    Holds (setEntry m L.l0a 0 (mkPte page1' PTE_LEAF_RW)) (contents L page1' page2) := by
  have hslots := contents_slots hL page1 page2
  have hsplit : ∀ page, contents L page page2 =
      (sentinels L ++ (canaries L ++ [⟨L.root1, TEST_VPN2, mkPte L.l1a PTE_V⟩,
        ⟨L.l1a, 0, mkPte L.l0a PTE_V⟩])) ++
        ⟨L.l0a, 0, mkPte page PTE_LEAF_RW⟩ ::
          (leafTables L.root2 TEST_VPN2 L.l1b L.l0b page2 ++
            (⟨L.root1, 2, mkPte L.l1Id PTE_V⟩ :: windowTables L.root2 L.l1Id L.l0Id)) := by
    simp [contents, trees, leafTables]
  rw [hsplit] at hm hslots ⊢
  exact hm.reassign hslots rfl

@[inherit_doc rewrite1]
theorem rewrite2 {m : PhysMem} {page1 page2 page2' : Word} (hm : Holds m (contents L page1 page2)) :
    Holds (setEntry m L.l0b 0 (mkPte page2' PTE_LEAF_RW)) (contents L page1 page2') := by
  have hslots := contents_slots hL page1 page2
  have hsplit : ∀ page, contents L page1 page =
      (sentinels L ++ (canaries L ++ (leafTables L.root1 TEST_VPN2 L.l1a L.l0a page1 ++
        [⟨L.root2, TEST_VPN2, mkPte L.l1b PTE_V⟩, ⟨L.l1b, 0, mkPte L.l0b PTE_V⟩]))) ++
        ⟨L.l0b, 0, mkPte page PTE_LEAF_RW⟩ ::
          (⟨L.root1, 2, mkPte L.l1Id PTE_V⟩ :: windowTables L.root2 L.l1Id L.l0Id) := by
    simp [contents, trees, leafTables]
  rw [hsplit] at hm hslots ⊢
  exact hm.reassign hslots rfl

end Tables

/-! ## The run -/

/-- The tables with the leaves on `page1` and `page2`, and cached translations of the
tested address to pages of `ps` in the address space that is installed. -/
def TablesOn (page1 page2 satp : Word) (asid₀ : Nat) (ps : List Word) (s : State Fn Var) : Prop :=
  Mapped (lab L) (fun m => Holds m (contents L page1 page2)) satp (Seen (pagesOf asid₀ ps)) s

section Run

variable {L} (hL : L.Placed) {s : State Fn Var} {Q : State Fn Var → Prop}

include hL

/-- A phase of the lab. -/
theorem phase_run {f g : Fn} {rb epc : PhaseVar} {page1 page2 satp : Word} {asid₀ : Nat}
    {ps : List Word} (hcode : code L f = phase L f rb epc) (h : AtSupervisor s f 0)
    (hkeeps : Keeps Fn Var (fun m => Holds m (contents L page1 page2)) satp
      (Seen (pagesOf asid₀ ps)))
    (hasid : asidOf satp = asid₀) (hs : TablesOn L page1 page2 satp asid₀ ps s)
    (hnext : s.core.data.mRegs.next = some g)
    (hQ : ∀ s' p regs, p ∈ ps → AtMachine s' g 0 →
      regs.count = s.core.data.mRegs.count + 1 → regs.cause = CAUSE_ECALL_FROM_S →
      regs.epc = L.site f 5 →
      s'.core.data = { s.core.data with
        mem := Function.update (Function.update s.core.data.mem (L.var rb).toNat
          (s.core.data.mem p.toNat)) (L.var epc).toNat (L.site f 5)
        mRegs := regs } →
      s'.core.failed = s.core.failed → TablesOn L page1 page2 satp asid₀ ps s' →
      Inevitable (Tlb.Step (lab L).client) Q s') :
    Inevitable (Tlb.Step (lab L).client) Q s :=
  SfenceVma.phase_run h hcode (hL.siteWindow f) hkeeps hs (if_pos ⟨hasid, rfl⟩)
    (hL.varWindow rb) (hL.varWindow epc) (hL.holds_stored contents_pages rb)
    (hL.holds_stored contents_pages epc) hnext hQ

theorem plantChecks_pass {d : LabData} (hd : Holds d.mem (canaries L)) :
    ∀ c ∈ plantChecks L, c.1 d = true := by
  have hA : entry d L.scratch1 0 = CANARY_A := hd.read (by simp [canaries])
  have hB : entry d L.scratch2 0 = CANARY_B := hd.read (by simp [canaries])
  have hC : entry d L.scratch3 0 = CANARY_C := hd.read (by simp [canaries])
  have hD : entry d L.scratch4 0 = CANARY_D := hd.read (by simp [canaries])
  have hpage : ∀ p ∈ L.pages, ∀ msg, (misaligned p msg).1 d = true :=
    fun p hp msg => misaligned_pass (hL.page p hp)
  simp only [Layout.pages, List.mem_cons, List.not_mem_nil, or_false, forall_eq_or_imp,
    forall_eq] at hpage
  simp only [plantChecks, hA, hB, hC, hD, hpage, List.mem_cons, List.not_mem_nil, or_false,
    forall_eq_or_imp, forall_eq, beq_self_eq_true, and_self]

theorem tableChecks_pass {d : LabData}
    (hd : Holds d.mem (canaries L ++ trees L L.scratch1 L.scratch2)) :
    ∀ c ∈ tableChecks L, c.1 d = true := by
  have hpage : ∀ p ∈ L.pages, PageAt p := hL.page
  have hroot1 : entry d L.root1 TEST_VPN2 = mkPte L.l1a PTE_V :=
    hd.read (by simp [trees, leafTables])
  have hl1a : entry d L.l1a 0 = mkPte L.l0a PTE_V := hd.read (by simp [trees, leafTables])
  have hl0a : entry d L.l0a 0 = mkPte L.scratch1 PTE_LEAF_RW :=
    hd.read (by simp [trees, leafTables])
  have hroot2 : entry d L.root2 TEST_VPN2 = mkPte L.l1b PTE_V :=
    hd.read (by simp [trees, leafTables])
  have hl1b : entry d L.l1b 0 = mkPte L.l0b PTE_V := hd.read (by simp [trees, leafTables])
  have hl0b : entry d L.l0b 0 = mkPte L.scratch2 PTE_LEAF_RW :=
    hd.read (by simp [trees, leafTables])
  have hident1 : entry d L.root1 2 = mkPte L.l1Id PTE_V := hd.read (by simp [trees])
  have hident2 : entry d L.root2 2 = mkPte L.l1Id PTE_V :=
    hd.read (by simp [trees, windowTables])
  have hpointer : mkPte L.l1Id PTE_V &&& (PTE_V ||| PTE_R ||| PTE_W ||| PTE_X) = PTE_V := by
    rw [mkPte_and (by decide)]
    decide
  intro c hc
  simp only [tableChecks, List.mem_append, List.mem_cons, List.not_mem_nil, or_false] at hc
  rcases hc with (((((hc | hc) | hc) | hc) | hc) | hc) | rfl | rfl | rfl | rfl | rfl | rfl | rfl |
    rfl | rfl
  · exact pointerChecks_pass (hpage _ (by simp [Layout.pages])) hroot1 c hc
  · exact pointerChecks_pass (hpage _ (by simp [Layout.pages])) hl1a c hc
  · exact leafChecks_pass (hpage _ (by simp [Layout.pages])) hl0a c hc
  · exact pointerChecks_pass (hpage _ (by simp [Layout.pages])) hroot2 c hc
  · exact pointerChecks_pass (hpage _ (by simp [Layout.pages])) hl1b c hc
  · exact leafChecks_pass (hpage _ (by simp [Layout.pages])) hl0b c hc
  · simp only [hident1, hpointer, beq_self_eq_true]
  · simp only [hident2, hpointer, beq_self_eq_true]
  · exact outside_pass (hL.siteWindow .smodePhaseA 0)
  · exact outside_pass (hL.siteWindow .smodePhaseB 0)
  · exact outside_pass (hL.siteWindow .smodePhaseC 0)
  · exact outside_pass (hL.siteWindow .smodePhaseD 0)
  · exact outside_pass (hL.siteWindow .smodePhaseE 0)
  · exact outside_pass hL.entryWindow
  · exact outside_pass hL.regsWindow

/-- The statics and the trap record that the report reads, as `main` leaves them. -/
structure Opened (L : Layout) (d : LabData) : Prop where
  satpARb : d.vars .satpARb = satp1 L.toLayout
  pte1Before : d.vars .pte1Before = mkPte L.scratch1 PTE_LEAF_RW
  pte2Before : d.vars .pte2Before = mkPte L.scratch2 PTE_LEAF_RW
  next : d.mRegs.next = some .midToB
  count : d.mRegs.count = 0
  sTraps : d.sTraps = 0

theorem main_run (h : Started s .main) (hzero : Holds s.core.data.mem (sentinels L))
    (hQ : ∀ s', AtSupervisor s' .smodePhaseA 0 → Opened L s'.core.data → s'.core.failed = [] →
      TablesOn L L.scratch1 L.scratch2 (satp1 L.toLayout) 1 [L.scratch1] s' →
      Inevitable (Tlb.Step (lab L).client) Q s') :
    Inevitable (Tlb.Step (lab L).client) Q s := by
  have hslots := contents_slots hL L.scratch1 L.scratch2
  have hbuilt : ((canaries L ++ trees L L.scratch1 L.scratch2).map slot).Nodup := by
    rw [contents, List.map_append] at hslots
    exact (List.nodup_append.mp hslots).2.1
  refine open_run (lab L) (sentinels L) h rfl (failuresOf_buildTables hbuilt
    (fun _ hd => plantChecks_pass hL hd) fun _ hd => tableChecks_pass hL hd) hzero
    hslots (by simp [mainRecord, Stmt.quiet, Stmt.failures])
    (keeps1 hL (by simp [Layout.pages]) (by simp))
    fun s' d hat hd hsatp hcount htraps hdata hfailed hs => hQ s' hat ?_ hfailed hs
  rw [← trees_built] at hd
  have hleaf1 : entry d L.l0a 0 = mkPte L.scratch1 PTE_LEAF_RW :=
    hd.read (by simp [trees, leafTables])
  have hleaf2 : entry d L.l0b 0 = mkPte L.scratch2 PTE_LEAF_RW :=
    hd.read (by simp [trees, leafTables])
  constructor
  · rw [hdata, ← hsatp]; rfl
  · rw [hdata, ← hleaf1]; rfl
  · rw [hdata, ← hleaf2]; rfl
  · rw [hdata]; rfl
  · rw [hdata]; exact hcount
  · rw [hdata]; exact htraps

omit hL in
/-- `mid_to_B` and `mid_to_E`: the other address space, of which only the present
mapping can be seen. -/
theorem switch_run {f g k : Fn} {cause epc rb : Var} {page1 page2 satp satp' : Word}
    {asid₀ asid₁ : Nat} {ps qs : List Word} (h : AtMachine s f 0)
    (hcode : code L f = snapshot cause epc ++
      (setSatp satp' ++ ([.set rb fun d => d.satp, .arm k] ++ [.drop g])))
    (hkeeps : Keeps Fn Var (fun m => Holds m (contents L page1 page2)) satp
      (Seen (pagesOf asid₀ ps)))
    (hkeeps' : Keeps Fn Var (fun m => Holds m (contents L page1 page2)) satp'
      (Seen (pagesOf asid₁ qs)))
    (hs : TablesOn L page1 page2 satp asid₀ ps s)
    (hQ : ∀ s', AtSupervisor s' g 0 →
      s'.core.data = { s.core.data with
        satp := satp'
        mRegs := { s.core.data.mRegs with next := some k }
        vars := Function.update (Function.update (Function.update s.core.data.vars
          cause s.core.data.mRegs.cause) epc s.core.data.mRegs.epc) rb satp' } →
      s'.core.failed = s.core.failed → TablesOn L page1 page2 satp' asid₁ qs s' →
      Inevitable (Tlb.Step (lab L).client) Q s') :
    Inevitable (Tlb.Step (lab L).client) Q s := by
  have hcode₀ : (code L f).drop 0 = snapshot cause epc ++
      (setSatp satp' ++ ([.set rb fun d => d.satp, .arm k] ++ [.drop g])) := hcode
  refine quiet_run h hcode₀ (snapshot_quiet _ _) hkeeps hs fun s₁ h₁ hs₁ => ?_
  refine enable_run (h.after h₁) (drop_of_append hcode₀) (by simp [Stmt.quiet, Stmt.failures])
    hkeeps' hs₁.tables fun s₂ hat₂ hdata₂ hfailed₂ hs₂ => ?_
  refine hQ s₂ hat₂ ?_ ?_ hs₂
  · rw [hdata₂, h₁, Core.after]
    rfl
  · rw [hfailed₂, h₁, Core.after]
    simp [failuresOf, snapshot, Stmt.failures]

/-- `mid_to_C`: both pages can be seen at the tested address from now on. -/
theorem midToC_run (h : AtMachine s .midToC 0)
    (hs : TablesOn L L.scratch1 L.scratch2 (satp2 L.toLayout) 2 [L.scratch2] s)
    (hQ : ∀ s', AtSupervisor s' .smodePhaseC 0 →
      s'.core.data = { s.core.data with
        mem := setEntry (setEntry s.core.data.mem L.l0a 0 (mkPte L.scratch3 PTE_LEAF_RW))
          L.l0b 0 (mkPte L.scratch4 PTE_LEAF_RW)
        mRegs := { s.core.data.mRegs with next := some .midToD }
        vars := Function.update (Function.update (Function.update (Function.update
          s.core.data.vars .pBMcause s.core.data.mRegs.cause) .pBMepc s.core.data.mRegs.epc)
          .pte1After (mkPte L.scratch3 PTE_LEAF_RW)) .pte2After (mkPte L.scratch4 PTE_LEAF_RW) } →
      s'.core.failed = s.core.failed →
      TablesOn L L.scratch3 L.scratch4 (satp2 L.toLayout) 2 [L.scratch2, L.scratch4] s' →
      Inevitable (Tlb.Step (lab L).client) Q s') :
    Inevitable (Tlb.Step (lab L).client) Q s := by
  have hp₂ : L.scratch2 ∈ L.pages := by simp [Layout.pages]
  have hp₄ : L.scratch4 ∈ L.pages := by simp [Layout.pages]
  have hkeeps : ∀ page1, Keeps Fn Var (fun m => Holds m (contents L page1 L.scratch2))
      (satp2 L.toLayout) (Seen (pagesOf 2 [L.scratch2])) := fun _ => keeps2 hL hp₂ (by simp)
  have hcode : (code L .midToC).drop 0 = snapshot .pBMcause .pBMepc ++
      (.assign L.l0a 0 (mkPte L.scratch3 PTE_LEAF_RW) ::
        .assign L.l0b 0 (mkPte L.scratch4 PTE_LEAF_RW) ::
        (rewriteRecord L ++ [.drop .smodePhaseC])) := rfl
  refine quiet_run h hcode (snapshot_quiet _ _) (hkeeps _) hs fun s₁ h₁ hs₁ => ?_
  have hat₁ := h.after h₁
  -- the leaf of the other address space, which no walk reads now
  have hcode₁ := drop_of_append hcode
  refine assign_step hat₁ (stmt_of_drop hcode₁) hs₁ (hkeeps L.scratch3) (fun k v hv => hv)
    (rewrite1 hL hs₁.tables) fun s₂ h₂ hs₂ => ?_
  have hat₂ := hat₁.jump h₂
  have hcode₂ := drop_of_cons hcode₁
  have hkeeps' : Keeps Fn Var (fun m => Holds m (contents L L.scratch3 L.scratch4))
      (satp2 L.toLayout) (Seen (pagesOf 2 [L.scratch2, L.scratch4])) := keeps2 hL hp₄ (by simp)
  refine assign_step hat₂ (stmt_of_drop hcode₂) hs₂ hkeeps'
    (fun k v hv => pagesOf_mono (by simp) hv) (rewrite2 hL hs₂.tables) fun s₃ h₃ hs₃ => ?_
  have hat₃ := hat₂.jump h₃
  have hcode₃ := drop_of_cons hcode₂
  refine quiet_run hat₃ hcode₃ (by simp [rewriteRecord, Stmt.quiet]) hkeeps' hs₃
    fun s₄ h₄ hs₄ => ?_
  refine drop_step (hat₃.after h₄) (stmt_of_drop (drop_of_append hcode₃)) hkeeps' hs₄
    fun s₅ hat₅ hdata₅ hfailed₅ hs₅ => ?_
  have hpte1 : entry s₃.core.data L.l0a 0 = mkPte L.scratch3 PTE_LEAF_RW :=
    hs₃.tables.read (by simp [contents, trees, leafTables])
  have hpte2 : entry s₃.core.data L.l0b 0 = mkPte L.scratch4 PTE_LEAF_RW :=
    hs₃.tables.read (by simp [contents, trees, leafTables])
  have hdata₄ : s₄.core.data = { s₃.core.data with
      mRegs := { s₃.core.data.mRegs with next := some .midToD }
      vars := Function.update (Function.update s₃.core.data.vars
        .pte1After (mkPte L.scratch3 PTE_LEAF_RW)) .pte2After (mkPte L.scratch4 PTE_LEAF_RW) } := by
    rw [h₄, ← hpte1, ← hpte2]
    rfl
  have hfailed₄ : s₄.core.failed = s₃.core.failed := by
    rw [h₄, Core.after]
    simp only [rewriteRecord, failuresOf, Stmt.failures, Stmt.apply]
    simp [hpte1, show ∀ vars, entry { s₃.core.data with vars := vars } L.l0b 0 =
      mkPte L.scratch4 PTE_LEAF_RW from fun _ => hpte2]
  refine hQ s₅ hat₅ ?_ ?_ hs₅
  · rw [hdata₅, hdata₄, h₃, h₂, h₁]
    rfl
  · rw [hfailed₅, hfailed₄, h₃, h₂, h₁, Core.after]
    simp [failuresOf, snapshot, Stmt.failures]

omit hL in
/-- `mid_to_D`: the fence for the other address space changes nothing for certain. -/
theorem midToD_run {page1 page2 : Word} {ps : List Word} (h : AtMachine s .midToD 0)
    (hkeeps : Keeps Fn Var (fun m => Holds m (contents L page1 page2)) (satp2 L.toLayout)
      (Seen (pagesOf 2 ps)))
    (hs : TablesOn L page1 page2 (satp2 L.toLayout) 2 ps s)
    (hQ : ∀ s', AtSupervisor s' .smodePhaseD 0 →
      s'.core.data = { s.core.data with
        mRegs := { s.core.data.mRegs with next := some .midToE }
        vars := Function.update (Function.update s.core.data.vars
          .pCMcause s.core.data.mRegs.cause) .pCMepc s.core.data.mRegs.epc } →
      s'.core.failed = s.core.failed → TablesOn L page1 page2 (satp2 L.toLayout) 2 ps s' →
      Inevitable (Tlb.Step (lab L).client) Q s') :
    Inevitable (Tlb.Step (lab L).client) Q s := by
  have hcode : (code L .midToD).drop 0 = snapshot .pCMcause .pCMepc ++
      (.sfence none (some 1) :: ([.arm .midToE] ++ [.drop .smodePhaseD])) := rfl
  refine quiet_run h hcode (snapshot_quiet _ _) hkeeps hs fun s₁ h₁ hs₁ => ?_
  have hat₁ := h.after h₁
  have hcode₁ := drop_of_append hcode
  refine fence_step hat₁ (stmt_of_drop hcode₁) hs₁.bounded fun s₂ h₂ hbounded => ?_
  have hdata₂ : s₂.core.data = s₁.core.data := by rw [h₂]
  have htables₂ : Holds s₂.core.data.mem (contents L page1 page2) := by
    rw [hdata₂]
    exact hs₁.tables
  have hsatp₂ : s₂.core.data.satp = satp2 L.toLayout := by
    rw [hdata₂]
    exact hs₁.satp
  have hs₂ : TablesOn L page1 page2 (satp2 L.toLayout) 2 ps s₂ := by
    refine ⟨htables₂, hsatp₂, fun k v hv => ?_⟩
    rcases hbounded k v hv with ⟨hold, -⟩ | hwalk
    · exact hold
    · exact hkeeps s₂.core htables₂ hsatp₂ k v hwalk
  have hat₂ := hat₁.jump h₂
  have hcode₂ := drop_of_cons hcode₁
  refine quiet_run hat₂ hcode₂ (by simp [Stmt.quiet]) hkeeps hs₂ fun s₃ h₃ hs₃ => ?_
  refine drop_step (hat₂.after h₃) (stmt_of_drop (drop_of_append hcode₂)) hkeeps hs₃
    fun s₄ hat₄ hdata₄ hfailed₄ hs₄ => ?_
  refine hQ s₄ hat₄ ?_ ?_ hs₄
  · rw [hdata₄, h₃, Core.after, hdata₂, h₁]
    rfl
  · rw [hfailed₄, h₃, Core.after, h₂, h₁, Core.after]
    simp [failuresOf, snapshot, Stmt.failures]

/-- What the checks of the report read, when phases C and D read `c` and `d'`. -/
structure Record (L : Layout) (d : LabData) (c d' : Word) : Prop where
  satpARb : d.vars .satpARb = satp1 L.toLayout
  satpBRb : d.vars .satpBRb = satp2 L.toLayout
  satpERb : d.vars .satpERb = satp1 L.toLayout
  pte1Before : d.vars .pte1Before = mkPte L.scratch1 PTE_LEAF_RW
  pte2Before : d.vars .pte2Before = mkPte L.scratch2 PTE_LEAF_RW
  pte1After : d.vars .pte1After = mkPte L.scratch3 PTE_LEAF_RW
  pte2After : d.vars .pte2After = mkPte L.scratch4 PTE_LEAF_RW
  readA : left L d .pA = CANARY_A
  readB : left L d .pB = CANARY_B
  readC : left L d .pC = c
  readD : left L d .pD = d'
  readE : left L d .pE = CANARY_C
  words : Holds d.mem (sentinels L ++ canaries L)
  sTraps : d.sTraps = 0
  count : d.mRegs.count = 5
  causeA : d.vars .pAMcause = CAUSE_ECALL_FROM_S
  causeB : d.vars .pBMcause = CAUSE_ECALL_FROM_S
  causeC : d.vars .pCMcause = CAUSE_ECALL_FROM_S
  causeD : d.vars .pDMcause = CAUSE_ECALL_FROM_S
  causeE : d.vars .pEMcause = CAUSE_ECALL_FROM_S
  siteA : d.vars .pAMepc = left L d .pAEpc
  siteB : d.vars .pBMepc = left L d .pBEpc
  siteC : d.vars .pCMepc = left L d .pCEpc
  siteD : d.vars .pDMepc = left L d .pDEpc
  siteE : d.vars .pEMepc = left L d .pEEpc
  satpRestored : d.vars .satpRestored = 0
  pmpRestored : d.vars .pmpRestored = 0

/-- The messages of a run whose read without a fence is not stale. -/
def baselineFailures : List String :=
  ["phase-C readback != stale canary B (baseline broken)",
   "phase-C unexpectedly fresh (rewrite invalidated it?)"]

/-- The messages of a run in which the fence left the other address space alone. -/
def scopedFailures : List String :=
  ["phase-D ASID2 did not go fresh after the rs2=1 fence",
   "phase-D ASID2 unexpectedly stale (fence scoped on this run?)"]

/-- The messages of a run that reads `c` and `d'` in between. -/
def failuresFor (c d' : Word) : List String :=
  (if c = CANARY_B then [] else baselineFailures) ++ if d' = CANARY_D then [] else scopedFailures

theorem satpChecks_pass {d : LabData} {x : Var} {asid₀ : Nat} {asid root l1 l0 high : Word}
    {modeMsg asidMsg ppnMsg : String} (hspace : Space L asid₀ root l1 l0 high)
    (hvar : d.vars x = high ||| (root >>> 12)) (hasid : asid.toNat = asid₀ % 2 ^ 12) :
    ∀ c ∈ satpChecks x asid root modeMsg asidMsg ppnMsg, c.1 d = true := by
  have hroot : PageAt root := hL.page _ hspace.root
  obtain ⟨hsum, hppn⟩ := satp_fields hroot hspace.low
  have hmode : (high ||| (root >>> 12)) >>> 60 = 8 := by
    rw [satp_mode hroot hspace.low]
    apply BitVec.eq_of_toNat_eq
    rw [BitVec.toNat_ushiftRight, Nat.shiftRight_eq_div_pow, hspace.mode]
    rfl
  have hfield : ((high ||| (root >>> 12)) >>> 44) &&& 0xFFF = asid := by
    have hbound := hroot.bound
    have hhigh := hspace.asid
    have hlow := hspace.low
    apply BitVec.eq_of_toNat_eq
    rw [BitVec.toNat_and, show (0xFFF : Word).toNat = 2 ^ 12 - 1 by decide,
      Nat.and_two_pow_sub_one_eq_mod, BitVec.toNat_ushiftRight, Nat.shiftRight_eq_div_pow, hsum,
      hasid]
    omega
  simp only [satpChecks, List.mem_cons, List.not_mem_nil, or_false, forall_eq_or_imp, forall_eq,
    hvar, hmode, hfield, hppn, beq_self_eq_true, and_self]

/-- The checks that fail are those about the two reads in between. -/
theorem Record.failures {d : LabData} {c d' : Word} (hd : Record L d c d')
    (hc : c = CANARY_B ∨ c = CANARY_D) (hd' : d' = CANARY_B ∨ d' = CANARY_D) :
    failuresOf d (checkAll (reportChecks L)) = failuresFor c d' := by
  have hA : entry d L.scratch1 0 = CANARY_A := hd.words.read (by simp [canaries])
  have hB : entry d L.scratch2 0 = CANARY_B := hd.words.read (by simp [canaries])
  have hC : entry d L.scratch3 0 = CANARY_C := hd.words.read (by simp [canaries])
  have hD : entry d L.scratch4 0 = CANARY_D := hd.words.read (by simp [canaries])
  have hzero1 : entry d L.scratch1 511 = 0 := hd.words.read (by simp [sentinels])
  have hzero2 : entry d L.scratch2 511 = 0 := hd.words.read (by simp [sentinels])
  have hzero3 : entry d L.scratch3 511 = 0 := hd.words.read (by simp [sentinels])
  have hzero4 : entry d L.scratch4 511 = 0 := hd.words.read (by simp [sentinels])
  have hne : [CANARY_A, CANARY_B, CANARY_C, CANARY_D].Pairwise (· ≠ ·) := by decide
  have hne' := hne.imp Ne.symm
  simp only [List.pairwise_cons, List.mem_cons, List.not_mem_nil, or_false, forall_eq_or_imp,
    forall_eq] at hne hne'
  have hfirst : failuresOf d (checkAll
      (satpChecks .satpARb 1 L.root1 "satpA MODE != 8 (Sv39)" "satpA ASID != 1"
        "satpA PPN != root1 page")) = [] :=
    failuresOf_checkAll_eq_nil d (satpChecks_pass hL space1 hd.satpARb rfl)
  have hsecond : failuresOf d (checkAll
      (satpChecks .satpBRb 2 L.root2 "satpB MODE != 8 (Sv39)" "satpB ASID != 2"
        "satpB PPN != root2 page")) = [] :=
    failuresOf_checkAll_eq_nil d (satpChecks_pass hL space2 hd.satpBRb rfl)
  have hthird : failuresOf d (checkAll
      (satpChecks .satpERb 1 L.root1 "satpE MODE != 8 (Sv39)" "satpE ASID != 1"
        "satpE PPN != root1 page")) = [] :=
    failuresOf_checkAll_eq_nil d (satpChecks_pass hL space1 hd.satpERb rfl)
  rw [failuresOf_checkAll] at hfirst hsecond hthird ⊢
  simp only [reportChecks, List.filter_append, List.map_append, hfirst, hsecond, hthird,
    List.nil_append]
  rcases hc with rfl | rfl <;> rcases hd' with rfl | rfl <;>
    simp [hd.pte1Before, hd.pte2Before, hd.pte1After, hd.pte2After, hd.readA, hd.readB, hd.readC,
      hd.readD, hd.readE, hA, hB, hC, hD, hzero1, hzero2, hzero3, hzero4, hd.sTraps, hd.count,
      hd.causeA, hd.causeB, hd.causeC, hd.causeD, hd.causeE, hd.siteA, hd.siteB, hd.siteC,
      hd.siteD, hd.siteE, hd.satpRestored, hd.pmpRestored, hne, hne', failuresFor,
      baselineFailures, scopedFailures]

/-- What the lab has reported when it ends. -/
structure Reported (L : Layout) (s : State Fn Var) : Prop where
  installed : left L s.core.data .pA = CANARY_A ∧ left L s.core.data .pB = CANARY_B
  unfenced : left L s.core.data .pC = CANARY_B ∨ left L s.core.data .pC = CANARY_D
  unnamed : left L s.core.data .pD = CANARY_B ∨ left L s.core.data .pD = CANARY_D
  reinstalled : left L s.core.data .pE = CANARY_C
  words : Holds s.core.data.mem (sentinels L ++ canaries L)
  traps : s.core.data.mRegs.count = 5 ∧ s.core.data.sTraps = 0
  failed : s.core.failed = failuresFor (left L s.core.data .pC) (left L s.core.data .pD)
  verdict : s.core.place = .stopped
    (decide (left L s.core.data .pC = CANARY_B ∧ left L s.core.data .pD = CANARY_D))

theorem report_run {c d' : Word} (h : AtMachine s .reportMmode 0)
    (hd : Record L (dataAfter s.core.data (restore .pEMcause .pEMepc .satpRestored .pmpRestored))
      c d') (hc : c = CANARY_B ∨ c = CANARY_D) (hd' : d' = CANARY_B ∨ d' = CANARY_D)
    (hfailed : s.core.failed = []) :
    Inevitable (Tlb.Step (lab L).client) (Reported L) s := by
  refine close_run h rfl hfailed fun s' e he hdata hfails hplace => ?_
  rw [← he] at hd
  rw [hd.failures hL hc hd'] at hfails hplace
  constructor
  · rw [hdata]; exact ⟨hd.readA, hd.readB⟩
  · rw [hdata, hd.readC]; exact hc
  · rw [hdata, hd.readD]; exact hd'
  · rw [hdata]; exact hd.readE
  · rw [hdata]; exact hd.words
  · rw [hdata]; exact ⟨hd.count, hd.sTraps⟩
  · rw [hdata, hd.readC, hd.readD]; exact hfails
  · rw [hdata, hd.readC, hd.readD, hplace]
    rcases hc with rfl | rfl <;> rcases hd' with rfl | rfl <;> rfl

omit hL in
/-- The first words of the backing pages. -/
theorem page_words {page1 page2 satp : Word} {asid₀ : Nat} {ps : List Word}
    (hs : TablesOn L page1 page2 satp asid₀ ps s) :
    s.core.data.mem L.scratch1.toNat = CANARY_A ∧ s.core.data.mem L.scratch2.toNat = CANARY_B ∧
      s.core.data.mem L.scratch3.toNat = CANARY_C ∧
      s.core.data.mem L.scratch4.toNat = CANARY_D := by
  have hplanted : Holds s.core.data.mem (canaries L) :=
    fun a ha => hs.tables a (by simp [contents, ha])
  simpa [Holds, slot, canaries] using hplanted

end Run

/-- Whatever the hart caches and forgets, the lab ends with a verdict: the reads under
a root that was installed with a fence are its present mapping, the two reads under
the second root without a fence for it are each one of its two mappings, and the run
passes exactly if the first of them is old and the second is new. -/
theorem rs2_verdict (L : Layout) (hL : L.Placed) (s : State Fn Var) (h : Started s .main)
    (hzero : Holds s.core.data.mem (sentinels L)) :
    Inevitable (Tlb.Step (lab L).client) (Reported L) s := by
  have hpages : ∀ p ∈ [L.scratch1, L.scratch2, L.scratch3, L.scratch4], p ∈ L.pages := by
    simp [Layout.pages]
  simp only [List.mem_cons, List.not_mem_nil, or_false, forall_eq_or_imp, forall_eq] at hpages
  obtain ⟨hp₁, hp₂, hp₃, hp₄⟩ := hpages
  have hasid1 := asidOf_satp1 hL
  have hasid2 := asidOf_satp2 hL
  have hkeepsA : Keeps Fn Var (fun m => Holds m (contents L L.scratch1 L.scratch2))
      (satp1 L.toLayout) (Seen (pagesOf 1 [L.scratch1])) := keeps1 hL hp₁ (by simp)
  have hkeepsB : Keeps Fn Var (fun m => Holds m (contents L L.scratch1 L.scratch2))
      (satp2 L.toLayout) (Seen (pagesOf 2 [L.scratch2])) := keeps2 hL hp₂ (by simp)
  have hkeepsC : Keeps Fn Var (fun m => Holds m (contents L L.scratch3 L.scratch4))
      (satp2 L.toLayout) (Seen (pagesOf 2 [L.scratch2, L.scratch4])) := keeps2 hL hp₄ (by simp)
  have hkeepsE : Keeps Fn Var (fun m => Holds m (contents L L.scratch3 L.scratch4))
      (satp1 L.toLayout) (Seen (pagesOf 1 [L.scratch3])) := keeps1 hL hp₃ (by simp)
  refine main_run hL h hzero fun s₁ hat₁ hopen hfailed₁ hs₁ => ?_
  refine phase_run hL rfl hat₁ hkeepsA hasid1 hs₁ hopen.next
    fun s₂ pA regsA hpA hat₂ hcountA hcauseA hepcA hdata₂ hfailed₂ hs₂ => ?_
  obtain rfl : pA = L.scratch1 := by simpa using hpA
  refine switch_run hat₂ rfl hkeepsA hkeepsB hs₂ fun s₃ hat₃ hdata₃ hfailed₃ hs₃ => ?_
  refine phase_run hL rfl hat₃ hkeepsB hasid2 hs₃ (by rw [hdata₃])
    fun s₄ pB regsB hpB hat₄ hcountB hcauseB hepcB hdata₄ hfailed₄ hs₄ => ?_
  obtain rfl : pB = L.scratch2 := by simpa using hpB
  refine midToC_run hL hat₄ hs₄ fun s₅ hat₅ hdata₅ hfailed₅ hs₅ => ?_
  refine phase_run hL rfl hat₅ hkeepsC hasid2 hs₅ (by rw [hdata₅])
    fun s₆ pC regsC hpC hat₆ hcountC hcauseC hepcC hdata₆ hfailed₆ hs₆ => ?_
  refine midToD_run hat₆ hkeepsC hs₆ fun s₇ hat₇ hdata₇ hfailed₇ hs₇ => ?_
  refine phase_run hL rfl hat₇ hkeepsC hasid2 hs₇ (by rw [hdata₇])
    fun s₈ pD regsD hpD hat₈ hcountD hcauseD hepcD hdata₈ hfailed₈ hs₈ => ?_
  refine switch_run hat₈ rfl hkeepsC hkeepsE hs₈ fun s₉ hat₉ hdata₉ hfailed₉ hs₉ => ?_
  refine phase_run hL rfl hat₉ hkeepsE hasid1 hs₉ (by rw [hdata₉])
    fun s₁₀ pE regsE hpE hat₁₀ hcountE hcauseE hepcE hdata₁₀ hfailed₁₀ hs₁₀ => ?_
  obtain rfl : pE = L.scratch3 := by simpa using hpE
  have hword : ∀ p ∈ [L.scratch2, L.scratch4], ∀ {s page1 page2 satp asid₀ ps},
      TablesOn L page1 page2 satp asid₀ ps s →
        s.core.data.mem p.toNat = CANARY_B ∨ s.core.data.mem p.toNat = CANARY_D := by
    intro p hp s page1 page2 satp asid₀ ps hs
    obtain ⟨-, hB, -, hD⟩ := page_words hs
    simp only [List.mem_cons, List.not_mem_nil, or_false] at hp
    rcases hp with rfl | rfl
    · exact Or.inl hB
    · exact Or.inr hD
  have hfailed : s₁₀.core.failed = [] := by
    rw [hfailed₁₀, hfailed₉, hfailed₈, hfailed₇, hfailed₆, hfailed₅, hfailed₄, hfailed₃, hfailed₂,
      hfailed₁]
  refine report_run hL hat₁₀ ?_ (hword pC hpC hs₅) (hword pD hpD hs₇) hfailed
  have hmem : (dataAfter s₁₀.core.data
      (restore .pEMcause .pEMepc .satpRestored .pmpRestored)).mem = s₁₀.core.data.mem := rfl
  have hrewrite1 := hL.setEntry_var (show L.l0a ∈ L.pages by simp [Layout.pages])
  have hrewrite2 := hL.setEntry_var (show L.l0b ∈ L.pages by simp [Layout.pages])
  constructor
  case words =>
    intro a ha
    refine hs₁₀.tables a ?_
    rw [contents, ← List.append_assoc]
    exact List.mem_append_left _ ha
  case readE =>
    rw [left, hmem, hdata₁₀]
    simpa [hL.update_var] using (page_words hs₉).2.2.1
  case readD =>
    rw [left, hmem, hdata₁₀, hdata₉, hdata₈]
    simp [hL.update_var]
  case readC =>
    rw [left, hmem, hdata₁₀, hdata₉, hdata₈, hdata₇, hdata₆]
    simp [hL.update_var]
  case readB =>
    rw [left, hmem, hdata₁₀, hdata₉, hdata₈, hdata₇, hdata₆, hdata₅, hdata₄]
    simpa [hL.update_var, hrewrite1, hrewrite2] using (page_words hs₃).2.1
  case readA =>
    rw [left, hmem, hdata₁₀, hdata₉, hdata₈, hdata₇, hdata₆, hdata₅, hdata₄, hdata₃, hdata₂]
    simpa [hL.update_var, hrewrite1, hrewrite2] using (page_words hs₁).1
  all_goals
    simp [restore, snapshot, setSatp, dataAfter, Stmt.apply, left, hdata₁₀, hdata₉, hdata₈, hdata₇,
      hdata₆, hdata₅, hdata₄, hdata₃, hdata₂, hL.update_var, hrewrite1, hrewrite2, hopen.satpARb,
      hopen.pte1Before, hopen.pte2Before, hopen.sTraps, hopen.count, hcountA, hcountB, hcountC,
      hcountD, hcountE, hcauseA, hcauseB, hcauseC, hcauseD, hcauseE, hepcA, hepcB, hepcC, hepcD,
      hepcE]

/-- Twelve pages in a row, the variables in front of them, and the code before. -/
def sampleLayout : Layout where
  root1 := 0x80010000
  l1a := 0x80011000
  l0a := 0x80012000
  root2 := 0x80013000
  l1b := 0x80014000
  l0b := 0x80015000
  l1Id := 0x80016000
  l0Id := 0x80017000
  scratch1 := 0x80018000
  scratch2 := 0x80019000
  scratch3 := 0x8001A000
  scratch4 := 0x8001B000
  var
    | .pA => 0x8000F000
    | .pB => 0x8000F008
    | .pC => 0x8000F010
    | .pD => 0x8000F018
    | .pE => 0x8000F020
    | .pAEpc => 0x8000F028
    | .pBEpc => 0x8000F030
    | .pCEpc => 0x8000F038
    | .pDEpc => 0x8000F040
    | .pEEpc => 0x8000F048
  site f := codeAt f.ctorIdx
  sTrapEntry := 0x80000100
  sRegs9 := 0x8000F098

theorem sampleLayout_placed : sampleLayout.Placed where
  page := by
    intro p hp
    simp only [Layout.pages, sampleLayout, List.mem_cons, List.not_mem_nil, or_false] at hp
    rcases hp with rfl | rfl | rfl | rfl | rfl | rfl | rfl | rfl | rfl | rfl | rfl | rfl <;>
      exact ⟨by decide, by decide⟩
  distinct := by decide
  varInjective := by
    intro x y hxy
    cases x <;> cases y <;> first | rfl | exact absurd hxy (by decide)
  varWindow := by rintro (_ | _) <;> exact ⟨by decide, by decide⟩
  varApart := by
    have hvar : ∀ x, (sampleLayout.var x).toNat < 0x80010000 := by rintro (_ | _) <;> decide
    intro x p hp
    refine Or.inl (lt_of_lt_of_le (hvar x) ?_)
    simp only [Layout.pages, sampleLayout, List.mem_cons, List.not_mem_nil, or_false] at hp
    rcases hp with rfl | rfl | rfl | rfl | rfl | rfl | rfl | rfl | rfl | rfl | rfl | rfl <;> decide
  siteWindow f i := codeAt_window (by cases f <;> decide) i
  entryWindow := ⟨by decide, by decide⟩
  regsWindow := ⟨by decide, by decide⟩

theorem sample_rs2_verdict :
    Inevitable (Tlb.Step (lab sampleLayout).client) (Reported sampleLayout) (stale .main) :=
  rs2_verdict sampleLayout sampleLayout_placed (stale .main) (stale_started Fn.main) (by
    simp [Holds, sentinels, stale])

end Rs2Scoped
end SfenceVma
end BareMetal
