import BareMetal.SfenceVma.Course

/-!
# A fence for one address

`src/sfence-vma-rs1-scoped/srs_main.c`: two addresses are remapped together, and
one of them is fenced (`sfence.vma` with `rs1`).  The lab expects the other one to
have gone fresh as well, which is what it measured on one implementation.

`rs1_verdict` is about every hart: the fenced address reads fresh, the other reads
one of its two pages until the fence for everything, and the run passes exactly if
it read the new one.
-/

namespace BareMetal
namespace SfenceVma
namespace Rs1Scoped

open Machine Sv39 SfenceVmaRs2Scoped

def TEST_VA1 : Word := 0x40000000
def TEST_VA2 : Word := 0xC0000000
def TEST_VPN2_1 : Nat := 1
def TEST_VPN2_2 : Nat := 3

def CANARY_A : Word := 0xAAAAAAAAAAAAAAAA
def CANARY_B : Word := 0xBBBBBBBBBBBBBBBB
def CANARY_C : Word := 0xCCCCCCCCCCCCCCCC
def CANARY_D : Word := 0xDDDDDDDDDDDDDDDD

/-- The functions. -/
inductive Fn
  | main | midToB | midToC | reportMmode | smodePhaseA | smodePhaseB | smodePhaseC

/-- The statics that M-mode writes. -/
inductive Var
  | satpRb | pte1Before | pte1After | pte2Before | pte2After | satpRestored | pmpRestored
  | pAMcause | pAMepc | pBMcause | pBMepc | pCMcause | pCMepc
deriving DecidableEq

/-- The statics that the phases write. -/
inductive PhaseVar
  | pAVa1 | pAVa2 | pBVa1 | pBVa2 | pCVa1 | pCVa2 | pAEcallPc | pBEcallPc | pCEcallPc
deriving DecidableEq

/-- Where the linker put the pages, the variables of the phases, the statements of
the functions, the S-mode trap entry and the last word of `s_regs`. -/
structure Layout where
  rootPt : Word
  l1Id : Word
  l0Id : Word
  l1T1 : Word
  l0T1 : Word
  l1T2 : Word
  l0T2 : Word
  scratch1 : Word
  scratch2 : Word
  scratch3 : Word
  scratch4 : Word
  var : PhaseVar → Word
  site : Fn → Nat → Word
  sTrapEntry : Word
  sRegs9 : Word

namespace Layout

variable (L : Layout)

def pages : List Word :=
  [L.rootPt, L.l1Id, L.l0Id, L.l1T1, L.l0T1, L.l1T2, L.l0T2, L.scratch1, L.scratch2, L.scratch3,
    L.scratch4]

/-- Eleven different pages, and everything else in the identity window and outside
of them. -/
structure Placed : Prop extends Apart L.pages L.var where
  siteWindow : ∀ f i, InWindow (L.site f i)
  entryWindow : InWindow L.sTrapEntry
  regsWindow : InWindow L.sRegs9

end Layout

abbrev LabData := Data Fn Var
abbrev LabStmt := Stmt Fn Var

variable (L : Layout)

/-- `satp` of `main`. -/
def satpOf : Word :=
  SATP_MODE_SV39 ||| (L.rootPt >>> 12)

def canaries : List Assign :=
  [⟨L.scratch1, 0, CANARY_A⟩, ⟨L.scratch2, 0, CANARY_B⟩, ⟨L.scratch3, 0, CANARY_C⟩,
   ⟨L.scratch4, 0, CANARY_D⟩]

/-- The tables, with the leaves under test on `page1` and `page2`. -/
def tableConstruction (page1 page2 : Word) : List Assign :=
  leafTables L.rootPt TEST_VPN2_1 L.l1T1 L.l0T1 page1 ++
    (leafTables L.rootPt TEST_VPN2_2 L.l1T2 L.l0T2 page2 ++
      windowTables L.rootPt L.l1Id L.l0Id)

def plantChecks : List (Check Fn Var) :=
  [(fun d => entry d L.scratch1 0 == CANARY_A, "canary A plant failed"),
   (fun d => entry d L.scratch2 0 == CANARY_B, "canary B plant failed"),
   (fun d => entry d L.scratch3 0 == CANARY_C, "canary C plant failed"),
   (fun d => entry d L.scratch4 0 == CANARY_D, "canary D plant failed"),
   misaligned L.rootPt "root_pt misaligned", misaligned L.l1T1 "l1_t1 misaligned",
   misaligned L.l0T1 "l0_t1 misaligned", misaligned L.l1T2 "l1_t2 misaligned",
   misaligned L.l0T2 "l0_t2 misaligned", misaligned L.scratch1 "scratch1 misaligned",
   misaligned L.scratch2 "scratch2 misaligned", misaligned L.scratch3 "scratch3 misaligned",
   misaligned L.scratch4 "scratch4 misaligned"]

def tableChecks : List (Check Fn Var) :=
  pointerChecks L.rootPt TEST_VPN2_1 L.l1T1 "root entry 1 is not a pure pointer (V only)"
    "root[1] PPN != l1_t1 page number" ++
  pointerChecks L.l1T1 0 L.l0T1 "l1_t1 entry 0 is not a pure pointer (V only)"
    "l1_t1[0] PPN != l0_t1 page number" ++
  pointerChecks L.rootPt TEST_VPN2_2 L.l1T2 "root entry 3 is not a pure pointer (V only)"
    "root[3] PPN != l1_t2 page number" ++
  pointerChecks L.l1T2 0 L.l0T2 "l1_t2 entry 0 is not a pure pointer (V only)"
    "l1_t2[0] PPN != l0_t2 page number" ++
  leafChecks L.l0T1 L.scratch1 "VA1 test leaf missing V/R/W"
    "VA1 test leaf PPN != scratch1 page number" ++
  leafChecks L.l0T2 L.scratch3 "VA2 test leaf missing V/R/W"
    "VA2 test leaf PPN != scratch3 page number" ++
  [outside (L.site .smodePhaseA 0) "smode_phaseA outside identity window",
   outside (L.site .smodePhaseB 0) "smode_phaseB outside identity window",
   outside (L.site .smodePhaseC 0) "smode_phaseC outside identity window",
   outside L.sTrapEntry "s_trap_entry outside identity window",
   outside L.sRegs9 "s_regs outside identity window"]

/-- `main` behind `set_satp`, up to the drop. -/
def mainRecord : List LabStmt :=
  [.set .satpRb fun d => d.satp, .set .pte1Before fun d => entry d L.l0T1 0,
   .set .pte2Before fun d => entry d L.l0T2 0, .arm .midToB]

def main : List LabStmt :=
  buildTables (canaries L) (plantChecks L) (tableConstruction L L.scratch1 L.scratch3)
      (tableChecks L) ++
    (setSatp (satpOf L) ++ (mainRecord L ++ [.drop .smodePhaseA]))

def phase (f : Fn) (rb1 rb2 epc : PhaseVar) : List LabStmt :=
  phaseRead TEST_VA1 (L.var rb1) ++
    (phaseRead TEST_VA2 (L.var rb2) ++ phaseLeave (L.var epc) (L.site f 8))

def smodePhaseA : List LabStmt := phase L .smodePhaseA .pAVa1 .pAVa2 .pAEcallPc
def smodePhaseB : List LabStmt := phase L .smodePhaseB .pBVa1 .pBVa2 .pBEcallPc
def smodePhaseC : List LabStmt := phase L .smodePhaseC .pCVa1 .pCVa2 .pCEcallPc

/-- What `mid_to_B` records of the rewrite. -/
def rewriteRecord : List LabStmt :=
  [.set .pte1After fun d => entry d L.l0T1 0, .set .pte2After fun d => entry d L.l0T2 0,
   .check (fun d => d.vars .pte1After == mkPte L.scratch2 PTE_LEAF_RW)
     "VA1 PTE rewrite did not land in memory",
   .check (fun d => d.vars .pte2After == mkPte L.scratch4 PTE_LEAF_RW)
     "VA2 PTE rewrite did not land in memory"]

def midToB : List LabStmt :=
  snapshot .pAMcause .pAMepc ++
    (.assign L.l0T1 0 (mkPte L.scratch2 PTE_LEAF_RW) ::
      .assign L.l0T2 0 (mkPte L.scratch4 PTE_LEAF_RW) ::
      (rewriteRecord L ++
        (.sfence (some TEST_VA1) none :: ([.arm .midToC] ++ [.drop .smodePhaseB]))))

def midToC : List LabStmt :=
  snapshot .pBMcause .pBMepc ++ [.sfence none none, .arm .reportMmode, .drop .smodePhaseC]

/-- The readback or ecall site that a phase left. -/
def left (d : LabData) (x : PhaseVar) : Word :=
  d.mem (L.var x).toNat

def reportChecks : List (Check Fn Var) :=
  [(fun d => d.vars .satpRb >>> 60 == 8, "satp MODE != 8 (Sv39)"),
   (fun d => d.vars .satpRb &&& PPN_MASK == L.rootPt >>> 12, "satp PPN != root page"),
   (fun d => d.vars .pte1Before == mkPte L.scratch1 PTE_LEAF_RW,
     "pte1_before != VA1->PA1 leaf encoding"),
   (fun d => d.vars .pte2Before == mkPte L.scratch3 PTE_LEAF_RW,
     "pte2_before != VA2->PA3 leaf encoding"),
   (fun d => d.vars .pte1After == mkPte L.scratch2 PTE_LEAF_RW,
     "pte1_after != VA1->PA2 leaf encoding"),
   (fun d => d.vars .pte2After == mkPte L.scratch4 PTE_LEAF_RW,
     "pte2_after != VA2->PA4 leaf encoding"),
   (fun d => left L d .pAVa1 == CANARY_A, "phase-A VA1 readback != canary A"),
   (fun d => left L d .pAVa2 == CANARY_C, "phase-A VA2 readback != canary C"),
   (fun d => left L d .pBVa1 == CANARY_B, "phase-B VA1 is not the fresh canary B"),
   (fun d => left L d .pBVa1 != CANARY_A, "phase-B VA1 still shows the stale mapping"),
   (fun d => left L d .pBVa2 == CANARY_D, "phase-B VA2 did not go fresh after the scoped fence"),
   (fun d => left L d .pBVa2 != CANARY_C,
     "phase-B VA2 unexpectedly stale (fence scoped on this run?)"),
   (fun d => left L d .pCVa1 == CANARY_B, "phase-C VA1 readback != canary B"),
   (fun d => left L d .pCVa2 == CANARY_D, "phase-C VA2 is not the fresh canary D"),
   (fun d => entry d L.scratch1 0 == CANARY_A, "canary A corrupted"),
   (fun d => entry d L.scratch2 0 == CANARY_B, "canary B corrupted"),
   (fun d => entry d L.scratch3 0 == CANARY_C, "canary C corrupted"),
   (fun d => entry d L.scratch4 0 == CANARY_D, "canary D corrupted"),
   (fun d => d.sTraps == 0, "S-mode trap fired (expected 0)"),
   (fun d => d.mRegs.count == 3, "M-mode trap count != 3 (the three ecalls)"),
   (fun d => d.vars .pAMcause == CAUSE_ECALL_FROM_S && d.vars .pBMcause == CAUSE_ECALL_FROM_S &&
       d.vars .pCMcause == CAUSE_ECALL_FROM_S,
     "an M-mode trap was not the expected S-mode ecall"),
   (fun d => d.vars .pAMepc == left L d .pAEcallPc, "phase-A mepc != its ecall site"),
   (fun d => d.vars .pBMepc == left L d .pBEcallPc, "phase-B mepc != its ecall site"),
   (fun d => d.vars .pCMepc == left L d .pCEcallPc, "phase-C mepc != its ecall site"),
   (fun d => d.vars .satpRestored == 0, "satp did not restore to Bare"),
   (fun d => d.vars .pmpRestored == 0, "pmpcfg0 did not restore to 0"),
   (fun d => d.mRegs.count == 3 && d.sTraps == 0, "trap count moved during the quiet window")]

def reportMmode : List LabStmt :=
  restore .pCMcause .pCMepc .satpRestored .pmpRestored ++ checkAll (reportChecks L) ++ [.finish]

def code : Fn → List LabStmt
  | .main => main L
  | .midToB => midToB L
  | .midToC => midToC
  | .reportMmode => reportMmode L
  | .smodePhaseA => smodePhaseA L
  | .smodePhaseB => smodePhaseB L
  | .smodePhaseC => smodePhaseC L

def lab : Lab Fn Var where
  code := code L
  site := L.site

/-! ## The tables -/

/-- Everything that is assigned to the pages, with the leaves on `page1` and `page2`. -/
def contents (page1 page2 : Word) : List Assign :=
  canaries L ++ tableConstruction L page1 page2

/-- The first tested address may be mapped to the pages `ps`, the second to `qs`. -/
def pagesOf (ps qs : List Word) (_asid : Nat) (va : Word) : Option (List Word) :=
  if va = TEST_VA1 then some ps else if va = TEST_VA2 then some qs else none

theorem pagesOf_mono {ps qs ps' qs' : List Word} (hps : ∀ p ∈ ps, p ∈ ps')
    (hqs : ∀ q ∈ qs, q ∈ qs') {k : Key} {v : Option Nat} (h : Seen (pagesOf ps qs) k v) :
    Seen (pagesOf ps' qs') k v := by
  refine ⟨h.window, fun haccess rs hrs => ?_⟩
  unfold pagesOf at hrs
  split at hrs
  next hva =>
    obtain rfl : ps' = rs := Option.some.inj hrs
    obtain ⟨p, hp, hv⟩ := h.tested haccess ps (if_pos hva)
    exact ⟨p, hps p hp, hv⟩
  next hva =>
    split at hrs
    next hva' =>
      obtain rfl : qs' = rs := Option.some.inj hrs
      obtain ⟨q, hq, hv⟩ := h.tested haccess qs (by rw [pagesOf, if_neg hva, if_pos hva'])
      exact ⟨q, hqs q hq, hv⟩
    next => cases hrs

/-- What a fence for the first address leaves says nothing about that address. -/
theorem seen_of_not_fenced {ps ps' qs : List Word} {k : Key} {v : Option Nat}
    (h : Seen (pagesOf ps qs) k v) (hkept : ¬ fenced (some TEST_VA1) none k) :
    Seen (pagesOf ps' qs) k v := by
  have hva : k.va ≠ TEST_VA1 := by
    intro heq
    exact hkept ⟨fun va hva => by rw [← Option.some.inj hva, heq], fun _ h => absurd h (by simp)⟩
  refine ⟨h.window, fun haccess rs hrs => h.tested haccess rs ?_⟩
  unfold pagesOf at hrs ⊢
  rw [if_neg hva] at hrs ⊢
  exact hrs

section Tables

variable {L} (hL : L.Placed)

omit hL in
theorem contents_pages {page1 page2 : Word} :
    ∀ a ∈ contents L page1 page2, a.table ∈ L.pages ∧ a.index < 512 := by
  intro a ha
  simp only [contents, canaries, tableConstruction, leafTables, windowTables, List.mem_append,
    List.mem_cons, List.mem_map, List.mem_range, List.not_mem_nil, or_false] at ha
  rcases ha with (rfl | rfl | rfl | rfl) | (rfl | rfl | rfl) | (rfl | rfl | rfl) | (rfl | rfl) |
    ⟨i, hi, rfl⟩
  case inr.inr.inr.inr =>
    unfold MAP_PAGES at hi
    exact ⟨by simp [Layout.pages], by simp only; omega⟩
  all_goals exact ⟨by simp [Layout.pages], by simp [TEST_VPN2_1, TEST_VPN2_2]⟩

include hL

theorem contents_slots (page1 page2 : Word) : ((contents L page1 page2).map slot).Nodup := by
  refine slots_nodup (fun a ha => ?_) ?_
  · obtain ⟨htable, hindex⟩ := contents_pages a ha
    exact ⟨hL.page _ htable, hindex⟩
  · have hne : L.pages.Pairwise (· ≠ ·) := hL.distinct
    have hne' := hne.imp Ne.symm
    simp only [Layout.pages, List.pairwise_cons, List.mem_cons, List.not_mem_nil, or_false,
      forall_eq_or_imp, forall_eq] at hne hne'
    have hident : ((List.range MAP_PAGES).map fun i => (L.l0Id, i)).Nodup :=
      List.Nodup.map (fun i j h => (Prod.mk.inj h).2) List.nodup_range
    simp [contents, canaries, tableConstruction, leafTables, windowTables, TEST_VPN2_1,
      TEST_VPN2_2, hne, hne', hident, Function.comp_def]

/-- Walks find the identity in the window, and the pages at the tested addresses. -/
theorem keeps {page1 page2 : Word} (hpage1 : page1 ∈ L.pages) (hpage2 : page2 ∈ L.pages)
    {ps qs : List Word} (hps : page1 ∈ ps) (hqs : page2 ∈ qs) :
    Keeps Fn Var (fun m => Holds m (contents L page1 page2)) (satpOf L) (Seen (pagesOf ps qs)) := by
  have hpages : ∀ p ∈ L.pages, PageAt p := hL.page
  refine keeps_of_trees L.l1Id L.l0Id (hpages _ (by simp [Layout.pages]))
    (hpages _ (by simp [Layout.pages])) (hpages _ (by simp [Layout.pages])) (by decide) (by decide)
    (fun a ha => by simp [contents, tableConstruction, ha]) fun asid va rs hrs => ?_
  unfold pagesOf at hrs
  split at hrs
  next hva =>
    obtain rfl : ps = rs := Option.some.inj hrs
    refine ⟨1, L.l1T1, L.l0T1, page1, hps, by decide, by rw [hva]; rfl, ?_, fun a ha => ?_⟩
    · simp [hpages page1 hpage1, hpages L.l1T1 (by simp [Layout.pages]),
        hpages L.l0T1 (by simp [Layout.pages])]
    · simp only [contents, tableConstruction, List.mem_append]
      exact Or.inr (Or.inl ha)
  next =>
    split at hrs
    next hva =>
      obtain rfl : qs = rs := Option.some.inj hrs
      refine ⟨3, L.l1T2, L.l0T2, page2, hqs, by decide, by rw [hva]; rfl, ?_, fun a ha => ?_⟩
      · simp [hpages page2 hpage2, hpages L.l1T2 (by simp [Layout.pages]),
          hpages L.l0T2 (by simp [Layout.pages])]
      · simp only [contents, tableConstruction, List.mem_append]
        exact Or.inr (Or.inr (Or.inl ha))
    next => cases hrs

omit hL in
/-- The tables with another page at the first address. -/
theorem contents_split1 (page1 page2 : Word) : contents L page1 page2 =
    (canaries L ++ [⟨L.rootPt, TEST_VPN2_1, mkPte L.l1T1 PTE_V⟩,
      ⟨L.l1T1, 0, mkPte L.l0T1 PTE_V⟩]) ++
      ⟨L.l0T1, 0, mkPte page1 PTE_LEAF_RW⟩ ::
        (leafTables L.rootPt TEST_VPN2_2 L.l1T2 L.l0T2 page2 ++
          windowTables L.rootPt L.l1Id L.l0Id) := by
  simp [contents, tableConstruction, leafTables]

omit hL in
/-- The tables with another page at the second address. -/
theorem contents_split2 (page1 page2 : Word) : contents L page1 page2 =
    (canaries L ++ (leafTables L.rootPt TEST_VPN2_1 L.l1T1 L.l0T1 page1 ++
      [⟨L.rootPt, TEST_VPN2_2, mkPte L.l1T2 PTE_V⟩, ⟨L.l1T2, 0, mkPte L.l0T2 PTE_V⟩])) ++
      ⟨L.l0T2, 0, mkPte page2 PTE_LEAF_RW⟩ :: windowTables L.rootPt L.l1Id L.l0Id := by
  simp [contents, tableConstruction, leafTables]

theorem rewrite1 {m : PhysMem} {page1 page1' page2 : Word} (hm : Holds m (contents L page1 page2)) :
    Holds (setEntry m L.l0T1 0 (mkPte page1' PTE_LEAF_RW)) (contents L page1' page2) := by
  have hslots := contents_slots hL page1 page2
  rw [contents_split1] at hm hslots ⊢
  exact hm.reassign hslots rfl

theorem rewrite2 {m : PhysMem} {page1 page2 page2' : Word} (hm : Holds m (contents L page1 page2)) :
    Holds (setEntry m L.l0T2 0 (mkPte page2' PTE_LEAF_RW)) (contents L page1 page2') := by
  have hslots := contents_slots hL page1 page2
  rw [contents_split2] at hm hslots ⊢
  exact hm.reassign hslots rfl

end Tables

/-! ## The run -/

/-- The tables with the leaves on `page1` and `page2`, and cached translations of the
tested addresses to pages of `ps` and of `qs`. -/
def TablesOn (page1 page2 : Word) (ps qs : List Word) (s : State Fn Var) : Prop :=
  Mapped (lab L) (fun m => Holds m (contents L page1 page2)) (satpOf L) (Seen (pagesOf ps qs)) s

section Run

variable {L} (hL : L.Placed) {s : State Fn Var} {Q : State Fn Var → Prop}

include hL

/-- A phase of the lab. -/
theorem phase_run {f g : Fn} {rb1 rb2 epc : PhaseVar} {page1 page2 : Word} {ps qs : List Word}
    (hcode : code L f = phase L f rb1 rb2 epc) (h : AtSupervisor s f 0)
    (hpage1 : page1 ∈ L.pages) (hpage2 : page2 ∈ L.pages) (hps : page1 ∈ ps) (hqs : page2 ∈ qs)
    (hs : TablesOn L page1 page2 ps qs s) (hnext : s.core.data.mRegs.next = some g)
    (hQ : ∀ s' p q regs, p ∈ ps → q ∈ qs → AtMachine s' g 0 →
      regs.count = s.core.data.mRegs.count + 1 → regs.cause = CAUSE_ECALL_FROM_S →
      regs.epc = L.site f 8 →
      s'.core.data = { s.core.data with
        mem :=
          let m := Function.update s.core.data.mem (L.var rb1).toNat (s.core.data.mem p.toNat)
          Function.update (Function.update m (L.var rb2).toNat (m q.toNat)) (L.var epc).toNat
            (L.site f 8)
        mRegs := regs } →
      s'.core.failed = s.core.failed → TablesOn L page1 page2 ps qs s' →
      Inevitable (Tlb.Step (lab L).client) Q s') :
    Inevitable (Tlb.Step (lab L).client) Q s := by
  have hwindow : ∀ a ∈ [L.var rb1, L.var rb2, L.var epc], InWindow a := by
    simp [hL.varWindow]
  have hT : ∀ a ∈ [L.var rb1, L.var rb2, L.var epc], ∀ m v, Holds m (contents L page1 page2) →
      Holds (Function.update m a.toNat v) (contents L page1 page2) := by
    simp only [List.mem_cons, List.not_mem_nil, or_false, forall_eq_or_imp, forall_eq]
    exact ⟨hL.holds_stored contents_pages rb1, hL.holds_stored contents_pages rb2,
      hL.holds_stored contents_pages epc⟩
  exact phase_run₂ h hcode (hL.siteWindow f) (keeps hL hpage1 hpage2 hps hqs) hs (if_pos rfl) rfl
    hwindow hT hnext hQ

theorem plantChecks_pass {d : LabData} (hd : Holds d.mem (canaries L)) :
    ∀ c ∈ plantChecks L, c.1 d = true := by
  have hA : entry d L.scratch1 0 = CANARY_A := hd.read (by simp [canaries])
  have hB : entry d L.scratch2 0 = CANARY_B := hd.read (by simp [canaries])
  have hC : entry d L.scratch3 0 = CANARY_C := hd.read (by simp [canaries])
  have hD : entry d L.scratch4 0 = CANARY_D := hd.read (by simp [canaries])
  have hpage : ∀ p ∈ L.pages, ∀ msg, (misaligned p msg).1 d = true :=
    fun p hp msg => misaligned_pass (hL.page p hp)
  simp only [Layout.pages, List.mem_cons, List.not_mem_nil, or_false, forall_eq_or_imp,
    forall_eq] at hpage
  simp only [plantChecks, hA, hB, hC, hD, hpage, List.mem_cons, List.not_mem_nil, or_false,
    forall_eq_or_imp, forall_eq, beq_self_eq_true, and_self]

theorem tableChecks_pass {d : LabData} (hd : Holds d.mem (contents L L.scratch1 L.scratch3)) :
    ∀ c ∈ tableChecks L, c.1 d = true := by
  have hpage : ∀ p ∈ L.pages, PageAt p := hL.page
  have hroot1 : entry d L.rootPt TEST_VPN2_1 = mkPte L.l1T1 PTE_V :=
    hd.read (by simp [contents, tableConstruction, leafTables])
  have hl11 : entry d L.l1T1 0 = mkPte L.l0T1 PTE_V :=
    hd.read (by simp [contents, tableConstruction, leafTables])
  have hroot2 : entry d L.rootPt TEST_VPN2_2 = mkPte L.l1T2 PTE_V :=
    hd.read (by simp [contents, tableConstruction, leafTables])
  have hl12 : entry d L.l1T2 0 = mkPte L.l0T2 PTE_V :=
    hd.read (by simp [contents, tableConstruction, leafTables])
  have hl01 : entry d L.l0T1 0 = mkPte L.scratch1 PTE_LEAF_RW :=
    hd.read (by simp [contents, tableConstruction, leafTables])
  have hl02 : entry d L.l0T2 0 = mkPte L.scratch3 PTE_LEAF_RW :=
    hd.read (by simp [contents, tableConstruction, leafTables])
  intro c hc
  simp only [tableChecks, List.mem_append, List.mem_cons, List.not_mem_nil, or_false] at hc
  rcases hc with (((((hc | hc) | hc) | hc) | hc) | hc) | rfl | rfl | rfl | rfl | rfl
  · exact pointerChecks_pass (hpage _ (by simp [Layout.pages])) hroot1 c hc
  · exact pointerChecks_pass (hpage _ (by simp [Layout.pages])) hl11 c hc
  · exact pointerChecks_pass (hpage _ (by simp [Layout.pages])) hroot2 c hc
  · exact pointerChecks_pass (hpage _ (by simp [Layout.pages])) hl12 c hc
  · exact leafChecks_pass (hpage _ (by simp [Layout.pages])) hl01 c hc
  · exact leafChecks_pass (hpage _ (by simp [Layout.pages])) hl02 c hc
  · exact outside_pass (hL.siteWindow .smodePhaseA 0)
  · exact outside_pass (hL.siteWindow .smodePhaseB 0)
  · exact outside_pass (hL.siteWindow .smodePhaseC 0)
  · exact outside_pass hL.entryWindow
  · exact outside_pass hL.regsWindow

/-- The statics and the trap record that the report reads, as `main` leaves them. -/
structure Opened (L : Layout) (d : LabData) : Prop where
  satpRb : d.vars .satpRb = satpOf L
  pte1Before : d.vars .pte1Before = mkPte L.scratch1 PTE_LEAF_RW
  pte2Before : d.vars .pte2Before = mkPte L.scratch3 PTE_LEAF_RW
  next : d.mRegs.next = some .midToB
  count : d.mRegs.count = 0
  sTraps : d.sTraps = 0

theorem main_run (h : Started s .main)
    (hQ : ∀ s', AtSupervisor s' .smodePhaseA 0 → Opened L s'.core.data → s'.core.failed = [] →
      TablesOn L L.scratch1 L.scratch3 [L.scratch1] [L.scratch3] s' →
      Inevitable (Tlb.Step (lab L).client) Q s') :
    Inevitable (Tlb.Step (lab L).client) Q s := by
  have hslots := contents_slots hL L.scratch1 L.scratch3
  refine open_run (lab L) [] h rfl (failuresOf_buildTables hslots
    (fun _ hd => plantChecks_pass hL hd) fun _ hd => tableChecks_pass hL hd) (by simp [Holds])
    hslots (by simp [mainRecord, Stmt.quiet, Stmt.failures])
    (keeps hL (by simp [Layout.pages]) (by simp [Layout.pages]) (by simp) (by simp))
    fun s' d hat hd hsatp hcount htraps hdata hfailed hs => hQ s' hat ?_ hfailed hs
  have hleaf1 : entry d L.l0T1 0 = mkPte L.scratch1 PTE_LEAF_RW :=
    hd.read (by simp [tableConstruction, leafTables])
  have hleaf2 : entry d L.l0T2 0 = mkPte L.scratch3 PTE_LEAF_RW :=
    hd.read (by simp [tableConstruction, leafTables])
  constructor
  · rw [hdata, ← hsatp]; rfl
  · rw [hdata, ← hleaf1]; rfl
  · rw [hdata, ← hleaf2]; rfl
  · rw [hdata]; rfl
  · rw [hdata]; exact hcount
  · rw [hdata]; exact htraps

/-- `mid_to_B`: both pages can be seen at either address once its leaf is rewritten,
and the fence leaves the second page only at the address that it names. -/
theorem midToB_run (h : AtMachine s .midToB 0)
    (hs : TablesOn L L.scratch1 L.scratch3 [L.scratch1] [L.scratch3] s)
    (hQ : ∀ s', AtSupervisor s' .smodePhaseB 0 →
      s'.core.data = { s.core.data with
        mem := setEntry (setEntry s.core.data.mem L.l0T1 0 (mkPte L.scratch2 PTE_LEAF_RW))
          L.l0T2 0 (mkPte L.scratch4 PTE_LEAF_RW)
        mRegs := { s.core.data.mRegs with next := some .midToC }
        vars := Function.update (Function.update (Function.update (Function.update
          s.core.data.vars .pAMcause s.core.data.mRegs.cause) .pAMepc s.core.data.mRegs.epc)
          .pte1After (mkPte L.scratch2 PTE_LEAF_RW)) .pte2After (mkPte L.scratch4 PTE_LEAF_RW) } →
      s'.core.failed = s.core.failed →
      TablesOn L L.scratch2 L.scratch4 [L.scratch2] [L.scratch3, L.scratch4] s' →
      Inevitable (Tlb.Step (lab L).client) Q s') :
    Inevitable (Tlb.Step (lab L).client) Q s := by
  have hpages : ∀ p ∈ [L.scratch1, L.scratch2, L.scratch3, L.scratch4], p ∈ L.pages := by
    simp [Layout.pages]
  simp only [List.mem_cons, List.not_mem_nil, or_false, forall_eq_or_imp, forall_eq] at hpages
  obtain ⟨hp₁, hp₂, hp₃, hp₄⟩ := hpages
  have hkeeps : Keeps Fn Var _ (satpOf L) (Seen (pagesOf [L.scratch1] [L.scratch3])) :=
    keeps hL hp₁ hp₃ (by simp) (by simp)
  have hcode : (code L .midToB).drop 0 = snapshot .pAMcause .pAMepc ++
      (.assign L.l0T1 0 (mkPte L.scratch2 PTE_LEAF_RW) ::
        .assign L.l0T2 0 (mkPte L.scratch4 PTE_LEAF_RW) ::
        (rewriteRecord L ++
          (.sfence (some TEST_VA1) none :: ([.arm .midToC] ++ [.drop .smodePhaseB])))) := rfl
  refine quiet_run h hcode (snapshot_quiet _ _) hkeeps hs fun s₁ h₁ hs₁ => ?_
  have hat₁ := h.after h₁
  -- the two rewrites
  have hcode₁ := drop_of_append hcode
  have hkeeps₂ : Keeps Fn Var _ (satpOf L)
      (Seen (pagesOf [L.scratch1, L.scratch2] [L.scratch3])) :=
    keeps hL hp₂ hp₃ (by simp) (by simp)
  refine assign_step hat₁ (stmt_of_drop hcode₁) hs₁ hkeeps₂
    (fun k v hv => pagesOf_mono (by simp) (by simp) hv) (rewrite1 hL hs₁.tables)
    fun s₂ h₂ hs₂ => ?_
  have hat₂ := hat₁.jump h₂
  have hcode₂ := drop_of_cons hcode₁
  have hkeeps₃ : Keeps Fn Var _ (satpOf L)
      (Seen (pagesOf [L.scratch1, L.scratch2] [L.scratch3, L.scratch4])) :=
    keeps hL hp₂ hp₄ (by simp) (by simp)
  refine assign_step hat₂ (stmt_of_drop hcode₂) hs₂ hkeeps₃
    (fun k v hv => pagesOf_mono (by simp) (by simp) hv) (rewrite2 hL hs₂.tables)
    fun s₃ h₃ hs₃ => ?_
  have hat₃ := hat₂.jump h₃
  have hcode₃ := drop_of_cons hcode₂
  refine quiet_run hat₃ hcode₃ (by simp [rewriteRecord, Stmt.quiet]) hkeeps₃ hs₃
    fun s₄ h₄ hs₄ => ?_
  have hat₄ := hat₃.after h₄
  -- the fence for the first address
  have hcode₄ := drop_of_append hcode₃
  have hkeeps₅ : Keeps Fn Var _ (satpOf L)
      (Seen (pagesOf [L.scratch2] [L.scratch3, L.scratch4])) :=
    keeps hL hp₂ hp₄ (by simp) (by simp)
  refine fence_step hat₄ (stmt_of_drop hcode₄) hs₄.bounded fun s₅ h₅ hbounded => ?_
  have hdata₅ : s₅.core.data = s₄.core.data := by rw [h₅]
  have hs₅ : TablesOn L L.scratch2 L.scratch4 [L.scratch2] [L.scratch3, L.scratch4] s₅ := by
    refine ⟨by rw [hdata₅]; exact hs₄.tables, by rw [hdata₅]; exact hs₄.satp, fun k v hv => ?_⟩
    rcases hbounded k v hv with ⟨hold, hkept⟩ | hwalk
    · exact seen_of_not_fenced hold hkept
    · exact hkeeps₅ s₅.core (by rw [hdata₅]; exact hs₄.tables) (by rw [hdata₅]; exact hs₄.satp)
        k v hwalk
  have hat₅ := hat₄.jump h₅
  have hcode₅ := drop_of_cons hcode₄
  refine quiet_run hat₅ hcode₅ (by simp [Stmt.quiet]) hkeeps₅ hs₅ fun s₆ h₆ hs₆ => ?_
  refine drop_step (hat₅.after h₆) (stmt_of_drop (drop_of_append hcode₅)) hkeeps₅ hs₆
    fun s₇ hat₇ hdata₇ hfailed₇ hs₇ => ?_
  have hpte1 : entry s₃.core.data L.l0T1 0 = mkPte L.scratch2 PTE_LEAF_RW :=
    hs₃.tables.read (by simp [contents, tableConstruction, leafTables])
  have hpte2 : entry s₃.core.data L.l0T2 0 = mkPte L.scratch4 PTE_LEAF_RW :=
    hs₃.tables.read (by simp [contents, tableConstruction, leafTables])
  have hdata₄ : s₄.core.data = { s₃.core.data with
      vars := Function.update (Function.update s₃.core.data.vars
        .pte1After (mkPte L.scratch2 PTE_LEAF_RW)) .pte2After (mkPte L.scratch4 PTE_LEAF_RW) } := by
    rw [h₄, ← hpte1, ← hpte2]
    rfl
  have hfailed₄ : s₄.core.failed = s₃.core.failed := by
    rw [h₄, Core.after]
    simp only [rewriteRecord, failuresOf, Stmt.failures, Stmt.apply]
    simp [hpte1, show ∀ vars, entry { s₃.core.data with vars := vars } L.l0T2 0 =
      mkPte L.scratch4 PTE_LEAF_RW from fun _ => hpte2]
  refine hQ s₇ hat₇ ?_ ?_ hs₇
  · rw [hdata₇, h₆, Core.after, hdata₅, hdata₄, h₃, h₂, h₁]
    rfl
  · rw [hfailed₇, h₆, Core.after, h₅, hfailed₄, h₃, h₂, h₁, Core.after]
    simp [failuresOf, snapshot, Stmt.failures]

/-- `mid_to_C`: the fence for everything leaves the second page at both addresses. -/
theorem midToC_run {ps qs : List Word} (h : AtMachine s .midToC 0)
    (hs : TablesOn L L.scratch2 L.scratch4 ps qs s) (hps : L.scratch2 ∈ ps) (hqs : L.scratch4 ∈ qs)
    (hQ : ∀ s', AtSupervisor s' .smodePhaseC 0 →
      s'.core.data = { s.core.data with
        mRegs := { s.core.data.mRegs with next := some .reportMmode }
        vars := Function.update (Function.update s.core.data.vars
          .pBMcause s.core.data.mRegs.cause) .pBMepc s.core.data.mRegs.epc } →
      s'.core.failed = s.core.failed →
      TablesOn L L.scratch2 L.scratch4 [L.scratch2] [L.scratch4] s' →
      Inevitable (Tlb.Step (lab L).client) Q s') :
    Inevitable (Tlb.Step (lab L).client) Q s := by
  have hpage2 : L.scratch2 ∈ L.pages := by simp [Layout.pages]
  have hpage4 : L.scratch4 ∈ L.pages := by simp [Layout.pages]
  have hkeeps := keeps hL hpage2 hpage4 hps hqs
  have hkeeps' : Keeps Fn Var _ (satpOf L) (Seen (pagesOf [L.scratch2] [L.scratch4])) :=
    keeps hL hpage2 hpage4 (by simp) (by simp)
  have hcode : (code L .midToC).drop 0 = snapshot .pBMcause .pBMepc ++
      (.sfence none none :: ([.arm .reportMmode] ++ [.drop .smodePhaseC])) := rfl
  refine quiet_run h hcode (snapshot_quiet _ _) hkeeps hs fun s₁ h₁ hs₁ => ?_
  refine fenced_run (h.after h₁) (drop_of_append hcode) (by simp [Stmt.quiet, Stmt.failures])
    hkeeps' hs₁.tables hs₁.satp fun s₂ hat₂ hdata₂ hfailed₂ hs₂ => ?_
  refine hQ s₂ hat₂ ?_ ?_ hs₂
  · rw [hdata₂, h₁, Core.after]
    rfl
  · rw [hfailed₂, h₁, Core.after]
    simp [failuresOf, snapshot, Stmt.failures]

/-- What the checks of the report read, when phase B reads `b` at the second address. -/
structure Record (L : Layout) (d : LabData) (b : Word) : Prop where
  satpRb : d.vars .satpRb = satpOf L
  pte1Before : d.vars .pte1Before = mkPte L.scratch1 PTE_LEAF_RW
  pte2Before : d.vars .pte2Before = mkPte L.scratch3 PTE_LEAF_RW
  pte1After : d.vars .pte1After = mkPte L.scratch2 PTE_LEAF_RW
  pte2After : d.vars .pte2After = mkPte L.scratch4 PTE_LEAF_RW
  readA1 : left L d .pAVa1 = CANARY_A
  readA2 : left L d .pAVa2 = CANARY_C
  readB1 : left L d .pBVa1 = CANARY_B
  readB2 : left L d .pBVa2 = b
  readC1 : left L d .pCVa1 = CANARY_B
  readC2 : left L d .pCVa2 = CANARY_D
  canaries : Holds d.mem (canaries L)
  sTraps : d.sTraps = 0
  count : d.mRegs.count = 3
  causeA : d.vars .pAMcause = CAUSE_ECALL_FROM_S
  causeB : d.vars .pBMcause = CAUSE_ECALL_FROM_S
  causeC : d.vars .pCMcause = CAUSE_ECALL_FROM_S
  siteA : d.vars .pAMepc = left L d .pAEcallPc
  siteB : d.vars .pBMepc = left L d .pBEcallPc
  siteC : d.vars .pCMepc = left L d .pCEcallPc
  satpRestored : d.vars .satpRestored = 0
  pmpRestored : d.vars .pmpRestored = 0

/-- The messages of a run in which the fence left the second address alone. -/
def staleFailures : List String :=
  ["phase-B VA2 did not go fresh after the scoped fence",
   "phase-B VA2 unexpectedly stale (fence scoped on this run?)"]

/-- The checks that fail are the two about the second address, if it is stale. -/
theorem Record.failures {d : LabData} {b : Word} (hd : Record L d b)
    (hb : b = CANARY_C ∨ b = CANARY_D) :
    failuresOf d (checkAll (reportChecks L)) = if b = CANARY_D then [] else staleFailures := by
  have hroot : PageAt L.rootPt := hL.page _ (by simp [Layout.pages])
  have hppn : satpOf L &&& PPN_MASK = L.rootPt >>> 12 := (satp_fields hroot (by decide)).2
  have hmode : satpOf L >>> 60 = 8 := satp_mode hroot (by decide)
  have hA : entry d L.scratch1 0 = CANARY_A := hd.canaries.read (by simp [Rs1Scoped.canaries])
  have hB : entry d L.scratch2 0 = CANARY_B := hd.canaries.read (by simp [Rs1Scoped.canaries])
  have hC : entry d L.scratch3 0 = CANARY_C := hd.canaries.read (by simp [Rs1Scoped.canaries])
  have hD : entry d L.scratch4 0 = CANARY_D := hd.canaries.read (by simp [Rs1Scoped.canaries])
  have hne : CANARY_B ≠ CANARY_A := by decide
  have hne' : CANARY_C ≠ CANARY_D := by decide
  rw [failuresOf_checkAll]
  rcases hb with rfl | rfl <;>
    simp [reportChecks, hd.satpRb, hmode, hppn, hd.pte1Before, hd.pte2Before, hd.pte1After,
      hd.pte2After, hd.readA1, hd.readA2, hd.readB1, hd.readB2, hd.readC1, hd.readC2, hA, hB, hC,
      hD, hd.sTraps, hd.count, hd.causeA, hd.causeB, hd.causeC, hd.siteA, hd.siteB, hd.siteC,
      hd.satpRestored, hd.pmpRestored, hne, hne', hne'.symm, staleFailures]

/-- What the lab has reported when it ends. -/
structure Reported (L : Layout) (s : State Fn Var) : Prop where
  before : left L s.core.data .pAVa1 = CANARY_A ∧ left L s.core.data .pAVa2 = CANARY_C
  named : left L s.core.data .pBVa1 = CANARY_B
  unnamed : left L s.core.data .pBVa2 = CANARY_C ∨ left L s.core.data .pBVa2 = CANARY_D
  behind : left L s.core.data .pCVa1 = CANARY_B ∧ left L s.core.data .pCVa2 = CANARY_D
  traps : s.core.data.mRegs.count = 3 ∧ s.core.data.sTraps = 0
  failed : s.core.failed = if left L s.core.data .pBVa2 = CANARY_D then [] else staleFailures
  verdict : s.core.place = .stopped (decide (left L s.core.data .pBVa2 = CANARY_D))

theorem report_run {b : Word} (h : AtMachine s .reportMmode 0)
    (hd : Record L (dataAfter s.core.data (restore .pCMcause .pCMepc .satpRestored .pmpRestored)) b)
    (hb : b = CANARY_C ∨ b = CANARY_D) (hfailed : s.core.failed = []) :
    Inevitable (Tlb.Step (lab L).client) (Reported L) s := by
  refine close_run h rfl hfailed fun s' d hd' hdata hfails hplace => ?_
  rw [← hd'] at hd
  rw [hd.failures hL hb] at hfails hplace
  constructor
  · rw [hdata]; exact ⟨hd.readA1, hd.readA2⟩
  · rw [hdata]; exact hd.readB1
  · rw [hdata, hd.readB2]; exact hb
  · rw [hdata]; exact ⟨hd.readC1, hd.readC2⟩
  · rw [hdata]; exact ⟨hd.count, hd.sTraps⟩
  · rw [hdata, hd.readB2]; exact hfails
  · rw [hdata, hd.readB2, hplace]
    split
    next hfresh => simp [hfresh]
    next hstale => simp [hstale, staleFailures]

omit hL in
/-- The first words of the backing pages. -/
theorem page_words {page1 page2 : Word} {ps qs : List Word} (hs : TablesOn L page1 page2 ps qs s) :
    s.core.data.mem L.scratch1.toNat = CANARY_A ∧ s.core.data.mem L.scratch2.toNat = CANARY_B ∧
      s.core.data.mem L.scratch3.toNat = CANARY_C ∧
      s.core.data.mem L.scratch4.toNat = CANARY_D := by
  have hplanted : Holds s.core.data.mem (canaries L) :=
    fun a ha => hs.tables a (List.mem_append_left _ ha)
  simpa [Holds, slot, canaries] using hplanted

end Run

/-- Whatever the hart caches and forgets, the lab ends with a verdict: behind its
fence the first address reads the present mapping, the second one of its two, and
the run passes exactly if that is the present one as well. -/
theorem rs1_verdict (L : Layout) (hL : L.Placed) (s : State Fn Var) (h : Started s .main) :
    Inevitable (Tlb.Step (lab L).client) (Reported L) s := by
  have hpages : ∀ p ∈ [L.scratch1, L.scratch2, L.scratch3, L.scratch4], p ∈ L.pages := by
    simp [Layout.pages]
  simp only [List.mem_cons, List.not_mem_nil, or_false, forall_eq_or_imp, forall_eq] at hpages
  obtain ⟨hp₁, hp₂, hp₃, hp₄⟩ := hpages
  have hl0T1 : L.l0T1 ∈ L.pages := by simp [Layout.pages]
  have hl0T2 : L.l0T2 ∈ L.pages := by simp [Layout.pages]
  refine main_run hL h fun s₁ hat₁ hopen hfailed₁ hs₁ => ?_
  refine phase_run hL rfl hat₁ hp₁ hp₃ (by simp) (by simp) hs₁ hopen.next
    fun s₂ pA qA regsA hpA hqA hat₂ hcountA hcauseA hepcA hdata₂ hfailed₂ hs₂ => ?_
  obtain rfl : pA = L.scratch1 := by simpa using hpA
  obtain rfl : qA = L.scratch3 := by simpa using hqA
  refine midToB_run hL hat₂ hs₂ fun s₃ hat₃ hdata₃ hfailed₃ hs₃ => ?_
  refine phase_run hL rfl hat₃ hp₂ hp₄ (by simp) (by simp) hs₃ (by rw [hdata₃])
    fun s₄ pB qB regsB hpB hqB hat₄ hcountB hcauseB hepcB hdata₄ hfailed₄ hs₄ => ?_
  obtain rfl : pB = L.scratch2 := by simpa using hpB
  refine midToC_run hL hat₄ hs₄ (by simp) (by simp) fun s₅ hat₅ hdata₅ hfailed₅ hs₅ => ?_
  refine phase_run hL rfl hat₅ hp₂ hp₄ (by simp) (by simp) hs₅ (by rw [hdata₅])
    fun s₆ pC qC regsC hpC hqC hat₆ hcountC hcauseC hepcC hdata₆ hfailed₆ hs₆ => ?_
  obtain rfl : pC = L.scratch2 := by simpa using hpC
  obtain rfl : qC = L.scratch4 := by simpa using hqC
  have hq : qB ∈ L.pages := by
    simp only [List.mem_cons, List.not_mem_nil, or_false] at hqB
    rcases hqB with rfl | rfl
    exacts [hp₃, hp₄]
  have hb : s₃.core.data.mem qB.toNat = CANARY_C ∨ s₃.core.data.mem qB.toNat = CANARY_D := by
    obtain ⟨-, -, hC, hD⟩ := page_words hs₃
    simp only [List.mem_cons, List.not_mem_nil, or_false] at hqB
    rcases hqB with rfl | rfl
    · exact Or.inl hC
    · exact Or.inr hD
  have hfailed : s₆.core.failed = [] := by
    rw [hfailed₆, hfailed₅, hfailed₄, hfailed₃, hfailed₂, hfailed₁]
  refine report_run hL hat₆ ?_ hb hfailed
  have hmem : (dataAfter s₆.core.data
      (restore .pCMcause .pCMepc .satpRestored .pmpRestored)).mem = s₆.core.data.mem := rfl
  have hrewrite1 := hL.setEntry_var hl0T1
  have hrewrite2 := hL.setEntry_var hl0T2
  have hkept := fun {p} (hp : p ∈ L.pages) => hL.update_page hp
  constructor
  case canaries => exact fun a ha => hs₆.tables a (List.mem_append_left _ ha)
  case readC1 =>
    rw [left, hmem, hdata₆]
    simpa [hL.update_var] using (page_words hs₅).2.1
  case readC2 =>
    rw [left, hmem, hdata₆]
    simpa [hL.update_var, hkept hp₄] using (page_words hs₅).2.2.2
  case readB1 =>
    rw [left, hmem, hdata₆, hdata₅, hdata₄]
    simpa [hL.update_var] using (page_words hs₃).2.1
  case readB2 =>
    rw [left, hmem, hdata₆, hdata₅, hdata₄]
    simp [hL.update_var, hkept hq]
  case readA1 =>
    rw [left, hmem, hdata₆, hdata₅, hdata₄, hdata₃, hdata₂]
    simpa [hL.update_var, hrewrite1, hrewrite2] using (page_words hs₁).1
  case readA2 =>
    rw [left, hmem, hdata₆, hdata₅, hdata₄, hdata₃, hdata₂]
    simpa [hL.update_var, hrewrite1, hrewrite2, hkept hp₃] using (page_words hs₁).2.2.1
  all_goals
    simp [restore, snapshot, setSatp, dataAfter, Stmt.apply, left, hdata₆, hdata₅, hdata₄, hdata₃,
      hdata₂, hL.update_var, hrewrite1, hrewrite2, hopen.satpRb, hopen.pte1Before,
      hopen.pte2Before, hopen.sTraps, hopen.count, hcountA, hcountB, hcountC, hcauseA, hcauseB,
      hcauseC, hepcA, hepcB, hepcC]

/-- Eleven pages in a row, the variables in front of them, and the code before. -/
def sampleLayout : Layout where
  rootPt := 0x80010000
  l1Id := 0x80011000
  l0Id := 0x80012000
  l1T1 := 0x80013000
  l0T1 := 0x80014000
  l1T2 := 0x80015000
  l0T2 := 0x80016000
  scratch1 := 0x80017000
  scratch2 := 0x80018000
  scratch3 := 0x80019000
  scratch4 := 0x8001A000
  var
    | .pAVa1 => 0x8000F000
    | .pAVa2 => 0x8000F008
    | .pBVa1 => 0x8000F010
    | .pBVa2 => 0x8000F018
    | .pCVa1 => 0x8000F020
    | .pCVa2 => 0x8000F028
    | .pAEcallPc => 0x8000F030
    | .pBEcallPc => 0x8000F038
    | .pCEcallPc => 0x8000F040
  site f := codeAt f.ctorIdx
  sTrapEntry := 0x80000100
  sRegs9 := 0x8000F098

theorem sampleLayout_placed : sampleLayout.Placed where
  page := by
    intro p hp
    simp only [Layout.pages, sampleLayout, List.mem_cons, List.not_mem_nil, or_false] at hp
    rcases hp with rfl | rfl | rfl | rfl | rfl | rfl | rfl | rfl | rfl | rfl | rfl <;>
      exact ⟨by decide, by decide⟩
  distinct := by decide
  varInjective := by
    intro x y hxy
    cases x <;> cases y <;> first | rfl | exact absurd hxy (by decide)
  varWindow := by rintro (_ | _) <;> exact ⟨by decide, by decide⟩
  varApart := by
    have hvar : ∀ x, (sampleLayout.var x).toNat < 0x80010000 := by rintro (_ | _) <;> decide
    intro x p hp
    refine Or.inl (lt_of_lt_of_le (hvar x) ?_)
    simp only [Layout.pages, sampleLayout, List.mem_cons, List.not_mem_nil, or_false] at hp
    rcases hp with rfl | rfl | rfl | rfl | rfl | rfl | rfl | rfl | rfl | rfl | rfl <;> decide
  siteWindow f i := codeAt_window (by cases f <;> decide) i
  entryWindow := ⟨by decide, by decide⟩
  regsWindow := ⟨by decide, by decide⟩

theorem sample_rs1_verdict :
    Inevitable (Tlb.Step (lab sampleLayout).client) (Reported sampleLayout) (stale .main) :=
  rs1_verdict sampleLayout sampleLayout_placed (stale .main) (stale_started Fn.main)

end Rs1Scoped
end SfenceVma
end BareMetal
