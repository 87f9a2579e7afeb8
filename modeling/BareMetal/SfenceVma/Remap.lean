import BareMetal.SfenceVma.Course

/-!
# A remap without and with a fence

`src/sfence-vma-remap/svr_main.c`: the tested address is mapped to the first page,
read from S-mode, mapped to the second page, read again, fenced and read a third
time.  The lab expects the second read to come from the first page.

`remap_verdict` is about every hart that caches translations: the first read and
the third are decided, the second can come from either page, and the run passes
exactly if it comes from the first.
-/

namespace BareMetal
namespace SfenceVma
namespace Remap

open Machine Sv39 SfenceVmaRs2Scoped

def CANARY_A : Word := 0xAAAAAAAAAAAAAAAA
def CANARY_B : Word := 0xBBBBBBBBBBBBBBBB

/-- The functions. -/
inductive Fn
  | main | midToB | midToC | reportMmode | smodePhaseA | smodePhaseB | smodePhaseC

/-- The statics that M-mode writes. -/
inductive Var
  | satpRb | pteBefore | pteAfter | satpRestored | pmpRestored
  | pAMcause | pAMepc | pBMcause | pBMepc | pCMcause | pCMepc
deriving DecidableEq

/-- The statics that the phases write. -/
inductive PhaseVar
  | pARb | pBRb | pCRb | pAEcallPc | pBEcallPc | pCEcallPc
deriving DecidableEq

/-- Where the linker put the pages, the variables of the phases, the statements of
the functions, the S-mode trap entry and the last word of `s_regs`. -/
structure Layout where
  rootPt : Word
  l1Id : Word
  l0Id : Word
  l1Test : Word
  l0Test : Word
  scratch1 : Word
  scratch2 : Word
  var : PhaseVar → Word
  site : Fn → Nat → Word
  sTrapEntry : Word
  sRegs9 : Word

namespace Layout

variable (L : Layout)

def pages : List Word :=
  [L.rootPt, L.l1Id, L.l0Id, L.l1Test, L.l0Test, L.scratch1, L.scratch2]

/-- Seven different pages, and everything else in the identity window and outside
of them. -/
structure Placed : Prop extends Apart L.pages L.var where
  siteWindow : ∀ f i, InWindow (L.site f i)
  entryWindow : InWindow L.sTrapEntry
  regsWindow : InWindow L.sRegs9

end Layout

abbrev LabData := Data Fn Var
abbrev LabStmt := Stmt Fn Var

variable (L : Layout)

/-- `satp` of `main`. -/
def satpOf : Word :=
  SATP_MODE_SV39 ||| (L.rootPt >>> 12)

def canaries : List Assign :=
  [⟨L.scratch1, 0, CANARY_A⟩, ⟨L.scratch2, 0, CANARY_B⟩]

/-- The tables, with the leaf under test on `page`. -/
def tableConstruction (page : Word) : List Assign :=
  leafTables L.rootPt TEST_VPN2 L.l1Test L.l0Test page ++ windowTables L.rootPt L.l1Id L.l0Id

def plantChecks : List (Check Fn Var) :=
  [(fun d => entry d L.scratch1 0 == CANARY_A, "canary A plant failed"),
   (fun d => entry d L.scratch2 0 == CANARY_B, "canary B plant failed"),
   misaligned L.rootPt "root_pt misaligned", misaligned L.l1Test "l1_test misaligned",
   misaligned L.l0Test "l0_test misaligned", misaligned L.scratch1 "scratch1 misaligned",
   misaligned L.scratch2 "scratch2 misaligned"]

def tableChecks : List (Check Fn Var) :=
  pointerChecks L.rootPt TEST_VPN2 L.l1Test "root entry 1 is not a pure pointer (V only)"
    "root[1] PPN != l1_test page number" ++
  pointerChecks L.l1Test 0 L.l0Test "l1_test entry 0 is not a pure pointer (V only)"
    "l1_test[0] PPN != l0_test page number" ++
  leafChecks L.l0Test L.scratch1 "test leaf missing V/R/W"
    "test leaf PPN != scratch1 page number" ++
  [outside (L.site .smodePhaseA 0) "smode_phaseA outside identity window",
   outside (L.site .smodePhaseB 0) "smode_phaseB outside identity window",
   outside (L.site .smodePhaseC 0) "smode_phaseC outside identity window",
   outside L.sTrapEntry "s_trap_entry outside identity window",
   outside L.sRegs9 "s_regs outside identity window"]

/-- `main` behind `set_satp`, up to the drop. -/
def mainRecord : List LabStmt :=
  [.set .satpRb fun d => d.satp, .set .pteBefore fun d => entry d L.l0Test 0, .arm .midToB]

def main : List LabStmt :=
  buildTables (canaries L) (plantChecks L) (tableConstruction L L.scratch1) (tableChecks L) ++
    (setSatp (satpOf L) ++ (mainRecord L ++ [.drop .smodePhaseA]))

def phase (f : Fn) (rb epc : PhaseVar) : List LabStmt :=
  phaseRead (BitVec.ofNat 64 TEST_VA) (L.var rb) ++ phaseLeave (L.var epc) (L.site f 5)

def smodePhaseA : List LabStmt := phase L .smodePhaseA .pARb .pAEcallPc
def smodePhaseB : List LabStmt := phase L .smodePhaseB .pBRb .pBEcallPc
def smodePhaseC : List LabStmt := phase L .smodePhaseC .pCRb .pCEcallPc

def midToB : List LabStmt :=
  snapshot .pAMcause .pAMepc ++
    [.assign L.l0Test 0 (mkPte L.scratch2 PTE_LEAF_RW),
     .set .pteAfter fun d => entry d L.l0Test 0,
     .check (fun d => d.vars .pteAfter == mkPte L.scratch2 PTE_LEAF_RW)
       "PTE rewrite did not land in memory",
     .arm .midToC, .drop .smodePhaseB]

def midToC : List LabStmt :=
  snapshot .pBMcause .pBMepc ++ [.sfence none none, .arm .reportMmode, .drop .smodePhaseC]

/-- The readback or ecall site that a phase left. -/
def left (d : LabData) (x : PhaseVar) : Word :=
  d.mem (L.var x).toNat

def reportChecks : List (Check Fn Var) :=
  [(fun d => d.vars .satpRb >>> 60 == 8, "satp MODE != 8 (Sv39)"),
   (fun d => d.vars .satpRb &&& PPN_MASK == L.rootPt >>> 12, "satp PPN != root page"),
   (fun d => d.vars .pteBefore == mkPte L.scratch1 PTE_LEAF_RW,
     "pte_before != PA1 leaf encoding"),
   (fun d => d.vars .pteAfter == mkPte L.scratch2 PTE_LEAF_RW, "pte_after != PA2 leaf encoding"),
   (fun d => left L d .pARb == CANARY_A, "phase-A readback != canary A"),
   (fun d => left L d .pBRb == CANARY_A, "phase-B readback is not the stale canary A"),
   (fun d => left L d .pBRb != CANARY_B, "phase-B saw the rewrite without a fence"),
   (fun d => left L d .pCRb == CANARY_B, "phase-C readback != canary B after sfence.vma"),
   (fun d => entry d L.scratch1 0 == CANARY_A, "canary A corrupted"),
   (fun d => entry d L.scratch2 0 == CANARY_B, "canary B corrupted"),
   (fun d => d.sTraps == 0, "S-mode trap fired (expected 0)"),
   (fun d => d.mRegs.count == 3, "M-mode trap count != 3 (the three ecalls)"),
   (fun d => d.vars .pAMcause == CAUSE_ECALL_FROM_S && d.vars .pBMcause == CAUSE_ECALL_FROM_S &&
       d.vars .pCMcause == CAUSE_ECALL_FROM_S,
     "an M-mode trap was not the expected S-mode ecall"),
   (fun d => d.vars .pAMepc == left L d .pAEcallPc, "phase-A mepc != its ecall site"),
   (fun d => d.vars .pBMepc == left L d .pBEcallPc, "phase-B mepc != its ecall site"),
   (fun d => d.vars .pCMepc == left L d .pCEcallPc, "phase-C mepc != its ecall site"),
   (fun d => d.vars .satpRestored == 0, "satp did not restore to Bare"),
   (fun d => d.vars .pmpRestored == 0, "pmpcfg0 did not restore to 0"),
   (fun d => d.mRegs.count == 3 && d.sTraps == 0, "trap count moved during the quiet window")]

def reportMmode : List LabStmt :=
  restore .pCMcause .pCMepc .satpRestored .pmpRestored ++ checkAll (reportChecks L) ++ [.finish]

def code : Fn → List LabStmt
  | .main => main L
  | .midToB => midToB L
  | .midToC => midToC
  | .reportMmode => reportMmode L
  | .smodePhaseA => smodePhaseA L
  | .smodePhaseB => smodePhaseB L
  | .smodePhaseC => smodePhaseC L

def lab : Lab Fn Var where
  code := code L
  site := L.site

/-! ## The tables -/

/-- Everything that is assigned to the pages, with the leaf on `page`. -/
def contents (page : Word) : List Assign :=
  canaries L ++ tableConstruction L page

/-- The tested address may be mapped to one of the pages. -/
def pagesOf (ps : List Word) (_asid : Nat) (va : Word) : Option (List Word) :=
  if va.toNat = TEST_VA then some ps else none

theorem pagesOf_mono {ps qs : List Word} (hsub : ∀ p ∈ ps, p ∈ qs) {k : Key} {v : Option Nat}
    (h : Seen (pagesOf ps) k v) : Seen (pagesOf qs) k v := by
  refine ⟨h.window, fun haccess rs hrs => ?_⟩
  unfold pagesOf at hrs
  split at hrs
  next hva =>
    obtain rfl : qs = rs := Option.some.inj hrs
    obtain ⟨p, hp, hv⟩ := h.tested haccess ps (if_pos hva)
    exact ⟨p, hsub p hp, hv⟩
  next => cases hrs

section Tables

variable {L} (hL : L.Placed)

omit hL in
theorem contents_pages {page : Word} :
    ∀ a ∈ contents L page, a.table ∈ L.pages ∧ a.index < 512 := by
  intro a ha
  simp only [contents, canaries, tableConstruction, leafTables, windowTables, List.mem_append,
    List.mem_cons, List.mem_map, List.mem_range, List.not_mem_nil, or_false] at ha
  rcases ha with (rfl | rfl) | (rfl | rfl | rfl) | (rfl | rfl) | ⟨i, hi, rfl⟩
  case inr.inr.inr =>
    unfold MAP_PAGES at hi
    exact ⟨by simp [Layout.pages], by simp only; omega⟩
  all_goals exact ⟨by simp [Layout.pages], by simp [TEST_VPN2]⟩

include hL

theorem contents_slots (page : Word) : ((contents L page).map slot).Nodup := by
  refine slots_nodup (fun a ha => ?_) ?_
  · obtain ⟨htable, hindex⟩ := contents_pages a ha
    exact ⟨hL.page _ htable, hindex⟩
  · have hne : L.pages.Pairwise (· ≠ ·) := hL.distinct
    have hne' := hne.imp Ne.symm
    simp only [Layout.pages, List.pairwise_cons, List.mem_cons, List.not_mem_nil, or_false,
      forall_eq_or_imp, forall_eq] at hne hne'
    have hident : ((List.range MAP_PAGES).map fun i => (L.l0Id, i)).Nodup :=
      List.Nodup.map (fun i j h => (Prod.mk.inj h).2) List.nodup_range
    simp [contents, canaries, tableConstruction, leafTables, windowTables, TEST_VPN2, hne, hne',
      hident, Function.comp_def]

/-- Walks find the identity in the window, and `page` at the tested address. -/
theorem keeps {page : Word} (hpage : PageAt page) {ps : List Word} (hps : page ∈ ps) :
    Keeps Fn Var (fun m => Holds m (contents L page)) (satpOf L) (Seen (pagesOf ps)) := by
  have hpages : ∀ p ∈ L.pages, PageAt p := hL.page
  refine keeps_of_trees L.l1Id L.l0Id (hpages _ (by simp [Layout.pages]))
    (hpages _ (by simp [Layout.pages])) (hpages _ (by simp [Layout.pages])) (by decide) (by decide)
    (fun a ha => by simp [contents, tableConstruction, ha]) fun asid va qs hqs => ?_
  unfold pagesOf at hqs
  split at hqs
  next hva =>
    obtain rfl : ps = qs := Option.some.inj hqs
    refine ⟨1, L.l1Test, L.l0Test, page, hps, by decide, by rw [hva]; rfl, ?_, fun a ha => ?_⟩
    · simp [hpage, hpages L.l1Test (by simp [Layout.pages]),
        hpages L.l0Test (by simp [Layout.pages])]
    · simp only [contents, tableConstruction, List.mem_append]
      exact Or.inr (Or.inl ha)
  next => cases hqs

end Tables

/-! ## The run -/

/-- The tables with the leaf on `page`, and cached translations of the tested address
to pages of `ps`. -/
def TablesOn (page : Word) (ps : List Word) (s : State Fn Var) : Prop :=
  Mapped (lab L) (fun m => Holds m (contents L page)) (satpOf L) (Seen (pagesOf ps)) s

section Run

variable {L} (hL : L.Placed) {s : State Fn Var} {Q : State Fn Var → Prop}

include hL

/-- A phase of the lab. -/
theorem phase_run {f g : Fn} {rb epc : PhaseVar} {page : Word} {ps : List Word}
    (hcode : code L f = phase L f rb epc) (h : AtSupervisor s f 0) (hpage : PageAt page)
    (hps : page ∈ ps) (hs : TablesOn L page ps s) (hnext : s.core.data.mRegs.next = some g)
    (hQ : ∀ s' p regs, p ∈ ps → AtMachine s' g 0 →
      regs.count = s.core.data.mRegs.count + 1 → regs.cause = CAUSE_ECALL_FROM_S →
      regs.epc = L.site f 5 →
      s'.core.data = { s.core.data with
        mem := Function.update (Function.update s.core.data.mem (L.var rb).toNat
          (s.core.data.mem p.toNat)) (L.var epc).toNat (L.site f 5)
        mRegs := regs } →
      s'.core.failed = s.core.failed → TablesOn L page ps s' →
      Inevitable (Tlb.Step (lab L).client) Q s') :
    Inevitable (Tlb.Step (lab L).client) Q s :=
  SfenceVma.phase_run h hcode (hL.siteWindow f) (keeps hL hpage hps) hs (if_pos rfl)
    (hL.varWindow rb) (hL.varWindow epc) (hL.holds_stored contents_pages rb)
    (hL.holds_stored contents_pages epc) hnext hQ

theorem plantChecks_pass {d : LabData} (hd : Holds d.mem (canaries L)) :
    ∀ c ∈ plantChecks L, c.1 d = true := by
  have hA : entry d L.scratch1 0 = CANARY_A := hd.read (by simp [canaries])
  have hB : entry d L.scratch2 0 = CANARY_B := hd.read (by simp [canaries])
  have hpage : ∀ p ∈ L.pages, ∀ msg, (misaligned p msg).1 d = true :=
    fun p hp msg => misaligned_pass (hL.page p hp)
  simp only [Layout.pages, List.mem_cons, List.not_mem_nil, or_false, forall_eq_or_imp,
    forall_eq] at hpage
  simp only [plantChecks, hA, hB, hpage, List.mem_cons, List.not_mem_nil, or_false,
    forall_eq_or_imp, forall_eq, beq_self_eq_true, and_self]

theorem tableChecks_pass {d : LabData} (hd : Holds d.mem (contents L L.scratch1)) :
    ∀ c ∈ tableChecks L, c.1 d = true := by
  have hpage : ∀ p ∈ L.pages, PageAt p := hL.page
  have hroot : entry d L.rootPt TEST_VPN2 = mkPte L.l1Test PTE_V :=
    hd.read (by simp [contents, tableConstruction, leafTables])
  have hl1 : entry d L.l1Test 0 = mkPte L.l0Test PTE_V :=
    hd.read (by simp [contents, tableConstruction, leafTables])
  have hl0 : entry d L.l0Test 0 = mkPte L.scratch1 PTE_LEAF_RW :=
    hd.read (by simp [contents, tableConstruction, leafTables])
  intro c hc
  simp only [tableChecks, List.mem_append, List.mem_cons, List.not_mem_nil, or_false] at hc
  rcases hc with ((hc | hc) | hc) | rfl | rfl | rfl | rfl | rfl
  · exact pointerChecks_pass (hpage _ (by simp [Layout.pages])) hroot c hc
  · exact pointerChecks_pass (hpage _ (by simp [Layout.pages])) hl1 c hc
  · exact leafChecks_pass (hpage _ (by simp [Layout.pages])) hl0 c hc
  · exact outside_pass (hL.siteWindow .smodePhaseA 0)
  · exact outside_pass (hL.siteWindow .smodePhaseB 0)
  · exact outside_pass (hL.siteWindow .smodePhaseC 0)
  · exact outside_pass hL.entryWindow
  · exact outside_pass hL.regsWindow

/-- The statics and the trap record that the report reads, as `main` leaves them. -/
structure Opened (L : Layout) (d : LabData) : Prop where
  satpRb : d.vars .satpRb = satpOf L
  pteBefore : d.vars .pteBefore = mkPte L.scratch1 PTE_LEAF_RW
  next : d.mRegs.next = some .midToB
  count : d.mRegs.count = 0
  sTraps : d.sTraps = 0

theorem main_run (h : Started s .main)
    (hQ : ∀ s', AtSupervisor s' .smodePhaseA 0 → Opened L s'.core.data → s'.core.failed = [] →
      TablesOn L L.scratch1 [L.scratch1] s' → Inevitable (Tlb.Step (lab L).client) Q s') :
    Inevitable (Tlb.Step (lab L).client) Q s := by
  have hslots := contents_slots hL L.scratch1
  refine open_run (lab L) [] h rfl (failuresOf_buildTables hslots
    (fun _ hd => plantChecks_pass hL hd) fun _ hd => tableChecks_pass hL hd) (by simp [Holds])
    hslots (by simp [mainRecord, Stmt.quiet, Stmt.failures])
    (keeps hL (hL.page L.scratch1 (by simp [Layout.pages])) (by simp))
    fun s' d hat hd hsatp hcount htraps hdata hfailed hs => hQ s' hat ?_ hfailed hs
  have hleaf : entry d L.l0Test 0 = mkPte L.scratch1 PTE_LEAF_RW :=
    hd.read (by simp [tableConstruction, leafTables])
  constructor
  · rw [hdata, ← hsatp]; rfl
  · rw [hdata, ← hleaf]; rfl
  · rw [hdata]; rfl
  · rw [hdata]; exact hcount
  · rw [hdata]; exact htraps

/-- `mid_to_B`: both pages can be seen at the tested address from now on. -/
theorem midToB_run (h : AtMachine s .midToB 0) (hs : TablesOn L L.scratch1 [L.scratch1] s)
    (hQ : ∀ s', AtSupervisor s' .smodePhaseB 0 →
      s'.core.data = { s.core.data with
        mem := setEntry s.core.data.mem L.l0Test 0 (mkPte L.scratch2 PTE_LEAF_RW)
        mRegs := { s.core.data.mRegs with next := some .midToC }
        vars := Function.update (Function.update (Function.update s.core.data.vars
          .pAMcause s.core.data.mRegs.cause) .pAMepc s.core.data.mRegs.epc)
          .pteAfter (mkPte L.scratch2 PTE_LEAF_RW) } →
      s'.core.failed = s.core.failed →
      TablesOn L L.scratch2 [L.scratch1, L.scratch2] s' →
      Inevitable (Tlb.Step (lab L).client) Q s') :
    Inevitable (Tlb.Step (lab L).client) Q s := by
  have hkeeps : Keeps Fn Var _ (satpOf L) (Seen (pagesOf [L.scratch1])) :=
    keeps hL (hL.page L.scratch1 (by simp [Layout.pages])) (by simp)
  have hkeeps' : Keeps Fn Var _ (satpOf L) (Seen (pagesOf [L.scratch1, L.scratch2])) :=
    keeps hL (hL.page L.scratch2 (by simp [Layout.pages])) (by simp)
  have hcode : (code L .midToB).drop 0 = snapshot .pAMcause .pAMepc ++
      (.assign L.l0Test 0 (mkPte L.scratch2 PTE_LEAF_RW) ::
        ([.set .pteAfter fun d => entry d L.l0Test 0,
          .check (fun d => d.vars .pteAfter == mkPte L.scratch2 PTE_LEAF_RW)
            "PTE rewrite did not land in memory",
          .arm .midToC] ++ [.drop .smodePhaseB])) := rfl
  refine quiet_run h hcode (snapshot_quiet _ _) hkeeps hs fun s₁ h₁ hs₁ => ?_
  have hrest := drop_of_append hcode
  have hleaf : Holds (setEntry s₁.core.data.mem L.l0Test 0 (mkPte L.scratch2 PTE_LEAF_RW))
      (contents L L.scratch2) := by
    have hslots := contents_slots hL L.scratch1
    have hsplit : ∀ page, contents L page =
        (canaries L ++ [⟨L.rootPt, TEST_VPN2, mkPte L.l1Test PTE_V⟩,
          ⟨L.l1Test, 0, mkPte L.l0Test PTE_V⟩]) ++
          ⟨L.l0Test, 0, mkPte page PTE_LEAF_RW⟩ :: windowTables L.rootPt L.l1Id L.l0Id := by
      simp [contents, tableConstruction, leafTables]
    have htables := hs₁.tables
    rw [hsplit] at hslots htables ⊢
    exact htables.reassign hslots rfl
  refine assign_step (h.after h₁) (stmt_of_drop hrest) hs₁ hkeeps'
    (fun k v hv => pagesOf_mono (by simp) hv) hleaf fun s₂ h₂ hs₂ => ?_
  have hrest' := drop_of_cons hrest
  refine quiet_run ((h.after h₁).jump h₂) hrest' (by simp [Stmt.quiet]) hkeeps' hs₂
    fun s₃ h₃ hs₃ => ?_
  have hat₃ := ((h.after h₁).jump h₂).after h₃
  refine drop_step hat₃ (stmt_of_drop (drop_of_append hrest')) hkeeps' hs₃
    fun s₄ hat₄ hdata₄ hfailed₄ hs₄ => ?_
  refine hQ s₄ hat₄ ?_ ?_ hs₄
  · rw [hdata₄, h₃, Core.after, h₂, h₁, Core.after]
    simp [dataAfter, snapshot, Stmt.apply, entry, setEntry]
  · rw [hfailed₄, h₃, Core.after, h₂, h₁, Core.after]
    simp [dataAfter, failuresOf, snapshot, Stmt.apply, Stmt.failures, entry, setEntry]

/-- `mid_to_C`: the fence leaves the second page only. -/
theorem midToC_run {ps : List Word} (h : AtMachine s .midToC 0) (hs : TablesOn L L.scratch2 ps s)
    (hps : L.scratch2 ∈ ps)
    (hQ : ∀ s', AtSupervisor s' .smodePhaseC 0 →
      s'.core.data = { s.core.data with
        mRegs := { s.core.data.mRegs with next := some .reportMmode }
        vars := Function.update (Function.update s.core.data.vars
          .pBMcause s.core.data.mRegs.cause) .pBMepc s.core.data.mRegs.epc } →
      s'.core.failed = s.core.failed → TablesOn L L.scratch2 [L.scratch2] s' →
      Inevitable (Tlb.Step (lab L).client) Q s') :
    Inevitable (Tlb.Step (lab L).client) Q s := by
  have hpage : PageAt L.scratch2 := hL.page L.scratch2 (by simp [Layout.pages])
  have hkeeps := keeps hL hpage hps
  have hkeeps' : Keeps Fn Var _ (satpOf L) (Seen (pagesOf [L.scratch2])) :=
    keeps hL hpage (by simp)
  have hcode : (code L .midToC).drop 0 = snapshot .pBMcause .pBMepc ++
      (.sfence none none :: ([.arm .reportMmode] ++ [.drop .smodePhaseC])) := rfl
  refine quiet_run h hcode (snapshot_quiet _ _) hkeeps hs fun s₁ h₁ hs₁ => ?_
  refine fenced_run (h.after h₁) (drop_of_append hcode) (by simp [Stmt.quiet, Stmt.failures])
    hkeeps' hs₁.tables hs₁.satp fun s₂ hat₂ hdata₂ hfailed₂ hs₂ => ?_
  refine hQ s₂ hat₂ ?_ ?_ hs₂
  · rw [hdata₂, h₁, Core.after]
    rfl
  · rw [hfailed₂, h₁, Core.after]
    simp [failuresOf, snapshot, Stmt.failures]

/-- What the checks of the report read, when the phases read `a`, `b` and `c`. -/
structure Record (L : Layout) (d : LabData) (a b c : Word) : Prop where
  satpRb : d.vars .satpRb = satpOf L
  pteBefore : d.vars .pteBefore = mkPte L.scratch1 PTE_LEAF_RW
  pteAfter : d.vars .pteAfter = mkPte L.scratch2 PTE_LEAF_RW
  readA : left L d .pARb = a
  readB : left L d .pBRb = b
  readC : left L d .pCRb = c
  canaryA : entry d L.scratch1 0 = CANARY_A
  canaryB : entry d L.scratch2 0 = CANARY_B
  sTraps : d.sTraps = 0
  count : d.mRegs.count = 3
  causeA : d.vars .pAMcause = CAUSE_ECALL_FROM_S
  causeB : d.vars .pBMcause = CAUSE_ECALL_FROM_S
  causeC : d.vars .pCMcause = CAUSE_ECALL_FROM_S
  siteA : d.vars .pAMepc = left L d .pAEcallPc
  siteB : d.vars .pBMepc = left L d .pBEcallPc
  siteC : d.vars .pCMepc = left L d .pCEcallPc
  satpRestored : d.vars .satpRestored = 0
  pmpRestored : d.vars .pmpRestored = 0

/-- The messages of a run whose second read is not stale. -/
def freshFailures : List String :=
  ["phase-B readback is not the stale canary A", "phase-B saw the rewrite without a fence"]

/-- The checks that fail are the two about the second read, if it is fresh. -/
theorem Record.failures {d : LabData} {b : Word} (hd : Record L d CANARY_A b CANARY_B)
    (hb : b = CANARY_A ∨ b = CANARY_B) :
    failuresOf d (checkAll (reportChecks L)) = if b = CANARY_A then [] else freshFailures := by
  have hroot : PageAt L.rootPt := hL.page _ (by simp [Layout.pages])
  have hppn : satpOf L &&& PPN_MASK = L.rootPt >>> 12 := (satp_fields hroot (by decide)).2
  have hmode : satpOf L >>> 60 = 8 := satp_mode hroot (by decide)
  have hne : CANARY_B ≠ CANARY_A := by decide
  rw [failuresOf_checkAll]
  rcases hb with rfl | rfl <;>
    simp [reportChecks, hd.satpRb, hmode, hppn, hd.pteBefore, hd.pteAfter,
      hd.readA, hd.readB, hd.readC, hd.canaryA, hd.canaryB, hd.sTraps, hd.count, hd.causeA,
      hd.causeB, hd.causeC, hd.siteA, hd.siteB, hd.siteC, hd.satpRestored, hd.pmpRestored, hne,
      hne.symm, freshFailures]

/-- What the lab has reported when it ends. -/
structure Reported (L : Layout) (s : State Fn Var) : Prop where
  readA : left L s.core.data .pARb = CANARY_A
  readB : left L s.core.data .pBRb = CANARY_A ∨ left L s.core.data .pBRb = CANARY_B
  readC : left L s.core.data .pCRb = CANARY_B
  traps : s.core.data.mRegs.count = 3 ∧ s.core.data.sTraps = 0
  failed : s.core.failed = if left L s.core.data .pBRb = CANARY_A then [] else freshFailures
  verdict : s.core.place = .stopped (decide (left L s.core.data .pBRb = CANARY_A))

/-- The report, when the phases read the first page, either and the second. -/
theorem report_run {b : Word} (h : AtMachine s .reportMmode 0)
    (hd : Record L (dataAfter s.core.data (restore .pCMcause .pCMepc .satpRestored .pmpRestored))
      CANARY_A b CANARY_B) (hb : b = CANARY_A ∨ b = CANARY_B) (hfailed : s.core.failed = []) :
    Inevitable (Tlb.Step (lab L).client) (Reported L) s := by
  refine close_run h rfl hfailed fun s' d hd' hdata hfails hplace => ?_
  rw [← hd'] at hd
  rw [hd.failures hL hb] at hfails hplace
  constructor
  · rw [hdata]; exact hd.readA
  · rw [hdata, hd.readB]; exact hb
  · rw [hdata]; exact hd.readC
  · rw [hdata]; exact ⟨hd.count, hd.sTraps⟩
  · rw [hdata, hd.readB]; exact hfails
  · rw [hdata, hd.readB, hplace]
    split
    next hstale => simp [hstale]
    next hfresh => simp [hfresh, freshFailures]

omit hL in
/-- The first word of each backing page. -/
theorem page_words {page : Word} {ps : List Word} (hs : TablesOn L page ps s) :
    s.core.data.mem L.scratch1.toNat = CANARY_A ∧ s.core.data.mem L.scratch2.toNat = CANARY_B := by
  have hA : s.core.data.mem (L.scratch1.toNat + 8 * 0) = CANARY_A :=
    hs.tables.read (by simp [contents, canaries])
  have hB : s.core.data.mem (L.scratch2.toNat + 8 * 0) = CANARY_B :=
    hs.tables.read (by simp [contents, canaries])
  exact ⟨hA, hB⟩

end Run

/-- Whatever the hart caches and forgets, the lab ends with a verdict: the first
read and the read behind the fence are the present mapping, the read between is one
of the two, and the run passes exactly if it is the old one. -/
theorem remap_verdict (L : Layout) (hL : L.Placed) (s : State Fn Var)
    (h : Started s .main) :
    Inevitable (Tlb.Step (lab L).client) (Reported L) s := by
  have hpage₁ : PageAt L.scratch1 := hL.page L.scratch1 (by simp [Layout.pages])
  have hpage₂ : PageAt L.scratch2 := hL.page L.scratch2 (by simp [Layout.pages])
  refine main_run hL h fun s₁ hat₁ hopen hfailed₁ hs₁ => ?_
  refine phase_run hL rfl hat₁ hpage₁ (by simp) hs₁ hopen.next
    fun s₂ p regsA hp hat₂ hcountA hcauseA hepcA hdata₂ hfailed₂ hs₂ => ?_
  obtain rfl : p = L.scratch1 := by simpa using hp
  refine midToB_run hL hat₂ hs₂ fun s₃ hat₃ hdata₃ hfailed₃ hs₃ => ?_
  refine phase_run hL rfl hat₃ hpage₂ (by simp) hs₃ (by rw [hdata₃])
    fun s₄ q regsB hq hat₄ hcountB hcauseB hepcB hdata₄ hfailed₄ hs₄ => ?_
  refine midToC_run hL hat₄ hs₄ (by simp) fun s₅ hat₅ hdata₅ hfailed₅ hs₅ => ?_
  refine phase_run hL rfl hat₅ hpage₂ (by simp) hs₅ (by rw [hdata₅])
    fun s₆ r regsC hr hat₆ hcountC hcauseC hepcC hdata₆ hfailed₆ hs₆ => ?_
  obtain rfl : r = L.scratch2 := by simpa using hr
  have hb : s₃.core.data.mem q.toNat = CANARY_A ∨ s₃.core.data.mem q.toNat = CANARY_B := by
    obtain ⟨hA, hB⟩ := page_words hs₃
    simp only [List.mem_cons, List.not_mem_nil, or_false] at hq
    rcases hq with rfl | rfl
    · exact Or.inl hA
    · exact Or.inr hB
  have hfailed : s₆.core.failed = [] := by
    rw [hfailed₆, hfailed₅, hfailed₄, hfailed₃, hfailed₂, hfailed₁]
  refine report_run hL hat₆ ?_ hb hfailed
  have hmem : (dataAfter s₆.core.data
      (restore .pCMcause .pCMepc .satpRestored .pmpRestored)).mem = s₆.core.data.mem := rfl
  have hrewrite := hL.setEntry_var (show L.l0Test ∈ L.pages by simp [Layout.pages])
  constructor
  case canaryA => exact (page_words hs₆).1
  case canaryB => exact (page_words hs₆).2
  case readC =>
    rw [left, hmem, hdata₆]
    simpa [hL.update_var] using (page_words hs₅).2
  case readA =>
    rw [left, hmem, hdata₆, hdata₅, hdata₄, hdata₃, hdata₂]
    simpa [hL.update_var, hrewrite] using (page_words hs₁).1
  all_goals
    simp [restore, snapshot, setSatp, dataAfter, Stmt.apply, left, hdata₆, hdata₅, hdata₄, hdata₃,
      hdata₂, hL.update_var, hrewrite, hopen.satpRb, hopen.pteBefore, hopen.sTraps, hopen.count,
      hcountA, hcountB, hcountC, hcauseA, hcauseB, hcauseC, hepcA, hepcB, hepcC]

/-- Seven pages in a row, the variables in front of them, and the code before. -/
def sampleLayout : Layout where
  rootPt := 0x80010000
  l1Id := 0x80011000
  l0Id := 0x80012000
  l1Test := 0x80013000
  l0Test := 0x80014000
  scratch1 := 0x80015000
  scratch2 := 0x80016000
  var
    | .pARb => 0x8000F000
    | .pBRb => 0x8000F008
    | .pCRb => 0x8000F010
    | .pAEcallPc => 0x8000F018
    | .pBEcallPc => 0x8000F020
    | .pCEcallPc => 0x8000F028
  site f := codeAt f.ctorIdx
  sTrapEntry := 0x80000100
  sRegs9 := 0x8000F078

theorem sampleLayout_placed : sampleLayout.Placed where
  page := by
    intro p hp
    simp only [Layout.pages, sampleLayout, List.mem_cons, List.not_mem_nil, or_false] at hp
    rcases hp with rfl | rfl | rfl | rfl | rfl | rfl | rfl <;> exact ⟨by decide, by decide⟩
  distinct := by decide
  varInjective := by
    intro x y hxy
    cases x <;> cases y <;> first | rfl | exact absurd hxy (by decide)
  varWindow := by rintro (_ | _) <;> exact ⟨by decide, by decide⟩
  varApart := by
    have hvar : ∀ x, (sampleLayout.var x).toNat < 0x80010000 := by rintro (_ | _) <;> decide
    intro x p hp
    refine Or.inl (lt_of_lt_of_le (hvar x) ?_)
    simp only [Layout.pages, sampleLayout, List.mem_cons, List.not_mem_nil, or_false] at hp
    rcases hp with rfl | rfl | rfl | rfl | rfl | rfl | rfl <;> decide
  siteWindow f i := codeAt_window (by cases f <;> decide) i
  entryWindow := ⟨by decide, by decide⟩
  regsWindow := ⟨by decide, by decide⟩

theorem sample_remap_verdict :
    Inevitable (Tlb.Step (lab sampleLayout).client) (Reported sampleLayout) (stale .main) :=
  remap_verdict sampleLayout sampleLayout_placed (stale .main) (stale_started Fn.main)

end Remap
end SfenceVma
end BareMetal
