import BareMetal.SfenceVma.Tables

/-!
# The course of a sfence-vma lab

The parts of the three labs that differ only in names: `main` plants canaries,
builds the tables and enables translation (`open_run`), the phases read tested
addresses and trap back (`phase_run`, `phase_run₂`), and the report turns
translation off, checks and ends (`close_run`).  What is between, the rewrites and
the fences, is each lab's own.
-/

namespace BareMetal
namespace SfenceVma

open Machine Sv39 SfenceVmaRs2Scoped

/-- The variables `var` that the phases store are in the window, apart from each other
and from the pages. -/
structure Apart {V : Type} (pages : List Word) (var : V → Word) : Prop where
  page : ∀ p ∈ pages, PageAt p
  distinct : pages.Nodup
  varInjective : Function.Injective fun x => (var x).toNat
  varWindow : ∀ x, InWindow (var x)
  varApart : ∀ x, ∀ p ∈ pages, (var x).toNat < p.toNat ∨ p.toNat + 4096 ≤ (var x).toNat

section Apart

variable {V : Type} [DecidableEq V] {pages : List Word} {var : V → Word} (hA : Apart pages var)

include hA

omit [DecidableEq V] in
theorem Apart.holds_stored {as : List Assign}
    (has : ∀ a ∈ as, a.table ∈ pages ∧ a.index < 512) (x : V) (m : PhysMem) (v : Word)
    (hm : Holds m as) : Holds (Function.update m (var x).toNat v) as := by
  refine hm.update_of_ne (fun a ha => ?_) v
  obtain ⟨htable, hindex⟩ := has a ha
  have hvar := hA.varApart x a.table htable
  unfold slot
  omega

/-- Storing a variable, seen from another. -/
theorem Apart.update_var (m : PhysMem) (x y : V) (v : Word) :
    Function.update m (var x).toNat v (var y).toNat = if y = x then v else m (var y).toNat := by
  by_cases hyx : y = x
  · rw [if_pos hyx, hyx, Function.update_self]
  · rw [if_neg hyx, Function.update_of_ne fun heq => hyx (hA.varInjective heq)]

omit [DecidableEq V] in
/-- Assigning an entry, seen from a variable. -/
theorem Apart.setEntry_var {table : Word} (htable : table ∈ pages) (m : PhysMem) (x : V)
    (v : Word) : setEntry m table 0 v (var x).toNat = m (var x).toNat := by
  have hvar := hA.varApart x table htable
  exact Function.update_of_ne (by omega) _ _

omit [DecidableEq V] in
/-- Storing a variable, seen from the first word of a page. -/
theorem Apart.update_page {page : Word} (hpage : page ∈ pages) (m : PhysMem) (x : V) (v : Word) :
    Function.update m (var x).toNat v page.toNat = m page.toNat := by
  have hvar := hA.varApart x page hpage
  exact Function.update_of_ne (by omega) _ _

end Apart

/-! ## Phases -/

section Phase

variable {Fn X : Type} [DecidableEq X] {lab : Lab Fn X} {s : State Fn X} {Q : State Fn X → Prop}
variable {f g : Fn} {T : PhysMem → Prop} {satp : Word} {pages : Nat → Word → Option (List Word)}

/-- A phase of one readback reads the first word of a page that the tested address
can be mapped to, and comes back into the continuation. -/
theorem phase_run {va rb epc : Word} {ps : List Word} (h : AtSupervisor s f 0)
    (hcode : lab.code f = phaseRead va rb ++ phaseLeave epc (lab.site f 5))
    (hsite : ∀ i, InWindow (lab.site f i)) (hkeeps : Keeps Fn X T satp (Seen pages))
    (hs : Mapped lab T satp (Seen pages) s) (hps : pages (asidOf satp) va = some ps)
    (hrb : InWindow rb) (hepc : InWindow epc)
    (hTrb : ∀ m v, T m → T (Function.update m rb.toNat v))
    (hTepc : ∀ m v, T m → T (Function.update m epc.toNat v))
    (hnext : s.core.data.mRegs.next = some g)
    (hQ : ∀ s' p regs, p ∈ ps → AtMachine s' g 0 →
      regs.count = s.core.data.mRegs.count + 1 → regs.cause = CAUSE_ECALL_FROM_S →
      regs.epc = lab.site f 5 →
      s'.core.data = { s.core.data with
        mem := Function.update (Function.update s.core.data.mem rb.toNat
          (s.core.data.mem p.toNat)) epc.toNat (lab.site f 5)
        mRegs := regs } →
      s'.core.failed = s.core.failed → Mapped lab T satp (Seen pages) s' →
      Inevitable (Tlb.Step lab.client) Q s') : Inevitable (Tlb.Step lab.client) Q s := by
  have hfetch : Fetched lab (Seen pages) satp f := fun i _ hv => hv.window (hsite i)
  have hload : ∀ v, Seen pages ⟨asidOf satp, .load, va⟩ v → ∃ p ∈ ps, v = some p.toNat :=
    fun v hv => hv.tested rfl ps hps
  have hcode₀ : (lab.code f).drop 0 = phaseRead va rb ++ phaseLeave epc (lab.site f 5) := hcode
  refine read_run h hfetch hkeeps hs va rb _ hcode₀ (fun _ hv => hv.window hrb) hTrb ?_
    fun s₁ pa hpa hat₁ hdata₁ hfailed₁ hs₁ => ?_
  · intro v hv
    obtain ⟨p, -, hp⟩ := hload v hv
    exact ⟨p.toNat, hp⟩
  · obtain ⟨p, hp, hvalue⟩ := hload _ hpa
    obtain rfl : pa = p.toNat := Option.some.inj hvalue
    have hcode₁ : (lab.code f).drop (0 + 3) = phaseLeave epc (lab.site f 5) ++ [] := by
      rw [hcode]
      rfl
    have hnext₁ : s₁.core.data.mRegs.next = some g := by
      rw [hdata₁]
      exact hnext
    refine leave_run hat₁ hfetch hkeeps hs₁ epc _ [] hcode₁ (fun _ hv => hv.window hepc) hTepc
      hnext₁ fun s₂ regs hat₂ hcount hcause hsite₂ hdata₂ hfailed₂ hs₂ => ?_
    refine hQ s₂ p regs hp hat₂ ?_ hcause hsite₂ ?_ (hfailed₂.trans hfailed₁) hs₂
    · rw [hcount, hdata₁]
      rfl
    · rw [hdata₂, Core.stored, hdata₁]
      rfl

/-- A phase of two readbacks. -/
theorem phase_run₂ {va₁ rb₁ va₂ rb₂ epc : Word} {ps₁ ps₂ : List Word} (h : AtSupervisor s f 0)
    (hcode : lab.code f =
      phaseRead va₁ rb₁ ++ (phaseRead va₂ rb₂ ++ phaseLeave epc (lab.site f 8)))
    (hsite : ∀ i, InWindow (lab.site f i)) (hkeeps : Keeps Fn X T satp (Seen pages))
    (hs : Mapped lab T satp (Seen pages) s) (hps₁ : pages (asidOf satp) va₁ = some ps₁)
    (hps₂ : pages (asidOf satp) va₂ = some ps₂)
    (hwindow : ∀ a ∈ [rb₁, rb₂, epc], InWindow a)
    (hT : ∀ a ∈ [rb₁, rb₂, epc], ∀ m v, T m → T (Function.update m a.toNat v))
    (hnext : s.core.data.mRegs.next = some g)
    (hQ : ∀ s' p q regs, p ∈ ps₁ → q ∈ ps₂ → AtMachine s' g 0 →
      regs.count = s.core.data.mRegs.count + 1 → regs.cause = CAUSE_ECALL_FROM_S →
      regs.epc = lab.site f 8 →
      s'.core.data = { s.core.data with
        mem :=
          let m := Function.update s.core.data.mem rb₁.toNat (s.core.data.mem p.toNat)
          Function.update (Function.update m rb₂.toNat (m q.toNat)) epc.toNat (lab.site f 8)
        mRegs := regs } →
      s'.core.failed = s.core.failed → Mapped lab T satp (Seen pages) s' →
      Inevitable (Tlb.Step lab.client) Q s') : Inevitable (Tlb.Step lab.client) Q s := by
  have hfetch : Fetched lab (Seen pages) satp f := fun i _ hv => hv.window (hsite i)
  have hload : ∀ va ps, pages (asidOf satp) va = some ps → ∀ v,
      Seen pages ⟨asidOf satp, .load, va⟩ v → ∃ p ∈ ps, v = some p.toNat :=
    fun va ps hps v hv => hv.tested rfl ps hps
  have hsome : ∀ va ps, pages (asidOf satp) va = some ps → ∀ v,
      Seen pages ⟨asidOf satp, .load, va⟩ v → ∃ pa, v = some pa := by
    intro va ps hps v hv
    obtain ⟨p, -, hp⟩ := hload va ps hps v hv
    exact ⟨p.toNat, hp⟩
  have hstore : ∀ a ∈ [rb₁, rb₂, epc], Stored (Seen pages) satp a :=
    fun a ha _ hv => hv.window (hwindow a ha)
  have hcode₀ : (lab.code f).drop 0 =
      phaseRead va₁ rb₁ ++ (phaseRead va₂ rb₂ ++ phaseLeave epc (lab.site f 8)) := hcode
  refine read_run h hfetch hkeeps hs va₁ rb₁ _ hcode₀ (hstore rb₁ (by simp)) (hT rb₁ (by simp))
    (hsome va₁ ps₁ hps₁) fun s₁ pa hpa hat₁ hdata₁ hfailed₁ hs₁ => ?_
  obtain ⟨p, hp, hvalue⟩ := hload va₁ ps₁ hps₁ _ hpa
  obtain rfl : pa = p.toNat := Option.some.inj hvalue
  have hcode₁ : (lab.code f).drop (0 + 3) =
      phaseRead va₂ rb₂ ++ phaseLeave epc (lab.site f 8) := by
    rw [hcode]
    rfl
  refine read_run hat₁ hfetch hkeeps hs₁ va₂ rb₂ _ hcode₁ (hstore rb₂ (by simp))
    (hT rb₂ (by simp)) (hsome va₂ ps₂ hps₂) fun s₂ qa hqa hat₂ hdata₂ hfailed₂ hs₂ => ?_
  obtain ⟨q, hq, hvalue'⟩ := hload va₂ ps₂ hps₂ _ hqa
  obtain rfl : qa = q.toNat := Option.some.inj hvalue'
  have hcode₂ : (lab.code f).drop (0 + 3 + 3) = phaseLeave epc (lab.site f 8) ++ [] := by
    rw [hcode]
    rfl
  have hnext₂ : s₂.core.data.mRegs.next = some g := by
    rw [hdata₂, Core.stored, hdata₁]
    exact hnext
  refine leave_run hat₂ hfetch hkeeps hs₂ epc _ [] hcode₂ (hstore epc (by simp))
    (hT epc (by simp)) hnext₂ fun s₃ regs hat₃ hcount hcause hsite₃ hdata₃ hfailed₃ hs₃ => ?_
  refine hQ s₃ p q regs hp hq hat₃ ?_ hcause hsite₃ ?_ ?_ hs₃
  · rw [hcount, hdata₂, Core.stored, hdata₁]
    rfl
  · rw [hdata₃, Core.stored, hdata₂, Core.stored, hdata₁]
    rfl
  · rw [hfailed₃, hfailed₂, hfailed₁]

end Phase

/-! ## Main -/

section Main

variable {Fn X : Type}

/-- `table[i]`. -/
def entry (d : Data Fn X) (table : Word) (i : Nat) : Word :=
  d.mem (table.toNat + 8 * i)

abbrev Check (Fn X : Type) := (Data Fn X → Bool) × String

def misaligned (page : Word) (msg : String) : Check Fn X :=
  (fun _ => page &&& 0xFFF == 0, msg)

/-- The address is below the end of the identity window. -/
def outside (a : Word) (msg : String) : Check Fn X :=
  (fun _ => decide (a.toNat < 0x80080000), msg)

/-- An entry is a pointer, and to the given table. -/
def pointerChecks (table : Word) (i : Nat) (next : Word) (msg ppnMsg : String) :
    List (Check Fn X) :=
  [(fun d => entry d table i &&& (PTE_V ||| PTE_R ||| PTE_W ||| PTE_X) == PTE_V, msg),
   (fun d => (entry d table i >>> 10) &&& PPN_MASK == next >>> 12, ppnMsg)]

/-- An entry is a leaf that can be read and written, and of the given page. -/
def leafChecks (table page : Word) (msg ppnMsg : String) : List (Check Fn X) :=
  [(fun d => entry d table 0 &&& (PTE_V ||| PTE_R ||| PTE_W) == PTE_V ||| PTE_R ||| PTE_W, msg),
   (fun d => (entry d table 0 >>> 10) &&& PPN_MASK == page >>> 12, ppnMsg)]

section Checks

variable {d : Data Fn X} {table page : Word} {i : Nat} {msg ppnMsg : String}

theorem misaligned_pass (hpage : PageAt page) : (misaligned page msg).1 d = true := by
  simp only [misaligned, page_aligned hpage, beq_self_eq_true]

theorem outside_pass {a : Word} (ha : InWindow a) : (outside a msg).1 d = true :=
  decide_eq_true ha.2

theorem pointerChecks_pass (hpage : PageAt page) (h : entry d table i = mkPte page PTE_V) :
    ∀ c ∈ pointerChecks table i page msg ppnMsg, c.1 d = true := by
  simp only [pointerChecks, List.mem_cons, List.not_mem_nil, or_false, forall_eq_or_imp, forall_eq,
    h, mkPte_page hpage (show PTE_V.toNat < 2 ^ 10 by decide), beq_self_eq_true, and_true]
  rw [mkPte_and (by decide)]
  decide

theorem leafChecks_pass (hpage : PageAt page) (h : entry d table 0 = mkPte page PTE_LEAF_RW) :
    ∀ c ∈ leafChecks table page msg ppnMsg, c.1 d = true := by
  simp only [leafChecks, List.mem_cons, List.not_mem_nil, or_false, forall_eq_or_imp, forall_eq, h,
    mkPte_page hpage (show PTE_LEAF_RW.toNat < 2 ^ 10 by decide), beq_self_eq_true, and_true]
  rw [mkPte_and (by decide)]
  decide

end Checks

/-- `main` up to `set_satp`. -/
def buildTables (canaries : List Assign) (plantChecks : List (Check Fn X)) (tables : List Assign)
    (tableChecks : List (Check Fn X)) : List (Stmt Fn X) :=
  .csrwPmpcfg0 0x1f :: checkAll [(fun d => d.pmpcfg0 == 0x1f, "pmpcfg0 readback != 0x1f")] ++
    assigns canaries ++ checkAll plantChecks ++ assigns tables ++ checkAll tableChecks

/-- The trap record of a phase, copied out of `m_regs`. -/
def snapshot (cause epc : X) : List (Stmt Fn X) :=
  [.set cause fun d => d.mRegs.cause, .set epc fun d => d.mRegs.epc]

theorem snapshot_quiet (cause epc : X) :
    ∀ st ∈ (snapshot cause epc : List (Stmt Fn X)), st.quiet = true := by
  simp [snapshot, Stmt.quiet]

/-- The report up to its checks; `cause` and `epc` take the record of the last phase. -/
def restore (cause epc satpRestored pmpRestored : X) : List (Stmt Fn X) :=
  snapshot cause epc ++ setSatp 0 ++
    [.set satpRestored fun d => d.satp, .csrwPmpcfg0 0, .set pmpRestored fun d => d.pmpcfg0]

variable [DecidableEq X] {lab : Lab Fn X} {s : State Fn X} {Q : State Fn X → Prop} {f g : Fn}

section Enable

variable {T : PhysMem → Prop} {satp : Word} {W : Key → Option Nat → Prop} {i : Nat}
variable {record : List (Stmt Fn X)}

/-- A fence for everything, and what follows it up to the drop. -/
theorem fenced_run (h : AtMachine s f i)
    (hcode : (lab.code f).drop i = .sfence none none :: (record ++ [.drop g]))
    (hrecord : ∀ st ∈ record, st.quiet = true ∧ ∀ d, st.failures d = [])
    (hkeeps : Keeps Fn X T satp W) (hT : T s.core.data.mem) (hsatp : s.core.data.satp = satp)
    (hQ : ∀ s', AtSupervisor s' g 0 → s'.core.data = dataAfter s.core.data record →
      s'.core.failed = s.core.failed → Mapped lab T satp W s' →
      Inevitable (Tlb.Step lab.client) Q s') : Inevitable (Tlb.Step lab.client) Q s := by
  refine full_fence_step h (stmt_of_drop hcode) hkeeps hT hsatp fun s₁ h₁ hs₁ => ?_
  have hat₁ := h.jump h₁
  have hrest := drop_of_cons hcode
  refine quiet_run hat₁ hrest (fun st hst => (hrecord st hst).1) hkeeps hs₁ fun s₂ h₂ hs₂ => ?_
  refine drop_step (hat₁.after h₂) (stmt_of_drop (drop_of_append hrest)) hkeeps hs₂
    fun s₃ hat₃ hdata₃ hfailed₃ hs₃ => ?_
  refine hQ s₃ hat₃ ?_ ?_ hs₃
  · rw [hdata₃, h₂, h₁]
    rfl
  · have hnone := failuresOf_eq_nil s.core.data fun st hst => (hrecord st hst).2
    rw [hfailed₃, h₂, Core.after, h₁, hnone, List.append_nil]

/-- `set_satp`, and what follows it up to the drop: whatever was cached before, the
phase sees the tables of the new root. -/
theorem enable_run (h : AtMachine s f i)
    (hcode : (lab.code f).drop i = setSatp satp ++ (record ++ [.drop g]))
    (hrecord : ∀ st ∈ record, st.quiet = true ∧ ∀ d, st.failures d = [])
    (hkeeps : Keeps Fn X T satp W) (hT : T s.core.data.mem)
    (hQ : ∀ s', AtSupervisor s' g 0 →
      s'.core.data = dataAfter { s.core.data with satp := satp } record →
      s'.core.failed = s.core.failed → Mapped lab T satp W s' →
      Inevitable (Tlb.Step lab.client) Q s') : Inevitable (Tlb.Step lab.client) Q s := by
  have hcode₀ : (lab.code f).drop i =
      [.csrwSatp satp] ++ (.sfence none none :: (record ++ [.drop g])) := hcode
  refine straight_run_unbounded h hcode₀ (by simp [Stmt.straight]) fun s₁ h₁ => ?_
  have hdata₁ : s₁.core.data = { s.core.data with satp := satp } := by
    rw [h₁]
    rfl
  have hfailed₁ : s₁.core.failed = s.core.failed := by
    rw [h₁, Core.after]
    simp [failuresOf, Stmt.failures]
  refine fenced_run (h.after h₁) (drop_of_append hcode₀) hrecord hkeeps (by rw [hdata₁]; exact hT)
    (by rw [hdata₁]) fun s₂ hat₂ hdata₂ hfailed₂ hs₂ => ?_
  refine hQ s₂ hat₂ ?_ (hfailed₂.trans hfailed₁) hs₂
  rw [hdata₂, hdata₁]

end Enable

section Build

variable (canaries tables : List Assign) (plantChecks tableChecks : List (Check Fn X))

omit [DecidableEq X] in
theorem buildTables_straight :
    ∀ st ∈ buildTables canaries plantChecks tables tableChecks, st.straight = true := by
  intro st hst
  simp only [buildTables, List.cons_append, List.mem_cons, List.mem_append] at hst
  rcases hst with rfl | (((h | h) | h) | h) | h
  · rfl
  · exact checkAll_straight _ st h
  · exact assigns_straight _ st h
  · exact checkAll_straight _ st h
  · exact assigns_straight _ st h
  · exact checkAll_straight _ st h

theorem dataAfter_buildTables (d : Data Fn X) :
    dataAfter d (buildTables canaries plantChecks tables tableChecks) =
      { d with pmpcfg0 := 0x1f, mem := assignAll d.mem (canaries ++ tables) } := by
  rw [buildTables, dataAfter_append, dataAfter_checkAll, dataAfter_append, dataAfter_assigns,
    dataAfter_append, dataAfter_checkAll, dataAfter_append, dataAfter_assigns]
  simp [dataAfter, checkAll, Stmt.apply, Sv39.assignAll]

variable {canaries tables plantChecks tableChecks}

/-- No check of `main` fails. -/
theorem failuresOf_buildTables (hslots : ((canaries ++ tables).map slot).Nodup)
    (hplants : ∀ d : Data Fn X, Holds d.mem canaries → ∀ c ∈ plantChecks, c.1 d = true)
    (htables : ∀ d : Data Fn X, Holds d.mem (canaries ++ tables) →
      ∀ c ∈ tableChecks, c.1 d = true) (d : Data Fn X) :
    failuresOf d (buildTables canaries plantChecks tables tableChecks) = [] := by
  have hcanaries : (canaries.map slot).Nodup := by
    rw [List.map_append] at hslots
    exact (List.nodup_append.mp hslots).1
  have hfirst : failuresOf { d with pmpcfg0 := 0x1f }
      (checkAll [(fun d : Data Fn X => d.pmpcfg0 == 0x1f, "pmpcfg0 readback != 0x1f")]) = [] := rfl
  have hplants' := failuresOf_checkAll_eq_nil { d with
      pmpcfg0 := 0x1f, mem := assignAll d.mem canaries }
    (hplants _ (holds_assignAll hcanaries d.mem))
  have htables' := failuresOf_checkAll_eq_nil { d with
      pmpcfg0 := 0x1f, mem := assignAll d.mem (canaries ++ tables) }
    (htables _ (holds_assignAll hslots d.mem))
  simp only [buildTables, List.cons_append, failuresOf, failuresOf_append, failuresOf_assigns,
    dataAfter_append, dataAfter_assigns, dataAfter_checkAll, Stmt.failures, Stmt.apply,
    List.nil_append, List.append_nil, hfirst, hplants']
  simpa [Sv39.assignAll, List.foldl_append] using htables'

/-- The state in which `main` is called: memory, statics and what the hart has cached
are anything, but BSS is clear where the trap entries count. -/
structure Started (s : State Fn X) (f : Fn) : Prop where
  at' : AtMachine s f 0
  count : s.core.data.mRegs.count = 0
  sTraps : s.core.data.sTraps = 0
  failed : s.core.failed = []

variable (lab) in
/-- `main`: whatever was cached before, the first phase sees the tables, and what memory
held elsewhere is still there. -/
theorem open_run (kept : List Assign) {satp : Word} {record : List (Stmt Fn X)}
    {W : Key → Option Nat → Prop} (h : Started s f)
    (hcode : lab.code f = buildTables canaries plantChecks tables tableChecks ++
      (setSatp satp ++ (record ++ [.drop g])))
    (hbuild : ∀ d : Data Fn X,
      failuresOf d (buildTables canaries plantChecks tables tableChecks) = [])
    (hkept : Holds s.core.data.mem kept)
    (hslots : ((kept ++ (canaries ++ tables)).map slot).Nodup)
    (hrecord : ∀ st ∈ record, st.quiet = true ∧ ∀ d, st.failures d = [])
    (hkeeps : Keeps Fn X (fun m => Holds m (kept ++ (canaries ++ tables))) satp W)
    (hQ : ∀ s' d, AtSupervisor s' g 0 → Holds d.mem (kept ++ (canaries ++ tables)) → d.satp = satp →
      d.mRegs.count = 0 → d.sTraps = 0 → s'.core.data = dataAfter d record →
      s'.core.failed = [] → Mapped lab (fun m => Holds m (kept ++ (canaries ++ tables))) satp W s' →
      Inevitable (Tlb.Step lab.client) Q s') : Inevitable (Tlb.Step lab.client) Q s := by
  have hcode₀ : (lab.code f).drop 0 = buildTables canaries plantChecks tables tableChecks ++
      (setSatp satp ++ (record ++ [.drop g])) := hcode
  refine straight_run_unbounded h.at' hcode₀ (buildTables_straight _ _ _ _) fun s₁ h₁ => ?_
  have hdata₁ : s₁.core.data = { s.core.data with
      pmpcfg0 := 0x1f, mem := assignAll s.core.data.mem (canaries ++ tables) } := by
    rw [h₁, Core.after, dataAfter_buildTables]
  have hfailed₁ : s₁.core.failed = [] := by
    rw [h₁, Core.after, hbuild, h.failed]
    rfl
  have htables : Holds s₁.core.data.mem (kept ++ (canaries ++ tables)) := by
    rw [hdata₁]
    exact hkept.assignAll_append hslots
  refine enable_run (h.at'.after h₁) (drop_of_append hcode₀) hrecord hkeeps htables
    fun s₂ hat₂ hdata₂ hfailed₂ hs₂ => ?_
  refine hQ s₂ { s₁.core.data with satp := satp } hat₂ htables rfl ?_ ?_ hdata₂
    (hfailed₂.trans hfailed₁) hs₂
  · rw [hdata₁]
    exact h.count
  · rw [hdata₁]
    exact h.sTraps

end Build

/-! ## The report -/

/-- The report: the hart ends, and it has passed if no check failed. -/
theorem close_run {cause epc satpRestored pmpRestored : X} {checks : List (Check Fn X)}
    (h : AtMachine s f 0)
    (hcode : lab.code f =
      restore cause epc satpRestored pmpRestored ++ checkAll checks ++ [.finish])
    (hfailed : s.core.failed = [])
    (hQ : ∀ s' d, d = dataAfter s.core.data (restore cause epc satpRestored pmpRestored) →
      s'.core.data = d → s'.core.failed = failuresOf d (checkAll checks) →
      s'.core.place = .stopped (failuresOf d (checkAll checks)).isEmpty → Q s') :
    Inevitable (Tlb.Step lab.client) Q s := by
  have hstraight : ∀ st ∈ restore cause epc satpRestored pmpRestored ++ checkAll checks,
      st.straight = true := by
    intro st hst
    rcases List.mem_append.mp hst with hst | hst
    · simp only [restore, snapshot, setSatp, List.cons_append, List.nil_append, List.mem_cons,
        List.not_mem_nil, or_false] at hst
      rcases hst with rfl | rfl | rfl | rfl | rfl | rfl | rfl <;> rfl
    · exact checkAll_straight _ st hst
  have hcode₀ : (lab.code f).drop 0 =
      (restore cause epc satpRestored pmpRestored ++ checkAll checks) ++ [.finish] := hcode
  refine straight_run_unbounded h hcode₀ hstraight fun s₁ h₁ => ?_
  have hdata₁ : s₁.core.data =
      dataAfter s.core.data (restore cause epc satpRestored pmpRestored) := by
    rw [h₁, Core.after, dataAfter_append, dataAfter_checkAll]
  have hfailed₁ : s₁.core.failed = failuresOf
      (dataAfter s.core.data (restore cause epc satpRestored pmpRestored)) (checkAll checks) := by
    have hrestore : failuresOf s.core.data (restore cause epc satpRestored pmpRestored) = [] := rfl
    rw [h₁, Core.after, failuresOf_append, hfailed, hrestore]
    rfl
  refine machine_step (h.after h₁) (stmt_of_drop (drop_of_append hcode₀)) fun s₂ h₂ _ => .here ?_
  refine hQ s₂ _ rfl ?_ ?_ ?_
  · rw [h₂]; exact hdata₁
  · rw [h₂]; exact hfailed₁
  · rw [h₂, ← hfailed₁]; rfl

end Main

/-! ## A start -/

section Start

variable {Fn X : Type}

/-- A hart at the entry of a program, with zero memory.  Its cache maps every address
of every space to address 0. -/
def stale (f : Fn) : State Fn X where
  core :=
    { data :=
        { mem := fun _ => 0
          satp := 0
          pmpcfg0 := 0
          mRegs := ⟨0, 0, 0, 0, 0, none⟩
          sTraps := 0
          vars := fun _ => 0 }
      status := 0
      priv := .machine
      place := .running f 0
      fetched := false
      t0 := 0
      failed := [] }
  cache := fun _ v => v = some 0

theorem stale_started (f : Fn) : Started (stale f : State Fn X) f where
  at' := by constructor <;> rfl
  count := rfl
  sTraps := rfl
  failed := rfl

/-- Functions of `0x800` bytes in a row. -/
def codeAt (f i : Nat) : Word :=
  0x80000200 + BitVec.ofNat 64 (f * 0x800 + 4 * (i % 0x200))

theorem codeAt_window {f : Nat} (hf : f < 16) (i : Nat) : InWindow (codeAt f i) := by
  have hbase : (0x80000200 : Word).toNat = 0x80000200 := by decide
  unfold InWindow codeAt
  rw [BitVec.toNat_add, BitVec.toNat_ofNat, hbase]
  omega

end Start

end SfenceVma
end BareMetal
