import BareMetal.Machine.Privilege
import BareMetal.Machine.Sv39
import BareMetal.Machine.Tlb

/-!
# The hart of the sfence-vma labs

What `src/sfence-vma-remap`, `src/sfence-vma-rs1-scoped` and
`src/sfence-vma-rs2-scoped` have in common: functions that run in M-mode and
build, rewrite and fence page tables, functions that run in S-mode and go
through them, and the trap entry between the two, which is the same in
`svr_trap.S`, `srs_trap.S` and `srs2_trap.S`.

A function is the list of its statements.  In S-mode every statement is fetched
through a translation before it is executed, and the loads and stores of the
phases go through another; in M-mode addresses are physical.  The hart under it
caches translations as it likes (`Machine.Tlb`).  All interrupt enables are clear
for the whole of these runs, so the only traps are the ones a statement raises.
-/

namespace BareMetal
namespace SfenceVma

open Machine Sv39

/-- A translation that the hart may cache. -/
structure Key where
  asid : Nat
  access : Access
  va : Word

/-- `satp.ASID`. -/
def asidOf (satp : Word) : Nat :=
  satp.toNat / 2 ^ 44 % 2 ^ 16

section Program

variable (Fn X : Type)

/-- The words of `m_regs` that the trap entry leaves behind: slots 0, 2, 3, 4, 8,
and the continuation in slot 7, which is null until it is armed. -/
structure MRegs where
  count : Word
  cause : Word
  epc : Word
  status : Word
  tval : Word
  next : Option Fn

/-- What the C code reads.  `vars` are the statics that only M-mode writes; the
ones that the phases write are in memory. -/
structure Data where
  mem : PhysMem
  satp : Word
  pmpcfg0 : Word
  mRegs : MRegs Fn
  /-- Slot 0 of `s_regs`. -/
  sTraps : Word
  vars : X → Word

/-- Where the hart is: before statement `i` of a function, in a `wfi` loop, in
memory that is not this program's, or behind the verdict. -/
inductive Place
  | running (f : Fn) (i : Nat)
  | parked
  | lost
  | stopped (passed : Bool)

/-- The state of the program. -/
structure Core where
  data : Data Fn X
  status : Word
  priv : Priv
  place : Place Fn
  /-- The statement has been fetched. -/
  fetched : Bool
  t0 : Word
  /-- The messages of the checks that failed, one for each count of `fails`. -/
  failed : List String

/-- The statements of the labs. -/
inductive Stmt
  /-- `table[index] = value`, for a page of doublewords. -/
  | assign (table : Word) (index : Nat) (value : Word)
  | set (x : X) (value : Data Fn X → Word)
  | check (cond : Data Fn X → Bool) (msg : String)
  | csrwPmpcfg0 (v : Word)
  | csrwSatp (v : Word)
  | sfence (rs1 : Option Word) (rs2 : Option Nat)
  /-- `m_regs[7] = f`. -/
  | arm (f : Fn)
  /-- `drop_to_smode(f)`. -/
  | drop (f : Fn)
  /-- The verdict: the finisher, or a park. -/
  | finish
  | li (v : Word)
  /-- `ld t0, 0(t0)`. -/
  | ld
  /-- `sd t0, 0(a)`. -/
  | sd (a : Word)
  | ecall

/-- The statements of each function, and where the linker put them. -/
structure Lab where
  code : Fn → List (Stmt Fn X)
  site : Fn → Nat → Word

end Program

variable {Fn X : Type} [DecidableEq X]

/-- The S-mode view of the tables; `SUM` and `MXR` are bits of the status. -/
def Core.ctx (c : Core Fn X) : Ctx :=
  ⟨.supervisor, c.status.getLsbD 18, c.status.getLsbD 19⟩

/-- What a walk finds now: it reads the tables of the present `satp` only. -/
def walks (c : Core Fn X) (k : Key) (v : Option Nat) : Prop :=
  k.asid = asidOf c.data.satp ∧ translate c.data.mem c.ctx c.data.satp k.access k.va = v

/-- The translations that a fence names: those for the page of `rs1` and for the
ASID `rs2`, or for all of them. -/
def fenced (rs1 : Option Word) (rs2 : Option Nat) (k : Key) : Prop :=
  (∀ va ∈ rs1, k.va.toNat / 4096 = va.toNat / 4096) ∧ ∀ asid ∈ rs2, k.asid = asid

/-! ## Statements that go straight on -/

/-- What a statement leaves in the data of the program. -/
def Stmt.apply (d : Data Fn X) : Stmt Fn X → Data Fn X
  | .assign table index value => { d with mem := setEntry d.mem table index value }
  | .set x value => { d with vars := Function.update d.vars x (value d) }
  | .csrwPmpcfg0 v => { d with pmpcfg0 := v }
  | .csrwSatp v => { d with satp := v }
  | .arm f => { d with mRegs := { d.mRegs with next := some f } }
  | _ => d

/-- What `check` reports. -/
def Stmt.failures (d : Data Fn X) : Stmt Fn X → List String
  | .check cond msg => if cond d then [] else [msg]
  | _ => []

def Stmt.straight : Stmt Fn X → Bool
  | .drop _ | .finish | .li _ | .ld | .sd _ | .ecall => false
  | _ => true

/-! ## Changes of mode -/

/-- `drop_to_smode`: `SPP` and `MPP` select S-mode, and `sret` goes there. -/
def Core.drop (c : Core Fn X) (f : Fn) : Core Fn X :=
  let status := setMpp (setBit c.status bitSPP true) .supervisor
  { c with status := leaveS status, priv := spp status, place := .running f 0 }

/-- A trap at `pc`, the M-mode trap entry, and its `mret` into the continuation.
Without one the entry parks the hart. -/
def Core.trap (c : Core Fn X) (pc cause tval : Word) : Core Fn X :=
  let status := enterM c.priv c.status
  let regs := { c.data.mRegs with
    count := c.data.mRegs.count + 1, cause := cause, epc := pc, status := status, tval := tval }
  let data := { c.data with mRegs := regs }
  match regs.next with
  | none => { c with data := data, status := status, priv := .machine, place := .parked }
  | some f =>
      -- the trap came from S-mode, so the entry has to ask for M-mode
      let back := setMpp status .machine
      { c with data := data, status := leaveM back, priv := mpp back, place := .running f 0 }

def CAUSE_ECALL_FROM_S : Word := 9
def CAUSE_FETCH_PAGE_FAULT : Word := 12
def CAUSE_LOAD_PAGE_FAULT : Word := 13
def CAUSE_STORE_PAGE_FAULT : Word := 15

/-! ## Steps -/

/-- Execute a statement at `pc` from the state `c` in which the next one is due.
`o` is the translation that a load or a store went through, if any. -/
def Stmt.exec (c : Core Fn X) (pc : Word) (o : Option (Option Nat)) (st : Stmt Fn X) : Core Fn X :=
  match st with
  | .drop f => c.drop f
  | .finish => { c with place := .stopped c.failed.isEmpty }
  | .li v => { c with t0 := v }
  | .ld =>
      match o with
      | none => { c with t0 := c.data.mem c.t0.toNat }
      | some none => c.trap pc CAUSE_LOAD_PAGE_FAULT c.t0
      | some (some pa) => { c with t0 := c.data.mem pa }
  | .sd a =>
      match o with
      | none => { c with data := { c.data with mem := Function.update c.data.mem a.toNat c.t0 } }
      | some none => c.trap pc CAUSE_STORE_PAGE_FAULT a
      | some (some pa) =>
          { c with data := { c.data with mem := Function.update c.data.mem pa c.t0 } }
  | .ecall => c.trap pc (ecallCause c.priv) 0
  | st => { c with data := st.apply c.data, failed := c.failed ++ st.failures c.data }

/-- What fetching from `pc` does, by the translation it went through. -/
def Core.fetch (c : Core Fn X) (pc : Word) : Option (Option Nat) → Core Fn X
  | none => c
  | some none => c.trap pc CAUSE_FETCH_PAGE_FAULT pc
  | some (some pa) =>
      if pa = pc.toNat then { c with fetched := true } else { c with place := .lost }

/-- A statement of S-mode that has to be fetched. -/
def Core.unfetched (c : Core Fn X) : Bool :=
  decide (c.priv ≠ .machine) && !c.fetched

section Lab

variable (lab : Lab Fn X)

/-- The statement that is due. -/
def Lab.due (c : Core Fn X) : Option (Stmt Fn X) :=
  match c.place with
  | .running f i => (lab.code f)[i]?
  | _ => none

/-- Where it is. -/
def Lab.pc (c : Core Fn X) : Word :=
  match c.place with
  | .running f i => lab.site f i
  | _ => 0

/-- The state in which the statement behind it is due. -/
def Core.advance (c : Core Fn X) : Core Fn X :=
  { c with
    fetched := false
    place := match c.place with
      | .running f i => .running f (i + 1)
      | p => p }

/-- The translation of the access that a statement makes. -/
def Stmt.accesses (c : Core Fn X) : Stmt Fn X → Option Key
  | .ld => some ⟨asidOf c.data.satp, .load, c.t0⟩
  | .sd a => some ⟨asidOf c.data.satp, .store, a⟩
  | _ => none

/-- The translation of the next step: of a fetch, or of the access of a statement. -/
def Lab.wants (c : Core Fn X) : Option Key :=
  if c.unfetched then some ⟨asidOf c.data.satp, .fetch, lab.pc c⟩
  else if c.priv = .machine then none
  else (lab.due c).bind (Stmt.accesses c)

/-- One step: a fetch in S-mode, or a statement. -/
def Lab.next (c : Core Fn X) (o : Option (Option Nat)) : Core Fn X :=
  if c.unfetched then c.fetch (lab.pc c) o
  else
    match lab.due c with
    | none => { c with place := .lost }
    | some st => st.exec c.advance (lab.pc c) o

/-- The translations that the next step drops. -/
def Lab.flushes (c : Core Fn X) (k : Key) : Prop :=
  match lab.due c with
  | some (.sfence rs1 rs2) => c.unfetched = false ∧ fenced rs1 rs2 k
  | _ => False

def Place.halted : Place Fn → Prop
  | .running _ _ => False
  | _ => True

/-- The lab as a program on a hart that caches translations. -/
def Lab.client : Tlb.Client (Core Fn X) Key (Option Nat) where
  stopped c := c.place.halted
  walks := walks
  wants := lab.wants
  next := lab.next
  flushes := lab.flushes

end Lab

/-- The lab on its hart. -/
abbrev State (Fn X : Type) :=
  Tlb.Hart (Core Fn X) Key (Option Nat)

/-- Every translation that an access can see is in `W`. -/
def Bounded (lab : Lab Fn X) (W : Key → Option Nat → Prop) (s : State Fn X) : Prop :=
  ∀ k v, Tlb.Visible lab.client s k v → W k v

/-- What walks find under `satp`, in tables of the shape `T`, is in `W`. -/
def Keeps (Fn X : Type) [DecidableEq X] (T : PhysMem → Prop) (satp : Word)
    (W : Key → Option Nat → Prop) : Prop :=
  ∀ c : Core Fn X, T c.data.mem → c.data.satp = satp → ∀ k v, walks c k v → W k v

/-- The tables have the shape `T` under `satp`, and nothing else than `W` is cached
of them. -/
structure Mapped (lab : Lab Fn X) (T : PhysMem → Prop) (satp : Word) (W : Key → Option Nat → Prop)
    (s : State Fn X) : Prop where
  tables : T s.core.data.mem
  satp : s.core.data.satp = satp
  bounded : Bounded lab W s

/-! ## M-mode -/

/-- The data behind a list of statements, and the checks of it that fail. -/
def dataAfter (d : Data Fn X) (sts : List (Stmt Fn X)) : Data Fn X :=
  sts.foldl Stmt.apply d

@[inherit_doc dataAfter] def failuresOf (d : Data Fn X) : List (Stmt Fn X) → List String
  | [] => []
  | st :: sts => st.failures d ++ failuresOf (st.apply d) sts

/-- The assignments, one statement each. -/
def assigns (as : List Assign) : List (Stmt Fn X) :=
  as.map fun a => .assign a.table a.index a.pte

/-- The checks, one statement each. -/
def checkAll (cs : List ((Data Fn X → Bool) × String)) : List (Stmt Fn X) :=
  cs.map fun c => .check c.1 c.2

/-- `set_satp`. -/
def setSatp (v : Word) : List (Stmt Fn X) :=
  [.csrwSatp v, .sfence none none]

section Lists

omit [DecidableEq X] in
/-- The statement at which a list of statements goes on. -/
theorem stmt_of_drop {code rest : List (Stmt Fn X)} {i : Nat} {st : Stmt Fn X}
    (h : code.drop i = st :: rest) : code[i]? = some st := by
  rw [← List.head?_drop, h]
  rfl

omit [DecidableEq X] in
theorem drop_of_append {code as bs : List (Stmt Fn X)} {i : Nat} (h : code.drop i = as ++ bs) :
    code.drop (i + as.length) = bs := by
  rw [← List.drop_drop, h, List.drop_left]

omit [DecidableEq X] in
theorem drop_of_cons {code rest : List (Stmt Fn X)} {i : Nat} {st : Stmt Fn X}
    (h : code.drop i = st :: rest) : code.drop (i + 1) = rest := by
  rw [← List.drop_drop, h]
  rfl

omit [DecidableEq X] in
theorem assigns_straight (as : List Assign) :
    ∀ st ∈ (assigns as : List (Stmt Fn X)), st.straight = true := by
  intro st hst
  obtain ⟨a, -, rfl⟩ := List.mem_map.mp hst
  rfl

omit [DecidableEq X] in
theorem checkAll_straight (cs : List ((Data Fn X → Bool) × String)) :
    ∀ st ∈ checkAll cs, st.straight = true := by
  intro st hst
  obtain ⟨c, -, rfl⟩ := List.mem_map.mp hst
  rfl

variable (d : Data Fn X)

theorem dataAfter_append (as bs : List (Stmt Fn X)) :
    dataAfter d (as ++ bs) = dataAfter (dataAfter d as) bs :=
  List.foldl_append

theorem failuresOf_append (as bs : List (Stmt Fn X)) :
    failuresOf d (as ++ bs) = failuresOf d as ++ failuresOf (dataAfter d as) bs := by
  induction as generalizing d with
  | nil => rfl
  | cons a as ih =>
      rw [List.cons_append, failuresOf, failuresOf, ih, List.append_assoc]
      rfl

theorem dataAfter_assigns (as : List Assign) :
    dataAfter d (assigns as) = { d with mem := assignAll d.mem as } := by
  induction as generalizing d with
  | nil => rfl
  | cons a as ih => exact ih _

theorem failuresOf_assigns (as : List Assign) : failuresOf d (assigns as) = [] := by
  induction as generalizing d with
  | nil => rfl
  | cons a as ih => exact ih _

theorem dataAfter_checkAll (cs : List ((Data Fn X → Bool) × String)) :
    dataAfter d (checkAll cs) = d := by
  induction cs with
  | nil => rfl
  | cons c cs ih => exact ih

/-- The checks that fail, in order. -/
theorem failuresOf_checkAll (cs : List ((Data Fn X → Bool) × String)) :
    failuresOf d (checkAll cs) = (cs.filter fun c => !c.1 d).map Prod.snd := by
  induction cs with
  | nil => rfl
  | cons c cs ih =>
      change Stmt.failures d (.check c.1 c.2) ++ failuresOf d (checkAll cs) = _
      rw [ih, Stmt.failures]
      cases hc : c.1 d <;> simp [hc]

theorem failuresOf_checkAll_eq_nil {cs : List ((Data Fn X → Bool) × String)}
    (h : ∀ c ∈ cs, c.1 d = true) : failuresOf d (checkAll cs) = [] := by
  rw [failuresOf_checkAll, List.map_eq_nil_iff, List.filter_eq_nil_iff]
  intro c hc
  simp [h c hc]

theorem failuresOf_eq_nil {sts : List (Stmt Fn X)} (h : ∀ st ∈ sts, ∀ d, st.failures d = []) :
    failuresOf d sts = [] := by
  induction sts generalizing d with
  | nil => rfl
  | cons st sts ih =>
      rw [failuresOf, h st (by simp), ih _ fun t ht => h t (by simp [ht])]
      rfl

end Lists

/-- The state behind a list of straight statements. -/
def Core.after (c : Core Fn X) (sts : List (Stmt Fn X)) (place : Place Fn) : Core Fn X :=
  { c with
    data := dataAfter c.data sts
    failed := c.failed ++ failuresOf c.data sts
    place := place }

section Machine

variable {lab : Lab Fn X} {s : State Fn X} {Q : State Fn X → Prop} {f : Fn} {i : Nat}

/-- The hart is at a statement of an M-mode function. -/
structure AtMachine (s : State Fn X) (f : Fn) (i : Nat) : Prop where
  place : s.core.place = .running f i
  priv : s.core.priv = .machine
  fetched : s.core.fetched = false

omit [DecidableEq X] in
theorem AtMachine.advance (h : AtMachine s f i) :
    s.core.advance = { s.core with place := .running f (i + 1) } := by
  rw [Core.advance, h.place, ← h.fetched]

omit [DecidableEq X] in
theorem AtMachine.jump (h : AtMachine s f i) {s' : State Fn X} {d : Data Fn X} {j : Nat}
    (hcore : s'.core = { s.core with data := d, place := .running f j }) : AtMachine s' f j := by
  constructor <;> rw [hcore]
  exacts [h.priv, h.fetched]

theorem AtMachine.after (h : AtMachine s f i) {s' : State Fn X} {j : Nat} {sts : List (Stmt Fn X)}
    (hcore : s'.core = s.core.after sts (.running f j)) : AtMachine s' f j := by
  constructor <;> rw [hcore, Core.after]
  exacts [h.priv, h.fetched]

/-- A statement of M-mode. -/
theorem machine_step (h : AtMachine s f i) {st : Stmt Fn X} (hst : (lab.code f)[i]? = some st)
    (hQ : ∀ s', s'.core = st.exec { s.core with place := .running f (i + 1) } (lab.site f i) none →
      (∀ k v, Tlb.Visible lab.client s' k v →
        (Tlb.Visible lab.client s k v ∧ ¬ lab.flushes s.core k) ∨ walks s'.core k v) →
      Inevitable (Tlb.Step lab.client) Q s') : Inevitable (Tlb.Step lab.client) Q s := by
  have hdue : lab.due s.core = some st := by rw [Lab.due, h.place]; exact hst
  have hpc : lab.pc s.core = lab.site f i := by rw [Lab.pc, h.place]
  have hmode : s.core.unfetched = false := by simp [Core.unfetched, h.priv]
  have hgoing : ¬ s.core.place.halted := by simp [h.place, Place.halted]
  have hwants : lab.wants s.core = none := by simp [Lab.wants, hmode, h.priv]
  have hnext : lab.next s.core none = st.exec s.core.advance (lab.site f i) none := by
    simp [Lab.next, hmode, hdue, hpc]
  refine Tlb.inevitable_of_none (P := lab.client) hgoing hwants fun s' hcore hvisible => ?_
  refine hQ s' ?_ hvisible
  rw [hcore, ← h.advance]
  exact hnext

theorem exec_straight {st : Stmt Fn X} (hst : st.straight = true) (c : Core Fn X) (pc : Word) :
    st.exec c pc none =
      { c with data := st.apply c.data, failed := c.failed ++ st.failures c.data } := by
  cases st <;> first | rfl | cases hst

/-- Straight statements, one after the other. -/
theorem straight_run {W : Key → Option Nat → Prop} {sts rest : List (Stmt Fn X)}
    (h : AtMachine s f i) (hcode : (lab.code f).drop i = sts ++ rest)
    (hsts : ∀ st ∈ sts, st.straight = true) (hs : Bounded lab W s)
    (hW : ∀ p, p <+: sts → ∀ c : Core Fn X, c.data = dataAfter s.core.data p →
      ∀ k v, walks c k v → W k v)
    (hQ : ∀ s', s'.core = s.core.after sts (.running f (i + sts.length)) → Bounded lab W s' →
      Inevitable (Tlb.Step lab.client) Q s') : Inevitable (Tlb.Step lab.client) Q s := by
  induction sts generalizing s i with
  | nil =>
      refine hQ s ?_ hs
      simp [Core.after, dataAfter, failuresOf, ← h.place]
  | cons st sts ih =>
      have hst : (lab.code f)[i]? = some st := by
        rw [← List.head?_drop, hcode]
        rfl
      have hstraight : st.straight = true := hsts st (by simp)
      refine machine_step h hst fun s' hcore hvisible => ?_
      rw [exec_straight hstraight] at hcore
      have hmid : AtMachine s' f (i + 1) := by
        constructor <;> rw [hcore]
        exacts [h.priv, h.fetched]
      have hdrop : (lab.code f).drop (i + 1) = sts ++ rest := by
        rw [← List.drop_drop, hcode]
        rfl
      refine ih hmid hdrop (fun t ht => hsts t (by simp [ht])) ?_ ?_ fun s'' hcore'' hs'' => ?_
      · intro k v hv
        rcases hvisible k v hv with ⟨hold, -⟩ | hwalk
        · exact hs k v hold
        · refine hW [st] (by simp) s'.core ?_ k v hwalk
          rw [hcore]
          rfl
      · intro p hp c hc
        refine hW (st :: p) (List.cons_prefix_cons.mpr ⟨rfl, hp⟩) c ?_
        rw [hc, hcore]
        rfl
      · refine hQ s'' ?_ hs''
        rw [hcore'', hcore]
        simp [Core.after, dataAfter, failuresOf, Nat.add_assoc, Nat.add_comm 1]

/-- Straight statements, whatever is cached. -/
theorem straight_run_unbounded {sts rest : List (Stmt Fn X)} (h : AtMachine s f i)
    (hcode : (lab.code f).drop i = sts ++ rest) (hsts : ∀ st ∈ sts, st.straight = true)
    (hQ : ∀ s', s'.core = s.core.after sts (.running f (i + sts.length)) →
      Inevitable (Tlb.Step lab.client) Q s') : Inevitable (Tlb.Step lab.client) Q s := by
  have hall : Bounded lab (fun _ _ => True) s := fun _ _ _ => trivial
  exact straight_run h hcode hsts hall (fun _ _ _ _ _ _ _ => trivial) fun s' hcore _ => hQ s' hcore

/-- Statements that leave the tables alone. -/
def Stmt.quiet : Stmt Fn X → Bool
  | .set _ _ | .check _ _ | .csrwPmpcfg0 _ | .arm _ => true
  | _ => false

theorem dataAfter_quiet {sts : List (Stmt Fn X)} (hsts : ∀ st ∈ sts, st.quiet = true)
    (d : Data Fn X) : (dataAfter d sts).mem = d.mem ∧ (dataAfter d sts).satp = d.satp := by
  induction sts generalizing d with
  | nil => exact ⟨rfl, rfl⟩
  | cons st sts ih =>
      have hst : st.quiet = true := hsts st (by simp)
      have hrest := ih (fun t ht => hsts t (by simp [ht])) (st.apply d)
      cases st <;> first | exact hrest | cases hst

/-- Quiet statements keep what is cached. -/
theorem quiet_run {T : PhysMem → Prop} {satp : Word} {W : Key → Option Nat → Prop}
    {sts rest : List (Stmt Fn X)} (h : AtMachine s f i)
    (hcode : (lab.code f).drop i = sts ++ rest) (hsts : ∀ st ∈ sts, st.quiet = true)
    (hkeeps : Keeps Fn X T satp W) (hs : Mapped lab T satp W s)
    (hQ : ∀ s', s'.core = s.core.after sts (.running f (i + sts.length)) →
      Mapped lab T satp W s' → Inevitable (Tlb.Step lab.client) Q s') :
    Inevitable (Tlb.Step lab.client) Q s := by
  refine straight_run h hcode ?_ hs.bounded ?_ fun s' hcore hbounded => ?_
  · intro st hst
    have hquiet := hsts st hst
    cases st <;> first | rfl | cases hquiet
  · intro p hp c hc
    obtain ⟨hmem, hsatp⟩ := dataAfter_quiet (fun st hst => hsts st (hp.subset hst)) s.core.data
    refine hkeeps c ?_ ?_
    · rw [hc, hmem]
      exact hs.tables
    · rw [hc, hsatp]
      exact hs.satp
  · obtain ⟨hmem, hsatp⟩ := dataAfter_quiet hsts s.core.data
    refine hQ s' hcore ⟨?_, ?_, hbounded⟩ <;> rw [hcore]
    · change T (dataAfter s.core.data sts).mem
      rw [hmem]
      exact hs.tables
    · change (dataAfter s.core.data sts).satp = satp
      rw [hsatp]
      exact hs.satp

/-- A rewrite of the tables adds what walks find from then on to what is cached. -/
theorem assign_step {T T' : PhysMem → Prop} {satp : Word} {W W' : Key → Option Nat → Prop}
    {table value : Word} {index : Nat} (h : AtMachine s f i)
    (hst : (lab.code f)[i]? = some (.assign table index value)) (hs : Mapped lab T satp W s)
    (hkeeps : Keeps Fn X T' satp W') (hwider : ∀ k v, W k v → W' k v)
    (htables : T' (setEntry s.core.data.mem table index value))
    (hQ : ∀ s', s'.core = { s.core with
        data := { s.core.data with mem := setEntry s.core.data.mem table index value }
        place := .running f (i + 1) } → Mapped lab T' satp W' s' →
      Inevitable (Tlb.Step lab.client) Q s') : Inevitable (Tlb.Step lab.client) Q s := by
  refine machine_step h hst fun s' hcore hvisible => ?_
  rw [exec_straight rfl] at hcore
  have hcore' : s'.core = { s.core with
      data := { s.core.data with mem := setEntry s.core.data.mem table index value }
      place := .running f (i + 1) } := by
    rw [hcore]
    simp [Stmt.apply, Stmt.failures]
  have htables' : T' s'.core.data.mem := by rw [hcore']; exact htables
  have hsatp : s'.core.data.satp = satp := by rw [hcore']; exact hs.satp
  refine hQ s' hcore' ⟨htables', hsatp, fun k v hv => ?_⟩
  rcases hvisible k v hv with ⟨hold, -⟩ | hwalk
  · exact hwider k v (hs.bounded k v hold)
  · exact hkeeps s'.core htables' hsatp k v hwalk

/-- A fence leaves what it does not name, and what walks find from then on. -/
theorem fence_step {W : Key → Option Nat → Prop} {rs1 : Option Word} {rs2 : Option Nat}
    (h : AtMachine s f i) (hst : (lab.code f)[i]? = some (.sfence rs1 rs2)) (hs : Bounded lab W s)
    (hQ : ∀ s', s'.core = { s.core with place := .running f (i + 1) } →
      Bounded lab (fun k v => (W k v ∧ ¬ fenced rs1 rs2 k) ∨ walks s'.core k v) s' →
      Inevitable (Tlb.Step lab.client) Q s') : Inevitable (Tlb.Step lab.client) Q s := by
  refine machine_step h hst fun s' hcore hvisible => ?_
  have hdue : lab.due s.core = some (.sfence rs1 rs2) := by rw [Lab.due, h.place]; exact hst
  have hmode : s.core.unfetched = false := by simp [Core.unfetched, h.priv]
  refine hQ s' ?_ ?_
  · rw [hcore, exec_straight rfl]
    simp [Stmt.apply, Stmt.failures]
  · intro k v hv
    rcases hvisible k v hv with ⟨hold, hkept⟩ | hwalk
    · refine Or.inl ⟨hs k v hold, fun hfenced => hkept ?_⟩
      rw [Lab.flushes, hdue]
      exact ⟨hmode, hfenced⟩
    · exact Or.inr hwalk

/-- A fence for everything leaves what walks find from then on. -/
theorem full_fence_step {T : PhysMem → Prop} {satp : Word} {W : Key → Option Nat → Prop}
    (h : AtMachine s f i) (hst : (lab.code f)[i]? = some (.sfence none none))
    (hkeeps : Keeps Fn X T satp W) (htables : T s.core.data.mem) (hsatp : s.core.data.satp = satp)
    (hQ : ∀ s', s'.core = { s.core with place := .running f (i + 1) } → Mapped lab T satp W s' →
      Inevitable (Tlb.Step lab.client) Q s') : Inevitable (Tlb.Step lab.client) Q s := by
  have hall : Bounded lab (fun _ _ => True) s := fun _ _ _ => trivial
  refine fence_step h hst hall fun s' hcore hbounded => ?_
  have htables' : T s'.core.data.mem := by rw [hcore]; exact htables
  have hsatp' : s'.core.data.satp = satp := by rw [hcore]; exact hsatp
  refine hQ s' hcore ⟨htables', hsatp', fun k v hv => ?_⟩
  rcases hbounded k v hv with ⟨-, hnot⟩ | hwalk
  · exact absurd ⟨fun _ h => absurd h (by simp), fun _ h => absurd h (by simp)⟩ hnot
  · exact hkeeps s'.core htables' hsatp' k v hwalk

end Machine

/-! ## S-mode -/

section Supervisor

variable {lab : Lab Fn X} {s : State Fn X} {Q : State Fn X → Prop} {f : Fn} {i : Nat}
variable {T : PhysMem → Prop} {satp : Word} {W : Key → Option Nat → Prop}

/-- The hart is at a statement of a phase. -/
structure AtSupervisor (s : State Fn X) (f : Fn) (i : Nat) : Prop where
  place : s.core.place = .running f i
  priv : s.core.priv = .supervisor
  fetched : s.core.fetched = false

/-- The phase `f` is fetched from where it is. -/
def Fetched (lab : Lab Fn X) (W : Key → Option Nat → Prop) (satp : Word) (f : Fn) : Prop :=
  ∀ i v, W ⟨asidOf satp, .fetch, lab.site f i⟩ v → v = some (lab.site f i).toNat

/-- A store to `a` goes there. -/
def Stored (W : Key → Option Nat → Prop) (satp a : Word) : Prop :=
  ∀ v, W ⟨asidOf satp, .store, a⟩ v → v = some a.toNat

theorem Mapped.behind (hs : Mapped lab T satp W s) (hkeeps : Keeps Fn X T satp W) {s' : State Fn X}
    (hvisible : ∀ k v, Tlb.Visible lab.client s' k v →
      (Tlb.Visible lab.client s k v ∧ ¬ lab.flushes s.core k) ∨ walks s'.core k v)
    (htables : T s'.core.data.mem) (hsatp : s'.core.data.satp = satp) : Mapped lab T satp W s' where
  tables := htables
  satp := hsatp
  bounded := by
    intro k v hv
    rcases hvisible k v hv with ⟨hold, -⟩ | hwalk
    · exact hs.bounded k v hold
    · exact hkeeps s'.core htables hsatp k v hwalk

/-- The end of an M-mode function. -/
theorem drop_step {g : Fn} (h : AtMachine s f i) (hst : (lab.code f)[i]? = some (.drop g))
    (hkeeps : Keeps Fn X T satp W) (hs : Mapped lab T satp W s)
    (hQ : ∀ s', AtSupervisor s' g 0 → s'.core.data = s.core.data →
      s'.core.failed = s.core.failed → Mapped lab T satp W s' →
      Inevitable (Tlb.Step lab.client) Q s') : Inevitable (Tlb.Step lab.client) Q s := by
  refine machine_step h hst fun s' hcore hvisible => ?_
  have hdata : s'.core.data = s.core.data := by rw [hcore]; rfl
  have hspp : spp (setMpp (setBit s.core.status bitSPP true) .supervisor) = .supervisor := by
    rw [spp, getLsbD_setMpp _ _ (by decide) (by decide), getLsbD_setBit _ (by decide), if_pos rfl]
    rfl
  refine hQ s' ⟨?_, ?_, ?_⟩ hdata ?_ (hs.behind hkeeps hvisible ?_ ?_)
  · rw [hcore]; rfl
  · rw [hcore]; exact hspp
  · rw [hcore]; exact h.fetched
  · rw [hcore]; rfl
  · rw [hdata]; exact hs.tables
  · rw [hdata]; exact hs.satp

/-- A fetch through whatever translation there is. -/
theorem fetch_step (h : AtSupervisor s f i) (hfetch : Fetched lab W satp f)
    (hkeeps : Keeps Fn X T satp W) (hs : Mapped lab T satp W s)
    (hQ : ∀ s', s'.core = { s.core with fetched := true } → Mapped lab T satp W s' →
      Inevitable (Tlb.Step lab.client) Q s') : Inevitable (Tlb.Step lab.client) Q s := by
  have hpc : lab.pc s.core = lab.site f i := by rw [Lab.pc, h.place]
  have hmode : s.core.unfetched = true := by simp [Core.unfetched, h.priv, h.fetched]
  have hgoing : ¬ s.core.place.halted := by simp [h.place, Place.halted]
  have hwants : lab.wants s.core = some ⟨asidOf s.core.data.satp, .fetch, lab.site f i⟩ := by
    rw [Lab.wants, if_pos hmode, hpc]
  refine Tlb.inevitable_of_some (P := lab.client) hgoing hwants ⟨_, rfl, rfl⟩
    fun s' v hv hcore hvisible => ?_
  have hidentity : v = some (lab.site f i).toNat := by
    apply hfetch i v
    rw [← hs.satp]
    exact hs.bounded _ v hv
  have hnext : s'.core = { s.core with fetched := true } := by
    rw [hcore, hidentity]
    change lab.next s.core _ = _
    rw [Lab.next, if_pos hmode, hpc, Core.fetch, if_pos rfl]
  refine hQ s' hnext (hs.behind hkeeps hvisible ?_ ?_)
  · rw [hnext]; exact hs.tables
  · rw [hnext]; exact hs.satp

section Statement

variable {st : Stmt Fn X} (h : AtSupervisor s f i) (hst : (lab.code f)[i]? = some st)
variable (hfetch : Fetched lab W satp f) (hkeeps : Keeps Fn X T satp W)
variable (hs : Mapped lab T satp W s)

include h hst hfetch hkeeps hs

/-- A statement of S-mode that makes no access. -/
theorem plain_step (haccess : ∀ c, st.accesses c = none)
    (hQ : ∀ s', s'.core = st.exec { s.core with place := .running f (i + 1) } (lab.site f i) none →
      (T s'.core.data.mem → s'.core.data.satp = satp → Mapped lab T satp W s') →
      Inevitable (Tlb.Step lab.client) Q s') : Inevitable (Tlb.Step lab.client) Q s := by
  refine fetch_step h hfetch hkeeps hs fun mid hmid hmapped => ?_
  have hdue : lab.due mid.core = some st := by rw [Lab.due, hmid, h.place]; exact hst
  have hpc : lab.pc mid.core = lab.site f i := by rw [Lab.pc, hmid, h.place]
  have hmode : mid.core.unfetched = false := by simp [Core.unfetched, hmid]
  have hgoing : ¬ mid.core.place.halted := by simp [hmid, h.place, Place.halted]
  have hwants : lab.wants mid.core = none := by simp [Lab.wants, hmode, hdue, haccess]
  have hadvance : mid.core.advance = { s.core with place := .running f (i + 1) } := by
    rw [Core.advance, hmid, ← h.fetched]
    simp [h.place]
  refine Tlb.inevitable_of_none (P := lab.client) hgoing hwants fun s' hcore hvisible => ?_
  refine hQ s' ?_ fun htables hsatp => hmapped.behind hkeeps hvisible htables hsatp
  rw [hcore, ← hadvance]
  change lab.next mid.core none = _
  simp [Lab.next, hmode, hdue, hpc]

/-- A load or a store of S-mode, through whatever translation there is. -/
theorem access_step (access : Access) (va : Word)
    (haccess : ∀ c : Core Fn X, c.t0 = s.core.t0 →
      st.accesses c = some ⟨asidOf c.data.satp, access, va⟩)
    (hQ : ∀ s' v, W ⟨asidOf satp, access, va⟩ v →
      s'.core = st.exec { s.core with place := .running f (i + 1) } (lab.site f i) (some v) →
      (T s'.core.data.mem → s'.core.data.satp = satp → Mapped lab T satp W s') →
      Inevitable (Tlb.Step lab.client) Q s') : Inevitable (Tlb.Step lab.client) Q s := by
  refine fetch_step h hfetch hkeeps hs fun mid hmid hmapped => ?_
  have hdue : lab.due mid.core = some st := by rw [Lab.due, hmid, h.place]; exact hst
  have hpc : lab.pc mid.core = lab.site f i := by rw [Lab.pc, hmid, h.place]
  have hmode : mid.core.unfetched = false := by simp [Core.unfetched, hmid]
  have hpriv : mid.core.priv ≠ .machine := by rw [hmid]; simp [h.priv]
  have hgoing : ¬ mid.core.place.halted := by simp [hmid, h.place, Place.halted]
  have hwants : lab.wants mid.core = some ⟨asidOf mid.core.data.satp, access, va⟩ := by
    rw [Lab.wants, if_neg (by simp [hmode]), if_neg hpriv, hdue, Option.bind_some,
      haccess _ (by rw [hmid])]
  have hadvance : mid.core.advance = { s.core with place := .running f (i + 1) } := by
    rw [Core.advance, hmid, ← h.fetched]
    simp [h.place]
  refine Tlb.inevitable_of_some (P := lab.client) hgoing hwants ⟨_, rfl, rfl⟩
    fun s' v hv hcore hvisible => ?_
  refine hQ s' v ?_ ?_ fun htables hsatp => hmapped.behind hkeeps hvisible htables hsatp
  · rw [← hmapped.satp]
    exact hmapped.bounded _ v hv
  · rw [hcore, ← hadvance]
    change lab.next mid.core (some v) = _
    simp [Lab.next, hmode, hdue, hpc]

end Statement

/-! ### Phases -/

/-- `PHASE_BODY` up to the store of a readback: `rb = *va`. -/
def phaseRead (va rb : Word) : List (Stmt Fn X) :=
  [.li va, .ld, .sd rb]

/-- The rest of `PHASE_BODY`: `epc` is the address of the label at the `ecall`. -/
def phaseLeave (epc label : Word) : List (Stmt Fn X) :=
  [.li label, .sd epc, .ecall]

/-- Memory behind a variable that a phase stores. -/
def Core.stored (c : Core Fn X) (a v : Word) : Data Fn X :=
  { c.data with mem := Function.update c.data.mem a.toNat v }

section Phase

variable (h : AtSupervisor s f i) (hfetch : Fetched lab W satp f) (hkeeps : Keeps Fn X T satp W)
variable (hs : Mapped lab T satp W s)

include h hfetch hkeeps hs

/-- A readback comes from some page that the tested address could be mapped to. -/
theorem read_run (va rb : Word) (rest : List (Stmt Fn X))
    (hcode : (lab.code f).drop i = phaseRead va rb ++ rest) (hstore : Stored W satp rb)
    (hT : ∀ m v, T m → T (Function.update m rb.toNat v))
    (hload : ∀ v, W ⟨asidOf satp, .load, va⟩ v → ∃ pa, v = some pa)
    (hQ : ∀ s' pa, W ⟨asidOf satp, .load, va⟩ (some pa) → AtSupervisor s' f (i + 3) →
      s'.core.data = s.core.stored rb (s.core.data.mem pa) → s'.core.failed = s.core.failed →
      Mapped lab T satp W s' → Inevitable (Tlb.Step lab.client) Q s') :
    Inevitable (Tlb.Step lab.client) Q s := by
  have hstmt : ∀ j st, (phaseRead va rb : List (Stmt Fn X))[j]? = some st →
      (lab.code f)[i + j]? = some st := by
    intro j st hst
    rw [← List.getElem?_drop, hcode, List.getElem?_append_left, hst]
    exact (List.getElem?_eq_some_iff.mp hst).1
  have hli := hstmt 0 _ rfl
  have hld := hstmt 1 _ rfl
  have hsd := hstmt 2 _ rfl
  refine plain_step h hli hfetch hkeeps hs (fun _ => rfl) fun s₁ h₁ hmapped₁ => ?_
  have hs₁ := hmapped₁ (by rw [h₁]; exact hs.tables) (by rw [h₁]; exact hs.satp)
  have hat₁ : AtSupervisor s₁ f (i + 1) := by
    constructor <;> rw [h₁]
    exacts [rfl, h.priv, h.fetched]
  refine access_step hat₁ hld hfetch hkeeps hs₁ .load va ?_
    fun s₂ v hv h₂ hmapped₂ => ?_
  · intro c hc
    rw [Stmt.accesses, hc, h₁]
    rfl
  obtain ⟨pa, rfl⟩ := hload v hv
  have hs₂ := hmapped₂ (by rw [h₂]; exact hs₁.tables) (by rw [h₂]; exact hs₁.satp)
  have hat₂ : AtSupervisor s₂ f (i + 2) := by
    constructor <;> rw [h₂]
    exacts [rfl, hat₁.priv, hat₁.fetched]
  refine access_step hat₂ hsd hfetch hkeeps hs₂ .store rb (fun _ _ => rfl)
    fun s₃ v hv' h₃ hmapped₃ => ?_
  obtain rfl := hstore v hv'
  have hdata : s₃.core.data = s.core.stored rb (s.core.data.mem pa) := by
    rw [h₃, h₂, h₁]
    rfl
  refine hQ s₃ pa hv ⟨?_, ?_, ?_⟩ hdata ?_ (hmapped₃ ?_ ?_)
  · rw [h₃]; rfl
  · rw [h₃]; exact hat₂.priv
  · rw [h₃]; exact hat₂.fetched
  · rw [h₃, h₂, h₁]; rfl
  · rw [hdata]; exact hT _ _ hs.tables
  · rw [hdata]; exact hs.satp

/-- The `ecall` of a phase leads into the continuation, and the trap entry has
recorded it. -/
theorem leave_run (epc label : Word) (rest : List (Stmt Fn X)) {g : Fn}
    (hcode : (lab.code f).drop i = phaseLeave epc label ++ rest) (hstore : Stored W satp epc)
    (hT : ∀ m v, T m → T (Function.update m epc.toNat v))
    (hnext : s.core.data.mRegs.next = some g)
    (hQ : ∀ s' regs, AtMachine s' g 0 →
      regs.count = s.core.data.mRegs.count + 1 → regs.cause = CAUSE_ECALL_FROM_S →
      regs.epc = lab.site f (i + 2) →
      s'.core.data = { s.core.stored epc label with mRegs := regs } →
      s'.core.failed = s.core.failed → Mapped lab T satp W s' →
      Inevitable (Tlb.Step lab.client) Q s') : Inevitable (Tlb.Step lab.client) Q s := by
  have hstmt : ∀ j st, (phaseLeave epc label : List (Stmt Fn X))[j]? = some st →
      (lab.code f)[i + j]? = some st := by
    intro j st hst
    rw [← List.getElem?_drop, hcode, List.getElem?_append_left, hst]
    exact (List.getElem?_eq_some_iff.mp hst).1
  have hli := hstmt 0 _ rfl
  have hsd := hstmt 1 _ rfl
  have hecall := hstmt 2 _ rfl
  refine plain_step h hli hfetch hkeeps hs (fun _ => rfl) fun s₁ h₁ hmapped₁ => ?_
  have hs₁ := hmapped₁ (by rw [h₁]; exact hs.tables) (by rw [h₁]; exact hs.satp)
  have hat₁ : AtSupervisor s₁ f (i + 1) := by
    constructor <;> rw [h₁]
    exacts [rfl, h.priv, h.fetched]
  refine access_step hat₁ hsd hfetch hkeeps hs₁ .store epc (fun _ _ => rfl)
    fun s₂ v hv h₂ hmapped₂ => ?_
  obtain rfl := hstore v hv
  have hdata₂ : s₂.core.data = s.core.stored epc label := by
    rw [h₂, h₁]
    rfl
  have hs₂ := hmapped₂ (by rw [hdata₂]; exact hT _ _ hs.tables) (by rw [hdata₂]; exact hs.satp)
  have hat₂ : AtSupervisor s₂ f (i + 2) := by
    constructor <;> rw [h₂]
    exacts [rfl, hat₁.priv, hat₁.fetched]
  refine plain_step hat₂ hecall hfetch hkeeps hs₂ (fun _ => rfl) fun s₃ h₃ hmapped₃ => ?_
  have hnext₂ : s₂.core.data.mRegs.next = some g := by
    rw [hdata₂]
    exact hnext
  simp only [Stmt.exec, Core.trap, hnext₂] at h₃
  refine hQ s₃ s₃.core.data.mRegs ⟨?_, ?_, ?_⟩ ?_ ?_ ?_ ?_ ?_ (hmapped₃ ?_ ?_)
  · rw [h₃]
  · rw [h₃]; exact mpp_setMpp _ _
  · rw [h₃]; exact hat₂.fetched
  · rw [h₃, hdata₂]; rfl
  · rw [h₃, hat₂.priv]; rfl
  · rw [h₃]
  · rw [h₃, hdata₂]
  · rw [h₃, h₂, h₁]; rfl
  · rw [h₃]; exact hs₂.tables
  · rw [h₃]; exact hs₂.satp

end Phase

end Supervisor

end SfenceVma
end BareMetal
