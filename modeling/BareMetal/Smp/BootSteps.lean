import BareMetal.Smp.Boot

/-!
# The steps of the two harts

What each hart can do in one step, stated once.  The control flow of the C
functions is read off a table of shapes, so that facts such as "the release
flag is stored once" are checked on the table; `exec_inC` connects the table
to the steps.  `Step0` and `Step1` then say what a step of each hart means for
the other one.
-/

namespace BareMetal
namespace Smp
namespace Boot

open Machine Uart

/-! ## Control flow of the C functions -/

/-- What an instruction is for the control flow and the shared variables. -/
inductive Shape
  | plain | load (x : Var) | store (x : Var) | print | jump (target : Nat) | branch (target : Nat)
  | wfi
  deriving DecidableEq, Repr

def Instr.shape : Instr → Shape
  | .uartInit | .readMhartid | .readSp | .set _ | .rdcycle _ | .memFence => .plain
  | .load x _ => .load x
  | .store x _ => .store x
  | .print _ => .print
  | .jump target => .jump target
  | .branch _ target => .branch target
  | .wfi => .wfi

def Fn.shapes : Fn → List Shape
  | .smpMain =>
      [.plain, .print, .plain, .print, .plain, .print, .print, .plain, .store .tReleaseCycles,
       .plain, .store .smpRelease, .print, .load .tReleaseCycles, .load .hart1Done, .branch 19,
       .plain, .branch 19, .plain, .jump 13, .load .hart1Done, .branch 23, .print, .wfi, .plain,
       .print, .load .tReleaseCycles, .print, .load .t1EntryCycles, .print,
       .load .t1PrintedCycles, .print, .print, .load .t1EntryCycles, .load .tReleaseCycles,
       .load .t1PrintedCycles, .load .t1EntryCycles, .print, .print, .plain, .load .t1Sp,
       .branch 43, .load .t1Sp, .plain, .print, .print, .print, .print, .wfi]
  | .hart1Main =>
      [.plain, .store .t1EntryCycles, .plain, .plain, .plain, .store .t1Sp, .print, .print, .print,
       .print, .plain, .store .t1PrintedCycles, .plain, .store .hart1Done, .wfi]

theorem code_shapes (im : Image) (fn : Fn) : (fn.code im).map Instr.shape = fn.shapes := by
  cases fn <;> rfl

theorem shape_of_code {im : Image} {fn : Fn} {n : Nat} {instr : Instr}
    (hinstr : (fn.code im)[n]? = some instr) : fn.shapes[n]? = some instr.shape := by
  rw [← code_shapes im fn, List.getElem?_map, hinstr]
  rfl

/-- Where control can pass to from instruction `n`. -/
def Shape.targets (n : Nat) : Shape → List Nat
  | .plain | .load _ | .store _ => [n + 1]
  | .print => [n, n + 1]
  | .jump target => [target]
  | .branch target => [target, n + 1]
  | .wfi => [n]

/-- A fact about a function is checked on its table. -/
theorem shapes_all {fn : Fn} {P : Nat → Shape → Prop} (hall : ∀ p ∈ fn.shapes.zipIdx, P p.2 p.1)
    {n : Nat} {sh : Shape} (hn : fn.shapes[n]? = some sh) : P n sh :=
  hall (sh, n) (List.mem_zipIdx_iff_getElem?.mpr hn)

theorem targets_in_range {fn : Fn} {n n' : Nat} {sh : Shape} (hn : fn.shapes[n]? = some sh)
    (hnext : n' ∈ sh.targets n) : ∃ sh', fn.shapes[n']? = some sh' := by
  have hrange : ∀ k ∈ sh.targets n, k < fn.shapes.length := by
    cases fn with
    | smpMain =>
        exact shapes_all (P := fun n sh => ∀ k ∈ sh.targets n, k < Fn.smpMain.shapes.length)
          (by decide) hn
    | hart1Main =>
        exact shapes_all (P := fun n sh => ∀ k ∈ sh.targets n, k < Fn.hart1Main.shapes.length)
          (by decide) hn
  exact ⟨_, List.getElem?_eq_getElem (hrange n' hnext)⟩

/-- `smp_main` gets past the release only at the release, and to the report
only at the timeout test, which it reaches from the load before it. -/
theorem smpMain_control {n n' : Nat} {sh : Shape} (hn : Fn.smpMain.shapes[n]? = some sh)
    (hnext : n' ∈ sh.targets n) :
    (RELEASE < n' ↔ RELEASE ≤ n) ∧ (8 < n' ↔ 8 ≤ n) ∧ (REPORT ≤ n' → REPORT ≤ n ∨ n = 20) ∧
      (REPORT ≤ n → REPORT ≤ n') ∧ (n' = 20 → n = 19) :=
  shapes_all (P := fun n sh => ∀ k ∈ sh.targets n, (RELEASE < k ↔ RELEASE ≤ n) ∧
      (8 < k ↔ 8 ≤ n) ∧ (REPORT ≤ k → REPORT ≤ n ∨ n = 20) ∧ (REPORT ≤ n → REPORT ≤ k) ∧
      (k = 20 → n = 19)) (by decide) hn n' hnext

/-- The variable an instruction stores to. -/
def Shape.stored : Shape → Option Var
  | .store x => some x
  | _ => none

/-- The variable an instruction loads. -/
def Shape.loaded : Shape → Option Var
  | .load x => some x
  | _ => none

theorem smpMain_stores {n : Nat} {x : Var} (hn : Fn.smpMain.shapes[n]? = some (.store x)) :
    (n = 8 ∧ x = .tReleaseCycles) ∨ (n = RELEASE ∧ x = .smpRelease) :=
  shapes_all (P := fun n sh => ∀ y ∈ sh.stored, (n = 8 ∧ y = .tReleaseCycles) ∨
    (n = RELEASE ∧ y = .smpRelease)) (by decide) hn x rfl

/-- The results of hart 1, which hart 0 reports. -/
def Var.isResult : Var → Bool
  | .t1EntryCycles | .t1PrintedCycles | .t1Sp => true
  | _ => false

theorem smpMain_loads {n : Nat} {x : Var} (hn : Fn.smpMain.shapes[n]? = some (.load x))
    (hx : x.isResult = true) : REPORT ≤ n :=
  shapes_all (P := fun n sh => ∀ y ∈ sh.loaded, y.isResult = true → REPORT ≤ n) (by decide) hn x
    rfl hx

theorem hart1Main_control {n n' : Nat} {sh : Shape} (hn : Fn.hart1Main.shapes[n]? = some sh)
    (hnext : n' ∈ sh.targets n) :
    (n' = n ∨ n' = n + 1) ∧ n' ≤ PARKED ∧ (n' = n → ∀ x, sh ≠ .store x) := by
  refine shapes_all (P := fun n sh => ∀ k ∈ sh.targets n, (k = n ∨ k = n + 1) ∧ k ≤ PARKED ∧
    (k = n → sh.stored = none)) (by decide) hn n' hnext |>.imp_right (And.imp_right ?_)
  rintro hnone hsame x rfl
  cases hnone hsame

/-- Where hart 1 stores each of its variables. -/
def storedAt : Var → Nat
  | .t1EntryCycles => 1
  | .t1Sp => 5
  | .t1PrintedCycles => 11
  | _ => 13

theorem hart1Main_stores {n : Nat} {x : Var} (hn : Fn.hart1Main.shapes[n]? = some (.store x)) :
    n = storedAt x ∧ (x.isResult = true ∨ x = .hart1Done) :=
  shapes_all (P := fun n sh => ∀ y ∈ sh.stored, n = storedAt y ∧
    (y.isResult = true ∨ y = .hart1Done)) (by decide) hn x rfl

/-- The hart is at an instruction of the function, and in a call only where the
code makes one. -/
def Fn.At (fn : Fn) (n : Nat) (call : Option (Call × CallPc)) : Prop :=
  ∃ sh, fn.shapes[n]? = some sh ∧ (call.isSome → sh = .print)

/-- A step inside a C function: where it goes, what it stores and loads. -/
structure Moved (im : Image) (m : ByteMem) (h : HartState) (fn : Fn) (n : Nat) (sh : Shape)
    (n' : Nat) (call' : Option (Call × CallPc)) (out : HartState × Effect) : Prop where
  pc : out.1.pc = .inC fn n' call'
  sp : out.1.sp = h.sp
  shape : fn.shapes[n]? = some sh
  next : n' ∈ sh.targets n
  call : call'.isSome → n' = n ∧ sh = .print
  store : ∀ {st}, out.2.store = some st →
    (sh = .print ∧ ∃ v, st = storeVar im .uartLock v) ∨
      ∃ x v, sh = .store x ∧ n' = n + 1 ∧ st = storeVar im x v
  load : ∀ {x v}, out.2.load = some (x, v) → sh = .load x ∧ v = loadVar im m x

section Inversion

variable {im : Image} {i : HartId} {m : ByteMem} {thre : Bool} {cycle : Word} {h : HartState}
variable {fn : Fn} {n : Nat} {call : Option (Call × CallPc)}

theorem execInstr_moved {instr : Instr} (hinstr : (fn.code im)[n]? = some instr)
    (hpc : h.pc = .inC fn n none) :
    ∃ n' call', Moved im m h fn n instr.shape n' call' (execInstr im i m cycle h fn n instr) := by
  have hshape := shape_of_code hinstr
  cases instr with
  | uartInit | readMhartid | readSp | set | rdcycle | memFence =>
      exact ⟨n + 1, none, rfl, rfl, hshape, List.mem_cons_self, by simp, by simp [execInstr, Effect.nothing],
        by simp [execInstr, Effect.nothing]⟩
  | load x f =>
      refine ⟨n + 1, none, rfl, rfl, hshape, List.mem_cons_self, by simp, by simp [execInstr], ?_⟩
      intro y v hload
      simp only [execInstr, Option.some.injEq, Prod.mk.injEq] at hload
      obtain ⟨rfl, rfl⟩ := hload
      exact ⟨rfl, rfl⟩
  | store x v =>
      refine ⟨n + 1, none, rfl, rfl, hshape, List.mem_cons_self, by simp, ?_, by simp [execInstr]⟩
      intro st hst
      simp only [execInstr, Option.some.injEq] at hst
      exact Or.inr ⟨x, v h.loc, rfl, rfl, hst.symm⟩
  | print c =>
      exact ⟨n, some (c h.loc, .li), rfl, rfl, hshape, List.mem_cons_self, fun _ => ⟨rfl, rfl⟩,
        by simp [execInstr, Effect.nothing], by simp [execInstr, Effect.nothing]⟩
  | jump target =>
      exact ⟨target, none, rfl, rfl, hshape, List.mem_cons_self, by simp, by simp [execInstr, Effect.nothing],
        by simp [execInstr, Effect.nothing]⟩
  | branch p target =>
      refine ⟨if p h.loc then target else n + 1, none, rfl, rfl, hshape, ?_, by simp,
        by simp [execInstr, Effect.nothing], by simp [execInstr, Effect.nothing]⟩
      cases p h.loc with
      | true => exact List.mem_cons_self
      | false => exact List.mem_cons_of_mem _ List.mem_cons_self
  | wfi =>
      exact ⟨n, none, hpc, rfl, hshape, List.mem_cons_self, by simp, by simp [execInstr, Effect.nothing],
        by simp [execInstr, Effect.nothing]⟩

theorem exec_of_instr {instr : Instr} (hpc : h.pc = .inC fn n none)
    (hinstr : (fn.code im)[n]? = some instr) :
    exec im i m thre cycle h = execInstr im i m cycle h fn n instr := by
  simp only [exec, hpc, hinstr]

variable (im i m thre cycle) in
/-- Every step of a hart in C code. -/
theorem exec_inC (hpc : h.pc = .inC fn n call) (hat : fn.At n call) :
    ∃ sh n' call', Moved im m h fn n sh n' call' (exec im i m thre cycle h) := by
  obtain ⟨sh, hshape, hprint⟩ := hat
  cases call with
  | none =>
      have hcode : ((fn.code im)[n]?).map Instr.shape = some sh := by
        rw [← List.getElem?_map, code_shapes, hshape]
      obtain ⟨instr, hinstr, -⟩ := Option.map_eq_some_iff.mp hcode
      rw [exec_of_instr hpc hinstr]
      exact ⟨_, execInstr_moved hinstr hpc⟩
  | some at' =>
      obtain ⟨c, pc⟩ := at'
      obtain rfl := hprint rfl
      generalize hlock : BitVec.ofNat 32 (loadLE m (im.addr .uartLock) 4) = lock
      generalize hout : pc.step c lock thre = out
      obtain ⟨next, access⟩ := out
      have hexec : exec im i m thre cycle h =
          ({ h with pc := match next with
              | some pc => Pc.inC fn n (some (c, pc))
              | none => Pc.inC fn (n + 1) none }, callEffect im access) := by
        simp only [exec, hpc, hlock, hout]
        cases next <;> rfl
      have hstore : ∀ {st}, (callEffect im access).store = some st →
          ∃ v, st = storeVar im .uartLock v := by
        intro st hst
        cases access with
        | none => simp [callEffect, Effect.nothing] at hst
        | lock v =>
            refine ⟨v.setWidth 64, ?_⟩
            simp only [callEffect, Option.some.injEq] at hst
            rw [← hst, storeVar, BitVec.toNat_setWidth, Nat.mod_eq_of_lt (by omega)]
        | thr b => simp [callEffect] at hst
      have hload : ∀ {x v}, (callEffect im access).load = some (x, v) → False := by
        intro x v hload
        cases access <;> simp [callEffect, Effect.nothing] at hload
      rw [hexec]
      cases next with
      | none =>
          exact ⟨.print, n + 1, none, rfl, rfl, hshape, List.mem_cons_of_mem _ List.mem_cons_self, by simp,
            fun hst => Or.inl ⟨rfl, hstore hst⟩, fun hl => (hload hl).elim⟩
      | some pc =>
          exact ⟨.print, n, some (c, pc), rfl, rfl, hshape, List.mem_cons_self, fun _ => ⟨rfl, rfl⟩,
            fun hst => Or.inl ⟨rfl, hstore hst⟩, fun hl => (hload hl).elim⟩

theorem Moved.at {sh : Shape} {n' : Nat} {call' : Option (Call × CallPc)}
    {out : HartState × Effect} (hmoved : Moved im m h fn n sh n' call' out) : fn.At n' call' := by
  obtain ⟨sh', hsh'⟩ := targets_in_range hmoved.shape hmoved.next
  refine ⟨sh', hsh', fun hcall => ?_⟩
  obtain ⟨rfl, rfl⟩ := hmoved.call hcall
  exact Option.some.inj (hsh'.symm.trans hmoved.shape)

/-- Outside the calls of the code there is no call. -/
theorem call_eq_none {sh : Shape} (hat : fn.At n call) (hn : fn.shapes[n]? = some sh)
    (hsh : sh ≠ .print) : call = none := by
  obtain ⟨sh', hsh', hprint⟩ := hat
  cases call with
  | none => rfl
  | some at' =>
      obtain rfl := hprint rfl
      exact absurd (Option.some.inj (hn.symm.trans hsh')) hsh

end Inversion

/-! ## What the harts store to -/

/-- A store to one of the given variables or to the stack of a hart. -/
inductive Target (im : Image) (i : HartId) (vars : Var → Prop) (st : Store) : Prop
  | var (x : Var) (hx : vars x) (v : Word) (hst : st = storeVar im x v)
  | stack (hlow : im.base i ≤ st.addr) (hhigh : st.addr + st.width ≤ im.base (i + 1))

/-- Hart 0 keeps two variables and the lock. -/
def Var.ofHart0 (x : Var) : Prop :=
  x = .tReleaseCycles ∨ x = .smpRelease ∨ x = .uartLock

/-- Hart 1 keeps its results, the done flag and the lock. -/
def Var.ofHart1 (x : Var) : Prop :=
  x.isResult = true ∨ x = .hart1Done ∨ x = .uartLock

theorem slice_in_stacks (im : Image) (i : HartId) :
    im.hartStacks ≤ im.base i ∧ im.base (i + 1) ≤ im.hartStacks + NHART * HART_STACK_SIZE := by
  have hi := i.isLt
  have hmul : (i.val + 1) * HART_STACK_SIZE ≤ NHART * HART_STACK_SIZE :=
    Nat.mul_le_mul_right _ hi
  constructor
  · exact Nat.le_add_right _ _
  · exact Nat.add_le_add_left hmul _

namespace Target

variable {im : Image} {i : HartId} {vars : Var → Prop} {st : Store} {x : Var}

theorem apart_var (ht : Target im i vars st) (hx : ¬ vars x) :
    Apart (im.addr x) x.width st.addr st.width := by
  cases ht with
  | var y hy v hst =>
      have hne : x ≠ y := by
        rintro rfl
        exact hx hy
      rw [hst]
      exact im.varsApart hne
  | stack hlow hhigh =>
      obtain ⟨hbase, htop⟩ := slice_in_stacks im i
      exact (im.stacksApart x).sub le_rfl le_rfl (hbase.trans hlow) (hhigh.trans htop)

theorem apart_slice (ht : Target im i vars st) {j : HartId} (hij : i ≠ j) :
    Apart (im.base j) HART_STACK_SIZE st.addr st.width := by
  cases ht with
  | var y hy v hst =>
      obtain ⟨hbase, htop⟩ := slice_in_stacks im j
      have hslice : im.base j + HART_STACK_SIZE = im.base (j + 1) := by
        simp only [Image.base, HART_STACK_SIZE]
        omega
      rw [hst]
      refine (im.stacksApart y).symm.sub hbase ?_ le_rfl le_rfl
      rw [hslice]
      exact htop
  | stack hlow hhigh =>
      have hval : i.val ≠ j.val := fun heq => hij (Fin.ext heq)
      simp only [Image.base, HART_STACK_SIZE] at hlow hhigh ⊢
      unfold Apart
      omega

end Target

/-- The bytes of a variable. -/
def Image.Covers (im : Image) (x : Var) (a : Nat) : Prop :=
  im.addr x ≤ a ∧ a < im.addr x + x.width

theorem Image.Covers.apart {im : Image} {x : Var} {a b k : Nat} (ha : im.Covers x a)
    (h : Apart (im.addr x) x.width b k) : Apart a 1 b k :=
  h.sub ha.1 ha.2 le_rfl le_rfl

theorem loadVar_of_apart {im : Image} {m : ByteMem} {x : Var} {st : Store}
    (h : Apart (im.addr x) x.width st.addr st.width) :
    loadVar im (st.run m) x = loadVar im m x := by
  rw [loadVar, Store.run, loadLE_storeLE_of_apart h, loadVar]

theorem loadVar_storeVar_self {im : Image} {m : ByteMem} {x : Var} {v : Word}
    (hx : x.isResult = true) : loadVar im ((storeVar im x v).run m) x = v := by
  have hwidth : x.width = 8 := by
    cases x <;> first | rfl | exact absurd hx (by decide)
  have hfits : v.toNat < 256 ^ x.width := by
    rw [hwidth]
    exact v.isLt
  rw [loadVar, Store.run, storeVar, loadLE_storeLE_self hfits, BitVec.ofNat_toNat,
    BitVec.setWidth_eq]

theorem bytes_zero_iff {im : Image} {m : ByteMem} {x : Var} :
    (∀ a, im.Covers x a → m a = 0) ↔ loadLE m (im.addr x) x.width = 0 := by
  rw [loadLE_eq_zero_iff]
  constructor
  · intro hbytes k hk
    exact hbytes _ ⟨Nat.le_add_right _ _, Nat.add_lt_add_left hk _⟩
  · rintro hbytes a ⟨hlow, hhigh⟩
    obtain ⟨k, rfl⟩ := Nat.exists_eq_add_of_le hlow
    exact hbytes k (Nat.lt_of_add_lt_add_left hhigh)

theorem loadVar_eq_zero {im : Image} {m : ByteMem} {x : Var}
    (h : ∀ a, im.Covers x a → m a = 0) : loadVar im m x = 0 := by
  rw [loadVar, bytes_zero_iff.mp h]
  rfl

/-! ## The steps of hart 0 -/

namespace Pc

/-- The positions of hart 0. -/
def OnHart0 : Pc → Prop
  | .start | .dispatch | .bssLoop _ | .bssStore _ => True
  | .inC .smpMain n call => Fn.smpMain.At n call
  | _ => False

/-- How far BSS has been cleared. -/
def clearedTo (im : Image) : Pc → Nat
  | .bssLoop t0 | .bssStore t0 => t0
  | .inC _ _ _ => im.bssEnd
  | _ => im.bssStart

/-- How far a hart has come in its C function. -/
def index : Pc → Nat
  | .inC _ n _ => n
  | _ => 0

def inFn (fn : Fn) : Pc → Prop
  | .inC fn' _ _ => fn' = fn
  | _ => False

instance (fn : Fn) : (pc : Pc) → Decidable (pc.inFn fn)
  | .inC fn' _ _ => inferInstanceAs (Decidable (fn' = fn))
  | .start | .dispatch | .bssLoop _ | .bssStore _ | .wait | .poll | .test _ =>
      inferInstanceAs (Decidable False)

end Pc

/-- The hart has read a done flag other than 0 and is about to test it. -/
def HartState.SawDone (h : HartState) : Prop :=
  h.pc.index = 20 ∧ h.loc.done ≠ 0

/-- A step of hart 0 that does not clear memory. -/
structure Step0 (im : Image) (m : ByteMem) (h h' : HartState) (eff : Effect) : Prop where
  zone : h'.pc.OnHart0
  sp : h'.pc ≠ .start → h'.sp = im.base 1
  cleared : h'.pc.clearedTo im ≤ h.pc.clearedTo im
  released : RELEASE < h.pc.index → RELEASE < h'.pc.index
  stamped : 8 < h'.pc.index → 8 < h.pc.index ∨ ∃ v, eff.store = some (storeVar im .tReleaseCycles v)
  report : REPORT ≤ h'.pc.index → REPORT ≤ h.pc.index ∨ h.SawDone
  sawDone : h'.SawDone → h.SawDone ∨ loadVar im m .hart1Done ≠ 0
  target : ∀ {st}, eff.store = some st → Target im 0 Var.ofHart0 st
  release : ∀ {st}, eff.store = some st → h'.pc.index ≤ RELEASE →
    Apart (im.addr .smpRelease) Var.smpRelease.width st.addr st.width
  load : ∀ {x v}, eff.load = some (x, v) → x.isResult = true →
    REPORT ≤ h.pc.index ∧ v = loadVar im m x

section Hart0

variable {im : Image} {m : ByteMem} {thre : Bool} {cycle : Word} {h : HartState}

/-- A private step outside the C code. -/
theorem step0_of_setup {old pc : Pc} {sp : Nat} (hpc : h.pc = old) (hzone : pc.OnHart0)
    (hsp : sp = im.base 1) (hcleared : pc.clearedTo im ≤ old.clearedTo im) (hold : old.index = 0)
    (hnew : pc.index = 0) : Step0 im m h { h with pc := pc, sp := sp } .nothing := by
  subst hpc
  refine ⟨hzone, fun _ => hsp, hcleared, ?_, ?_, ?_, ?_, ?_, ?_, ?_⟩
  · simp [hold]
  · simp [hnew]
  · simp [hnew, REPORT]
  · rintro ⟨hindex, -⟩
    rw [show pc.index = 20 from hindex] at hnew
    cases hnew
  · simp [Effect.nothing]
  · simp [Effect.nothing]
  · simp [Effect.nothing]

/-- A store `depth` bytes below the top of the stack. -/
theorem spill_target {i : HartId} {vars : Var → Prop} {sp depth value : Nat}
    (hsp : sp = im.base (i + 1)) (hdeep : 1 ≤ depth) (hfits : depth ≤ HART_STACK_SIZE) :
    Target im i vars ⟨sp - depth, 1, value⟩ := by
  apply Target.stack
  · simp only [Image.base, HART_STACK_SIZE] at hsp hfits ⊢
    omega
  · simp only [Image.base, HART_STACK_SIZE] at hsp hfits ⊢
    omega

/-- A store of C code to its stack. -/
theorem step0_of_spill (hzone : h.pc.OnHart0) (hsp : h.sp = im.base 1) {depth : Nat}
    (hdeep : 1 ≤ depth) (hfits : depth ≤ HART_STACK_SIZE) (b : UInt8) :
    Step0 im m h h ⟨some ⟨h.sp - depth, 1, b.toNat⟩, none, none⟩ := by
  have htarget : ∀ {st vars}, some (⟨h.sp - depth, 1, b.toNat⟩ : Store) = some st →
      Target im 0 vars st := by
    rintro st vars hst
    obtain rfl := Option.some.inj hst
    exact spill_target hsp hdeep hfits
  refine ⟨hzone, fun _ => hsp, le_rfl, id, Or.inl, Or.inl, Or.inl, htarget, ?_, ?_⟩
  · intro st hst _
    have hnone : Target im 0 (fun _ => False) st := htarget hst
    exact hnone.apart_var id
  · simp

/-- The timeout test lets only a done flag other than 0 through. -/
theorem smpMain_test (hpc : h.pc = .inC .smpMain 20 none)
    (hreport : REPORT ≤ (exec im 0 m thre cycle h).1.pc.index) : h.loc.done ≠ 0 := by
  rw [exec_of_instr hpc rfl] at hreport
  intro hzero
  simp [execInstr, Pc.index, hzero, REPORT] at hreport

/-- The flag that is tested is the one just loaded. -/
theorem smpMain_loadDone (hpc : h.pc = .inC .smpMain 19 none) :
    (exec im 0 m thre cycle h).1.loc.done = loadVar im m .hart1Done := by
  rw [exec_of_instr hpc rfl]
  rfl

/-- A step of `smp_main`. -/
theorem step0_of_code {n : Nat} {call : Option (Call × CallPc)} (hpc : h.pc = .inC .smpMain n call)
    (hat : Fn.smpMain.At n call) (hsp : h.sp = im.base 1) :
    Step0 im m h (exec im 0 m thre cycle h).1 (exec im 0 m thre cycle h).2 := by
  obtain ⟨sh, n', call', hmoved⟩ := exec_inC im 0 m thre cycle hpc hat
  obtain ⟨hrelease, hstamp, hreport, -, htest⟩ := smpMain_control hmoved.shape hmoved.next
  have hindex : h.pc.index = n := by rw [hpc]; rfl
  have hindex' : (exec im 0 m thre cycle h).1.pc.index = n' := by rw [hmoved.pc]; rfl
  refine
    { zone := ?zone, sp := fun _ => hmoved.sp.trans hsp, cleared := ?cleared,
      released := ?released, stamped := ?stamped, report := ?report, sawDone := ?sawDone,
      target := ?target, release := ?release, load := ?load }
  case zone =>
    rw [hmoved.pc]
    exact hmoved.at
  case cleared =>
    rw [hmoved.pc, hpc]
    exact le_rfl
  case released =>
    rw [hindex, hindex']
    omega
  case stamped =>
    rw [hindex, hindex', hstamp]
    intro hpast
    rcases Nat.lt_or_eq_of_le hpast with hlater | rfl
    · exact Or.inl hlater
    · obtain rfl := call_eq_none hat (show _ = some (Shape.store .tReleaseCycles) from rfl)
        (by decide)
      refine Or.inr ⟨h.loc.stamp, ?_⟩
      rw [exec_of_instr hpc rfl]
      rfl
  case report =>
    rw [hindex']
    intro hreached
    rcases hreport hreached with hlate | rfl
    · exact Or.inl (hindex ▸ hlate)
    · obtain rfl := call_eq_none hat (show _ = some (Shape.branch 23) from rfl) (by decide)
      exact Or.inr ⟨hindex, smpMain_test hpc (hindex'.symm ▸ hreached)⟩
  case sawDone =>
    rintro ⟨hat20, hdone⟩
    obtain rfl := htest (hindex'.symm.trans hat20)
    obtain rfl := call_eq_none hat (show _ = some (Shape.load .hart1Done) from rfl) (by decide)
    rw [smpMain_loadDone hpc] at hdone
    exact Or.inr hdone
  case target =>
    intro st hst
    rcases hmoved.store hst with ⟨-, v, rfl⟩ | ⟨x, v, rfl, -, rfl⟩
    · exact .var .uartLock (Or.inr (Or.inr rfl)) v rfl
    · rcases smpMain_stores hmoved.shape with ⟨-, rfl⟩ | ⟨-, rfl⟩
      · exact .var .tReleaseCycles (Or.inl rfl) v rfl
      · exact .var .smpRelease (Or.inr (Or.inl rfl)) v rfl
  case release =>
    rw [hindex']
    intro st hst hbefore
    rcases hmoved.store hst with ⟨-, v, rfl⟩ | ⟨x, v, rfl, -, rfl⟩
    · exact im.varsApart (by decide)
    · rcases smpMain_stores hmoved.shape with ⟨-, rfl⟩ | ⟨rfl, -⟩
      · exact im.varsApart (by decide)
      · omega
  case load =>
    intro x v hload hresult
    obtain ⟨rfl, hv⟩ := hmoved.load hload
    exact ⟨hindex ▸ smpMain_loads hmoved.shape hresult, hv⟩

/-- Every step of hart 0 clears memory below the end of BSS or is as `Step0`
says. -/
theorem exec_hart0 (hzone : h.pc.OnHart0) (hsp : h.pc ≠ .start → h.sp = im.base 1) :
    Step0 im m h (exec im 0 m thre cycle h).1 (exec im 0 m thre cycle h).2 ∨
      ∃ t0, h.pc = .bssStore t0 ∧
        exec im 0 m thre cycle h =
          ({ h with pc := .bssLoop (t0 + 8) }, ⟨some ⟨t0, 8, 0⟩, none, none⟩) := by
  cases hpc : h.pc with
  | start =>
      have hexec : exec im 0 m thre cycle h =
          ({ h with pc := .dispatch, sp := im.base 1 }, .nothing) := by
        simp only [exec, hpc]
        rfl
      rw [hexec]
      exact Or.inl (step0_of_setup hpc trivial rfl le_rfl rfl rfl)
  | dispatch =>
      have hexec : exec im 0 m thre cycle h =
          ({ h with pc := .bssLoop im.bssStart, sp := h.sp }, .nothing) := by
        simp only [exec, hpc]
        rfl
      have hset : h.sp = im.base 1 := hsp (by rw [hpc]; exact Pc.noConfusion)
      rw [hexec]
      exact Or.inl (step0_of_setup hpc trivial hset le_rfl rfl rfl)
  | bssLoop t0 =>
      have hexec : exec im 0 m thre cycle h =
          ({ h with
              pc := if im.bssEnd ≤ t0 then .inC .smpMain 0 none else .bssStore t0
              sp := h.sp }, .nothing) := by
        simp only [exec, hpc]
      have hset : h.sp = im.base 1 := hsp (by rw [hpc]; exact Pc.noConfusion)
      rw [hexec]
      by_cases hend : im.bssEnd ≤ t0
      · rw [if_pos hend]
        exact Or.inl (step0_of_setup hpc ⟨.plain, rfl, by simp⟩ hset hend rfl rfl)
      · rw [if_neg hend]
        exact Or.inl (step0_of_setup hpc trivial hset le_rfl rfl rfl)
  | bssStore t0 =>
      right
      refine ⟨t0, rfl, ?_⟩
      simp only [exec, hpc]
  | wait | poll | test t0 =>
      rw [hpc] at hzone
      exact hzone.elim
  | inC fn n call =>
      have hset : h.sp = im.base 1 := hsp (by rw [hpc]; exact Pc.noConfusion)
      rw [hpc] at hzone
      cases fn with
      | smpMain => exact Or.inl (step0_of_code hpc hzone hset)
      | hart1Main => exact hzone.elim

end Hart0

/-! ## The steps of hart 1 -/

/-- The positions of hart 1. -/
def Pc.OnHart1 : Pc → Prop
  | .start | .dispatch | .wait | .poll | .test _ => True
  | .inC .hart1Main n call => Fn.hart1Main.At n call
  | _ => False

/-- Hart 1 has not seen the release flag. -/
def Pc.Waiting : Pc → Prop
  | .start | .dispatch | .wait | .poll => True
  | .test t0 => t0 = 0
  | _ => False

/-- What hart 1 has in hand for each of its variables. -/
def Locals.result (l : Locals) : Var → Word
  | .t1EntryCycles => l.entry
  | .t1PrintedCycles => l.printed
  | .t1Sp => l.sp
  | _ => 1

/-- A step of hart 1. -/
structure Step1 (im : Image) (m : ByteMem) (h h' : HartState) (eff : Effect) : Prop where
  zone : h'.pc.OnHart1
  sp : h'.pc ≠ .start → h'.sp = im.base 2
  inMain : h.pc.inFn .hart1Main → h'.pc.inFn .hart1Main
  waiting : h.pc.Waiting → loadVar im m .smpRelease = 0 → h'.pc.Waiting
  index : h.pc.index ≤ h'.pc.index
  parked : h'.pc.index ≤ PARKED
  target : ∀ {st}, eff.store = some st → Target im 1 Var.ofHart1 st ∧ h.pc.inFn .hart1Main
  unstored : ∀ {x st}, x.isResult = true ∨ x = .hart1Done → h'.pc.index ≤ storedAt x →
    eff.store = some st → Apart (im.addr x) x.width st.addr st.width
  stored : ∀ {x}, x.isResult = true → storedAt x < h'.pc.index →
    h'.loc.result x = h.loc.result x ∧
      ((storedAt x < h.pc.index ∧
          ∀ st, eff.store = some st → Apart (im.addr x) x.width st.addr st.width) ∨
        (h.pc.index ≤ storedAt x ∧ eff.store = some (storeVar im x (h.loc.result x))))

section Hart1

variable {im : Image} {m : ByteMem} {thre : Bool} {cycle : Word} {h : HartState}

/-- A private step outside the C code. -/
theorem step1_of_setup {old pc : Pc} {sp : Nat} {load : Option (Var × Word)} (hpc : h.pc = old)
    (hzone : pc.OnHart1) (hsp : sp = im.base 2) (hold : old.index = 0)
    (hout : ¬ old.inFn .hart1Main) (hnew : pc.index = 0)
    (hwait : old.Waiting → loadVar im m .smpRelease = 0 → pc.Waiting) :
    Step1 im m h { h with pc := pc, sp := sp } ⟨none, load, none⟩ := by
  subst hpc
  refine ⟨hzone, fun _ => hsp, fun hin => absurd hin hout, hwait, ?_, ?_, ?_, ?_, ?_⟩
  · simp [hold]
  · simp [hnew, PARKED]
  · simp
  · simp
  · simp [hnew]

/-- A store of C code to its stack. -/
theorem step1_of_spill (hzone : h.pc.OnHart1) (hsp : h.sp = im.base 2)
    (hmain : h.pc.inFn .hart1Main) (hparked : h.pc.index ≤ PARKED) {depth : Nat}
    (hdeep : 1 ≤ depth) (hfits : depth ≤ HART_STACK_SIZE) (b : UInt8) :
    Step1 im m h h ⟨some ⟨h.sp - depth, 1, b.toNat⟩, none, none⟩ := by
  have htarget : ∀ {st vars}, some (⟨h.sp - depth, 1, b.toNat⟩ : Store) = some st →
      Target im 1 vars st := by
    rintro st vars hst
    obtain rfl := Option.some.inj hst
    exact spill_target hsp hdeep hfits
  have hapart : ∀ {x st}, some (⟨h.sp - depth, 1, b.toNat⟩ : Store) = some st →
      Apart (im.addr x) x.width st.addr st.width := by
    intro x st hst
    have hnone : Target im 1 (fun _ => False) st := htarget hst
    exact hnone.apart_var id
  exact ⟨hzone, fun _ => hsp, id, fun hwait _ => hwait, le_rfl, hparked,
    fun hst => ⟨htarget hst, hmain⟩, fun _ _ hst => hapart hst,
    fun _ hpast => ⟨rfl, Or.inl ⟨hpast, fun _ hst => hapart hst⟩⟩⟩

/-- The instructions that change what hart 1 has in hand for `x` come before the
store of `x`. -/
theorem hart1Main_result {n : Nat} {call : Option (Call × CallPc)} {x : Var}
    (hpc : h.pc = .inC .hart1Main n call) (hat : Fn.hart1Main.At n call) (hx : x.isResult = true)
    (hn : storedAt x ≤ n) : (exec im 1 m thre cycle h).1.loc.result x = h.loc.result x := by
  cases call with
  | some at' => simp only [exec, hpc]
  | none =>
      obtain ⟨sh, hsh, -⟩ := hat
      have hlt : n < 15 := (List.getElem?_eq_some_iff.mp hsh).1
      have hone : 1 ≤ n := by
        refine le_trans ?_ hn
        cases x <;> decide
      interval_cases n <;> rw [exec_of_instr hpc rfl] <;> cases x <;>
        first | rfl | exact absurd hx (by decide) | exact absurd hn (by decide)

/-- The store of a variable stores the value hart 1 has in hand. -/
theorem hart1Main_store {n : Nat} {x : Var} (hpc : h.pc = .inC .hart1Main n none)
    (hn : Fn.hart1Main.shapes[n]? = some (.store x)) :
    (exec im 1 m thre cycle h).2.store = some (storeVar im x (h.loc.result x)) := by
  obtain ⟨rfl, hx⟩ := hart1Main_stores hn
  cases x with
  | t1EntryCycles | t1PrintedCycles | t1Sp | hart1Done =>
      rw [exec_of_instr hpc rfl]
      rfl
  | smpRelease | tReleaseCycles | uartLock => exact absurd hx (by decide)

/-- A step of `hart1_main`. -/
theorem step1_of_code {n : Nat} {call : Option (Call × CallPc)}
    (hpc : h.pc = .inC .hart1Main n call) (hat : Fn.hart1Main.At n call) (hsp : h.sp = im.base 2) :
    Step1 im m h (exec im 1 m thre cycle h).1 (exec im 1 m thre cycle h).2 := by
  obtain ⟨sh, n', call', hmoved⟩ := exec_inC im 1 m thre cycle hpc hat
  obtain ⟨hnext, hparked, hsame⟩ := hart1Main_control hmoved.shape hmoved.next
  have hindex : h.pc.index = n := by rw [hpc]; rfl
  have hindex' : (exec im 1 m thre cycle h).1.pc.index = n' := by rw [hmoved.pc]; rfl
  -- a store is to the lock, or to the variable whose store this is
  have hstore : ∀ {st}, (exec im 1 m thre cycle h).2.store = some st →
      (sh = .print ∧ ∃ v, st = storeVar im .uartLock v) ∨
        ∃ x v, sh = .store x ∧ n = storedAt x ∧ n' = n + 1 ∧
          (x.isResult = true ∨ x = .hart1Done) ∧ st = storeVar im x v := by
    intro st hst
    rcases hmoved.store hst with hlock | ⟨x, v, rfl, hone, rfl⟩
    · exact Or.inl hlock
    · obtain ⟨hn, hx⟩ := hart1Main_stores hmoved.shape
      exact Or.inr ⟨x, v, rfl, hn, hone, hx, rfl⟩
  have hother : ∀ {x st}, x.isResult = true ∨ x = .hart1Done → n' ≠ storedAt x + 1 ∨ n' = n →
      (exec im 1 m thre cycle h).2.store = some st →
      Apart (im.addr x) x.width st.addr st.width := by
    intro x st hx hnot hst
    rcases hstore hst with ⟨-, v, rfl⟩ | ⟨y, v, -, hn, hone, -, rfl⟩
    · refine im.varsApart ?_
      rintro rfl
      exact absurd hx (by decide)
    · refine im.varsApart ?_
      rintro rfl
      omega
  refine
    { zone := ?zone, sp := fun _ => hmoved.sp.trans hsp, inMain := fun _ => ?inMain,
      waiting := ?waiting, index := ?index, parked := ?parked, target := ?target,
      unstored := ?unstored, stored := ?stored }
  case zone =>
    rw [hmoved.pc]
    exact hmoved.at
  case inMain =>
    rw [hmoved.pc]
    rfl
  case waiting =>
    intro hwait
    rw [hpc] at hwait
    exact hwait.elim
  case index =>
    rw [hindex, hindex']
    omega
  case parked =>
    rw [hindex']
    exact hparked
  case target =>
    intro st hst
    refine ⟨?_, by rw [hpc]; rfl⟩
    rcases hstore hst with ⟨-, v, rfl⟩ | ⟨x, v, -, -, -, hx, rfl⟩
    · exact .var .uartLock (Or.inr (Or.inr rfl)) v rfl
    · exact .var x (hx.imp_right Or.inl) v rfl
  case unstored =>
    rw [hindex']
    intro x st hx hbefore hst
    exact hother hx (Or.inl (by omega)) hst
  case stored =>
    rw [hindex, hindex']
    intro x hx hpast
    refine ⟨hart1Main_result hpc hat hx (by omega), ?_⟩
    by_cases hbefore : storedAt x < n
    · refine Or.inl ⟨hbefore, fun st hst => hother (Or.inl hx) ?_ hst⟩
      omega
    · -- control passes the index of the store here, so this is the store
      refine Or.inr ⟨by omega, ?_⟩
      have hn : n = storedAt x := by omega
      have hsh : Fn.hart1Main.shapes[n]? = some (.store x) := by
        rw [hn]
        cases x <;> first | rfl | exact absurd hx (by decide)
      obtain rfl := call_eq_none hat hsh Shape.noConfusion
      exact hart1Main_store hpc hsh

/-- Every step of hart 1. -/
theorem exec_hart1 (hzone : h.pc.OnHart1) (hsp : h.pc ≠ .start → h.sp = im.base 2) :
    Step1 im m h (exec im 1 m thre cycle h).1 (exec im 1 m thre cycle h).2 := by
  cases hpc : h.pc with
  | start =>
      have hexec : exec im 1 m thre cycle h =
          ({ h with pc := .dispatch, sp := im.base 2 }, .nothing) := by
        simp only [exec, hpc]
        rfl
      rw [hexec]
      exact step1_of_setup hpc trivial rfl rfl id rfl fun _ _ => trivial
  | dispatch =>
      have hexec : exec im 1 m thre cycle h = ({ h with pc := .wait, sp := h.sp }, .nothing) := by
        simp only [exec, hpc]
        rfl
      have hset : h.sp = im.base 2 := hsp (by rw [hpc]; exact Pc.noConfusion)
      rw [hexec]
      exact step1_of_setup hpc trivial hset rfl id rfl fun _ _ => trivial
  | wait =>
      have hexec : exec im 1 m thre cycle h = ({ h with pc := .poll, sp := h.sp }, .nothing) := by
        simp only [exec, hpc]
      have hset : h.sp = im.base 2 := hsp (by rw [hpc]; exact Pc.noConfusion)
      rw [hexec]
      exact step1_of_setup hpc trivial hset rfl id rfl fun _ _ => trivial
  | poll =>
      have hexec : exec im 1 m thre cycle h =
          ({ h with pc := .test (loadVar im m .smpRelease), sp := h.sp },
            ⟨none, some (.smpRelease, loadVar im m .smpRelease), none⟩) := by
        simp only [exec, hpc]
      have hset : h.sp = im.base 2 := hsp (by rw [hpc]; exact Pc.noConfusion)
      rw [hexec]
      exact step1_of_setup hpc trivial hset rfl id rfl fun _ hzero => hzero
  | test t0 =>
      have hexec : exec im 1 m thre cycle h =
          ({ h with pc := if t0 = 0 then .wait else .inC .hart1Main 0 none, sp := h.sp },
            .nothing) := by
        simp only [exec, hpc]
      have hset : h.sp = im.base 2 := hsp (by rw [hpc]; exact Pc.noConfusion)
      rw [hexec]
      by_cases hzero : t0 = 0
      · rw [if_pos hzero]
        exact step1_of_setup hpc trivial hset rfl id rfl fun _ _ => trivial
      · rw [if_neg hzero]
        exact step1_of_setup hpc ⟨.plain, rfl, by simp⟩ hset rfl id rfl
          fun hwait _ => absurd hwait hzero
  | bssLoop t0 | bssStore t0 =>
      rw [hpc] at hzone
      exact hzone.elim
  | inC fn n call =>
      have hset : h.sp = im.base 2 := hsp (by rw [hpc]; exact Pc.noConfusion)
      rw [hpc] at hzone
      cases fn with
      | smpMain => exact hzone.elim
      | hart1Main => exact step1_of_code hpc hzone hset

end Hart1

end Boot
end Smp
end BareMetal
