import BareMetal.Smp.Print
import BareMetal.Machine.Bytes

/-!
# Bringing up the second hart

Both harts enter `_start` of `src/smp/smp_boot.S`.  Hart 0 clears BSS and runs
`smp_main`; hart 1 waits for `smp_release` and runs `hart1_main`.  The two
stacks and all the words the harts exchange are in the memory that hart 0
clears.

The C functions are lists of the shared accesses they make, in program order,
with the private work between two accesses attached to one of them.  The harts
are interleaved one access at a time; a hart that runs C code may also store to
its own stack at any time.  Every store and every load of a shared variable is
recorded.
-/

namespace BareMetal
namespace Smp
namespace Boot

open Machine Uart

def HART_STACK_SIZE : Nat := 4096

def HART1_TIMEOUT_CYCLES : Word := 15000000000

/-! ## The image -/

/-- The variables that both harts know. -/
inductive Var
  | smpRelease | tReleaseCycles | t1EntryCycles | t1PrintedCycles | t1Sp | hart1Done | uartLock
  deriving DecidableEq, Repr

def Var.width : Var → Nat
  | .smpRelease | .hart1Done | .uartLock => 4
  | .tReleaseCycles | .t1EntryCycles | .t1PrintedCycles | .t1Sp => 8

/-- Where the linker has put the variables and the stacks.  All of them but
`smp_release` are known to be in BSS.  `frame` is what the compiled function
has pushed when it reads `sp`. -/
structure Image where
  bssStart : Nat
  bssEnd : Nat
  hartStacks : Nat
  addr : Var → Nat
  frame : HartId → Nat
  varsApart : ∀ {x y : Var}, x ≠ y → Apart (addr x) x.width (addr y) y.width
  stacksApart : ∀ x : Var, Apart (addr x) x.width hartStacks (NHART * HART_STACK_SIZE)
  varsInBss : ∀ {x : Var}, x ≠ .smpRelease → bssStart ≤ addr x ∧ addr x + x.width ≤ bssEnd
  stacksInBss : bssStart ≤ hartStacks ∧ hartStacks + NHART * HART_STACK_SIZE ≤ bssEnd
  frameFits : ∀ i, frame i ≤ HART_STACK_SIZE

/-! ## The C code -/

/-- The locals of `smp_main` and `hart1_main`, and the values on their way from
a register to a variable or from a variable to a call. -/
structure Locals where
  hartid : Word
  sp : Word
  stamp : Word
  deadline : Word
  done : Word
  now : Word
  tDone : Word
  first : Word
  second : Word
  bringupLat : Word
  entryToPrint : Word
  sp1Ok : Word
  entry : Word
  printed : Word

/-- A step of a C function. -/
inductive Instr
  | uartInit
  | readMhartid
  | readSp
  | set (f : Locals → Locals)
  | rdcycle (f : Locals → Word → Locals)
  | load (x : Var) (f : Locals → Word → Locals)
  | store (x : Var) (v : Locals → Word)
  | memFence
  | print (c : Locals → Call)
  | jump (target : Nat)
  | branch (p : Locals → Bool) (target : Nat)
  | wfi

section Code

variable (im : Image)

/-- `&hart_stacks[i][0]`. -/
def Image.base (i : Nat) : Nat :=
  im.hartStacks + i * HART_STACK_SIZE

def boolWord (b : Bool) : Word :=
  if b then 1 else 0

/-- The index of `smp_release = 1` in `smpMain`. -/
def RELEASE : Nat := 10

/-- The index of the first instruction after the timeout test in `smpMain`. -/
def REPORT : Nat := 23

/-- `smp_main`. -/
def smpMain : List Instr :=
  let base0 : Word := BitVec.ofNat 64 (im.base 0)
  let top0 : Word := BitVec.ofNat 64 (im.base 0 + HART_STACK_SIZE)
  let base1 : Word := BitVec.ofNat 64 (im.base 1)
  let top1 : Word := BitVec.ofNat 64 (im.base 1 + HART_STACK_SIZE)
  [ .uartInit,
    .print fun _ => .lockedPuts (ascii "smp: 2-hart bring-up on QEMU virt\n"),
    .readMhartid,
    .print fun l => .lockedPrintKv (ascii "hart0: mhartid") l.hartid 0,
    .readSp,
    .print fun _ => .lockedPrintLine2 (ascii "hart0: stack_base") base0 (ascii "stack_top") top0 1,
    .print fun l => .lockedPrintKv (ascii "hart0: sp") l.sp 1,
    .rdcycle fun l v => { l with stamp := v },
    .store .tReleaseCycles fun l => l.stamp,
    .memFence,
    .store .smpRelease fun _ => 1,
    .print fun _ => .lockedPuts (ascii "hart0: released hart 1\n"),
    .load .tReleaseCycles fun l v => { l with deadline := v + HART1_TIMEOUT_CYCLES },
    -- 13: while (!hart1_done && rdcycle() < deadline) mem_fence();
    .load .hart1Done fun l v => { l with done := v },
    .branch (fun l => l.done ≠ 0) 19,
    .rdcycle fun l v => { l with now := v },
    .branch (fun l => ¬ l.now < l.deadline) 19,
    .memFence,
    .jump 13,
    -- 19: if (!hart1_done)
    .load .hart1Done fun l v => { l with done := v },
    .branch (fun l => l.done ≠ 0) REPORT,
    .print fun _ => .lockedPuts (ascii "hart0: TIMEOUT waiting for hart 1\n"),
    .wfi,
    -- 23: the report
    .rdcycle fun l v => { l with tDone := v },
    .print fun _ => .lockedPuts (ascii "smp: verification report\n"),
    .load .tReleaseCycles fun l v => { l with first := v },
    .print fun l => .lockedPrintKv (ascii "hart0: release_cycles") l.first 0,
    .load .t1EntryCycles fun l v => { l with first := v },
    .print fun l => .lockedPrintKv (ascii "hart1: entry_cycles") l.first 0,
    .load .t1PrintedCycles fun l v => { l with first := v },
    .print fun l => .lockedPrintKv (ascii "hart1: printed_cycles") l.first 0,
    .print fun l => .lockedPrintKv (ascii "hart0: done_cycles") l.tDone 0,
    .load .t1EntryCycles fun l v => { l with first := v },
    .load .tReleaseCycles fun l v => { l with second := v, bringupLat := l.first - v },
    .load .t1PrintedCycles fun l v => { l with first := v },
    .load .t1EntryCycles fun l v => { l with second := v, entryToPrint := l.first - v },
    .print fun l => .lockedPrintKv (ascii "bring-up latency (release->hart1 entry), cycles")
      l.bringupLat 0,
    .print fun l => .lockedPrintKv (ascii "hart1 entry->print done, cycles") l.entryToPrint 0,
    .set fun l => { l with sp1Ok := 0 },
    .load .t1Sp fun l v => { l with first := v },
    .branch (fun l => ¬ base1 ≤ l.first) 43,
    .load .t1Sp fun l v => { l with second := v },
    .set fun l => { l with sp1Ok := boolWord (l.second ≤ top1) },
    .print fun _ => .lockedPrintKv (ascii "stack slices disjoint (1=yes)")
      (boolWord (top0 ≤ base1 ∨ top1 ≤ base0)) 0,
    .print fun l => .lockedPrintKv (ascii "hart0 sp in own slice (1=yes)")
      (boolWord (base0 ≤ l.sp ∧ l.sp ≤ top0)) 0,
    .print fun l => .lockedPrintKv (ascii "hart1 sp in own slice (1=yes)") l.sp1Ok 0,
    .print fun _ => .lockedPuts (ascii "smp: both harts ran, done\n"),
    .wfi ]

/-- The index of the last instruction of `hart1Main`. -/
def PARKED : Nat := 14

/-- `hart1_main`. -/
def hart1Main : List Instr :=
  let base : Word := BitVec.ofNat 64 (im.base 1)
  let top : Word := BitVec.ofNat 64 (im.base 1 + HART_STACK_SIZE)
  [ .rdcycle fun l v => { l with entry := v },
    .store .t1EntryCycles fun l => l.entry,
    .memFence,
    .readMhartid,
    .readSp,
    .store .t1Sp fun l => l.sp,
    .print fun _ => .lockedPuts (ascii "hart1: secondary hart alive\n"),
    .print fun l => .lockedPrintKv (ascii "hart1: mhartid") l.hartid 0,
    .print fun _ => .lockedPrintLine2 (ascii "hart1: stack_base") base (ascii "stack_top") top 1,
    .print fun l => .lockedPrintKv (ascii "hart1: sp") l.sp 1,
    .rdcycle fun l v => { l with printed := v },
    .store .t1PrintedCycles fun l => l.printed,
    .memFence,
    .store .hart1Done fun _ => 1,
    .wfi ]

/-- The two C functions that a hart can be in. -/
inductive Fn
  | smpMain | hart1Main
  deriving DecidableEq, Repr

def Fn.code : Fn → List Instr
  | .smpMain => Boot.smpMain im
  | .hart1Main => Boot.hart1Main im

end Code

/-! ## One hart -/

/-- Where a hart is.  `inC` is an instruction of a C function, with the locked
call it is in. -/
inductive Pc
  | start
  | dispatch
  | bssLoop (t0 : Nat)
  | bssStore (t0 : Nat)
  | wait
  | poll
  | test (t0 : Word)
  | inC (fn : Fn) (n : Nat) (call : Option (Call × CallPc))

structure HartState where
  pc : Pc
  sp : Nat
  loc : Locals

/-- What a step does outside the hart. -/
structure Effect where
  store : Option Store
  load : Option (Var × Word)
  sent : Option UInt8

def Effect.nothing : Effect := ⟨none, none, none⟩

section Hart

variable (im : Image) (i : HartId) (m : ByteMem)

/-- A load of a variable, zero-extended; the `int`s are only tested for 0. -/
def loadVar (x : Var) : Word :=
  BitVec.ofNat 64 (loadLE m (im.addr x) x.width)

def storeVar (x : Var) (v : Word) : Store :=
  ⟨im.addr x, x.width, v.toNat⟩

/-- One instruction of a C function. -/
def execInstr (cycle : Word) (h : HartState) (fn : Fn) (n : Nat) : Instr → HartState × Effect
  | .uartInit => ({ h with pc := .inC fn (n + 1) none }, .nothing)
  | .readMhartid =>
      ({ h with pc := .inC fn (n + 1) none, loc := { h.loc with hartid := BitVec.ofNat 64 i } },
        .nothing)
  | .readSp =>
      ({ h with
          pc := .inC fn (n + 1) none
          loc := { h.loc with sp := BitVec.ofNat 64 (h.sp - im.frame i) } },
        .nothing)
  | .set f => ({ h with pc := .inC fn (n + 1) none, loc := f h.loc }, .nothing)
  | .rdcycle f => ({ h with pc := .inC fn (n + 1) none, loc := f h.loc cycle }, .nothing)
  | .load x f =>
      let v := loadVar im m x
      ({ h with pc := .inC fn (n + 1) none, loc := f h.loc v }, ⟨none, some (x, v), none⟩)
  | .store x v =>
      ({ h with pc := .inC fn (n + 1) none }, ⟨some (storeVar im x (v h.loc)), none, none⟩)
  | .memFence => ({ h with pc := .inC fn (n + 1) none }, .nothing)
  | .print c => ({ h with pc := .inC fn n (some (c h.loc, .li)) }, .nothing)
  | .jump target => ({ h with pc := .inC fn target none }, .nothing)
  | .branch p target =>
      ({ h with pc := .inC fn (if p h.loc then target else n + 1) none }, .nothing)
  | .wfi => (h, .nothing)

/-- The effect of an access of a locked call. -/
def callEffect : Access → Effect
  | .none => .nothing
  | .lock v => ⟨some ⟨im.addr .uartLock, Var.uartLock.width, v.toNat⟩, none, none⟩
  | .thr c => ⟨none, none, some c⟩

/-- One step of a hart. -/
def exec (thre : Bool) (cycle : Word) (h : HartState) : HartState × Effect :=
  match h.pc with
  | .start =>
      ({ h with pc := .dispatch, sp := im.hartStacks + (i.val + 1) * HART_STACK_SIZE }, .nothing)
  | .dispatch => ({ h with pc := if i.val ≠ 0 then .wait else .bssLoop im.bssStart }, .nothing)
  | .bssLoop t0 =>
      ({ h with pc := if im.bssEnd ≤ t0 then .inC .smpMain 0 none else .bssStore t0 }, .nothing)
  | .bssStore t0 => ({ h with pc := .bssLoop (t0 + 8) }, ⟨some ⟨t0, 8, 0⟩, none, none⟩)
  | .wait => ({ h with pc := .poll }, .nothing)
  | .poll =>
      let v := loadVar im m .smpRelease
      ({ h with pc := .test v }, ⟨none, some (.smpRelease, v), none⟩)
  | .test t0 => ({ h with pc := if t0 = 0 then .wait else .inC .hart1Main 0 none }, .nothing)
  | .inC fn n none =>
      match (fn.code im)[n]? with
      | some instr => execInstr im i m cycle h fn n instr
      | none => (h, .nothing)
  | .inC fn n (some (c, pc)) =>
      let out := pc.step c (BitVec.ofNat 32 (loadLE m (im.addr .uartLock) 4)) thre
      let next := match out.1 with
        | some pc => Pc.inC fn n (some (c, pc))
        | none => Pc.inC fn (n + 1) none
      ({ h with pc := next }, callEffect im out.2)

/-- The hart runs C code and has not parked itself. -/
def HartState.running (h : HartState) : Bool :=
  match h.pc with
  | .inC fn n _ =>
      match (fn.code im)[n]? with
      | some .wfi | none => false
      | some _ => true
  | _ => false

end Hart

/-! ## The harts together -/

/-- A store, with the hart that made it. -/
structure Write where
  hart : HartId
  store : Store
  deriving DecidableEq

/-- The machine.  `stores` and `loads` record all that has happened, oldest
first; the harts do not see them. -/
structure State where
  harts : HartId → HartState
  mem : ByteMem
  out : List UInt8
  stores : List Write
  loads : List (HartId × Var × Word)

/-- A step of a hart, or a store of its C code to its stack, `depth` bytes
below the top. -/
inductive Event
  | exec (i : HartId) (thre : Bool) (cycle : Word)
  | spill (i : HartId) (depth : Nat) (b : UInt8)

def State.apply (s : State) (i : HartId) (h : HartState) (eff : Effect) : State where
  harts := Function.update s.harts i h
  mem := eff.store.elim s.mem fun st => st.run s.mem
  out := s.out ++ eff.sent.toList
  stores := s.stores ++ eff.store.toList.map fun st => ⟨i, st⟩
  loads := s.loads ++ eff.load.toList.map fun xv => (i, xv)

def step (im : Image) (s : State) : Event → State
  | .exec i thre cycle =>
      let out := exec im i s.mem thre cycle (s.harts i)
      s.apply i out.1 out.2
  | .spill i depth b =>
      let h := s.harts i
      if h.running im ∧ 1 ≤ depth ∧ depth ≤ HART_STACK_SIZE then
        s.apply i h ⟨some ⟨h.sp - depth, 1, b.toNat⟩, none, none⟩
      else s

def run (im : Image) (s : State) (events : List Event) : State :=
  events.foldl (step im) s

/-- Both harts at the entry point of the loaded image. -/
def boot (mem : ByteMem) (sp : HartId → Nat) (loc : HartId → Locals) : State where
  harts := fun i => ⟨.start, sp i, loc i⟩
  mem := mem
  out := []
  stores := []
  loads := []

end Boot
end Smp
end BareMetal
