import BareMetal.Checksum
import BareMetal.Machine.Runs

/-!
# The three privilege levels of the mcounteren.TM lab

`src/mcounteren-tm-u-gate`: `main` boots in M-mode, S-mode drivers drop into U-mode
payloads, the S-mode trap entry sends their traps to a continuation chosen by the
cause and by a signal in `a0`, and each continuation hands back to M-mode with an
`ecall`.

The hart is described by where it is (`Loc`) and by the globals of `mtmu_main.c`.
A continuation is a list of statements, so that a trap can come between any two.
What the payloads do is left open: a trap with any cause and any registers can come
at any time outside M-mode, to either trap entry.  Only an environment call from
U-mode comes from U-mode.  M-mode code is not interrupted, and its `wfi` loops are
the end of the run.

What is printed besides the FAIL lines is left out, and so are `pmpaddr0` and
`pmpcfg0`, which nothing reads.
-/

namespace BareMetal
namespace McounterenTmUGate

open Machine

def MTMU_HIST_N : Nat := 8

def MTMU_SIG_A : Word := 0xa1a1
def MTMU_SIG_B : Word := 0xa2a2
def MTMU_SIG_C : Word := 0xa3a3

def SENTINEL : Word := 0xdeadbeefdeadbeef
def MCOUNTEREN_TM : Word := 1 <<< 1
def SCOUNTEREN_TM : Word := 1 <<< 1
def MEDELEG_ILLEGAL_INSN : Word := 1 <<< 2
def MEDELEG_ECALL_U : Word := 1 <<< 8

def FINISHER_PASS : BitVec 32 := 0x5555

inductive Phase
  | a | b | c
  deriving DecidableEq

/-- Where the hart is. -/
inductive Loc
  /-- `mtmu_smode_test`, `mtmu_phase_b_start`, `mtmu_phase_c_start`. -/
  | driver (p : Phase)
  | payload (p : Phase)
  /-- `mtmu_phase_a_done` and its siblings, before the `k`-th statement; behind the
  last one stands the `ecall`. -/
  | done (p : Phase) (k : Nat)
  /-- `mtmu_unexpected`, which parks in S-mode. -/
  | unexpected
  /-- A `wfi` loop in M-mode. -/
  | stopped
  deriving DecidableEq

/-- The addresses the code compares and records. -/
structure Sites where
  ecallA : Word
  rdtimeB : Word
  ecallB : Word
  ecallC : Word
  sEcallSite : Word
  phaseDone : Phase → Word
  unexpected : Word

/-- What a write leaves in the registers with WARL fields, by the old and the written
value. -/
structure Warl where
  mcounteren : Word → Word → Word
  scounteren : Word → Word → Word
  medeleg : Word → Word → Word

/-- `fails` and the FAIL lines, `cksum`, and the local `ok`. -/
structure Report where
  fails : Nat
  failed : List String
  cksum : Word
  ok : Bool

namespace Report

/-- `ok = cond; check(ok, msg)`. -/
def check (r : Report) (cond : Bool) (msg : String) : Report :=
  if cond then { r with ok := cond }
  else { r with ok := cond, fails := r.fails + 1, failed := r.failed ++ [msg] }

/-- `cks_feed`. -/
def feed (r : Report) (v : Word) : Report :=
  { r with cksum := Checksum.cksFeed r.cksum v }

def feedOk (r : Report) : Report :=
  r.feed (if r.ok then 1 else 0)

end Report

/-- A run of `mtmu_m_handle`: the phase and the trap it has found, and what it has
left in `mcounteren`. -/
structure Handled where
  phase : Nat
  mcause : Word
  mepc : Word
  mcounteren : Word

/-- The hart and the globals.  `histWrites` has the rows of `mtmu_hist` written so far,
`handled` the runs of the M-mode handler. -/
structure State where
  loc : Loc
  priv : Priv
  spp : Priv
  regs : Nat → Word
  hist : Nat → Nat → Word
  histN : Nat
  histWrites : List Nat
  badCause : Word
  badSig : Word
  mCause : Word
  mEpc : Word
  mCount : Nat
  mPhase : Nat
  bootMc : Word
  bootSc : Word
  bootDeleg : Word
  mcounteren : Word
  scounteren : Word
  medeleg : Word
  report : Report
  /-- The locals `s0` and `s1` of a continuation. -/
  sample0 : Word
  sample1 : Word
  handled : List Handled
  finisher : Option (BitVec 32)

/-! ## The S-mode trap entry -/

/-- What the S-mode trap entry finds. -/
structure Frame where
  scause : Word
  stval : Word
  sepc : Word
  t0 : Word
  a0 : Word
  t1 : Word
  s0 : Word

/-- Where `mtmu_handle` resumes. -/
inductive Resume
  | next
  | done (p : Phase)
  | unexpected

section Code

variable (sites : Sites)

/-- The part of `mtmu_handle` that keeps the history. -/
def keepHist (s : State) : State :=
  if s.histN < MTMU_HIST_N then
    { s with
      hist := Function.update s.hist s.histN fun i =>
        if i < 9 then s.regs i else s.hist s.histN i
      histN := s.histN + 1
      histWrites := s.histWrites ++ [s.histN] }
  else s

/-- `r[4] = resume`. -/
def setResume (s : State) (resume : Word) : State :=
  { s with regs := Function.update s.regs 4 resume }

def resumeUnexpected (s : State) (cause sig : Word) : State × Resume :=
  (setResume { s with spp := .supervisor, badCause := cause, badSig := sig } sites.unexpected,
    .unexpected)

def resumeDone (s : State) (p : Phase) : State × Resume :=
  (setResume { s with spp := .supervisor } (sites.phaseDone p), .done p)

/-- `mtmu_handle`. -/
def mtmuHandle (s : State) : State × Resume :=
  let cause := s.regs 0
  let s := keepHist s
  if cause = 2 then (setResume s (s.regs 2 + 4), .next)
  else if cause = 8 then
    let sig := s.regs 6
    if sig = MTMU_SIG_A then resumeDone sites s .a
    else if sig = MTMU_SIG_B then resumeDone sites s .b
    else if sig = MTMU_SIG_C then resumeDone sites s .c
    else resumeUnexpected sites s cause sig
  else resumeUnexpected sites s cause (s.regs 6)

/-- The location behind the trap. -/
def Resume.loc (r : Resume) (interrupted : Loc) : Loc :=
  match r with
  | .next => interrupted
  | .done p => .done p 0
  | .unexpected => .unexpected

/-- The record `mtmu_trap_entry` makes. -/
def record (regs : Nat → Word) (f : Frame) : Nat → Word
  | 0 => f.scause
  | 1 => f.stval
  | 2 => f.sepc
  | 3 => regs 3 + 1
  | 5 => f.t0
  | 6 => f.a0
  | 7 => f.t1
  | 8 => f.s0
  | i => regs i

/-- `mtmu_trap_entry`, up to and with its `sret`. -/
def mtmuTrapEntry (f : Frame) (s : State) : State :=
  let r := mtmuHandle sites { s with regs := record s.regs f, spp := s.priv }
  { r.1 with loc := r.2.loc s.loc, priv := r.1.spp, spp := .user }

/-! ## The S-mode continuations -/

/-- A statement of a continuation.  `sample i` reads `t0` and `t1` of the `i`-th
trap. -/
inductive Stmt
  | check (cond : State → Bool) (msg : String)
  | feed (v : State → Word)
  | sample (i : Nat)

def Stmt.exec (s : State) : Stmt → State
  | .check cond msg => { s with report := s.report.check (cond s) msg }
  | .feed v => { s with report := s.report.feed (v s) }
  | .sample i => { s with sample0 := s.hist i 5, sample1 := s.hist i 7 }

/-- `cks_feed(ok)`. -/
def feedsOk : Stmt :=
  .feed fun s => if s.report.ok then 1 else 0

def mtmuPhaseADone : List Stmt :=
  [.check (fun s => s.histN = 1) "phase A: trap count is not 1", feedsOk,
   .check (fun s => s.hist 0 0 = 8) "phase A: trap 1 scause is not 8 (ecall from U-mode)",
   .feed (fun s => s.hist 0 0),
   .check (fun s => s.hist 0 2 = sites.ecallA)
     "phase A: trap 1 sepc is not at the payload ecall site", feedsOk,
   .check (fun s => s.hist 0 6 = MTMU_SIG_A) "phase A: trap 1 signal is not SIG_A", feedsOk,
   .sample 0,
   .check (fun s => s.sample0 < s.sample1)
     "phase A: rdtime samples did not strictly increase", feedsOk,
   .check (fun s => s.sample0 ≠ 0)
     "phase A: rdtime sample 0 is zero (timer not running?)", feedsOk]

def mtmuPhaseBDone : List Stmt :=
  [.check (fun s => s.histN = 3) "phase B: trap count is not 3", feedsOk,
   .check (fun s => s.hist 1 0 = 2) "phase B: trap 2 scause is not 2 (illegal instruction)",
   .feed (fun s => s.hist 1 0),
   .check (fun s => s.hist 1 2 = sites.rdtimeB)
     "phase B: trap 2 sepc is not at the rdtime site", feedsOk,
   .check (fun s => s.hist 1 5 = SENTINEL)
     "phase B: rdtime destination changed (it retired?)", feedsOk,
   .check (fun s => s.hist 2 0 = 8) "phase B: trap 3 scause is not 8 (ecall from U-mode)",
   .feed (fun s => s.hist 2 0),
   .check (fun s => s.hist 2 2 = sites.ecallB)
     "phase B: trap 3 sepc is not at the payload ecall site", feedsOk,
   .check (fun s => s.hist 2 6 = MTMU_SIG_B) "phase B: trap 3 signal is not SIG_B", feedsOk]

def mtmuPhaseCDone : List Stmt :=
  [.check (fun s => s.histN = 4) "phase C: trap count is not 4", feedsOk,
   .check (fun s => s.hist 3 0 = 8) "phase C: trap 4 scause is not 8 (ecall from U-mode)",
   .feed (fun s => s.hist 3 0),
   .check (fun s => s.hist 3 2 = sites.ecallC)
     "phase C: trap 4 sepc is not at the payload ecall site", feedsOk,
   .check (fun s => s.hist 3 6 = MTMU_SIG_C) "phase C: trap 4 signal is not SIG_C", feedsOk,
   .sample 3,
   .check (fun s => s.sample0 < s.sample1)
     "phase C: rdtime samples did not strictly increase", feedsOk,
   .check (fun s => s.sample0 ≠ 0)
     "phase C: rdtime sample 0 is zero (timer not running?)", feedsOk]

def doneCode : Phase → List Stmt
  | .a => mtmuPhaseADone sites
  | .b => mtmuPhaseBDone sites
  | .c => mtmuPhaseCDone sites

/-! ## The M-mode handler -/

variable (hw : Warl)

/-- The branches of phases 0 and 1: `scounteren` must still hold TM, `mcounteren` is
written and must show TM as `set` says, and the next driver is entered if no check
has failed so far. -/
def arm (scMsg : String) (value : Word) (set : Bool) (tmMsg : String) (next : Nat) (p : Phase)
    (s : State) : State :=
  let report := (s.report.check (s.scounteren = SCOUNTEREN_TM) scMsg).feedOk
  let mcounteren := hw.mcounteren s.mcounteren value
  let report := (report.check (decide (mcounteren &&& MCOUNTEREN_TM ≠ 0) == set) tmMsg).feedOk
  if report.fails ≠ 0 then { s with mcounteren, report, loc := .stopped, priv := .machine }
  else { s with mcounteren, report, mPhase := next, loc := .driver p, priv := .supervisor }

/-- The branch of phase 2. -/
def restore (s : State) : State :=
  let mcounteren := hw.mcounteren s.mcounteren s.bootMc
  let report := (s.report.check (mcounteren = s.bootMc)
    "M-mode: mcounteren did not restore to its boot value").feedOk
  let scounteren := hw.scounteren s.scounteren s.bootSc
  let report := (report.check (scounteren = s.bootSc)
    "M-mode: scounteren did not restore to its boot value").feedOk
  let medeleg := hw.medeleg s.medeleg s.bootDeleg
  let report := (report.check (medeleg = s.bootDeleg)
    "M-mode: medeleg did not restore to its boot value").feedOk
  let report := (report.check (s.mCount = 3)
    "M-mode: trap count is not exactly the 3 expected handoffs").feedOk
  let finisher := if report.fails = 0 then some FINISHER_PASS else s.finisher
  { s with mcounteren, scounteren, medeleg, report, finisher, loc := .stopped, priv := .machine }

/-- `mtmu_m_handle`. -/
def mtmuMHandle (s : State) : State :=
  let report := (s.report.check (s.mCause = 9)
    "M-mode: trap is not an S-mode ecall (cause 9)").feed s.mCause
  let report := (report.check (s.mEpc = sites.sEcallSite)
    "M-mode: mepc is not at the S-mode ecall site").feedOk
  let s := { s with report }
  if s.mPhase = 0 then
    arm hw "M-mode: scounteren.TM did not stay set" 0 false
      "M-mode: mcounteren.TM did not clear" 1 .b s
  else if s.mPhase = 1 then
    arm hw "M-mode: scounteren.TM did not stay set through phase B" MCOUNTEREN_TM true
      "M-mode: mcounteren.TM did not set" 2 .c s
  else if s.mPhase = 2 then restore hw s
  else { s with loc := .stopped, priv := .machine }

/-- `mtmu_mt_trap_entry`. -/
def mtmuMtTrapEntry (mcause mepc : Word) (s : State) : State :=
  let after := mtmuMHandle sites hw { s with mCause := mcause, mEpc := mepc, mCount := s.mCount + 1 }
  { after with handled := s.handled ++ [⟨s.mPhase, mcause, mepc, after.mcounteren⟩] }

/-! ## The machine -/

/-- `main`, up to and with its `mret`, from the boot values of the three registers. -/
def main (mcounteren scounteren medeleg : Word) : State :=
  let report : Report := ⟨0, [], Checksum.TRUNCATED_BASIS, false⟩
  let report := (report.check (mcounteren = 0) "boot mcounteren is not 0").feed mcounteren
  let probe := hw.mcounteren mcounteren 7
  let report := (report.check (probe = 7)
    "mcounteren write of 0x7 did not read back as 0x7").feed probe
  let armed := hw.mcounteren probe MCOUNTEREN_TM
  let report := (report.check (armed &&& MCOUNTEREN_TM ≠ 0) "mcounteren.TM did not stick").feedOk
  let held := hw.scounteren scounteren SCOUNTEREN_TM
  let report := (report.check (held = SCOUNTEREN_TM) "scounteren.TM did not stick").feed held
  let deleg := hw.medeleg medeleg 0x104
  let report := (report.check
    (deleg &&& (MEDELEG_ILLEGAL_INSN ||| MEDELEG_ECALL_U) = MEDELEG_ILLEGAL_INSN ||| MEDELEG_ECALL_U)
    "medeleg bits 2 and 8 not set").feedOk
  { loc := .driver .a, priv := .supervisor, spp := .user
    regs := fun _ => 0, hist := fun _ _ => 0, histN := 0, histWrites := []
    badCause := 0, badSig := 0, mCause := 0, mEpc := 0, mCount := 0, mPhase := 0
    bootMc := mcounteren, bootSc := scounteren, bootDeleg := medeleg
    mcounteren := armed, scounteren := held, medeleg := deleg
    report, sample0 := 0, sample1 := 0, handled := [], finisher := none }

/-- What can happen outside M-mode. -/
inductive Action
  /-- `drop_to_umode` of a driver. -/
  | drop
  /-- The next statement of a continuation. -/
  | stmt
  | sTrap (f : Frame)
  | mTrap (mcause mepc : Word)

/-- One step; `none` where the action is not possible. -/
def step (s : State) : Action → Option State
  | .drop =>
      match s.loc with
      | .driver p => some { s with loc := .payload p, priv := .user, spp := .user }
      | _ => none
  | .stmt =>
      match s.loc with
      | .done p k => ((doneCode sites p)[k]?).map fun c => { c.exec s with loc := .done p (k + 1) }
      | _ => none
  | .sTrap f =>
      if s.loc = .stopped ∨ (f.scause = 8 ∧ s.priv ≠ .user) then none
      else some (mtmuTrapEntry sites f s)
  | .mTrap mcause mepc =>
      if s.loc = .stopped then none else some (mtmuMtTrapEntry sites hw mcause mepc s)

end Code

end McounterenTmUGate
end BareMetal
