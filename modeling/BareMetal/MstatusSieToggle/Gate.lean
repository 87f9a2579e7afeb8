import BareMetal.MstatusSieToggle.Excursion

/-!
# The gate of an excursion

`sret` takes the S-mode gate `SIE` from `SPIE`, a bit the drivers never write.
A call of a driver therefore runs the landing pad under the `SPIE` it finds,
whatever `SIE` says (`gate_law_iff`).

Apart from that a call of a driver is an ordinary call: it returns to its
caller in M-mode with all saved registers, through exactly one M-mode trap, and
through one S-mode trap exactly when the interrupt could be taken
(`phase_ordinary_call`).  `Spinning` is the invariant of the landing pad.-/

namespace BareMetal
namespace MstatusSieToggle

open Machine

/-- The cycles the pad spins for. -/
def SPIN_BOUND : Word := 200000

/-- The vectors point at the two entries, `MIE` is clear, and S-mode `ecall`s
are not delegated. -/
structure Entered (sym : Symbols) (h : Hart) : Prop where
  mtvec : h.csr .mtvec = sym.mTrapEntry
  stvec : h.csr .stvec = sym.sTrapEntry
  mAligned : sym.mTrapEntry &&& 3#64 = 0#64
  sAligned : sym.sTrapEntry &&& 3#64 = 0#64
  interruptsOff : (h.csr .mstatus).getLsbD bitMIE = false
  ecallKept : (h.csr .medeleg).getLsbD 9 = false

/-- The machine as `main` sets it up before both calls: also, no interrupt but
the supervisor software interrupt is enabled. -/
structure Setup (sym : Symbols) (h : Hart) : Prop extends Entered sym h where
  onlySsi : h.csr .mie &&& ~~~ SSI = 0

/-- The supervisor software interrupt can be taken in S-mode under the given
gate. -/
def deliverable (h : Hart) (gate : Bool) : Bool :=
  gate && (h.csr .mip).getLsbD 1 && (h.csr .mie).getLsbD 1 && (h.csr .mideleg).getLsbD 1

/-- The control registers an excursion does not write. -/
def fixedCsr : Csr → Bool
  | .mtvec | .stvec | .mie | .mideleg | .medeleg => true
  | _ => false

theorem fixedCsr_ne {k : Csr} (hk : fixedCsr k = true) :
    k ≠ .mstatus ∧ k ≠ .mip ∧ k ≠ .sscratch ∧ k ≠ .sepc ∧ k ≠ .scause := by
  cases k <;> first | exact absurd hk (by decide) | decide

/-- The cycle counter has not advanced past the bound in the polls `1` to
`n - 1`. -/
def Waited (w : World) (n : Nat) : Prop :=
  ∀ k, 1 ≤ k → k < n → w.readings k - w.readings 0 < SPIN_BOUND

/-- What the spin has in its three registers. -/
def SpinRegs (w : World) (reads : Nat) (regs : Reg → Word) : SpinPc → Prop
  | .first => reads = 0
  | .keep => reads = 1 ∧ regs .t0 = w.readings 0
  | .lui => reads = 1 ∧ regs .t1 = w.readings 0
  | .addiw => reads = 1 ∧ regs .t1 = w.readings 0 ∧ regs .t2 = 0x31000
  | .poll => 1 ≤ reads ∧ regs .t1 = w.readings 0 ∧ regs .t2 = SPIN_BOUND ∧ Waited w reads
  | .diff => 2 ≤ reads ∧ regs .t0 = w.readings (reads - 1) ∧ regs .t1 = w.readings 0 ∧
      regs .t2 = SPIN_BOUND ∧ Waited w (reads - 1)
  | .branch => 2 ≤ reads ∧ regs .t0 = w.readings (reads - 1) - w.readings 0 ∧
      regs .t1 = w.readings 0 ∧ regs .t2 = SPIN_BOUND ∧ Waited w (reads - 1)
  | .call => 2 ≤ reads ∧ regs .t0 = w.readings (reads - 1) - w.readings 0 ∧
      regs .t1 = w.readings 0 ∧ regs .t2 = SPIN_BOUND ∧ Waited w (reads - 1) ∧
      SPIN_BOUND ≤ regs .t0

section Excursions

variable (sym : Symbols) (ph : Phase) (w : World) (g₀ : Statics) (h₀ : Hart)

/-- `mip` after no or one S-mode trap. -/
def mipAfter (trapped : Bool) : Word :=
  if trapped then h₀.csr .mip &&& ~~~ (SSI &&& h₀.csr .mideleg) else h₀.csr .mip

/-- The hart is at an instruction of the pad, after no or one S-mode trap. -/
structure Spinning (at' : SpinPc) (trapped : Bool) (e : Excursion) : Prop where
  status : e.status = .spin at'
  pc : e.hart.pc = sym.spinAt at'
  priv : e.hart.priv = .supervisor
  regs : ∀ r, r ≠ .t0 → r ≠ .t1 → r ≠ .t2 → e.hart.regs r = h₀.regs r
  spin : SpinRegs w e.reads e.hart.regs at'
  gate : (e.hart.csr .mstatus).getLsbD bitSIE = (h₀.csr .mstatus).getLsbD bitSPIE
  mie : (e.hart.csr .mstatus).getLsbD bitMIE = (h₀.csr .mstatus).getLsbD bitMIE
  tsr : (e.hart.csr .mstatus).getLsbD bitTSR = (h₀.csr .mstatus).getLsbD bitTSR
  sscratch : e.hart.csr .sscratch = sym.msgSave
  csr : ∀ k, fixedCsr k = true → e.hart.csr k = h₀.csr k
  mip : e.hart.csr .mip = mipAfter h₀ trapped
  sTraps : e.g.sTraps = if trapped then g₀.sTraps + 1 else g₀.sTraps
  mTraps : e.g.mTraps = g₀.mTraps
  resume : e.g.resumePc = sym.resume ph
  expect : e.g.expectEcall = ph.expect.setWidth 32
  cause : trapped = true → deliverable h₀ ((h₀.csr .mstatus).getLsbD bitSPIE) = true

/-- The call has returned to its caller. -/
structure Returned (trapped : Bool) (e : Excursion) : Prop where
  status : e.status = .back
  pc : e.hart.pc = h₀.regs .ra
  priv : e.hart.priv = .machine
  regs : ∀ r, r ≠ .t0 → r ≠ .t1 → r ≠ .t2 → e.hart.regs r = h₀.regs r
  spin : SpinRegs w e.reads e.hart.regs .call
  mie : (e.hart.csr .mstatus).getLsbD bitMIE = (h₀.csr .mstatus).getLsbD bitMIE
  mip : e.hart.csr .mip = mipAfter h₀ trapped
  sTraps : e.g.sTraps = if trapped then g₀.sTraps + 1 else g₀.sTraps
  mTraps : e.g.mTraps = g₀.mTraps + 1
  expect : e.g.expectEcall = 0
  cause : trapped = deliverable h₀ ((h₀.csr .mstatus).getLsbD bitSPIE)

variable {sym ph w g₀ h₀}
variable {at' : SpinPc} {trapped : Bool} {e : Excursion}

theorem Spinning.advance (hs : Spinning sym ph w g₀ h₀ at' trapped e) (n : Nat) :
    Spinning sym ph w g₀ h₀ at' trapped { e with boundary := n } := by
  obtain ⟨h₁, h₂, h₃, h₄, h₅, h₆, h₇, h₈, h₉, h₁₀, h₁₁, h₁₂, h₁₃, h₁₄, h₁₅, h₁₆⟩ := hs
  exact ⟨h₁, h₂, h₃, h₄, h₅, h₆, h₇, h₈, h₉, h₁₀, h₁₁, h₁₂, h₁₃, h₁₄, h₁₅, h₁₆⟩

/-- The pad is entered untrapped. -/
theorem phaseCall_spinning :
    Spinning sym ph w g₀ h₀ .first false (phaseCall sym ph g₀ h₀) := by
  have hl := phaseCall_landed sym ph g₀ h₀
  have hgate := landing_gate sym ph g₀ h₀
  have htsr := landing_tsr sym ph g₀ h₀
  generalize phaseCall sym ph g₀ h₀ = e at hl hgate htsr
  refine ⟨hl.status, hl.pc, hl.priv, fun r h0 h1 _ => hl.regs r h0 h1, hl.reads, hgate, ?_, ?_,
    hl.sscratch, fun k hk => ?_, ?_, ?_, ?_, ?_, ?_, fun h => by cases h⟩
  · rw [hl.mstatus, getLsbD_leaveS, if_neg (by decide), if_neg (by decide), if_neg (by decide),
      if_neg (by decide), getLsbD_setBit _ (by decide), if_neg (by decide)]
  · exact htsr
  · obtain ⟨hstatus, -, hscratch, hsepc, -⟩ := fixedCsr_ne hk
    exact hl.csr k hstatus hscratch hsepc
  · exact hl.csr .mip (by decide) (by decide) (by decide)
  · rw [hl.statics]
    rfl
  · rw [hl.statics]
  · rw [hl.statics]
  · rw [hl.statics]

/-! ## Instructions of the pad -/

/-- Going on to another instruction with another value in `t0`, `t1` or `t2`. -/
theorem Spinning.set (hs : Spinning sym ph w g₀ h₀ at' trapped e) {next : SpinPc} {r : Reg}
    {v : Word} {n : Nat} (hr : r = .t0 ∨ r = .t1 ∨ r = .t2)
    (hspin : SpinRegs w n (Function.update e.hart.regs r v) next) :
    Spinning sym ph w g₀ h₀ next trapped
      { e.goto sym next (e.hart.setReg r v) with reads := n } := by
  refine ⟨rfl, rfl, hs.priv, fun q h0 h1 h2 => ?_, hspin, hs.gate, hs.mie, hs.tsr, hs.sscratch,
    hs.csr, hs.mip, hs.sTraps, hs.mTraps, hs.resume, hs.expect, hs.cause⟩
  have hne : q ≠ r := by
    rintro rfl
    rcases hr with rfl | rfl | rfl
    · exact h0 rfl
    · exact h1 rfl
    · exact h2 rfl
  show Function.update e.hart.regs r v q = _
  rw [Function.update_of_ne hne]
  exact hs.regs q h0 h1 h2

/-- Going on to another instruction with all registers as they were. -/
theorem Spinning.jump (hs : Spinning sym ph w g₀ h₀ at' trapped e) {next : SpinPc}
    (hspin : SpinRegs w e.reads e.hart.regs next) :
    Spinning sym ph w g₀ h₀ next trapped (e.goto sym next e.hart) :=
  ⟨rfl, rfl, hs.priv, hs.regs, hspin, hs.gate, hs.mie, hs.tsr, hs.sscratch, hs.csr, hs.mip,
    hs.sTraps, hs.mTraps, hs.resume, hs.expect, hs.cause⟩

/-- How many boundaries the spin has left, when its poll number `last` finds the
counter past the bound. -/
def spinRank (last reads : Nat) : SpinPc → Nat
  | .first => 3 * last + 5
  | .keep => 3 * last + 4
  | .lui => 3 * last + 3
  | .addiw => 3 * last + 2
  | .poll => 3 * (last + 1 - reads) + 1
  | .diff => 3 * (last + 2 - reads)
  | .branch => 3 * (last + 2 - reads) - 1
  | .call => 1

/-- The poll number `last` is the first past the bound or later. -/
theorem le_of_waited {n last : Nat} (hw : Waited w n) (hlast : 1 ≤ last)
    (hpast : SPIN_BOUND ≤ w.readings last - w.readings 0) : n ≤ last := by
  by_contra hlt
  have hbelow := hw last hlast (by omega)
  exact BitVec.not_le.mpr hbelow hpast

/-- Every instruction but the `ecall` goes on to another, and the spin comes
nearer to its end. -/
theorem exec_spinning (hs : Spinning sym ph w g₀ h₀ at' trapped e) (hat : at' ≠ .call) :
    ∃ next, Spinning sym ph w g₀ h₀ next trapped (e.exec sym w at') ∧
      ∀ last, 1 ≤ last → SPIN_BOUND ≤ w.readings last - w.readings 0 →
        spinRank last (e.exec sym w at').reads next < spinRank last e.reads at' := by
  have hspin := hs.spin
  cases at' with
  | first =>
      have hreads : e.reads = 0 := hspin
      have hnext : SpinRegs w (e.reads + 1)
          (Function.update e.hart.regs .t0 (w.readings e.reads)) .keep := by
        rw [hreads]
        exact ⟨rfl, by rw [Function.update_self]⟩
      refine ⟨.keep, hs.set (Or.inl rfl) hnext, fun last _ _ => ?_⟩
      show 3 * last + 4 < 3 * last + 5
      omega
  | keep =>
      obtain ⟨hreads, ht0⟩ := hspin
      have hnext : SpinRegs w e.reads
          (Function.update e.hart.regs .t1 (e.hart.regs .t0)) .lui := by
        refine ⟨hreads, ?_⟩
        rw [Function.update_self, ht0]
      refine ⟨.lui, hs.set (Or.inr (Or.inl rfl)) hnext, fun last _ _ => ?_⟩
      show 3 * last + 3 < 3 * last + 4
      omega
  | lui =>
      obtain ⟨hreads, ht1⟩ := hspin
      have hnext : SpinRegs w e.reads (Function.update e.hart.regs .t2 0x31000) .addiw := by
        refine ⟨hreads, ?_, ?_⟩
        · rw [Function.update_of_ne (by decide), ht1]
        · rw [Function.update_self]
      refine ⟨.addiw, hs.set (Or.inr (Or.inr rfl)) hnext, fun last _ _ => ?_⟩
      show 3 * last + 2 < 3 * last + 3
      omega
  | addiw =>
      obtain ⟨hreads, ht1, ht2⟩ := hspin
      have hnext : SpinRegs w e.reads (Function.update e.hart.regs .t2
          (((e.hart.regs .t2 + (-704)).setWidth 32).signExtend 64)) .poll := by
        refine ⟨le_of_eq hreads.symm, ?_, ?_, ?_⟩
        · rw [Function.update_of_ne (by decide), ht1]
        · rw [Function.update_self, ht2]
          decide
        · intro k hk₁ hk₂
          omega
      refine ⟨.poll, hs.set (Or.inr (Or.inr rfl)) hnext, fun last _ _ => ?_⟩
      show 3 * (last + 1 - e.reads) + 1 < 3 * last + 2
      omega
  | poll =>
      obtain ⟨hreads, ht1, ht2, hwaited⟩ := hspin
      have hnext : SpinRegs w (e.reads + 1)
          (Function.update e.hart.regs .t0 (w.readings e.reads)) .diff := by
        refine ⟨by omega, ?_, ?_, ?_, ?_⟩
        · rw [Function.update_self, Nat.add_sub_cancel]
        · rw [Function.update_of_ne (by decide), ht1]
        · rw [Function.update_of_ne (by decide), ht2]
        · rw [Nat.add_sub_cancel]
          exact hwaited
      refine ⟨.diff, hs.set (Or.inl rfl) hnext, fun last hlast hpast => ?_⟩
      have hle := le_of_waited hwaited hlast hpast
      show 3 * (last + 2 - (e.reads + 1)) < 3 * (last + 1 - e.reads) + 1
      omega
  | diff =>
      obtain ⟨hreads, ht0, ht1, ht2, hwaited⟩ := hspin
      have hnext : SpinRegs w e.reads
          (Function.update e.hart.regs .t0 (e.hart.regs .t0 - e.hart.regs .t1)) .branch := by
        refine ⟨hreads, ?_, ?_, ?_, hwaited⟩
        · rw [Function.update_self, ht0, ht1]
        · rw [Function.update_of_ne (by decide), ht1]
        · rw [Function.update_of_ne (by decide), ht2]
      refine ⟨.branch, hs.set (Or.inl rfl) hnext, fun last hlast hpast => ?_⟩
      have hle := le_of_waited hwaited hlast hpast
      show 3 * (last + 2 - e.reads) - 1 < 3 * (last + 2 - e.reads)
      omega
  | branch =>
      obtain ⟨hreads, ht0, ht1, ht2, hwaited⟩ := hspin
      by_cases hlt : e.hart.regs .t0 < e.hart.regs .t2
      · have hexec : e.exec sym w .branch = e.goto sym .poll e.hart := if_pos hlt
        rw [hexec]
        -- one more poll was below the bound
        have hmore : Waited w e.reads := by
          intro k hk₁ hk₂
          by_cases hlast : k = e.reads - 1
          · rw [hlast, ← ht0, ← ht2]
            exact hlt
          · exact hwaited k hk₁ (by omega)
        refine ⟨.poll, hs.jump ⟨by omega, ht1, ht2, hmore⟩, fun last hlast hpast => ?_⟩
        have hle := le_of_waited hmore hlast hpast
        show 3 * (last + 1 - e.reads) + 1 < 3 * (last + 2 - e.reads) - 1
        omega
      · have hexec : e.exec sym w .branch = e.goto sym .call e.hart := if_neg hlt
        rw [hexec]
        refine ⟨.call, hs.jump ⟨hreads, ht0, ht1, ht2, hwaited, ?_⟩, fun last hlast hpast => ?_⟩
        · show SPIN_BOUND ≤ e.hart.regs .t0
          rw [← ht2]
          exact BitVec.not_lt.mp hlt
        · have hle := le_of_waited hwaited hlast hpast
          show 1 < 3 * (last + 2 - e.reads) - 1
          omega
  | call => exact absurd rfl hat

/-! ## Interrupts in the pad -/

/-- With nothing else enabled the supervisor software interrupt is the only
candidate. -/
theorem find_raised {h : Hart} (honly : h.csr .mie &&& ~~~ SSI = 0) (delegated : Bool) :
    interruptOrder.find? (raised h delegated) = if raised h delegated 1 then some 1 else none := by
  have hoff : ∀ i, SSI.getLsbD i = false → i < 64 → raised h delegated i = false := by
    intro i hi hlt
    have hbit := congrArg (fun v => BitVec.getLsbD v i) honly
    have hzero : BitVec.getLsbD (0 : Word) i = false := BitVec.getLsbD_zero
    simp only [BitVec.getLsbD_and, BitVec.getLsbD_not, hi, hlt, decide_true, Bool.not_false,
      Bool.and_true] at hbit
    rw [raised, hbit, hzero, Bool.and_false, Bool.false_and]
  have h11 := hoff 11 (by decide) (by decide)
  have h3 := hoff 3 (by decide) (by decide)
  have h7 := hoff 7 (by decide) (by decide)
  have h9 := hoff 9 (by decide) (by decide)
  have h5 := hoff 5 (by decide) (by decide)
  cases h1 : raised h delegated 1 with
  | false => simp [interruptOrder, h11, h3, h7, h9, h5, h1]
  | true => simp [interruptOrder, h11, h3, h7, h9, h1]

section Interrupts

variable (hsetup : Setup sym h₀) (hs : Spinning sym ph w g₀ h₀ at' trapped e)

include hsetup hs

theorem Spinning.onlySsi : e.hart.csr .mie &&& ~~~ SSI = 0 := by
  rw [hs.csr .mie rfl]
  exact hsetup.onlySsi

/-- An interrupt goes to M-mode only if it is enabled without being delegated. -/
theorem Spinning.pendingM {i : Nat} (hp : pendingM e.hart = some i) :
    i = 1 ∧ (h₀.csr .mie).getLsbD 1 = true ∧ (h₀.csr .mideleg).getLsbD 1 = false := by
  have hbelow : e.hart.priv ≠ .machine := by
    rw [hs.priv]
    exact Priv.noConfusion
  rw [MstatusSieToggle.pendingM, if_pos (Or.inl hbelow), find_raised (hs.onlySsi hsetup)] at hp
  split at hp
  · next hraised =>
    rw [raised, hs.csr .mie rfl, hs.csr .mideleg rfl, Bool.and_eq_true, Bool.and_eq_true,
      beq_iff_eq] at hraised
    exact ⟨(Option.some.inj hp).symm, hraised.1.2, hraised.2⟩
  · cases hp

/-- In S-mode the software interrupt is taken exactly when it could be after
the `sret`, and only once. -/
theorem Spinning.pendingS :
    MstatusSieToggle.pendingS e.hart =
      if trapped = false ∧ deliverable h₀ ((h₀.csr .mstatus).getLsbD bitSPIE) = true then some 1
      else none := by
  have hsupervisor : (e.hart.priv = .user ∨
      e.hart.priv = .supervisor ∧ (e.hart.csr .mstatus).getLsbD bitSIE = true) ↔
      (h₀.csr .mstatus).getLsbD bitSPIE = true := by
    rw [hs.priv, hs.gate]
    simp
  have hraised : raised e.hart true 1 = true ↔
      trapped = false ∧ (h₀.csr .mip).getLsbD 1 = true ∧ (h₀.csr .mie).getLsbD 1 = true ∧
        (h₀.csr .mideleg).getLsbD 1 = true := by
    rw [raised, hs.csr .mie rfl, hs.csr .mideleg rfl, hs.mip, mipAfter]
    have hssi : SSI[1] = true := by decide
    cases trapped with
    | false => simp [and_assoc]
    | true =>
        simp [hssi]
        exact fun _ hdeleg _ => hdeleg
  rw [MstatusSieToggle.pendingS, find_raised (hs.onlySsi hsetup), deliverable]
  simp only [hsupervisor, hraised, Bool.and_eq_true]
  by_cases hgate : (h₀.csr .mstatus).getLsbD bitSPIE = true
  · simp only [hgate, if_true, true_and, and_assoc]
  · simp only [hgate, Bool.false_eq_true, if_false, false_and, and_false]

/-- An S-mode interrupt goes to `msg_s_trap_entry`. -/
theorem Spinning.trapS_pc : (e.hart.trapS (interruptCause 1)).pc = sym.sTrapEntry := by
  rw [Hart.trapS_pc, hs.csr .stvec rfl, hsetup.stvec, tvecTarget_direct hsetup.sAligned]

/-- The S-mode trap comes back to the interrupted instruction with every
register as it was. -/
theorem trapS_spinning (htsr : (h₀.csr .mstatus).getLsbD bitTSR = false)
    (huntrapped : trapped = false)
    (hdeliver : deliverable h₀ ((h₀.csr .mstatus).getLsbD bitSPIE) = true) :
    Spinning sym ph w g₀ h₀ at' true (e.trapS sym w at' (interruptCause 1)) ∧
      (e.trapS sym w at' (interruptCause 1)).reads = e.reads ∧
      (e.trapS sym w at' (interruptCause 1)).hart.regs = e.hart.regs := by
  have hpc := hs.trapS_pc hsetup
  have hserviced := sTrapEntry_serviced sym.msgSave sym.stackTop e.g
    (e.hart.trapS (interruptCause 1)) (w.left e.boundary) hs.sscratch
  have hstatus : (e.hart.trapS (interruptCause 1)).csr .mstatus =
      enterS .supervisor (e.hart.csr .mstatus) := by
    rw [← hs.priv]
    rfl
  rw [Excursion.trapS_legal _ _ _ _ _ hpc (hs.tsr.trans htsr)]
  dsimp only
  generalize sTrapEntry sym.msgSave sym.stackTop e.g (e.hart.trapS (interruptCause 1))
    (w.left e.boundary) = out at hserviced
  have hback : out.2.pc = sym.spinAt at' := by
    rw [hserviced.pc, Hart.trapS_sepc, hs.pc]
  have hpriv : out.2.priv = .supervisor := by
    rw [hserviced.priv, hstatus, spp, getLsbD_enterS, if_pos rfl]
    rfl
  have hmstatus := hserviced.mstatus
  rw [hstatus] at hmstatus
  rw [if_pos ⟨hback, hpriv⟩]
  refine ⟨⟨hs.status, hback, hpriv, fun r h0 h1 h2 => ?_, ?_, ?_, ?_, ?_, hserviced.sscratch,
    fun k hk => ?_, ?_, ?_, ?_, ?_, ?_, fun _ => hdeliver⟩, rfl, hserviced.regs⟩
  · rw [hserviced.regs]
    exact hs.regs r h0 h1 h2
  · rw [hserviced.regs]
    exact hs.spin
  · -- `SPIE` keeps the gate during the trap
    rw [hmstatus, getLsbD_leaveS_enterS _ _ (by decide) (by decide) (by decide)]
    exact hs.gate
  · rw [hmstatus, getLsbD_leaveS_enterS _ _ (by decide) (by decide) (by decide)]
    exact hs.mie
  · rw [hmstatus, getLsbD_leaveS_enterS _ _ (by decide) (by decide) (by decide)]
    exact hs.tsr
  · obtain ⟨hne₁, hne₂, hne₃, hne₄, hne₅⟩ := fixedCsr_ne hk
    rw [hserviced.csr k hne₁ hne₂ hne₃ hne₄, Hart.trapS_csr_of_ne _ _ hne₄ hne₅ hne₁]
    exact hs.csr k hk
  · have hmip : (e.hart.trapS (interruptCause 1)).csr .mip = e.hart.csr .mip := rfl
    have hdeleg : (e.hart.trapS (interruptCause 1)).csr .mideleg = e.hart.csr .mideleg := rfl
    rw [hserviced.mip, hmip, hdeleg, hs.mip, hs.csr .mideleg rfl, huntrapped]
    rfl
  · rw [hserviced.statics]
    show e.g.sTraps + 1 = g₀.sTraps + 1
    rw [hs.sTraps, huntrapped]
    rfl
  · rw [hserviced.statics]
    exact hs.mTraps
  · rw [hserviced.statics]
    exact hs.resume
  · rw [hserviced.statics]
    exact hs.expect

/-- The `ecall` goes through `msg_m_trap_entry` and back to the caller. -/
theorem ecall_returned (hat : at' = .call)
    (htrapped : trapped = deliverable h₀ ((h₀.csr .mstatus).getLsbD bitSPIE)) :
    Returned w g₀ h₀ trapped (e.exec sym w at') := by
  subst hat
  have hkept : ¬ (e.hart.csr .medeleg).getLsbD 9 = true := by
    rw [hs.csr .medeleg rfl, hsetup.ecallKept]
    exact Bool.false_ne_true
  have hexec : e.exec sym w .call = e.trapM sym w 9 := by
    rw [Excursion.exec, if_neg hkept, hs.priv]
    rfl
  have hpc : (e.hart.trapM 9).pc = sym.mTrapEntry := by
    rw [Hart.trapM_pc, hs.csr .mtvec rfl, hsetup.mtvec, tvecTarget_direct hsetup.mAligned]
  have hexpect : e.g.expectEcall ≠ 0 := by
    rw [hs.expect]
    cases ph <;> decide
  obtain ⟨h', hentry, hregs, hresume, hpriv, hmip, hmstatus⟩ :=
    mTrapEntry_expected e.g (e.hart.trapM 9) (w.left e.boundary) rfl hexpect
  have hhome : h'.priv = .machine ∧ (h'.pc = sym.resume .one ∨ h'.pc = sym.resume .two) := by
    rw [hresume, hs.resume]
    refine ⟨hpriv, ?_⟩
    cases ph with
    | one => exact Or.inl rfl
    | two => exact Or.inr rfl
  rw [hexec, Excursion.trapM]
  dsimp only
  rw [if_pos hpc, hentry]
  dsimp only
  rw [if_pos hhome]
  refine ⟨rfl, ?_, hpriv, fun r h0 h1 h2 => ?_, ?_, ?_, ?_, hs.sTraps, ?_, rfl, htrapped⟩
  · show h'.regs .ra = _
    rw [hregs]
    exact hs.regs .ra (by decide) (by decide) (by decide)
  · show h'.regs r = _
    rw [hregs]
    exact hs.regs r h0 h1 h2
  · show SpinRegs w e.reads h'.regs .call
    rw [hregs]
    exact hs.spin
  · -- `MIE` is kept in `MPIE`, which the handler does not touch
    have hfield : MPP_FIELD.getLsbD bitMPIE = false := by decide
    show (h'.csr .mstatus).getLsbD bitMIE = _
    rw [hmstatus, leaveM_mie, BitVec.getLsbD_or, BitVec.getLsbD_and, BitVec.getLsbD_not, hfield,
      Hart.trapM_mstatus, enterM_mpie, Bool.or_false]
    rw [hs.mie]
    simp [bitMPIE]
  · show h'.csr .mip = _
    rw [hmip]
    exact hs.mip
  · show e.g.mTraps + 1 = _
    rw [hs.mTraps]

/-- Everything a boundary can do in the pad. -/
theorem step_cases :
    (∃ next, Spinning sym ph w g₀ h₀ next trapped (e.step sym w) ∧
        ∀ last, 1 ≤ last → SPIN_BOUND ≤ w.readings last - w.readings 0 →
          spinRank last (e.step sym w).reads next < spinRank last e.reads at') ∨
      (trapped = false ∧ Spinning sym ph w g₀ h₀ at' true (e.step sym w) ∧
        (e.step sym w).reads = e.reads ∧ (e.step sym w).hart.regs = e.hart.regs) ∨
      Returned w g₀ h₀ trapped (e.step sym w) ∨
      ((h₀.csr .mie).getLsbD 1 = true ∧ (h₀.csr .mideleg).getLsbD 1 = false ∧
        (e.step sym w).status = .lost ∧ (e.step sym w).g.sTraps = e.g.sTraps) ∨
      ((h₀.csr .mstatus).getLsbD bitTSR = true ∧
        deliverable h₀ ((h₀.csr .mstatus).getLsbD bitSPIE) = true ∧
        (e.step sym w).status = .lost ∧ (e.step sym w).g.sTraps = g₀.sTraps + 1) := by
  -- an instruction: the `ecall` only when no interrupt is left to take
  have hexec : (at' = .call → trapped = deliverable h₀ ((h₀.csr .mstatus).getLsbD bitSPIE)) →
      e.step sym w = { e.exec sym w at' with boundary := e.boundary + 1 } →
      (∃ next, Spinning sym ph w g₀ h₀ next trapped (e.step sym w) ∧
        ∀ last, 1 ≤ last → SPIN_BOUND ≤ w.readings last - w.readings 0 →
          spinRank last (e.step sym w).reads next < spinRank last e.reads at') ∨
      Returned w g₀ h₀ trapped (e.step sym w) := by
    intro hall hstep
    rw [hstep]
    by_cases hat : at' = .call
    · obtain ⟨h₁, h₂, h₃, h₄, h₅, h₆, h₇, h₈, h₉, h₁₀, h₁₁⟩ :=
        ecall_returned hsetup hs hat (hall hat)
      exact Or.inr ⟨h₁, h₂, h₃, h₄, h₅, h₆, h₇, h₈, h₉, h₁₀, h₁₁⟩
    · obtain ⟨next, hnext, hrank⟩ := exec_spinning hs hat
      exact Or.inl ⟨next, hnext.advance _, hrank⟩
  have hcause := hs.cause
  by_cases htaken : w.take e.boundary = true ∨ at' = SpinPc.call
  · cases hm : MstatusSieToggle.pendingM e.hart with
    | some i =>
        obtain ⟨rfl, hmie, hdeleg⟩ := hs.pendingM hsetup hm
        obtain ⟨hlost, hkept⟩ :=
          Excursion.trapM_lost sym w e (interruptCause 1) (by decide)
        refine Or.inr (Or.inr (Or.inr (Or.inl ⟨hmie, hdeleg, ?_, ?_⟩)))
        · simp only [Excursion.step, hs.status, if_pos htaken, hm]
          exact hlost
        · simp only [Excursion.step, hs.status, if_pos htaken, hm]
          exact hkept
    | none =>
        have hp := hs.pendingS hsetup
        by_cases hdeliver : trapped = false ∧
            deliverable h₀ ((h₀.csr .mstatus).getLsbD bitSPIE) = true
        · rw [if_pos hdeliver] at hp
          have hstep : e.step sym w =
              { e.trapS sym w at' (interruptCause 1) with boundary := e.boundary + 1 } := by
            simp only [Excursion.step, hs.status, if_pos htaken, hm, hp]
          rw [hstep]
          cases htsr : (h₀.csr .mstatus).getLsbD bitTSR with
          | false =>
              obtain ⟨htrap, hreads, hregs⟩ :=
                trapS_spinning hsetup hs htsr hdeliver.1 hdeliver.2
              exact Or.inr (Or.inl ⟨hdeliver.1, htrap.advance _, hreads, hregs⟩)
          | true =>
              obtain ⟨hlost, hcounted⟩ :=
                Excursion.trapS_forbidden sym w e _ at' (hs.trapS_pc hsetup)
                  (hs.tsr.trans htsr)
              have hfirst : e.g.sTraps = g₀.sTraps := by
                rw [hs.sTraps, hdeliver.1]
                rfl
              exact Or.inr (Or.inr (Or.inr (Or.inr
                ⟨rfl, hdeliver.2, hlost, hcounted.trans (by rw [hfirst])⟩)))
        · rw [if_neg hdeliver] at hp
          have hstep : e.step sym w =
              { e.exec sym w at' with boundary := e.boundary + 1 } := by
            simp only [Excursion.step, hs.status, if_pos htaken, hm, hp]
          have hall : trapped = deliverable h₀ ((h₀.csr .mstatus).getLsbD bitSPIE) := by
            cases trapped with
            | true => exact (hcause rfl).symm
            | false => exact (Bool.eq_false_iff.mpr fun h => hdeliver ⟨rfl, h⟩).symm
          rcases hexec (fun _ => hall) hstep with hnext | hback
          · exact Or.inl hnext
          · exact Or.inr (Or.inr (Or.inl hback))
  · have hstep : e.step sym w = { e.exec sym w at' with boundary := e.boundary + 1 } := by
      simp only [Excursion.step, hs.status, if_neg htaken]
    rcases hexec (fun hat => absurd (Or.inr hat) htaken) hstep with hnext | hback
    · exact Or.inl hnext
    · exact Or.inr (Or.inr (Or.inl hback))

end Interrupts

/-! ## Whole calls -/

/-- A hart that is out of the pad stays where it is. -/
theorem step_of_done (hdone : e.status = .back ∨ e.status = .lost) :
    e.step sym w = { e with boundary := e.boundary + 1 } := by
  rcases hdone with hdone | hdone
  · simp only [Excursion.step, hdone]
  · simp only [Excursion.step, hdone]

theorem Returned.step (he : Returned w g₀ h₀ trapped e) :
    Returned w g₀ h₀ trapped (e.step sym w) := by
  rw [step_of_done (Or.inl he.status)]
  obtain ⟨h₁, h₂, h₃, h₄, h₅, h₆, h₇, h₈, h₉, h₁₀, h₁₁⟩ := he
  exact ⟨h₁, h₂, h₃, h₄, h₅, h₆, h₇, h₈, h₉, h₁₀, h₁₁⟩

/-- What the spin and the pending interrupt leave to do. -/
def rank (g₀ : Statics) (last : Nat) (e : Excursion) : Nat :=
  (match e.status with
    | .spin at' => spinRank last e.reads at'
    | _ => 0) + if e.g.sTraps = g₀.sTraps then 1 else 0

theorem Spinning.rank_eq (hs : Spinning sym ph w g₀ h₀ at' trapped e) (last : Nat) :
    rank g₀ last e = spinRank last e.reads at' + if trapped then 0 else 1 := by
  rw [rank, hs.status, hs.sTraps]
  cases trapped with
  | false => simp
  | true => simp

/-- The S-mode trap has been taken and its `sret` was forbidden. -/
def Forbidden (g₀ : Statics) (h₀ : Hart) (e : Excursion) : Prop :=
  (h₀.csr .mstatus).getLsbD bitTSR = true ∧
    deliverable h₀ ((h₀.csr .mstatus).getLsbD bitSPIE) = true ∧ e.g.sTraps = g₀.sTraps + 1

/-- Every step in the pad leaves less to do, or returns, or is a forbidden `sret`. -/
theorem call_drops (hsetup : Setup sym h₀)
    (hdelegated : (h₀.csr .mie).getLsbD 1 = true → (h₀.csr .mideleg).getLsbD 1 = true)
    {last : Nat} (hlast : 1 ≤ last) (hpast : SPIN_BOUND ≤ w.readings last - w.readings 0)
    (hs : Spinning sym ph w g₀ h₀ at' trapped e) :
    ((∃ trapped, Returned w g₀ h₀ trapped (e.step sym w)) ∨
        Forbidden g₀ h₀ (e.step sym w)) ∨
      ((∃ at' trapped, Spinning sym ph w g₀ h₀ at' trapped (e.step sym w)) ∧
        rank g₀ last (e.step sym w) < rank g₀ last e) := by
  rcases step_cases hsetup hs with ⟨next, hnext, hless⟩ | ⟨rfl, htrap, hreads, -⟩ | hback |
    ⟨hmie, hdeleg, -, -⟩ | ⟨htsr, hdeliver, -, hcounted⟩
  · refine Or.inr ⟨⟨next, trapped, hnext⟩, ?_⟩
    rw [hnext.rank_eq, hs.rank_eq]
    exact Nat.add_lt_add_right (hless last hlast hpast) _
  · refine Or.inr ⟨⟨at', true, htrap⟩, ?_⟩
    rw [htrap.rank_eq, hs.rank_eq, hreads]
    exact Nat.lt_succ_self _
  · exact Or.inl (Or.inl ⟨trapped, hback⟩)
  · rw [hdelegated hmie] at hdeleg
    cases hdeleg
  · exact Or.inl (Or.inr ⟨htsr, hdeliver, hcounted⟩)

variable (ph g₀) in
/-- A call under which no interrupt can go to M-mode returns, unless it gets to
a forbidden `sret`. -/
theorem call_ends (hsetup : Setup sym h₀)
    (hdelegated : (h₀.csr .mie).getLsbD 1 = true → (h₀.csr .mideleg).getLsbD 1 = true)
    (hends : ∃ last, 1 ≤ last ∧ SPIN_BOUND ≤ w.readings last - w.readings 0) :
    ∃ n, (∃ trapped, Returned w g₀ h₀ trapped
        ((Excursion.step sym w)^[n] (phaseCall sym ph g₀ h₀))) ∨
      Forbidden g₀ h₀ ((Excursion.step sym w)^[n] (phaseCall sym ph g₀ h₀)) := by
  obtain ⟨last, hlast, hpast⟩ := hends
  exact @iterate_reaches _ (Excursion.step sym w)
    (fun e => ∃ at' trapped, Spinning sym ph w g₀ h₀ at' trapped e)
    (fun e => (∃ trapped, Returned w g₀ h₀ trapped e) ∨ Forbidden g₀ h₀ e) (rank g₀ last)
    (fun ⟨_, _, hs⟩ => call_drops hsetup hdelegated hlast hpast hs) _
    ⟨.first, false, phaseCall_spinning⟩

variable (ph w g₀) in
/-- In the pad, or out of it with the number of S-mode traps settled. -/
theorem run_shape (hsetup : Setup sym h₀) (n : Nat) :
    let e := (Excursion.step sym w)^[n] (phaseCall sym ph g₀ h₀)
    (∃ at' trapped, Spinning sym ph w g₀ h₀ at' trapped e) ∨
      ((e.status = .back ∨ e.status = .lost) ∧
        (deliverable h₀ ((h₀.csr .mstatus).getLsbD bitSPIE) = false →
          e.g.sTraps = g₀.sTraps)) := by
  refine iterate_keeps (I := fun e => (∃ at' trapped, Spinning sym ph w g₀ h₀ at' trapped e) ∨
      ((e.status = .back ∨ e.status = .lost) ∧
        (deliverable h₀ ((h₀.csr .mstatus).getLsbD bitSPIE) = false →
          e.g.sTraps = g₀.sTraps))) ?_ (Or.inl ⟨.first, false, phaseCall_spinning⟩) n
  rintro e (⟨at', trapped, hs⟩ | ⟨hdone, hkept⟩)
  · rcases step_cases hsetup hs with ⟨next, hnext, -⟩ | ⟨-, htrap, -, -⟩ | hback |
      ⟨-, -, hlost, hsame⟩ | ⟨-, hdeliver, hlost, -⟩
    · exact Or.inl ⟨next, trapped, hnext⟩
    · exact Or.inl ⟨at', true, htrap⟩
    · refine Or.inr ⟨Or.inl hback.status, fun hnot => ?_⟩
      rw [hback.sTraps, hback.cause, hnot]
      rfl
    · refine Or.inr ⟨Or.inr hlost, fun hnot => ?_⟩
      rw [hsame, hs.sTraps]
      cases trapped with
      | false => rfl
      | true =>
          have hdeliver := hs.cause rfl
          rw [hnot] at hdeliver
          cases hdeliver
    · refine Or.inr ⟨Or.inr hlost, fun hnot => ?_⟩
      rw [hnot] at hdeliver
      cases hdeliver
  · rw [step_of_done hdone]
    exact Or.inr ⟨hdone, hkept⟩

variable (ph g₀) in
/-- The S-mode trap is taken during the call exactly when it could be after the
`sret`. -/
theorem trap_taken_iff (hsetup : Setup sym h₀)
    (hends : ∃ last, 1 ≤ last ∧ SPIN_BOUND ≤ w.readings last - w.readings 0) :
    (∃ n, ((Excursion.step sym w)^[n] (phaseCall sym ph g₀ h₀)).g.sTraps ≠ g₀.sTraps) ↔
      deliverable h₀ ((h₀.csr .mstatus).getLsbD bitSPIE) = true := by
  constructor
  · rintro ⟨n, hchanged⟩
    by_contra hnot
    have hoff := Bool.eq_false_iff.mpr hnot
    rcases run_shape ph w g₀ hsetup n with ⟨at', trapped, hs⟩ | ⟨-, hkept⟩
    · cases trapped with
      | false => exact hchanged hs.sTraps
      | true => exact hnot (hs.cause rfl)
    · exact hchanged (hkept hoff)
  · intro hdeliver
    have hdelegated : (h₀.csr .mideleg).getLsbD 1 = true := by
      rw [deliverable, Bool.and_eq_true] at hdeliver
      exact hdeliver.2
    obtain ⟨n, hend⟩ := call_ends ph g₀ hsetup (fun _ => hdelegated) hends
    have hcounted :
        ((Excursion.step sym w)^[n] (phaseCall sym ph g₀ h₀)).g.sTraps = g₀.sTraps + 1 := by
      rcases hend with ⟨trapped, hback⟩ | ⟨-, -, hcounted⟩
      · rw [hback.sTraps, hback.cause, hdeliver, if_pos rfl]
      · exact hcounted
    refine ⟨n, ?_⟩
    rw [hcounted]
    intro heq
    have hone : (1 : Word) = 0 := left_eq_add.mp heq.symm
    exact absurd hone (by decide)

end Excursions

/-! ## Main results -/

/-- The gate law holds for a call exactly when `SPIE` happens to equal the `SIE`
that M-mode established: the gate in force at the landing pad is that `SIE`,
and the software interrupt is taken during the excursion exactly when that
`SIE`, `SSIE`, `SSIP` and the delegation bit are all set. -/
theorem gate_law_iff {sym : Symbols} (ph : Phase) {w : World} (g : Statics) {h : Hart}
    (hsetup : Setup sym h)
    (hends : ∃ last, 1 ≤ last ∧ SPIN_BOUND ≤ w.readings last - w.readings 0) :
    let sie := (h.csr .mstatus).getLsbD bitSIE
    (((phaseCall sym ph g h).hart.csr .mstatus).getLsbD bitSIE = sie ∧
      ((∃ n, ((Excursion.step sym w)^[n] (phaseCall sym ph g h)).g.sTraps ≠ g.sTraps) ↔
        (sie && (h.csr .mip).getLsbD 1 && (h.csr .mie).getLsbD 1 &&
          (h.csr .mideleg).getLsbD 1) = true)) ↔
      (h.csr .mstatus).getLsbD bitSPIE = sie := by
  have htaken := trap_taken_iff ph g hsetup hends
  have hgate := landing_gate sym ph g h
  dsimp only
  constructor
  · rintro ⟨hsame, -⟩
    rw [← hgate]
    exact hsame
  · intro hequal
    refine ⟨hgate.trans hequal, ?_⟩
    rw [htaken, hequal]
    exact Iff.rfl

/-- A sample image. -/
def sampleSymbols : Symbols where
  mTrapEntry := 0x80000100
  sTrapEntry := 0x80000200
  sTrapSret := 0x80000334
  msgSave := 0x80010000
  msgResumePc := 0x80010200
  msgExpectEcall := 0x80010208
  stackTop := 0x80020000
  resume := fun ph => 0x80000300 + 0x40 * ph.expect
  spinAt := fun at' =>
    match at' with
    | .first => 0x80000400
    | .keep => 0x80000404
    | .lui => 0x80000408
    | .addiw => 0x8000040c
    | .poll => 0x80000410
    | .diff => 0x80000414
    | .branch => 0x80000418
    | .call => 0x8000041c

/-- The software interrupt is pending, enabled and delegated, under a given
`mstatus`. -/
def sampleCsr (mstatus : Word) : Csr → Word
  | .mstatus => mstatus
  | .mtvec => 0x80000100
  | .stvec => 0x80000200
  | .mie | .mip | .mideleg => 2
  | _ => 0

def sampleHart (mstatus : Word) : Hart where
  regs := fun r => if r = .ra then 0x80001000 else 7
  csr := sampleCsr mstatus
  mem := fun _ => 0
  time := 0
  cycle := 0
  pc := 0x80000340
  priv := .machine

def sampleStatics : Statics := ⟨0, 0, 0, 0, 0, 0, 0, 0, 0⟩

/-- A hart whose cycle counter advances by 100000 between two readings. -/
def sampleWorld : World where
  readings := fun n => BitVec.ofNat 64 (100000 * n)
  take := fun _ => false
  left := fun _ => ⟨fun _ => 0, fun _ => 0, 0⟩

theorem sample_setup {mstatus : Word} (hoff : mstatus.getLsbD bitMIE = false) :
    Setup sampleSymbols (sampleHart mstatus) := by
  have hkept : (0 : Word).getLsbD 9 = false := by decide
  have honly : (2 : Word) &&& ~~~ SSI = 0 := by decide
  exact ⟨⟨rfl, rfl, by decide, by decide, hoff, hkept⟩, honly⟩

theorem sample_ends :
    ∃ last, 1 ≤ last ∧ SPIN_BOUND ≤ sampleWorld.readings last - sampleWorld.readings 0 :=
  ⟨2, by decide, by decide⟩

/-- With `SIE` and `SPIE` both set, the law holds and the interrupt is taken. -/
theorem open_gate_law :
    ((phaseCall sampleSymbols .two sampleStatics (sampleHart 0x22)).hart.csr .mstatus).getLsbD
        bitSIE = true ∧
      ∃ n, ((Excursion.step sampleSymbols sampleWorld)^[n]
        (phaseCall sampleSymbols .two sampleStatics (sampleHart 0x22))).g.sTraps ≠ 0 := by
  obtain ⟨hgate, htaken⟩ := (gate_law_iff .two sampleStatics (sample_setup (by decide))
    sample_ends).mpr (show (0x22#64 : Word).getLsbD bitSPIE = (0x22#64).getLsbD bitSIE by decide)
  exact ⟨hgate, htaken.mpr (by decide)⟩

/-- With `SIE` set and `SPIE` clear the gate is closed at the landing pad, and
the pending interrupt is never taken. -/
theorem closed_by_spie :
    let h := sampleHart 0x2
    Setup sampleSymbols h ∧ (h.csr .mstatus).getLsbD bitSIE = true ∧
      deliverable h true = true ∧
      ((phaseCall sampleSymbols .two sampleStatics h).hart.csr .mstatus).getLsbD bitSIE = false ∧
      ∀ n, ((Excursion.step sampleSymbols sampleWorld)^[n]
        (phaseCall sampleSymbols .two sampleStatics h)).g.sTraps = 0 := by
  have hsetup : Setup sampleSymbols (sampleHart 0x2) := sample_setup (by decide)
  refine ⟨hsetup, by decide, by decide, ?_, fun n => ?_⟩
  · rw [landing_gate]
    decide
  · by_contra hchanged
    have hopen := (trap_taken_iff .two sampleStatics hsetup sample_ends).mp ⟨n, hchanged⟩
    exact absurd hopen (by decide)

/-- While no interrupt but the supervisor software interrupt is enabled, that
one only where it is delegated, and `TSR` is clear, a call of a driver is an
ordinary call.  It returns to its caller in M-mode
with every register but `t0`-`t2` unchanged and interrupts still disabled,
after exactly one M-mode trap, and after one S-mode trap exactly when the
interrupt could be taken after the `sret`; then `SSIP` is clear.  A trap leaves
all registers as they were, and the spin ends with the readings of its own
`rdcycle` instructions in `t0` and `t1`. -/
theorem phase_ordinary_call {sym : Symbols} (ph : Phase) {w : World} (g : Statics) {h : Hart}
    (hsetup : Setup sym h)
    (hdelegated : (h.csr .mie).getLsbD 1 = true → (h.csr .mideleg).getLsbD 1 = true)
    (htsr : (h.csr .mstatus).getLsbD bitTSR = false)
    (hends : ∃ last, 1 ≤ last ∧ SPIN_BOUND ≤ w.readings last - w.readings 0) :
    let after := fun n => (Excursion.step sym w)^[n] (phaseCall sym ph g h)
    let taken := deliverable h (((phaseCall sym ph g h).hart.csr .mstatus).getLsbD bitSIE)
    (∃ n, ∀ m, n ≤ m →
      (after m).status = .back ∧ (after m).hart.priv = .machine ∧
      (after m).hart.pc = h.regs .ra ∧
      (∀ r, r ≠ .t0 → r ≠ .t1 → r ≠ .t2 → (after m).hart.regs r = h.regs r) ∧
      ((after m).hart.csr .mstatus).getLsbD bitMIE = false ∧
      (after m).g.mTraps = g.mTraps + 1 ∧ (after m).g.expectEcall = 0 ∧
      (after m).g.sTraps = (if taken then g.sTraps + 1 else g.sTraps) ∧
      (taken = true → ((after m).hart.csr .mip).getLsbD 1 = false) ∧
      (after m).hart.regs .t1 = w.readings 0 ∧ (after m).hart.regs .t2 = SPIN_BOUND ∧
      ∃ last, 1 ≤ last ∧ (after m).hart.regs .t0 = w.readings last - w.readings 0 ∧
        SPIN_BOUND ≤ w.readings last - w.readings 0 ∧ Waited w last) ∧
    ∀ n, (after (n + 1)).g.sTraps ≠ (after n).g.sTraps →
      (after (n + 1)).hart.regs = (after n).hart.regs ∧
        (after (n + 1)).status = (after n).status := by
  have hgate := landing_gate sym ph g h
  dsimp only
  rw [hgate]
  constructor
  · obtain ⟨n, ⟨trapped, hback⟩ | ⟨hset, -, -⟩⟩ := call_ends ph g hsetup hdelegated hends
    swap
    · rw [htsr] at hset
      cases hset
    refine ⟨n, fun m hm => ?_⟩
    have hstays : Returned w g h trapped
        ((Excursion.step sym w)^[m] (phaseCall sym ph g h)) := by
      obtain ⟨k, rfl⟩ := Nat.exists_eq_add_of_le hm
      rw [Nat.add_comm, Function.iterate_add_apply]
      exact iterate_keeps (I := Returned w g h trapped) (fun he => he.step) hback k
    obtain ⟨hreads, ht0, ht1, ht2, hwaited, hpast⟩ := hstays.spin
    refine ⟨hstays.status, hstays.priv, hstays.pc, hstays.regs, ?_, hstays.mTraps, hstays.expect,
      ?_, fun htaken => ?_, ht1, ht2, _, by omega, ht0, by rw [← ht0]; exact hpast, hwaited⟩
    · rw [hstays.mie, hsetup.interruptsOff]
    · rw [hstays.sTraps, hstays.cause]
    · have hssi : SSI.getLsbD 1 = true := by decide
      have hdeleg : (h.csr .mideleg).getLsbD 1 = true := by
        rw [deliverable, Bool.and_eq_true] at htaken
        exact htaken.2
      rw [hstays.mip, hstays.cause, htaken, mipAfter, if_pos rfl, BitVec.getLsbD_and,
        BitVec.getLsbD_not, BitVec.getLsbD_and, hssi, hdeleg, Bool.and_self, Bool.not_true,
        Bool.and_false, Bool.and_false]
  · intro n hchanged
    rw [Function.iterate_succ_apply'] at hchanged ⊢
    rcases run_shape ph w g hsetup n with ⟨at', trapped, hs⟩ | ⟨hdone, -⟩
    · rcases step_cases hsetup hs with ⟨next, hnext, -⟩ | ⟨-, htrap, -, hregs⟩ | hback |
        ⟨-, -, -, hsame⟩ | ⟨hset, -, -, -⟩
      · exact absurd (hnext.sTraps.trans hs.sTraps.symm) hchanged
      · exact ⟨hregs, htrap.status.trans hs.status.symm⟩
      · exact absurd (hback.sTraps.trans hs.sTraps.symm) hchanged
      · exact absurd hsame hchanged
      · rw [htsr] at hset
        cases hset
    · rw [step_of_done hdone] at hchanged
      exact absurd rfl hchanged

/-- Phase 2 with both gate bits set returns to its caller after one S-mode
trap, with `sp` as it was. -/
theorem phase_two_returns :
    ∃ n, ∀ m, n ≤ m →
      let e := (Excursion.step sampleSymbols sampleWorld)^[m]
        (phaseCall sampleSymbols .two sampleStatics (sampleHart 0x22))
      e.status = .back ∧ e.hart.pc = 0x80001000 ∧ e.hart.regs .sp = 7 ∧ e.g.sTraps = 1 := by
  obtain ⟨⟨n, hback⟩, -⟩ := phase_ordinary_call .two sampleStatics
    (sample_setup (show (0x22#64 : Word).getLsbD bitMIE = false by decide))
    (fun _ => by decide) (show (0x22#64 : Word).getLsbD bitTSR = false by decide) sample_ends
  refine ⟨n, fun m hm => ?_⟩
  obtain ⟨hstatus, -, hpc, hregs, -, -, -, htraps, -⟩ := hback m hm
  refine ⟨hstatus, hpc, hregs .sp (by decide) (by decide) (by decide), htraps.trans ?_⟩
  rw [landing_gate]
  decide

end MstatusSieToggle
end BareMetal
