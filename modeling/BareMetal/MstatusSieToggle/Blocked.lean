import BareMetal.MstatusSieToggle.Gate

/-!
# Calls of a driver that do not return

`phase_ordinary_call` asks for what `main` sees to before it calls a driver.
Without that a call need not return: `msg_s_handler` clears the supervisor
software interrupt and no other, `msg_m_handler` parks the hart for every
interrupt, and the `sret` of `msg_s_trap_entry` is an illegal instruction under
`TSR`.  `Held` is the invariant of the landing pad under an interrupt of this
kind (`blocked_never_returns`).
-/

namespace BareMetal
namespace MstatusSieToggle

open Machine

/-- An enabled and pending interrupt that is not delegated, or one that gets
through the gate and is not the software interrupt, or is the software
interrupt under `TSR`. -/
def Blocked (h : Hart) : Prop :=
  ∃ i ∈ interruptOrder, (h.csr .mip).getLsbD i = true ∧ (h.csr .mie).getLsbD i = true ∧
    ((h.csr .mideleg).getLsbD i = false ∨
      (h.csr .mstatus).getLsbD bitSPIE = true ∧
        (i ≠ 1 ∨ (h.csr .mstatus).getLsbD bitTSR = true))

instance (h : Hart) : Decidable (Blocked h) :=
  inferInstanceAs (Decidable (∃ i ∈ interruptOrder, _))

section Excursions

variable {sym : Symbols} {ph : Phase} {w : World} {g₀ : Statics} {h₀ : Hart}
variable {at' : SpinPc} {e : Excursion}

variable (sym h₀) in
/-- The hart is in the pad, under the gate, the enables and the delegation of
the call, and the only interrupt that may have been cleared is the delegated
software interrupt. -/
structure Held (e : Excursion) : Prop where
  status : ∃ at', e.status = .spin at'
  priv : e.hart.priv = .supervisor
  gate : (e.hart.csr .mstatus).getLsbD bitSIE = (h₀.csr .mstatus).getLsbD bitSPIE
  tsr : (e.hart.csr .mstatus).getLsbD bitTSR = (h₀.csr .mstatus).getLsbD bitTSR
  sscratch : e.hart.csr .sscratch = sym.msgSave
  csr : ∀ k, fixedCsr k = true → e.hart.csr k = h₀.csr k
  mip : e.hart.csr .mip = h₀.csr .mip ∨
    ((h₀.csr .mstatus).getLsbD bitTSR = false ∧
      e.hart.csr .mip = h₀.csr .mip &&& ~~~ (SSI &&& h₀.csr .mideleg))

theorem phaseCall_held : Held sym h₀ (phaseCall sym ph g₀ h₀) := by
  have hl := phaseCall_landed sym ph g₀ h₀
  refine ⟨⟨.first, hl.status⟩, hl.priv, landing_gate sym ph g₀ h₀, landing_tsr sym ph g₀ h₀,
    hl.sscratch, fun k hk => ?_, Or.inl (hl.csr .mip (by decide) (by decide) (by decide))⟩
  obtain ⟨hstatus, -, hscratch, hsepc, -⟩ := fixedCsr_ne hk
  exact hl.csr k hstatus hscratch hsepc

theorem Held.exec (he : Held sym h₀ e) (hat : at' ≠ .call) : Held sym h₀ (e.exec sym w at') := by
  have hgoto : ∀ (next : SpinPc) (h : Hart), h.priv = e.hart.priv → h.csr = e.hart.csr →
      Held sym h₀ (e.goto sym next h) := by
    intro next h hpriv hcsr
    refine ⟨⟨next, rfl⟩, hpriv.trans he.priv, ?_, ?_, ?_, fun k hk => ?_, ?_⟩ <;>
      simp only [Excursion.goto, hcsr]
    · exact he.gate
    · exact he.tsr
    · exact he.sscratch
    · exact he.csr k hk
    · exact he.mip
  have hread : ∀ next, Held sym h₀ (e.rdcycle sym w next) := by
    intro next
    obtain ⟨h₁, h₂, h₃, h₄, h₅, h₆, h₇⟩ :=
      hgoto next (e.hart.setReg .t0 (w.readings e.reads)) rfl rfl
    exact ⟨h₁, h₂, h₃, h₄, h₅, h₆, h₇⟩
  cases at' with
  | first => exact hread .keep
  | keep => exact hgoto .lui _ rfl rfl
  | lui => exact hgoto .addiw _ rfl rfl
  | addiw => exact hgoto .poll _ rfl rfl
  | poll => exact hread .diff
  | diff => exact hgoto .branch _ rfl rfl
  | branch =>
      rw [Excursion.exec]
      split
      · exact hgoto .poll _ rfl rfl
      · exact hgoto .call _ rfl rfl
  | call => exact absurd rfl hat

/-- A pending interrupt stays pending, unless it is the delegated software
interrupt without `TSR`. -/
theorem Held.pending (he : Held sym h₀ e) {i : Nat} (hi : (h₀.csr .mip).getLsbD i = true)
    (hkept : i = 1 → (h₀.csr .mideleg).getLsbD 1 = true →
      (h₀.csr .mstatus).getLsbD bitTSR = true) :
    (e.hart.csr .mip).getLsbD i = true := by
  rcases he.mip with hmip | ⟨htsr, hmip⟩
  · rw [hmip, hi]
  · have hlt : i < 64 := BitVec.lt_of_getLsbD hi
    have hclear : (SSI &&& h₀.csr .mideleg).getLsbD i = false := by
      rw [BitVec.getLsbD_and, SSI, BitVec.getLsbD_twoPow]
      by_cases hone : i = 1
      · subst hone
        have hdeleg : (h₀.csr .mideleg).getLsbD 1 = false := by
          refine Bool.eq_false_iff.mpr fun h => ?_
          rw [hkept rfl h] at htsr
          cases htsr
        rw [hdeleg, Bool.and_false]
      · simp [Ne.symm hone]
    rw [hmip, BitVec.getLsbD_and, BitVec.getLsbD_not, hi, hclear]
    simp [hlt]

/-- An S-mode trap comes back into the pad, if at all. -/
theorem Held.trapS (he : Held sym h₀ e) (hat : e.status = .spin at') (cause : Word) :
    Held sym h₀ (e.trapS sym w at' cause) ∨ (e.trapS sym w at' cause).status = .lost := by
  by_cases hpc : (e.hart.trapS cause).pc = sym.sTrapEntry
  swap
  · rw [Excursion.trapS]
    dsimp only
    rw [if_neg hpc]
    exact Or.inr rfl
  cases htsr : (e.hart.csr .mstatus).getLsbD bitTSR with
  | true => exact Or.inr (Excursion.trapS_forbidden _ _ _ _ _ hpc htsr).1
  | false =>
      have hserviced := sTrapEntry_serviced sym.msgSave sym.stackTop e.g (e.hart.trapS cause)
        (w.left e.boundary) he.sscratch
      have hstatus : (e.hart.trapS cause).csr .mstatus =
          enterS .supervisor (e.hart.csr .mstatus) := by
        rw [← he.priv]
        rfl
      rw [Excursion.trapS_legal _ _ _ _ _ hpc htsr]
      dsimp only
      generalize sTrapEntry sym.msgSave sym.stackTop e.g (e.hart.trapS cause)
        (w.left e.boundary) = out at hserviced
      split
      next hback =>
        have hmstatus := hserviced.mstatus
        rw [hstatus] at hmstatus
        refine Or.inl ⟨⟨at', hat⟩, hback.2, ?_, ?_, hserviced.sscratch, fun k hk => ?_, ?_⟩
        · rw [hmstatus, getLsbD_leaveS_enterS _ _ (by decide) (by decide) (by decide)]
          exact he.gate
        · rw [hmstatus, getLsbD_leaveS_enterS _ _ (by decide) (by decide) (by decide)]
          exact he.tsr
        · obtain ⟨hne₁, hne₂, hne₃, hne₄, hne₅⟩ := fixedCsr_ne hk
          rw [hserviced.csr k hne₁ hne₂ hne₃ hne₄, Hart.trapS_csr_of_ne _ _ hne₄ hne₅ hne₁]
          exact he.csr k hk
        · have hmip : (e.hart.trapS cause).csr .mip = e.hart.csr .mip := rfl
          have hdeleg : (e.hart.trapS cause).csr .mideleg = e.hart.csr .mideleg := rfl
          refine Or.inr ⟨he.tsr.symm.trans htsr, ?_⟩
          rw [hserviced.mip, hmip, hdeleg, he.csr .mideleg rfl]
          rcases he.mip with hsame | ⟨-, hcleared⟩
          · rw [hsame]
          · rw [hcleared, BitVec.and_assoc, BitVec.and_self]
      next => exact Or.inr rfl

/-- Where the call is blocked some interrupt can be taken throughout the pad. -/
theorem Held.interrupted (he : Held sym h₀ e) (hblocked : Blocked h₀) :
    MstatusSieToggle.pendingM e.hart ≠ none ∨ MstatusSieToggle.pendingS e.hart ≠ none := by
  obtain ⟨i, hi, hmip, hmie, hwhere⟩ := hblocked
  have hfound : ∀ delegated, raised e.hart delegated i = true →
      interruptOrder.find? (raised e.hart delegated) ≠ none := by
    intro delegated hraised hnone
    exact List.find?_eq_none.mp hnone i hi hraised
  cases hdeleg : (h₀.csr .mideleg).getLsbD i with
  | false =>
      left
      have hstays := he.pending hmip (by rintro rfl h; rw [hdeleg] at h; cases h)
      have hbelow : e.hart.priv ≠ .machine := by
        rw [he.priv]
        exact Priv.noConfusion
      rw [MstatusSieToggle.pendingM, if_pos (Or.inl hbelow)]
      refine hfound false ?_
      rw [raised, hstays, he.csr .mie rfl, he.csr .mideleg rfl, hmie, hdeleg]
      rfl
  | true =>
      right
      obtain ⟨hgate, hother⟩ : (h₀.csr .mstatus).getLsbD bitSPIE = true ∧
          (i ≠ 1 ∨ (h₀.csr .mstatus).getLsbD bitTSR = true) := by
        rcases hwhere with hnot | hthrough
        · rw [hdeleg] at hnot
          cases hnot
        · exact hthrough
      have hstays := he.pending hmip fun hone _ => hother.resolve_left (not_not.mpr hone)
      rw [MstatusSieToggle.pendingS, if_pos (Or.inr ⟨he.priv, he.gate.trans hgate⟩)]
      refine hfound true ?_
      rw [raised, hstays, he.csr .mie rfl, he.csr .mideleg rfl, hmie, hdeleg]
      rfl

theorem interruptCause_ne (i : Nat) : interruptCause i ≠ 9 := by
  intro h
  have hbit := congrArg (fun v => BitVec.getLsbD v 63) h
  simp only [interruptCause, BitVec.getLsbD_or, BitVec.getLsbD_twoPow] at hbit
  revert hbit
  simp

/-- Where the call is blocked the pad is not left for the caller. -/
theorem Held.step (he : Held sym h₀ e) (hblocked : Blocked h₀) :
    Held sym h₀ (e.step sym w) ∨ (e.step sym w).status = .lost := by
  have hcounted : ∀ {next : Excursion} {n : Nat}, Held sym h₀ next ∨ next.status = .lost →
      Held sym h₀ { next with boundary := n } ∨ next.status = .lost := by
    rintro next n (⟨h₁, h₂, h₃, h₄, h₅, h₆, h₇⟩ | hlost)
    · exact Or.inl ⟨h₁, h₂, h₃, h₄, h₅, h₆, h₇⟩
    · exact Or.inr hlost
  obtain ⟨at', hat⟩ := he.status
  simp only [Excursion.step, hat]
  split
  next htaken =>
    cases hm : MstatusSieToggle.pendingM e.hart with
    | some i => exact Or.inr (Excursion.trapM_lost _ _ _ _ (interruptCause_ne i)).1
    | none =>
        cases hp : MstatusSieToggle.pendingS e.hart with
        | some i => exact hcounted (he.trapS hat (interruptCause i))
        | none => exact absurd (he.interrupted hblocked) (by simp [hm, hp])
  next htaken => exact hcounted (Or.inl (he.exec fun hcall => htaken (Or.inr hcall)))

variable (sym ph w g₀) in
/-- A call under a blocking interrupt does not return. -/
theorem blocked_never_returns (hblocked : Blocked h₀) (n : Nat) :
    ((Excursion.step sym w)^[n] (phaseCall sym ph g₀ h₀)).status ≠ .back := by
  have hrun : Held sym h₀ ((Excursion.step sym w)^[n] (phaseCall sym ph g₀ h₀)) ∨
      ((Excursion.step sym w)^[n] (phaseCall sym ph g₀ h₀)).status = .lost := by
    refine iterate_keeps (I := fun e => Held sym h₀ e ∨ e.status = .lost) ?_
      (Or.inl phaseCall_held) n
    rintro e (he | hlost)
    · exact he.step hblocked
    · rw [step_of_done (Or.inr hlost)]
      exact Or.inr hlost
  rcases hrun with he | hlost
  · obtain ⟨at', hat⟩ := he.status
    rw [hat]
    exact Status.noConfusion
  · rw [hlost]
    exact Status.noConfusion

end Excursions

/-- The interrupts `enabled` are pending, and `delegated` ones go to S-mode. -/
def pendingHart (mstatus enabled delegated : Word) : Hart :=
  (((sampleHart mstatus).setCsr .mip enabled).setCsr .mie enabled).setCsr .mideleg delegated

/-- Machines from which a call does not return, although `MIE` is clear and
S-mode `ecall`s are not delegated: a delegated timer interrupt, which
`msg_s_handler` does not clear; a software interrupt that is not delegated; and
a delegated software interrupt under `TSR`. -/
theorem calls_that_never_return :
    (∃ last, 1 ≤ last ∧
      SPIN_BOUND ≤ sampleWorld.readings last - sampleWorld.readings 0) ∧
    ∀ h ∈ [pendingHart 0x22 0x20 0x20, pendingHart 0x22 0x2 0x0, pendingHart 0x400022 0x2 0x2],
      Entered sampleSymbols h ∧
        ∀ n, ((Excursion.step sampleSymbols sampleWorld)^[n]
          (phaseCall sampleSymbols .two sampleStatics h)).status ≠ .back := by
  have hentered : ∀ mstatus enabled delegated, mstatus.getLsbD bitMIE = false →
      Entered sampleSymbols (pendingHart mstatus enabled delegated) := by
    intro mstatus enabled delegated hoff
    obtain ⟨h₁, h₂, h₃, h₄, h₅, h₆⟩ := (sample_setup hoff).toEntered
    exact ⟨h₁, h₂, h₃, h₄, h₅, h₆⟩
  have hblocked : ∀ h ∈ [pendingHart 0x22 0x20 0x20, pendingHart 0x22 0x2 0x0,
      pendingHart 0x400022 0x2 0x2], Blocked h := by
    decide
  refine ⟨sample_ends, fun h hh => ?_⟩
  refine ⟨?_, blocked_never_returns sampleSymbols .two sampleWorld sampleStatics (hblocked h hh)⟩
  simp only [List.mem_cons, List.not_mem_nil, or_false] at hh
  rcases hh with rfl | rfl | rfl <;> exact hentered _ _ _ (by decide)

end MstatusSieToggle
end BareMetal
