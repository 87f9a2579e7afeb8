import BareMetal.Machine.Pmp

/-!
# The PMP layout of the pmp-priority lab

`main`, `program_pmp` and the second phase of `src/pmp-priority/pp_main.c`: two
entries over the same scratch page, one with permissions and one without, in
front of a third one over the whole RAM.  The phases differ in which of the two
comes first.
-/

namespace BareMetal
namespace PmpPriority

open Machine Pmp

def PAGE_SIZE : Nat := 0x1000
def NAPOT_4K_MASK : Word := 0x1FF
def PMPADDR2_BROAD : Word := 0x2FFFFFFF
def BROAD_BASE : Nat := 0x80000000
def BROAD_TOP : Nat := 0x100000000
def PMPCFG0_PHASEA : Word := 0x001F181B
def PMPCFG0_PHASEB : Word := 0x001F1B18

/-- `program_pmp`, its readbacks apart. -/
def programPmp (p : Regs) (cfg0 a0 a1 a2 : Word) : Regs :=
  (((p.setAddr 0 a0).setAddr 1 a1).setAddr 2 a2).setCfg 0 cfg0

/-- The encoding `main` makes of the scratch page's address. -/
def napotEnc (scratchPa : Word) : Word :=
  (scratchPa >>> 2) ||| NAPOT_4K_MASK

/-- The layout `main` programs. -/
def phaseA (boot : Regs) (scratchPa : Word) : Regs :=
  programPmp boot PMPCFG0_PHASEA (napotEnc scratchPa) (napotEnc scratchPa) PMPADDR2_BROAD

/-- The layout `phase2_mmode` programs over it. -/
def phaseB (boot : Regs) (scratchPa : Word) : Regs :=
  programPmp (phaseA boot scratchPa) PMPCFG0_PHASEB (napotEnc scratchPa) (napotEnc scratchPa)
    PMPADDR2_BROAD

/-- The entries of the other configuration registers are off, as reset leaves
them. -/
def OthersOff (p : Regs) : Prop :=
  ∀ i, 8 ≤ i → mode (p.entry i) = .off

/-- A physical address the linker may give the scratch page. -/
structure ScratchPage (scratchPa : Word) : Prop where
  aligned : scratchPa.toNat % PAGE_SIZE = 0
  base : BROAD_BASE ≤ scratchPa.toNat
  top : scratchPa.toNat < BROAD_TOP

/-- The byte `a` is in the scratch page. -/
def InScratch (scratchPa a : Word) : Prop :=
  scratchPa.toNat ≤ a.toNat ∧ a.toNat < scratchPa.toNat + PAGE_SIZE

/-- The byte `a` is in the broad region. -/
def InBroad (a : Word) : Prop :=
  BROAD_BASE ≤ a.toNat ∧ a.toNat < BROAD_TOP

instance (scratchPa a : Word) : Decidable (InScratch scratchPa a) :=
  inferInstanceAs (Decidable (_ ∧ _))

instance (a : Word) : Decidable (InBroad a) :=
  inferInstanceAs (Decidable (_ ∧ _))

/-! ## The entries -/

/-- A page address with the mask set is its page number, a zero and nine ones. -/
theorem napotEnc_toNat {scratchPa : Word} (h : ScratchPage scratchPa) :
    ((napotEnc scratchPa).setWidth 54).toNat =
      2 ^ (9 + 1) * (scratchPa.toNat / PAGE_SIZE) + (2 ^ 9 - 1) := by
  obtain ⟨haligned, -, htop⟩ := h
  unfold PAGE_SIZE BROAD_TOP at *
  have hshift : scratchPa.toNat >>> 2 = 2 ^ 10 * (scratchPa.toNat / 4096) := by
    rw [Nat.shiftRight_eq_div_pow]
    omega
  have hor : 2 ^ 10 * (scratchPa.toNat / 4096) ||| 0x1FF =
      2 ^ 10 * (scratchPa.toNat / 4096) + 0x1FF :=
    (Nat.two_pow_add_eq_or_of_lt (by omega) _).symm
  rw [BitVec.toNat_setWidth, napotEnc, BitVec.toNat_or, BitVec.toNat_ushiftRight, hshift]
  show (2 ^ 10 * (scratchPa.toNat / 4096) ||| 0x1FF) % 2 ^ 54 = _
  rw [hor, Nat.mod_eq_of_lt (by omega)]
  rfl

/-- The registers hold the lab's three entries and nothing else. -/
structure Programmed (p : Regs) (scratchPa : Word) (first second : BitVec 8) : Prop where
  entry0 : p.entry 0 = first
  entry1 : p.entry 1 = second
  entry2 : p.entry 2 = 0x1F
  others : ∀ i, 3 ≤ i → mode (p.entry i) = .off
  addr0 : p.addr 0 = (napotEnc scratchPa).setWidth 54
  addr1 : p.addr 1 = (napotEnc scratchPa).setWidth 54
  addr2 : p.addr 2 = PMPADDR2_BROAD.setWidth 54

theorem programPmp_entry_of_le (p : Regs) (cfg0 a0 a1 a2 : Word) {i : Nat} (hi : 8 ≤ i) :
    (programPmp p cfg0 a0 a1 a2).entry i = p.entry i := by
  show (Function.update p.cfg 0 cfg0 (i / 8)).extractLsb' (8 * (i % 8)) 8 = _
  rw [Function.update_of_ne (by omega)]
  rfl

/-- The bytes of a `pmpcfg0` value with zeros above byte 2. -/
theorem programPmp_programmed {p : Regs} (hp : OthersOff p) (scratchPa cfg0 : Word)
    (hbroad : cfg0.extractLsb' 16 8 = 0x1F) (hhigh : cfg0.toNat < 2 ^ 24) :
    Programmed (programPmp p cfg0 (napotEnc scratchPa) (napotEnc scratchPa) PMPADDR2_BROAD)
      scratchPa (cfg0.extractLsb' 0 8) (cfg0.extractLsb' 8 8) := by
  have hcfg : ∀ i < 8, (programPmp p cfg0 (napotEnc scratchPa) (napotEnc scratchPa)
      PMPADDR2_BROAD).entry i = cfg0.extractLsb' (8 * i) 8 := by
    intro i hi
    show (Function.update p.cfg 0 cfg0 (i / 8)).extractLsb' (8 * (i % 8)) 8 = _
    rw [Nat.div_eq_of_lt hi, Nat.mod_eq_of_lt hi, Function.update_self]
  refine ⟨hcfg 0 (by omega), hcfg 1 (by omega), (hcfg 2 (by omega)).trans hbroad,
    fun i hi => ?_, rfl, rfl, rfl⟩
  by_cases hlow : i < 8
  · have hzero : cfg0.extractLsb' (8 * i) 8 = 0#8 := by
      apply BitVec.eq_of_toNat_eq
      have hbound : 2 ^ 24 ≤ 2 ^ (8 * i) := Nat.pow_le_pow_right (by omega) (by omega)
      rw [BitVec.extractLsb'_toNat, Nat.shiftRight_eq_div_pow, Nat.div_eq_of_lt (by omega)]
      rfl
    rw [hcfg i hlow, hzero]
    decide
  · rw [programPmp_entry_of_le _ _ _ _ _ (by omega)]
    exact hp i (by omega)

section Decision

variable {p : Regs} {scratchPa : Word} {first second : BitVec 8}

theorem napotMatches_napotEnc (h : ScratchPage scratchPa) (a : Word) :
    napotMatches ((napotEnc scratchPa).setWidth 54) a.toNat = true ↔ InScratch scratchPa a := by
  rw [napotMatches_iff (by omega) (napotEnc_toNat h)]
  have haligned := h.aligned
  unfold InScratch
  unfold PAGE_SIZE at *
  omega

theorem napotMatches_broad (a : Word) :
    napotMatches (PMPADDR2_BROAD.setWidth 54) a.toNat = true ↔ InBroad a := by
  have hvalue : (PMPADDR2_BROAD.setWidth 54).toNat = 2 ^ (28 + 1) * 1 + (2 ^ 28 - 1) := by decide
  rw [napotMatches_iff (by omega) hvalue]
  unfold InBroad BROAD_BASE BROAD_TOP
  omega

/-- The two page entries compete by number, and the broad one decides the rest. -/
theorem Programmed.allows (hp : Programmed p scratchPa first second) (h : ScratchPage scratchPa)
    (hfirst : mode first = .napot) (hsecond : mode second = .napot) {n : Nat} (hn : 3 ≤ n)
    (access : Access) (a : Word) :
    p.allows n .supervisor access a.toNat =
      if InScratch scratchPa a then permits first access else decide (InBroad a) := by
  have hcovers0 : p.covers a.toNat 0 = true ↔ InScratch scratchPa a := by
    rw [Regs.covers_of_napot (by rw [hp.entry0, hfirst]), hp.addr0, napotMatches_napotEnc h]
  have hcovers1 : p.covers a.toNat 1 = true ↔ InScratch scratchPa a := by
    rw [Regs.covers_of_napot (by rw [hp.entry1, hsecond]), hp.addr1, napotMatches_napotEnc h]
  have hcovers2 : p.covers a.toNat 2 = true ↔ InBroad a := by
    rw [Regs.covers_of_napot (by rw [hp.entry2]; decide), hp.addr2, napotMatches_broad]
  have hothers : ∀ i, 3 ≤ i → p.covers a.toNat i = false := by
    intro i hi
    exact Regs.covers_of_off (hp.others i hi)
  by_cases hin : InScratch scratchPa a
  · rw [if_pos hin, Regs.allows_of_deciding (by decide) (by omega) (hcovers0.mpr hin) (by omega),
      hp.entry0]
  · rw [if_neg hin]
    have hnot0 : p.covers a.toNat 0 = false := by simpa using fun hc => hin (hcovers0.mp hc)
    have hnot1 : p.covers a.toNat 1 = false := by simpa using fun hc => hin (hcovers1.mp hc)
    by_cases hbroad : InBroad a
    · have hbelow : ∀ j < 2, p.covers a.toNat j = false := by
        intro j hj
        interval_cases j
        · exact hnot0
        · exact hnot1
      rw [Regs.allows_of_deciding (by decide) (by omega) (hcovers2.mpr hbroad) hbelow, hp.entry2]
      rw [decide_eq_true hbroad]
      cases access <;> rfl
    · rw [decide_eq_false hbroad]
      apply Regs.allows_of_no_match (by decide)
      intro i hi
      by_cases hthree : 3 ≤ i
      · exact hothers i hthree
      · interval_cases i
        · exact hnot0
        · exact hnot1
        · simpa using fun hc => hbroad (hcovers2.mp hc)

end Decision

/-- The decision about every byte and access from S-mode, in both phases: the
scratch page is readable and writable, then closed; the rest of the broad region
is open in both and everything else closed. -/
theorem pmp_priority_decision (boot : Regs) (hboot : OthersOff boot) (n : Nat)
    (hn : 3 ≤ n) (scratchPa : Word) (h : ScratchPage scratchPa) (access : Access) (a : Word) :
    (phaseA boot scratchPa).allows n .supervisor access a.toNat =
      (if InScratch scratchPa a then decide (access ≠ .fetch) else decide (InBroad a)) ∧
    (phaseB boot scratchPa).allows n .supervisor access a.toNat =
      (if InScratch scratchPa a then false else decide (InBroad a)) := by
  have hA : Programmed (phaseA boot scratchPa) scratchPa 0x1B 0x18 :=
    programPmp_programmed hboot scratchPa PMPCFG0_PHASEA (by decide) (by decide)
  have hothersA : OthersOff (phaseA boot scratchPa) := by
    intro i hi
    rw [phaseA, programPmp_entry_of_le _ _ _ _ _ hi]
    exact hboot i hi
  have hB : Programmed (phaseB boot scratchPa) scratchPa 0x18 0x1B :=
    programPmp_programmed hothersA scratchPa PMPCFG0_PHASEB (by decide) (by decide)
  constructor
  · rw [hA.allows h (by decide) (by decide) hn]
    cases access <;> rfl
  · rw [hB.allows h (by decide) (by decide) hn]
    cases access <;> rfl

/-- The last byte of the scratch page at `0x80001000` and the byte behind it. -/
theorem pmp_priority_sample :
    let boot : Regs := ⟨fun _ => 0, fun _ => 0⟩
    (phaseA boot 0x80001000).allows 16 .supervisor .load 0x80001FFF = true ∧
      (phaseB boot 0x80001000).allows 16 .supervisor .load 0x80001FFF = false ∧
      (phaseB boot 0x80001000).allows 16 .supervisor .fetch 0x80002000 = true := by
  intro boot
  have hboot : OthersOff boot := by
    intro i _
    have hentry : boot.entry i = 0#8 := BitVec.eq_of_toNat_eq (by simp [boot, Regs.entry])
    rw [hentry]
    decide
  have hpage : ScratchPage 0x80001000 := ⟨by decide, by decide, by decide⟩
  have hedge := pmp_priority_decision boot hboot 16 (by decide) 0x80001000 hpage .load
    0x80001FFF
  have hbehind := pmp_priority_decision boot hboot 16 (by decide) 0x80001000 hpage .fetch
    0x80002000
  exact ⟨hedge.1, hedge.2, hbehind.2⟩

end PmpPriority
end BareMetal
