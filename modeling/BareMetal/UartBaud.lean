import BareMetal.Machine.Hart

/-!
# The time conversion of uart-baud

`src/uart-baud/baud_main.c` times the FIFO timeout of the UART in cycles and turns
the cycles into picoseconds with a calibration against `mtime`.  It multiplies three
measured quantities before it divides, and says that the product fits.

`cycToPs_exact_iff`: the quotient is the exact one if and only if cycles times ticks
is at most 184467440737095.  The poll loop admits longer runs at the greatest divisor.
-/

namespace BareMetal
namespace UartBaud

open Machine

def QEMU_BAUDBASE : Word := 399193
def BITS_PER_TIMEOUT : Word := 40
def IIR_CTI : BitVec 8 := 0x0c

def divisors : List Word :=
  [1, 12, 96]

/-! ## The calibration -/

/-- The statics `cal_dtick` and `cal_dcycle`. -/
structure Cal where
  dtick : Word
  dcycle : Word

/-- `while (mtime_get() - m0 < 4000000) ;` with the clock's readings; `none` while it
spins. -/
def calSpin (m0 : Word) : List Word → Option Unit
  | [] => none
  | m :: ms => if m - m0 < 4000000 then calSpin m0 ms else some ()

def calibrate (m0 c0 : Word) (polls : List Word) (m1 c1 : Word) : Option Cal :=
  (calSpin m0 polls).map fun _ => ⟨m1 - m0, c1 - c0⟩

namespace Cal

variable (cal : Cal)

/-- The static `cps`. -/
def cps : Word :=
  cal.dcycle * 10000000 / cal.dtick

def cycToPs (cyc : Word) : Word :=
  cyc * (cal.dtick * 100) * 1000 / cal.dcycle

def expectedCyc (d : Word) : Word :=
  BITS_PER_TIMEOUT * d * cal.cps / QEMU_BAUDBASE

end Cal

/-- A calibration window: at least 4000000 ticks, a cycle counter that has moved, and
no wrap in `cps`. -/
structure Window extends Cal where
  dtick_ge : 4000000 ≤ dtick.toNat
  dcycle_pos : 0 < dcycle.toNat
  cps_fits : dcycle.toNat * 10000000 < 2 ^ 64

theorem calSpin_ok {m0 m1 : Word} {polls : List Word} (hclock : ∀ m ∈ polls, m - m0 ≤ m1 - m0)
    (hspin : calSpin m0 polls = some ()) : 4000000 ≤ (m1 - m0).toNat := by
  induction polls with
  | nil => cases hspin
  | cons m ms ih =>
      rw [calSpin] at hspin
      split at hspin
      · exact ih (fun m' hm' => hclock m' (List.mem_cons_of_mem m hm')) hspin
      · next hreached =>
        have hlate : 4000000 ≤ (m - m0).toNat := BitVec.not_lt.mp hreached
        exact hlate.trans (hclock m List.mem_cons_self)

/-- On a clock that does not go back the calibration has such a window. -/
theorem calibrate_dtick_ge {m0 c0 m1 c1 : Word} {polls : List Word} {cal : Cal}
    (hclock : ∀ m ∈ polls, m - m0 ≤ m1 - m0)
    (hcal : calibrate m0 c0 polls m1 c1 = some cal) : 4000000 ≤ cal.dtick.toNat := by
  obtain ⟨_, hspin, rfl⟩ := Option.map_eq_some_iff.mp hcal
  exact calSpin_ok hclock hspin

/-! ## A timed run -/

/-- One round of the poll loop: `IIR`, and the cycle counter if it is read. -/
structure Poll where
  iir : BitVec 8
  cycle : Word

/-- What a timed run reads. -/
structure Readings where
  start : Word
  armed : Word
  polls : List Poll
  done : Word

/-- The poll loop, with the value of `timed_out`; `none` while it polls. -/
def pollLoop (deadline : Word) : List Poll → Option Bool
  | [] => none
  | p :: ps =>
      if p.iir &&& 0x0f = IIR_CTI then some false
      else if deadline < p.cycle then some true
      else pollLoop deadline ps

/-- `run_cyc` and `run_timed_out` of a run at divisor `d`. -/
def timedRun (cal : Cal) (d : Word) (r : Readings) : Option (Word × Bool) :=
  (pollLoop (r.armed + 20 * cal.expectedCyc d) r.polls).map fun timedOut =>
    (r.done - r.start, timedOut)

/-- `bit` of the report. -/
def bitPs (cal : Cal) (cyc : Word) : Word :=
  cal.cycToPs cyc / BITS_PER_TIMEOUT

/-! ## The quotient -/

/-- Dividing what is left of a product by something below the modulus gives the
product's quotient only if nothing is lost. -/
theorem mod_div_eq_iff {p c T : Nat} (hc : 0 < c) (hcT : c ≤ T) : p % T / c = p / c ↔ p < T := by
  constructor
  · intro heq
    by_contra hwrap
    have hsplit : p % T + T ≤ p := by
      have hmod : (p - T) % T = p % T := (Nat.mod_eq_sub_mod (Nat.not_lt.mp hwrap)).symm
      have hle : (p - T) % T ≤ p - T := Nat.mod_le _ _
      omega
    have hless : (p % T + c) / c ≤ p / c := Nat.div_le_div_right (by omega)
    rw [Nat.add_div_right _ hc] at hless
    omega
  · intro hfits
    rw [Nat.mod_eq_of_lt hfits]

theorem toNat_cycToPs (cal : Cal) (cyc : Word) :
    (cal.cycToPs cyc).toNat =
      cyc.toNat * cal.dtick.toNat * 100000 % 2 ^ 64 / cal.dcycle.toNat := by
  have hticks : (100 : Word).toNat = 100 := rfl
  have hps : (1000 : Word).toNat = 1000 := rfl
  have hproduct : (cyc * (cal.dtick * 100) * 1000).toNat =
      cyc.toNat * cal.dtick.toNat * 100000 % 2 ^ 64 := by
    have hreorder : cyc.toNat * (cal.dtick.toNat * 100) * 1000 =
        cyc.toNat * cal.dtick.toNat * 100000 := by ring
    rw [BitVec.toNat_mul, BitVec.toNat_mul, BitVec.toNat_mul, hticks, hps, Nat.mul_mod_mod,
      Nat.mod_mul_mod, hreorder]
  rw [Cal.cycToPs, BitVec.toNat_udiv, hproduct]

theorem exact_iff (w : Window) (cyc : Word) :
    (w.cycToPs cyc).toNat = cyc.toNat * w.dtick.toNat * 100000 / w.dcycle.toNat ↔
      cyc.toNat * w.dtick.toNat ≤ 184467440737095 := by
  have hfits : cyc.toNat * w.dtick.toNat * 100000 < 2 ^ 64 ↔
      cyc.toNat * w.dtick.toNat ≤ 184467440737095 := by omega
  rw [toNat_cycToPs, ← hfits]
  exact mod_div_eq_iff w.dcycle_pos (Nat.le_of_lt w.dcycle.isLt)

/-- The bit time of the report is then rounded down once, not twice. -/
theorem bitPs_exact (w : Window) {cyc : Word}
    (hshort : cyc.toNat * w.dtick.toNat ≤ 184467440737095) :
    (bitPs w.toCal cyc).toNat =
      cyc.toNat * w.dtick.toNat * 100000 / (w.dcycle.toNat * 40) := by
  have hbits : BITS_PER_TIMEOUT.toNat = 40 := rfl
  rw [bitPs, BitVec.toNat_udiv, (exact_iff w cyc).mpr hshort, hbits, Nat.div_div_eq_div_mul]

/-- In a run that is not marked as timed out the conversion is exact if and only if
cycles times ticks is at most 184467440737095. -/
theorem cycToPs_exact_iff (w : Window) (d : Word) (r : Readings) {cyc : Word}
    (hrun : timedRun w.toCal d r = some (cyc, false)) :
    (w.cycToPs cyc).toNat = cyc.toNat * w.dtick.toNat * 100000 / w.dcycle.toNat ↔
      (r.done - r.start).toNat * w.dtick.toNat ≤ 184467440737095 := by
  obtain ⟨timedOut, -, hcyc⟩ := Option.map_eq_some_iff.mp hrun
  obtain rfl : r.done - r.start = cyc := congrArg Prod.fst hcyc
  exact exact_iff w _

/-! ## What the poll loop bounds -/

theorem divisor_le {d : Word} (hd : d ∈ divisors) : d.toNat ≤ 96 := by
  rcases List.mem_cons.mp hd with rfl | hd
  · decide
  rcases List.mem_cons.mp hd with rfl | hd
  · decide
  obtain rfl := List.mem_singleton.mp hd
  decide

/-- The expected count in cycles, against the calibration it comes from. -/
theorem expectedCyc_mul_le (w : Window) {d : Word} (hd : d ∈ divisors) :
    (w.expectedCyc d).toNat * 399193 * w.dtick.toNat ≤
      40 * d.toNat * (w.dcycle.toNat * 10000000) := by
  have hsmall := divisor_le hd
  have hcps : w.cps.toNat = w.dcycle.toNat * 10000000 / w.dtick.toNat := by
    rw [Cal.cps, BitVec.toNat_udiv, BitVec.toNat_mul]
    exact congrArg (· / w.dtick.toNat) (Nat.mod_eq_of_lt w.cps_fits)
  have hrate : w.cps.toNat * w.dtick.toNat ≤ w.dcycle.toNat * 10000000 := by
    rw [hcps]
    exact Nat.div_mul_le_self _ _
  have hslow : w.cps.toNat * 4000000 < 2 ^ 64 := by
    have hle : w.cps.toNat * 4000000 ≤ w.cps.toNat * w.dtick.toNat :=
      Nat.mul_le_mul_left _ w.dtick_ge
    exact Nat.lt_of_le_of_lt (hle.trans hrate) w.cps_fits
  have hproduct : 40 * d.toNat * w.cps.toNat ≤ 40 * 96 * w.cps.toNat :=
    Nat.mul_le_mul_right _ (by omega)
  have hexpected : (w.expectedCyc d).toNat = 40 * d.toNat * w.cps.toNat / 399193 := by
    have hbits : BITS_PER_TIMEOUT.toNat = 40 := rfl
    have hbase : QEMU_BAUDBASE.toNat = 399193 := rfl
    have hfits : 40 * d.toNat * w.cps.toNat < 2 ^ 64 := by omega
    rw [Cal.expectedCyc, BitVec.toNat_udiv, BitVec.toNat_mul, BitVec.toNat_mul, hbits, hbase,
      Nat.mod_mul_mod, Nat.mod_eq_of_lt hfits]
  calc
    (w.expectedCyc d).toNat * 399193 * w.dtick.toNat
        ≤ 40 * d.toNat * w.cps.toNat * w.dtick.toNat := by
      rw [hexpected]
      exact Nat.mul_le_mul_right _ (Nat.div_mul_le_self _ _)
    _ = 40 * d.toNat * (w.cps.toNat * w.dtick.toNat) := Nat.mul_assoc _ _ _
    _ ≤ 40 * d.toNat * (w.dcycle.toNat * 10000000) := Nat.mul_le_mul_left _ hrate

/-- A run within the bound of the poll loop is converted exactly if the calibration has
counted few enough cycles for its divisor. -/
theorem exact_of_bound (w : Window) {d : Word} (hd : d ∈ divisors) {cyc : Word}
    (hcyc : cyc.toNat ≤ 20 * (w.expectedCyc d).toNat)
    (hcount : 800000000000000 * (d.toNat * w.dcycle.toNat) < 2 ^ 64 * 399193) :
    (w.cycToPs cyc).toNat = cyc.toNat * w.dtick.toNat * 100000 / w.dcycle.toNat := by
  rw [exact_iff]
  suffices hproduct : cyc.toNat * w.dtick.toNat * 100000 < 2 ^ 64 by omega
  apply Nat.lt_of_mul_lt_mul_right (a := 399193)
  calc
    cyc.toNat * w.dtick.toNat * 100000 * 399193
        ≤ 20 * (w.expectedCyc d).toNat * w.dtick.toNat * 100000 * 399193 := by
      gcongr
    _ = 2000000 * ((w.expectedCyc d).toNat * 399193 * w.dtick.toNat) := by ring
    _ ≤ 2000000 * (40 * d.toNat * (w.dcycle.toNat * 10000000)) :=
      Nat.mul_le_mul_left _ (expectedCyc_mul_le w hd)
    _ = 800000000000000 * (d.toNat * w.dcycle.toNat) := by ring
    _ < 2 ^ 64 * 399193 := hcount

/-! ## A window -/

/-- A calibration at 1.5 GHz. -/
def sampleWindow : Window where
  dtick := 4000000
  dcycle := 600000000
  dtick_ge := by decide
  dcycle_pos := by decide
  cps_fits := by decide

/-- A run at the greatest divisor whose timeout comes after the given cycles. -/
def sampleReadings (cyc : Word) : Readings :=
  ⟨1000, 1100, [⟨0xc1, 9000000⟩, ⟨0xcc, 0⟩], 1000 + cyc⟩

theorem nominal_run_exact :
    (sampleWindow.cycToPs 14429110).toNat =
      (14429110 : Word).toNat * sampleWindow.dtick.toNat * 100000 / sampleWindow.dcycle.toNat :=
  (cycToPs_exact_iff sampleWindow 96 (sampleReadings 14429110) (by decide)).mpr (by decide)

/-- A timeout after 33 ms instead of the nominal 10 ms, far from the bound of the poll
loop, is converted to less than a tenth of its length. -/
theorem late_run_wraps :
    timedRun sampleWindow.toCal 96 (sampleReadings 50000000) = some (50000000, false) ∧
      (50000000 : Word).toNat ≤ 20 * (sampleWindow.expectedCyc 96).toNat ∧
      (sampleWindow.cycToPs 50000000).toNat ≠
        (50000000 : Word).toNat * sampleWindow.dtick.toNat * 100000 /
          sampleWindow.dcycle.toNat := by
  decide

end UartBaud
end BareMetal
