import BareMetal.Machine.Fnv

/-!
# The checksums of the labs

Ninety-eight labs print a checksum of what they have recorded and call it FNV-1a
64.  The hash is written again in each of them, in eighteen ways (`Routine`).  Two
things vary: the offset basis, which most of them give without its last digit, and
the unit, which is the whole 64-bit value where the loop over its bytes is missing.

`Routine.checksum_eq` reduces every routine to these two, and the rest follows from
what FNV does with them: which labs compute FNV-1a 64 (`lab_checksums`), and that a
changed byte always changes the checksum of a lab with the loop (`byte_changes_seen`).
-/

namespace BareMetal
namespace Checksum

open Machine Machine.Fnv

/-- `14695981039346656037` without its last digit. -/
def TRUNCATED_BASIS : Word := 1469598103934665603

/-! ## The routines -/

/-- The loop over the bytes of a value: `h ^= (v >> (8 * j)) & 0xff; h *= prime`. -/
def feedBytes {n : Nat} (h : Word) (v : BitVec (8 * n)) : Word :=
  (List.range n).foldl (fun h j => xorMul PRIME h (((v >>> (8 * j)) &&& 255#_).setWidth 64)) h

/-- `h ^= v; h *= prime`. -/
def feedWord (h v : Word) : Word :=
  xorMul PRIME h v

/-- The loop over some values, byte by byte. -/
def foldBytes {n : Nat} (basis : Word) (vs : List (BitVec (8 * n))) : Word :=
  vs.foldl feedBytes basis

def cksFeed (cksum v : Word) : Word :=
  feedBytes (n := 8) cksum v

def digest64 (fnv v : Word) : Word :=
  feedBytes (n := 8) fnv v

def fold (csum v : Word) : Word :=
  feedBytes (n := 8) csum v

def fnv1aFeed (h v : Word) : Word :=
  feedBytes (n := 8) h v

def fnvUpdate (h v : Word) : Word :=
  feedBytes (n := 8) h v

/-- `fnv1a` of `mscratch-csrrw`. -/
def fnv1aBytes (h v : Word) : Word :=
  feedBytes (n := 8) h v

/-- `fnv1a_64` where it has the loop. -/
def fnv1a64Bytes (h v : Word) : Word :=
  feedBytes (n := 8) h v

/-- `fnv1a_64` where it has not. -/
def fnv1a64Word (h v : Word) : Word :=
  feedWord h v

/-- `fnv1a` of `mtvec-mode0-direct`. -/
def fnv1aWord (h v : Word) : Word :=
  feedWord h v

def recordChecksum (vals : List Word) : Word :=
  foldBytes (n := 8) TRUNCATED_BASIS vals

def checksumMeasured (words : List Word) : Word :=
  foldBytes (n := 8) TRUNCATED_BASIS words

def checksumTraps (words : List Word) : Word :=
  foldBytes (n := 8) TRUNCATED_BASIS words

/-- `fnv1a` of `lrsc-store-invalidate`. -/
def fnv1aFour (vals : List Word) : Word :=
  foldBytes (n := 8) OFFSET_BASIS vals

def fnv1aWords (w : List Word) : Word :=
  foldBytes (n := 8) OFFSET_BASIS w

/-- The loop over `vals` in `report_mmode`, `smode_phase2` and `m_finalize`. -/
def reportVals (vals : List Word) : Word :=
  foldBytes (n := 8) OFFSET_BASIS vals

/-- `result_checksum`, which takes the bytes by a cast. -/
def resultChecksum (vals : List Word) : Word :=
  vals.foldl (fun h v => (List.range 8).foldl
    (fun h j => xorMul PRIME h (((v >>> (8 * j)).setWidth 8).setWidth 64)) h) TRUNCATED_BASIS

/-- `fnv1a64(data, len)`. -/
def bufferFnv1a64 (data : List (BitVec 8)) : Word :=
  data.foldl (fun h b => xorMul PRIME h (b.setWidth 64)) TRUNCATED_BASIS

/-- `fnv1a_64` of `amo-add-atomicity`, whose values are of 32 bits. -/
def fnv1a64Pair (a b : BitVec (8 * 4)) : Word :=
  foldBytes (n := 4) TRUNCATED_BASIS [a, b]

/-! ## The labs -/

inductive Routine
  | cksFeed | fnv1a64Buffer | digest64 | fold | fnv1aFeed | recordChecksum | resultChecksum
  | checksumMeasured | checksumTraps | fnv1aFour | fnvUpdate | fnv1aBytes | fnv1a64Bytes
  | fnv1aWords | reportVals | fnv1a64Word | fnv1aWord

/-- The labs with 64-bit values. -/
inductive Lab
  | cboZeroGate | fcsrFieldIndependence | fcsrFrmRounddn | fcsrFrmRoundup | fflagsDzDivideByZero
  | fflagsNvInvalid | fflagsNxInexact | fflagsNxOnly | fflagsOfOverflow | fflagsUfUnderflow
  | frmDynamicVsStatic | frmRdnVsRupDiv | frmRoundingStatic | frmRoundingWrite
  | lrscStoreInvalidate | mcauseInterruptBit | mcounterenCyGate | mcounterenCyURead
  | mcounterenIrGate | mcounterenTimeGate | mcounterenTmUGate | mcountinhibitCyGate
  | mcountinhibitIrFreeze | medelegBreakpoint | medelegEcallDestination | medelegEcallURoute
  | medelegEcall | medelegIllegalInstRoute | medelegInstrPagefault | medelegLoadPagefault
  | medelegStoreAccessFault | medelegStorePagefault | menvcfgCbieWrite | menvcfgCbzeWrite
  | menvcfgPbmteWrite | menvcfgStceWrite | menvcfgStce | mhartidReadonly | mhartidSModeRead
  | mhartidUModeRead | midelegMtipRoute | midelegSeipClear | midelegSeipRoute | mieToggle
  | mieWriteReadback | mipMsipWrite | mipPendingNoTrap | misaMxlWarl | mscratchCsrrw
  | mstatusMprvLoad | mstatusMprvReadback | mstatusSdSummary | mstatusSieToggle | mstatusTsrTrap
  | mstatusTvmTrap | mstatusTwTrap | mtimecmpDeltaTracksMtime | mtimecmpRw | mtvecDirectVectoring
  | mtvecModeWar | mtvecMode0Direct | pmpNa4LowEdge | pmpNa4Match | pmpNapotEncode
  | pmpNapotMatch | pmpPriority | pmpTorBottom | pmpTorTop | satpModeWarl | scauseWarl
  | scounterenCyGate | scounterenIrGate | scounterenTmGate | scounterenTrap | sfenceVmaRemap
  | sfenceVmaRs1Scoped | sfenceVmaRs2Scoped | sieSsipClearSuppresses | sieStieGate | sieStieWrite
  | sipSeipWrite | sipStipMidelegReconcile | sipStipWrite | sipWriteProbe | sretToUmodeFault
  | sstatusFsDirty | sstatusFsOffFpTrap | sstatusMxr | sstatusSieGate | sstatusSppSretU
  | sstatusSppUTrap | sstatusSpp | sstatusSum | stimecmpOneShot | stvalEcallCapture
  | stvalIllegalCapture | stvalWarlProbe

namespace Routine

/-- The checksum of the recorded values.  Where a routine takes one value the lab
starts from the basis and calls it for each of them; `fnv1a64` reads the array of
the values as bytes. -/
def checksum : Routine → List Word → Word
  | cksFeed, vs => vs.foldl Checksum.cksFeed TRUNCATED_BASIS
  | fnv1a64Buffer, vs => bufferFnv1a64 (vs.flatMap (leBytes (n := 8)))
  | digest64, vs => vs.foldl Checksum.digest64 OFFSET_BASIS
  | fold, vs => vs.foldl Checksum.fold TRUNCATED_BASIS
  | fnv1aFeed, vs => vs.foldl Checksum.fnv1aFeed TRUNCATED_BASIS
  | recordChecksum, vs => Checksum.recordChecksum vs
  | resultChecksum, vs => Checksum.resultChecksum vs
  | checksumMeasured, vs => Checksum.checksumMeasured vs
  | checksumTraps, vs => Checksum.checksumTraps vs
  | fnv1aFour, vs => Checksum.fnv1aFour vs
  | fnvUpdate, vs => vs.foldl Checksum.fnvUpdate OFFSET_BASIS
  | fnv1aBytes, vs => vs.foldl Checksum.fnv1aBytes OFFSET_BASIS
  | fnv1a64Bytes, vs => vs.foldl Checksum.fnv1a64Bytes OFFSET_BASIS
  | fnv1aWords, vs => Checksum.fnv1aWords vs
  | reportVals, vs => Checksum.reportVals vs
  | fnv1a64Word, vs => vs.foldl Checksum.fnv1a64Word OFFSET_BASIS
  | fnv1aWord, vs => vs.foldl Checksum.fnv1aWord OFFSET_BASIS

/-- What a routine does with one value, from any state. -/
def feed : Routine → Word → Word → Word
  | cksFeed => Checksum.cksFeed
  | fnv1a64Buffer => fun h v =>
      (leBytes (n := 8) v).foldl (fun h b => xorMul PRIME h (b.setWidth 64)) h
  | digest64 => Checksum.digest64
  | fold => Checksum.fold
  | fnv1aFeed => Checksum.fnv1aFeed
  | recordChecksum | checksumMeasured | checksumTraps | fnv1aFour | fnv1aWords | reportVals =>
      feedBytes (n := 8)
  | resultChecksum => fun h v => (List.range 8).foldl
      (fun h j => xorMul PRIME h (((v >>> (8 * j)).setWidth 8).setWidth 64)) h
  | fnvUpdate => Checksum.fnvUpdate
  | fnv1aBytes => Checksum.fnv1aBytes
  | fnv1a64Bytes => Checksum.fnv1a64Bytes
  | fnv1a64Word => Checksum.fnv1a64Word
  | fnv1aWord => Checksum.fnv1aWord

/-- The routines whose basis lacks the last digit. -/
def truncated : Routine → Bool
  | cksFeed | fnv1a64Buffer | fold | fnv1aFeed | recordChecksum | resultChecksum | checksumMeasured
  | checksumTraps => true
  | _ => false

/-- The routines without the loop over the bytes. -/
def wordwise : Routine → Bool
  | fnv1a64Word | fnv1aWord => true
  | _ => false

end Routine

namespace Lab

def routine : Lab → Routine
  | .cboZeroGate | .mcounterenCyGate | .mcounterenCyURead | .mcounterenIrGate
  | .mcounterenTimeGate | .mcounterenTmUGate | .mcountinhibitCyGate | .mcountinhibitIrFreeze
  | .medelegEcall | .menvcfgCbieWrite | .menvcfgCbzeWrite | .menvcfgPbmteWrite
  | .menvcfgStceWrite | .menvcfgStce | .mhartidSModeRead | .mhartidUModeRead
  | .mstatusMprvReadback | .mstatusTwTrap | .mtimecmpDeltaTracksMtime | .mtimecmpRw | .scauseWarl
  | .scounterenCyGate | .scounterenIrGate | .scounterenTmGate | .scounterenTrap
  | .stvalWarlProbe => .cksFeed
  | .fcsrFieldIndependence | .fcsrFrmRounddn | .fcsrFrmRoundup | .fflagsDzDivideByZero
  | .fflagsNvInvalid | .fflagsNxInexact | .fflagsNxOnly | .fflagsOfOverflow | .fflagsUfUnderflow
  | .frmDynamicVsStatic | .frmRdnVsRupDiv | .frmRoundingStatic | .frmRoundingWrite | .mieToggle
  | .mstatusSdSummary | .sstatusFsDirty | .sstatusFsOffFpTrap => .fnv1a64Buffer
  | .lrscStoreInvalidate => .fnv1aFour
  | .mcauseInterruptBit => .resultChecksum
  | .medelegBreakpoint | .medelegEcallDestination | .medelegEcallURoute
  | .medelegIllegalInstRoute | .medelegInstrPagefault | .medelegLoadPagefault
  | .medelegStoreAccessFault | .medelegStorePagefault | .pmpPriority | .sfenceVmaRemap
  | .sfenceVmaRs1Scoped | .sfenceVmaRs2Scoped => .reportVals
  | .mhartidReadonly => .fnv1aFeed
  | .midelegMtipRoute | .midelegSeipClear | .midelegSeipRoute | .pmpNapotEncode
  | .stvalEcallCapture | .stvalIllegalCapture => .recordChecksum
  | .mieWriteReadback | .mipPendingNoTrap | .mtvecModeWar | .satpModeWarl
  | .sipWriteProbe => .digest64
  | .mipMsipWrite | .sieSsipClearSuppresses | .sieStieGate | .sieStieWrite | .sipSeipWrite
  | .sipStipMidelegReconcile | .sipStipWrite | .sstatusMxr | .sstatusSieGate | .sstatusSum
  | .stimecmpOneShot => .fnv1a64Word
  | .misaMxlWarl => .fnvUpdate
  | .mscratchCsrrw => .fnv1aBytes
  | .mstatusMprvLoad | .mstatusSieToggle | .mstatusTsrTrap | .mstatusTvmTrap => .fnv1a64Bytes
  | .mtvecDirectVectoring => .fnv1aWords
  | .mtvecMode0Direct => .fnv1aWord
  | .pmpNa4LowEdge | .pmpNa4Match | .pmpNapotMatch | .pmpTorBottom | .pmpTorTop => .fold
  | .sretToUmodeFault | .sstatusSppSretU => .checksumMeasured
  | .sstatusSppUTrap | .sstatusSpp => .checksumTraps

def checksum (lab : Lab) (vs : List Word) : Word :=
  lab.routine.checksum vs

def feed (lab : Lab) : Word → Word → Word :=
  lab.routine.feed

def truncated (lab : Lab) : Bool :=
  lab.routine.truncated

def wordwise (lab : Lab) : Bool :=
  lab.routine.wordwise

end Lab

/-! ## The routines as FNV -/

theorem feedBytes_eq {n : Nat} (h : Word) (v : BitVec (8 * n)) :
    feedBytes h v = absorb PRIME h (byteUnits v) := by
  simp only [feedBytes, shift_mask_eq, absorb, byteUnits, leBytes, List.map_map, List.foldl_map,
    Function.comp_def]

theorem foldBytes_eq {n : Nat} (basis : Word) (vs : List (BitVec (8 * n))) :
    foldBytes basis vs = absorb PRIME basis (vs.flatMap byteUnits) := by
  have hfeed : (feedBytes : Word → BitVec (8 * n) → Word) =
      fun h v => absorb PRIME h (byteUnits v) := by
    ext1 h
    ext1 v
    exact feedBytes_eq h v
  rw [foldBytes, hfeed, absorb_flatMap]

theorem resultChecksum_eq (vs : List Word) :
    resultChecksum vs = absorb PRIME TRUNCATED_BASIS (vs.flatMap (byteUnits (n := 8))) := by
  simp only [resultChecksum, shift_cut_eq, absorb_flatMap]
  simp only [absorb, byteUnits, leBytes, List.map_map, List.foldl_map, Function.comp_def]

theorem bufferFnv1a64_eq (vs : List Word) :
    bufferFnv1a64 (vs.flatMap (leBytes (n := 8))) =
      absorb PRIME TRUNCATED_BASIS (vs.flatMap (byteUnits (n := 8))) := by
  rw [bufferFnv1a64, absorb, ← List.foldl_map, List.map_flatMap]
  rfl

namespace Routine

def basis (r : Routine) : Word :=
  if r.truncated then TRUNCATED_BASIS else OFFSET_BASIS

def units (r : Routine) (v : Word) : List Word :=
  if r.wordwise then [v] else byteUnits (n := 8) v

/-- Every routine is FNV with its own basis and its own units. -/
theorem checksum_eq (r : Routine) (vs : List Word) :
    r.checksum vs = absorb PRIME r.basis (vs.flatMap r.units) := by
  have hbytes : ∀ basis : Word, vs.foldl (feedBytes (n := 8)) basis =
      absorb PRIME basis (vs.flatMap (byteUnits (n := 8))) := fun basis =>
    foldBytes_eq (n := 8) basis vs
  have hwords : ∀ basis : Word, vs.foldl feedWord basis =
      absorb PRIME basis (vs.flatMap fun v => [v]) := fun basis => by
    rw [absorb_flatMap]
    rfl
  cases r with
  | fnv1a64Buffer => exact bufferFnv1a64_eq vs
  | resultChecksum => exact resultChecksum_eq vs
  | fnv1a64Word => exact hwords OFFSET_BASIS
  | fnv1aWord => exact hwords OFFSET_BASIS
  | cksFeed => exact hbytes TRUNCATED_BASIS
  | fold => exact hbytes TRUNCATED_BASIS
  | fnv1aFeed => exact hbytes TRUNCATED_BASIS
  | recordChecksum => exact hbytes TRUNCATED_BASIS
  | checksumMeasured => exact hbytes TRUNCATED_BASIS
  | checksumTraps => exact hbytes TRUNCATED_BASIS
  | digest64 => exact hbytes OFFSET_BASIS
  | fnv1aFour => exact hbytes OFFSET_BASIS
  | fnvUpdate => exact hbytes OFFSET_BASIS
  | fnv1aBytes => exact hbytes OFFSET_BASIS
  | fnv1a64Bytes => exact hbytes OFFSET_BASIS
  | fnv1aWords => exact hbytes OFFSET_BASIS
  | reportVals => exact hbytes OFFSET_BASIS

theorem not_truncated_and_wordwise (r : Routine) :
    r.truncated = false ∨ r.wordwise = false := by
  cases r <;> simp [truncated, wordwise]

theorem units_of_bytes {r : Routine} (h : r.wordwise = false) :
    r.units = byteUnits (n := 8) := by
  ext1 v
  simp [units, h]

theorem units_of_words {r : Routine} (h : r.wordwise = true) : r.units = fun v => [v] := by
  ext1 v
  simp [units, h]

end Routine

/-! ## Which of them are FNV-1a 64 -/

def PRIME_INVERSE : Word := 0xce965057aff6957b

theorem prime_mul_inverse : PRIME * PRIME_INVERSE = 1#64 := by decide

/-- The missing digit is seen in every checksum. -/
theorem absorb_truncated_ne (us : List Word) :
    absorb PRIME TRUNCATED_BASIS us ≠ absorb PRIME OFFSET_BASIS us := by
  intro heq
  have hbasis : TRUNCATED_BASIS = OFFSET_BASIS := absorb_injective prime_mul_inverse us heq
  exact absurd hbasis (by decide)

/-- The missing loop is seen at the value 0: seven multiplications less. -/
theorem absorb_word_ne : absorb PRIME OFFSET_BASIS [0] ≠
    absorb PRIME OFFSET_BASIS (byteUnits (n := 8) (0 : Word)) := by decide

namespace Routine

variable (r : Routine)

theorem checksum_ne_of_truncated (h : r.truncated = true) (vs : List Word) :
    r.checksum vs ≠ fnv1a64 (vs.flatMap (leBytes (n := 8))) := by
  have hbytes : r.wordwise = false := by
    rcases r.not_truncated_and_wordwise with hbasis | hbytes
    · rw [h] at hbasis
      nomatch hbasis
    · exact hbytes
  rw [checksum_eq, fnv1a64_leBytes, units_of_bytes hbytes, basis, if_pos h]
  exact absorb_truncated_ne _

theorem checksum_standard_iff :
    (∀ vs, r.checksum vs = fnv1a64 (vs.flatMap (leBytes (n := 8)))) ↔
      r.truncated = false ∧ r.wordwise = false := by
  constructor
  · intro hstandard
    have hbasis : r.truncated = false := by
      by_contra htruncated
      exact r.checksum_ne_of_truncated (by simpa using htruncated) [] (hstandard [])
    refine ⟨hbasis, ?_⟩
    by_contra hword
    have hzero := hstandard [0]
    rw [checksum_eq, fnv1a64_leBytes, units_of_words (by simpa using hword), basis,
      if_neg (by simp [hbasis])] at hzero
    exact absorb_word_ne (by simpa using hzero)
  · rintro ⟨hbasis, hbytes⟩ vs
    rw [checksum_eq, fnv1a64_leBytes, units_of_bytes hbytes, basis, if_neg (by simp [hbasis])]

theorem basis_inj {r s : Routine} (h : r.basis = s.basis) : r.truncated = s.truncated := by
  have hne : TRUNCATED_BASIS ≠ OFFSET_BASIS := by decide
  unfold basis at h
  cases hr : r.truncated <;> cases hs : s.truncated <;> simp_all

/-- Two routines agree everywhere if they have basis and unit in common, and only
then: the empty record shows the basis, and a single 0 the unit. -/
theorem checksum_agree_iff (s : Routine) :
    (∀ vs, r.checksum vs = s.checksum vs) ↔
      r.truncated = s.truncated ∧ r.wordwise = s.wordwise := by
  constructor
  · intro hagree
    have hbasis : r.basis = s.basis := by
      have hnil := hagree []
      rw [checksum_eq, checksum_eq] at hnil
      exact hnil
    refine ⟨basis_inj hbasis, ?_⟩
    have hzero := hagree [0]
    rw [checksum_eq, checksum_eq, hbasis] at hzero
    have hr := r.not_truncated_and_wordwise
    have hs := s.not_truncated_and_wordwise
    rw [basis_inj hbasis] at hr
    have hword := absorb_word_ne
    unfold basis units at hzero
    cases hrw : r.wordwise <;> cases hsw : s.wordwise
    · rfl
    · have hst : s.truncated = false := by simpa [hsw] using hs
      exact absurd (by simpa [hrw, hsw, hst] using hzero.symm) hword
    · have hst : s.truncated = false := by simpa [hrw] using hr
      exact absurd (by simpa [hrw, hsw, hst] using hzero) hword
    · rfl
  · rintro ⟨hbasis, hunits⟩ vs
    have hunits : r.units = s.units := by
      ext1 v
      simp [units, hunits]
    rw [checksum_eq, checksum_eq, hunits, basis, basis, hbasis]

end Routine

/-- The two 32-bit values of `amo-add-atomicity` start from the truncated basis. -/
theorem fnv1a64Pair_ne (a b : BitVec (8 * 4)) :
    fnv1a64Pair a b ≠ fnv1a64 (leBytes a ++ leBytes b) := by
  have hbytes : leBytes a ++ leBytes b = [a, b].flatMap leBytes := by simp
  rw [hbytes, fnv1a64_leBytes, fnv1a64Pair, foldBytes_eq]
  exact absorb_truncated_ne _

/-- A lab computes FNV-1a 64 of the little-endian bytes of its values, for every
list of values, exactly if its basis is complete and it folds byte by byte.  A lab
with the truncated basis computes it for no list, the one with 32-bit values
included.  Two labs agree for every list exactly if they have basis and unit in
common. -/
theorem lab_checksums (lab : Lab) :
    ((∀ vs, lab.checksum vs = fnv1a64 (vs.flatMap (leBytes (n := 8)))) ↔
      lab.truncated = false ∧ lab.wordwise = false) ∧
    (lab.truncated = true → ∀ vs, lab.checksum vs ≠ fnv1a64 (vs.flatMap (leBytes (n := 8)))) ∧
    (∀ a b : BitVec (8 * 4), fnv1a64Pair a b ≠ fnv1a64 (leBytes a ++ leBytes b)) ∧
    ∀ other : Lab, (∀ vs, lab.checksum vs = other.checksum vs) ↔
      lab.truncated = other.truncated ∧ lab.wordwise = other.wordwise :=
  ⟨lab.routine.checksum_standard_iff, lab.routine.checksum_ne_of_truncated, fnv1a64Pair_ne,
    fun other => lab.routine.checksum_agree_iff other.routine⟩

/-- One recorded 1, in three labs: three different checksums, one of them FNV-1a 64. -/
theorem sample_checksums_differ :
    Lab.pmpNapotMatch.checksum [1] ≠ fnv1a64 (leBytes (n := 8) (1 : Word)) ∧
      Lab.stimecmpOneShot.checksum [1] ≠ fnv1a64 (leBytes (n := 8) (1 : Word)) ∧
      Lab.pmpNapotMatch.checksum [1] ≠ Lab.mstatusSieToggle.checksum [1] ∧
      Lab.stimecmpOneShot.checksum [1] ≠ Lab.mstatusSieToggle.checksum [1] := by
  decide

/-! ## Changed values -/

namespace Routine

variable (r : Routine)

theorem feed_eq (h v : Word) : r.feed h v = absorb PRIME h (r.units v) := by
  cases r with
  | fnv1a64Word =>
      rw [units_of_words rfl]
      rfl
  | fnv1aWord =>
      rw [units_of_words rfl]
      rfl
  | fnv1a64Buffer =>
      rw [units_of_bytes rfl, byteUnits, absorb, List.foldl_map]
      rfl
  | resultChecksum =>
      rw [units_of_bytes rfl]
      simp only [feed, shift_cut_eq, absorb, byteUnits, leBytes, List.map_map, List.foldl_map,
        Function.comp_def]
  | _ =>
      rw [units_of_bytes rfl]
      exact feedBytes_eq (n := 8) h v

theorem foldl_feed_eq (h : Word) (vs : List Word) :
    vs.foldl r.feed h = absorb PRIME h (vs.flatMap r.units) := by
  have hfeed : r.feed = fun h v => absorb PRIME h (r.units v) := by
    ext1 h
    ext1 v
    exact r.feed_eq h v
  rw [hfeed, absorb_flatMap]

/-- The checksum is what the values make of the basis. -/
theorem checksum_eq_foldl (vs : List Word) : r.checksum vs = vs.foldl r.feed r.basis := by
  rw [checksum_eq, foldl_feed_eq]

/-- More values keep different states apart. -/
theorem foldl_feed_injective (vs : List Word) : Function.Injective fun h => vs.foldl r.feed h := by
  intro h h' heq
  simp only [foldl_feed_eq] at heq
  exact absorb_injective prime_mul_inverse _ heq

theorem foldl_feed_ne {r : Routine} (hbytes : r.wordwise = false) {vs ws : List Word}
    (hdiffer : DifferInOneByte (n := 8) vs ws) (h : Word) :
    vs.foldl r.feed h ≠ ws.foldl r.feed h := by
  rw [foldl_feed_eq, foldl_feed_eq, units_of_bytes hbytes]
  exact absorb_ne_of_byte prime_mul_inverse hdiffer h

end Routine

theorem fnv1a64Pair_ne_of_byte {a b c d : BitVec (8 * 4)}
    (hdiffer : DifferInOneByte [a, b] [c, d]) : fnv1a64Pair a b ≠ fnv1a64Pair c d := by
  rw [fnv1a64Pair, fnv1a64Pair, foldBytes_eq, foldBytes_eq]
  exact absorb_ne_of_byte prime_mul_inverse hdiffer _

/-- The byte-wise labs notice every changed byte: a step is injective in the state and
in the byte, equal values behind two different states never make them equal, and two
records that differ in exactly one byte have different checksums, from any state. -/
theorem byte_changes_seen (lab : Lab) (hbytes : lab.wordwise = false) :
    (∀ b : BitVec 8, Function.Injective fun h => xorMul PRIME h (b.setWidth 64)) ∧
    (∀ h, Function.Injective fun b : BitVec 8 => xorMul PRIME h (b.setWidth 64)) ∧
    (∀ g h, ∀ vs ws suffix : List Word, vs.foldl lab.feed g ≠ ws.foldl lab.feed h →
      (vs ++ suffix).foldl lab.feed g ≠ (ws ++ suffix).foldl lab.feed h) ∧
    (∀ h, ∀ vs ws : List Word, DifferInOneByte (n := 8) vs ws →
      vs.foldl lab.feed h ≠ ws.foldl lab.feed h) ∧
    (∀ vs ws, DifferInOneByte (n := 8) vs ws → lab.checksum vs ≠ lab.checksum ws) ∧
    ∀ a b c d : BitVec (8 * 4), DifferInOneByte [a, b] [c, d] →
      fnv1a64Pair a b ≠ fnv1a64Pair c d := by
  refine ⟨fun b => xorMul_injective prime_mul_inverse _, ?_, ?_, ?_, ?_, ?_⟩
  · intro h b c heq
    have hunit := xorMul_unit_injective prime_mul_inverse h heq
    have hbyte := congrArg (BitVec.setWidth 8) hunit
    simpa using hbyte
  · intro g h vs ws suffix hne heq
    rw [List.foldl_append, List.foldl_append] at heq
    exact hne (lab.routine.foldl_feed_injective suffix heq)
  · intro h vs ws hdiffer
    exact Routine.foldl_feed_ne hbytes hdiffer h
  · intro vs ws hdiffer
    rw [Lab.checksum, Lab.checksum, Routine.checksum_eq_foldl, Routine.checksum_eq_foldl]
    exact Routine.foldl_feed_ne hbytes hdiffer _
  · intro a b c d hdiffer
    exact fnv1a64Pair_ne_of_byte hdiffer

/-- The second byte of the first value is 0x20 in one record and 0x30 in the other. -/
theorem sample_byte_seen :
    Lab.pmpPriority.checksum [0x80012000, 7] ≠ Lab.pmpPriority.checksum [0x80013000, 7] :=
  (byte_changes_seen .pmpPriority rfl).2.2.2.2.1 _ _ (by decide)

end Checksum
end BareMetal
