import BareMetal.Checksum

/-!
# The record of pmp-napot-encode

`src/pmp-napot-encode/pne_main.c` writes three NAPOT patterns and two
configurations to the PMP CSRs, restores the boot values, and keeps what it has
written and read back in the array `rec` for the checksum.

It keeps fourteen values; `rec` has room for twelve.  The two stores behind the
array are made whatever the CSRs read as (`record_overrun`).
-/

namespace BareMetal
namespace PmpNapotEncode

open Machine Checksum

def NAPOT_PAT_4K : Word := 0x200009ff
def NAPOT_PAT_64K : Word := 0x20101fff
def NAPOT_PAT_1M : Word := 0x2201ffff
def PMPCFG0_A_NAPOT : Word := 0x18
def PMPCFG0_NAPOT_RWX : Word := 0x1f

def patterns : List Word :=
  [NAPOT_PAT_4K, NAPOT_PAT_64K, NAPOT_PAT_1M]

/-- The length of `rec`. -/
def REC_LEN : Nat := 12

/-- The CSR reads made so far, the record, and the counters of `check`. -/
structure Lab where
  reads : Nat
  record : Nat → Word
  recN : Nat
  checks : Nat
  fails : Nat

/-- A step of `main`; it fails at a store outside of `rec`, with the index of the store. -/
abbrev Run := StateT Lab (Except Nat)

/-- A CSR read; `csr k` is what read number `k` returns. -/
def csrRead (csr : Nat → Word) : Run Word := fun s =>
  .ok (csr s.reads, { s with reads := s.reads + 1 })

def check (ok : Prop) [Decidable ok] : Run Unit := fun s =>
  .ok ((), { s with checks := s.checks + 1, fails := if ok then s.fails else s.fails + 1 })

/-- `rec[rec_n++] = v` for an array of `size` words. -/
def store (size : Nat) (v : Word) : Run Unit := fun s =>
  if s.recN < size then
    .ok ((), { s with record := Function.update s.record s.recN v, recN := s.recN + 1 })
  else .error s.recN

/-- `record_checksum(rec, rec_n)`. -/
def checksumOfRec : Run Word := fun s =>
  .ok (recordChecksum ((List.range s.recN).map s.record), s)

/-- One round of the loop over `patterns`. -/
def tryPattern (size : Nat) (csr : Nat → Word) (pattern : Word) : Run Unit := do
  let rb ← csrRead csr
  check (rb = pattern)
  store size pattern
  store size rb

/-- `main` up to the checksum, with `rec` of `size` words. -/
def main (size : Nat) (csr : Nat → Word) : Run Word := do
  let bootAddr0 ← csrRead csr
  let bootAddr1 ← csrRead csr
  let bootCfg0 ← csrRead csr
  store size bootAddr0
  store size bootAddr1
  store size bootCfg0
  patterns.forM (tryPattern size csr)
  let cfgRb := (← csrRead csr) &&& 0xff
  check (cfgRb &&& 0x18 = 0x18)
  check (cfgRb = PMPCFG0_A_NAPOT)
  store size PMPCFG0_A_NAPOT
  store size cfgRb
  let cfgRb := (← csrRead csr) &&& 0xff
  check (cfgRb = PMPCFG0_NAPOT_RWX)
  store size PMPCFG0_NAPOT_RWX
  store size cfgRb
  let restore ← csrRead csr
  check (restore = bootAddr0)
  let restore ← csrRead csr
  check (restore = bootAddr1)
  let restore ← csrRead csr
  check (restore = bootCfg0)
  store size restore
  checksumOfRec

/-- `rec` is not initialised. -/
def entry (junk : Nat → Word) : Lab :=
  ⟨0, junk, 0, 0, 0⟩

/-- The values that are meant to be recorded, in order. -/
def recorded (csr : Nat → Word) : List Word :=
  [csr 0, csr 1, csr 2, NAPOT_PAT_4K, csr 3, NAPOT_PAT_64K, csr 4, NAPOT_PAT_1M, csr 5,
    PMPCFG0_A_NAPOT, csr 6 &&& 0xff, PMPCFG0_NAPOT_RWX, csr 7 &&& 0xff, csr 10]

/-- Every store is inside `rec`, and the checksum is that of the values recorded. -/
def RecordKept (size : Nat) (csr junk : Nat → Word) : Prop :=
  ∃ s, main size csr (entry junk) = .ok (recordChecksum (recorded csr), s)

/-! ## What the steps do to the record -/

/-- After some CSR reads, with the values `vs` in the record. -/
structure Holds (reads : Nat) (vs : List Word) (s : Lab) : Prop where
  reads : s.reads = reads
  recN : s.recN = vs.length
  values : (List.range s.recN).map s.record = vs

/-- How `m` ends from every state after `reads` CSR reads with the values `vs`. -/
def Ends (m : Run Word) (reads : Nat) (vs : List Word) (out : Except Nat Word) : Prop :=
  ∀ s, Holds reads vs s → (m s).map Prod.fst = out

section Steps

variable {size reads : Nat} {csr : Nat → Word} {vs : List Word} {out : Except Nat Word}

theorem ends_csrRead {f : Word → Run Word} (h : Ends (f (csr reads)) (reads + 1) vs out) :
    Ends (csrRead csr >>= f) reads vs out := by
  intro s hs
  rw [← h { s with reads := s.reads + 1 } ⟨congrArg (· + 1) hs.reads, hs.recN, hs.values⟩,
    ← hs.reads]
  rfl

theorem ends_check {ok : Prop} [Decidable ok] {f : Unit → Run Word}
    (h : Ends (f ()) reads vs out) : Ends (check ok >>= f) reads vs out := by
  intro s hs
  exact h { s with checks := s.checks + 1, fails := if ok then s.fails else s.fails + 1 }
    ⟨hs.reads, hs.recN, hs.values⟩

theorem Holds.store {s : Lab} (hs : Holds reads vs s) (v : Word) :
    Holds reads (vs ++ [v])
      { s with record := Function.update s.record s.recN v, recN := s.recN + 1 } where
  reads := hs.reads
  recN := by rw [hs.recN, List.length_append, List.length_singleton]
  values := by
    have hbefore : (List.range s.recN).map (Function.update s.record s.recN v) = vs := by
      rw [← hs.values]
      apply List.map_congr_left
      intro k hk
      exact Function.update_of_ne (Nat.ne_of_lt (List.mem_range.mp hk)) _ _
    have hlast : Function.update s.record s.recN v s.recN = v := Function.update_self ..
    rw [List.range_succ, List.map_append, hbefore]
    exact congrArg (fun w => vs ++ [w]) hlast

/-- The end of a run that means to store `total` values and then take the checksum of
`final`. -/
def outcome (size total : Nat) (final : List Word) : Except Nat Word :=
  if total ≤ size then .ok (recordChecksum final) else .error size

variable {total : Nat} {final : List Word}

/-- The first store outside has the index `size`. -/
theorem ends_store {v : Word} {f : Unit → Run Word} (hle : vs.length ≤ size)
    (htotal : vs.length < total)
    (h : (vs ++ [v]).length ≤ size → Ends (f ()) reads (vs ++ [v]) (outcome size total final)) :
    Ends (store size v >>= f) reads vs (outcome size total final) := by
  intro s hs
  by_cases hroom : s.recN < size
  · have hstep : (store size v >>= f) s = f () { s with
        record := Function.update s.record s.recN v, recN := s.recN + 1 } := by
      show (store size v s >>= fun out => f out.1 out.2) = _
      rw [store, if_pos hroom]
      rfl
    have hnext : (vs ++ [v]).length ≤ size := by
      rw [List.length_append, List.length_singleton, ← hs.recN]
      exact hroom
    rw [hstep]
    exact h hnext _ (hs.store v)
  · have hstep : (store size v >>= f) s = .error s.recN := by
      show (store size v s >>= fun out => f out.1 out.2) = _
      rw [store, if_neg hroom]
      rfl
    have hfull : s.recN = size := by
      rw [hs.recN] at hroom ⊢
      omega
    have hshort : ¬ total ≤ size := by
      rw [hs.recN] at hfull
      omega
    rw [hstep, outcome, if_neg hshort, hfull]
    rfl

theorem ends_tryPattern {pattern : Word} {f : Unit → Run Word} (hle : vs.length ≤ size)
    (htotal : vs.length + 1 < total)
    (h : (vs ++ [pattern] ++ [csr reads]).length ≤ size →
      Ends (f ()) (reads + 1) (vs ++ [pattern] ++ [csr reads]) (outcome size total final)) :
    Ends (tryPattern size csr pattern >>= f) reads vs (outcome size total final) := by
  simp only [tryPattern, bind_assoc]
  refine ends_csrRead (ends_check (ends_store hle (by omega) fun hle => ?_))
  refine ends_store hle ?_ h
  rw [List.length_append, List.length_singleton]
  exact htotal

theorem ends_checksumOfRec (hall : total ≤ size) :
    Ends checksumOfRec reads vs (outcome size total vs) := by
  intro s hs
  rw [outcome, if_pos hall]
  show Except.ok (recordChecksum ((List.range s.recN).map s.record)) = _
  rw [hs.values]

theorem holds_entry (junk : Nat → Word) : Holds 0 [] (entry junk) :=
  ⟨rfl, rfl, rfl⟩

end Steps

/-- The stores of `main` are those of the fourteen values, whatever the CSRs and the
checks say. -/
theorem main_ends (size : Nat) (csr : Nat → Word) :
    Ends (main size csr) 0 [] (outcome size 14 (recorded csr)) := by
  unfold main patterns
  simp only [List.forM_eq_forM, List.forM_cons, List.forM_nil, bind_assoc, pure_bind]
  refine ends_csrRead (ends_csrRead (ends_csrRead ?_))
  refine ends_store (Nat.zero_le size) (by simp) fun hle => ?_
  refine ends_store hle (by simp) fun hle => ?_
  refine ends_store hle (by simp) fun hle => ?_
  refine ends_tryPattern hle (by simp) fun hle => ?_
  refine ends_tryPattern hle (by simp) fun hle => ?_
  refine ends_tryPattern hle (by simp) fun hle => ?_
  refine ends_csrRead (ends_check (ends_check ?_))
  refine ends_store hle (by simp) fun hle => ?_
  refine ends_store hle (by simp) fun hle => ?_
  refine ends_csrRead (ends_check ?_)
  refine ends_store hle (by simp) fun hle => ?_
  refine ends_store hle (by simp) fun hle => ?_
  refine ends_csrRead (ends_check (ends_csrRead (ends_check (ends_csrRead (ends_check ?_)))))
  refine ends_store hle (by simp) fun hle => ?_
  have hall : 14 ≤ size := by simpa using hle
  simp only [List.nil_append, List.cons_append, Nat.reduceAdd]
  exact ends_checksumOfRec hall

/-- An array of fourteen words would do. -/
theorem recordKept_iff (size : Nat) (csr junk : Nat → Word) :
    RecordKept size csr junk ↔ 14 ≤ size := by
  have hmain := main_ends size csr (entry junk) (holds_entry junk)
  by_cases hsize : 14 ≤ size
  · rw [outcome, if_pos hsize] at hmain
    cases hrun : main size csr (entry junk) with
    | error k =>
        rw [hrun] at hmain
        nomatch hmain
    | ok out =>
        rw [hrun] at hmain
        have hout : out.1 = recordChecksum (recorded csr) := Except.ok.inj hmain
        refine ⟨fun _ => hsize, fun _ => ⟨out.2, ?_⟩⟩
        rw [hrun, ← hout]
  · rw [outcome, if_neg hsize] at hmain
    refine ⟨?_, fun h => absurd h hsize⟩
    rintro ⟨s, hrun⟩
    rw [hrun] at hmain
    nomatch hmain

/-- The thirteenth store is outside of `rec`, in every run. -/
theorem record_overrun (csr junk : Nat → Word) :
    (main REC_LEN csr (entry junk)).map Prod.fst = .error REC_LEN ∧
      ¬ RecordKept REC_LEN csr junk := by
  refine ⟨main_ends REC_LEN csr (entry junk) (holds_entry junk), ?_⟩
  rw [recordKept_iff]
  decide

/-- CSRs that are zero at boot and read back what is written. -/
def faithfulReads (k : Nat) : Word :=
  [0, 0, 0, NAPOT_PAT_4K, NAPOT_PAT_64K, NAPOT_PAT_1M, PMPCFG0_A_NAPOT,
    PMPCFG0_NAPOT_RWX].getD k 0

theorem faithful_reads_overrun : ¬ RecordKept REC_LEN faithfulReads fun _ => 0 := by
  rw [recordKept_iff]
  decide

end PmpNapotEncode
end BareMetal
