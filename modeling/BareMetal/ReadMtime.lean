import BareMetal.Machine.Hart

/-!
# Reading a 64-bit counter in halves

`read_mtime` of `src/mtimecmp-delta-tracks-mtime/mdt_main.c` and of
`src/mtime-write/mtw_main.c`, which are the same function: the CLINT takes
32-bit accesses only, so `mtime` is read as high, low and high word, again and
again until the two high words agree.

The counter is given by its value at each load; how much it advances between
two loads is left open.  The loads of one iteration that starts at load `i` are
`i`, `i + 1` and `i + 2`, and a call returns the number of the load behind its
last one, so that a later call starts there or further on.
-/

namespace BareMetal
namespace ReadMtime

open Machine

/-- `*CLINT_MTIME_HI` at a load that finds the counter at `w`. -/
def hiWord (w : Word) : Word :=
  w >>> 32

/-- `*CLINT_MTIME_LO`. -/
def loWord (w : Word) : Word :=
  w &&& 0xffffffff

/-- The loop of `read_mtime` from load `i` on; `none` while it is still going. -/
def stableRead (counter : Nat → Word) (i : Nat) : Nat → Option (Word × Nat)
  | 0 => none
  | fuel + 1 =>
      let h1 := hiWord (counter i)
      let l := loWord (counter (i + 1))
      let h2 := hiWord (counter (i + 2))
      if h1 ≠ h2 then stableRead counter (i + 3) fuel
      else some ((h1 <<< 32) ||| l, i + 3)

/-- `read_mtime` of `mdt_main.c`. -/
def mdtReadMtime : (Nat → Word) → Nat → Nat → Option (Word × Nat) :=
  stableRead

/-- `read_mtime` of `mtw_main.c`. -/
def mtwReadMtime : (Nat → Word) → Nat → Nat → Option (Word × Nat) :=
  stableRead

/-- The counter never goes back from one load to the next. -/
def Nondecreasing (counter : Nat → Word) : Prop :=
  ∀ i, counter i ≤ counter (i + 1)

/-- The high word changes during the three loads from `i` on. -/
def Carry (counter : Nat → Word) (i : Nat) : Prop :=
  hiWord (counter i) ≠ hiWord (counter (i + 2))

/-! ## Halves -/

theorem hiWord_toNat (w : Word) : (hiWord w).toNat = w.toNat / 2 ^ 32 := by
  rw [hiWord, BitVec.toNat_ushiftRight, Nat.shiftRight_eq_div_pow]

theorem loWord_toNat (w : Word) : (loWord w).toNat = w.toNat % 2 ^ 32 := by
  rw [loWord, BitVec.toNat_and]
  exact Nat.and_two_pow_sub_one_eq_mod w.toNat 32

/-- Put together, the halves of a word are the word. -/
theorem hiWord_loWord (w : Word) : (hiWord w <<< 32) ||| loWord w = w := by
  apply BitVec.eq_of_toNat_eq
  have hword : w.toNat < 2 ^ 64 := w.isLt
  have hlow : w.toNat % 2 ^ 32 < 2 ^ 32 := Nat.mod_lt _ (by decide)
  have hhigh : w.toNat / 2 ^ 32 * 2 ^ 32 < 2 ^ 64 := by omega
  rw [BitVec.toNat_or, BitVec.toNat_shiftLeft, hiWord_toNat, loWord_toNat, Nat.shiftLeft_eq,
    Nat.mod_eq_of_lt hhigh, ← Nat.shiftLeft_eq, ← Nat.shiftLeft_add_eq_or_of_lt hlow,
    Nat.shiftLeft_eq]
  omega

/-! ## One call -/

section Call

variable {counter : Nat → Word} (hmono : Nondecreasing counter)

include hmono

theorem counter_le {i j : Nat} (hij : i ≤ j) : counter i ≤ counter j := by
  induction j with
  | zero =>
      obtain rfl : i = 0 := by omega
      exact BitVec.le_refl _
  | succ j ih =>
      rcases Nat.lt_or_ge i (j + 1) with hlt | hge
      · exact BitVec.le_trans (ih (by omega)) (hmono j)
      · obtain rfl : i = j + 1 := by omega
        exact BitVec.le_refl _

/-- Without a carry the low word belongs to the high word read before it. -/
theorem no_tear {i : Nat} (hsame : ¬ Carry counter i) :
    (hiWord (counter i) <<< 32) ||| loWord (counter (i + 1)) = counter (i + 1) := by
  have hfirst : (counter i).toNat ≤ (counter (i + 1)).toNat := hmono i
  have hlast : (counter (i + 1)).toNat ≤ (counter (i + 2)).toNat := hmono (i + 1)
  have hends := congrArg BitVec.toNat (not_not.mp hsame)
  rw [hiWord_toNat, hiWord_toNat] at hends
  -- the middle load is between two loads with the same high word
  have hmiddle : hiWord (counter i) = hiWord (counter (i + 1)) := by
    apply BitVec.eq_of_toNat_eq
    rw [hiWord_toNat, hiWord_toNat]
    omega
  rw [hmiddle, hiWord_loWord]

/-- The call ends with the first iteration that sees no carry, and returns the
counter at the low load of it. -/
theorem stableRead_eq {k : Nat} : ∀ {i : Nat}, (∀ j, j < k → Carry counter (i + 3 * j)) →
    ¬ Carry counter (i + 3 * k) → ∀ fuel, stableRead counter i fuel =
      if fuel ≤ k then none else some (counter (i + 3 * k + 1), i + 3 * k + 3) := by
  induction k with
  | zero =>
      intro i _ hsame fuel
      cases fuel with
      | zero => rfl
      | succ fuel =>
          have hread := no_tear hmono (i := i) hsame
          have hends : ¬ (hiWord (counter i) ≠ hiWord (counter (i + 2))) := hsame
          rw [if_neg (by omega), stableRead, if_neg hends, hread]
  | succ k ih =>
      intro i hcarry hsame fuel
      cases fuel with
      | zero => rfl
      | succ fuel =>
          have hfirst : hiWord (counter i) ≠ hiWord (counter (i + 2)) := hcarry 0 (by omega)
          have hstart : ∀ j, i + 3 + 3 * j = i + 3 * (j + 1) := fun j => by omega
          have hrest := ih (i := i + 3)
            (fun j hj => by rw [hstart]; exact hcarry (j + 1) (by omega))
            (by rw [hstart]; exact hsame) fuel
          rw [hstart] at hrest
          rw [stableRead, if_pos hfirst, hrest]
          by_cases hfuel : fuel ≤ k
          · rw [if_pos hfuel, if_pos (by omega)]
          · rw [if_neg hfuel, if_neg (by omega)]

/-- As long as there are carries, the high word grows with each iteration. -/
theorem hiWord_ge {i k : Nat} (hcarry : ∀ j, j < k → Carry counter (i + 3 * j)) :
    k ≤ (hiWord (counter (i + 3 * k))).toNat := by
  induction k with
  | zero => exact Nat.zero_le _
  | succ k ih =>
      have hbefore := ih fun j hj => hcarry j (by omega)
      have hends : (hiWord (counter (i + 3 * k))).toNat ≠
          (hiWord (counter (i + 3 * k + 2))).toNat := fun heq =>
        hcarry k (by omega) (BitVec.eq_of_toNat_eq heq)
      have hfirst : (counter (i + 3 * k)).toNat ≤ (counter (i + 3 * k + 2)).toNat :=
        counter_le hmono (by omega)
      have hlast : (counter (i + 3 * k + 2)).toNat ≤ (counter (i + 3 * (k + 1))).toNat :=
        counter_le hmono (by omega)
      rw [hiWord_toNat] at *
      rw [hiWord_toNat] at hends
      omega

/-- Some iteration sees no carry. -/
theorem exists_no_carry (i : Nat) :
    ∃ k, k < 2 ^ 32 ∧ (∀ j, j < k → Carry counter (i + 3 * j)) ∧ ¬ Carry counter (i + 3 * k) := by
  by_contra hnone
  have hall : ∀ k, k ≤ 2 ^ 32 → ∀ j, j < k → Carry counter (i + 3 * j) := by
    intro k hk
    induction k with
    | zero =>
        intro j hj
        omega
    | succ k ih =>
        have hbefore := ih (by omega)
        have hcarry : Carry counter (i + 3 * k) := by
          by_contra hsame
          exact hnone ⟨k, by omega, hbefore, hsame⟩
        intro j hj
        rcases Nat.lt_or_ge j k with hlt | hge
        · exact hbefore j hlt
        · obtain rfl : j = k := by omega
          exact hcarry
  have hgrown := hiWord_ge hmono (i := i) (hall (2 ^ 32) (Nat.le_refl _))
  have hword := (counter (i + 3 * 2 ^ 32)).isLt
  rw [hiWord_toNat] at hgrown
  omega

/-- What a call returns is the counter at the low load of its last iteration. -/
theorem stableRead_value {i fuel j : Nat} {v : Word}
    (hread : stableRead counter i fuel = some (v, j)) :
    ∃ k, j = i + 3 * k + 3 ∧ v = counter (i + 3 * k + 1) := by
  obtain ⟨k, -, hcarry, hsame⟩ := exists_no_carry hmono i
  rw [stableRead_eq hmono hcarry hsame] at hread
  split at hread
  · cases hread
  · rw [Option.some.injEq, Prod.mk.injEq] at hread
    exact ⟨k, hread.2.symm, hread.1.symm⟩

/-- A later call does not return less. -/
theorem stableRead_ordered {i i' fuel fuel' j j' : Nat} {v v' : Word}
    (hread : stableRead counter i fuel = some (v, j)) (hlater : j ≤ i')
    (hread' : stableRead counter i' fuel' = some (v', j')) : v ≤ v' := by
  obtain ⟨k, hj, rfl⟩ := stableRead_value hmono hread
  obtain ⟨k', -, rfl⟩ := stableRead_value hmono hread'
  exact counter_le hmono (by omega)

end Call

/-! ## The back-to-back pairs -/

/-- What the second part of `main` in `mdt_main.c` keeps: the pairs it feeds to
the checksum and prints, the least and greatest delta, the number of zero
deltas, and the checks made and failed. -/
structure BackToBack where
  pairs : List (Word × Word)
  bbmin : Word
  bbmax : Word
  bbzero : Word
  nchecks : Nat
  fails : Nat

/-- One turn of the loop: `t0`, `t1` immediately, and the check. -/
def backToBackPair (counter : Nat → Word) (fuel : Nat) (s : BackToBack) (i : Nat) :
    Option (BackToBack × Nat) :=
  (mdtReadMtime counter i fuel).bind fun t0 =>
    (mdtReadMtime counter t0.2 fuel).map fun t1 =>
      let delta := t1.1 - t0.1
      (⟨s.pairs ++ [(t0.1, t1.1)],
        if delta < s.bbmin then delta else s.bbmin,
        if s.bbmax < delta then delta else s.bbmax,
        if delta = 0 then s.bbzero + 1 else s.bbzero,
        s.nchecks + 1,
        if t0.1 ≤ t1.1 then s.fails else s.fails + 1⟩, t1.2)

/-- `n` turns of the loop. -/
def backToBack (counter : Nat → Word) (fuel : Nat) :
    Nat → BackToBack → Nat → Option (BackToBack × Nat)
  | 0, s, i => some (s, i)
  | n + 1, s, i => (backToBackPair counter fuel s i).bind fun r => backToBack counter fuel n r.1 r.2

section Pairs

variable {counter : Nat → Word} (hmono : Nondecreasing counter)

include hmono

theorem backToBackPair_passes {fuel i : Nat} {s : BackToBack} {r : BackToBack × Nat}
    (hpair : backToBackPair counter fuel s i = some r) :
    r.1.fails = s.fails ∧ r.1.nchecks = s.nchecks + 1 := by
  obtain ⟨t0, h0, hrest⟩ := Option.bind_eq_some_iff.mp hpair
  obtain ⟨t1, h1, rfl⟩ := Option.map_eq_some_iff.mp hrest
  have hordered := stableRead_ordered hmono h0 (Nat.le_refl t0.2) h1
  exact ⟨if_pos hordered, rfl⟩

/-- No check of the loop fails. -/
theorem backToBack_passes {fuel n : Nat} : ∀ {i : Nat} {s : BackToBack} {r : BackToBack × Nat},
    backToBack counter fuel n s i = some r →
      r.1.fails = s.fails ∧ r.1.nchecks = s.nchecks + n := by
  induction n with
  | zero =>
      intro i s r hloop
      obtain rfl := Option.some.inj hloop
      exact ⟨rfl, rfl⟩
  | succ n ih =>
      intro i s r hloop
      obtain ⟨mid, hpair, hrest⟩ := Option.bind_eq_some_iff.mp hloop
      obtain ⟨hfails, hchecks⟩ := backToBackPair_passes hmono hpair
      obtain ⟨hfails', hchecks'⟩ := ih hrest
      exact ⟨hfails'.trans hfails, by omega⟩

end Pairs

/-- For every counter that does not go back, and both functions: a call that
returns has the counter at the low load of its last iteration, hence a value
between those at call and return; a later call does not return less; the loop
ends with the first iteration that sees no carry, which exists; and none of the
checks on back-to-back pairs fails. -/
theorem read_mtime_stable {counter : Nat → Word} (hmono : Nondecreasing counter)
    {read : (Nat → Word) → Nat → Nat → Option (Word × Nat)}
    (hread : read = mdtReadMtime ∨ read = mtwReadMtime) :
    (∀ i fuel v j, read counter i fuel = some (v, j) →
      ∃ k, j = i + 3 * k + 3 ∧ v = counter (i + 3 * k + 1) ∧
        ∀ atCall atReturn, atCall ≤ counter i → counter (i + 3 * k + 2) ≤ atReturn →
          atCall ≤ v ∧ v ≤ atReturn) ∧
      (∀ i i' fuel fuel' v v' j j', read counter i fuel = some (v, j) → j ≤ i' →
        read counter i' fuel' = some (v', j') → v ≤ v') ∧
      (∀ i k, (∀ j, j < k → Carry counter (i + 3 * j)) → ¬ Carry counter (i + 3 * k) →
        ∀ fuel, read counter i fuel =
          if fuel ≤ k then none else some (counter (i + 3 * k + 1), i + 3 * k + 3)) ∧
      (∀ i, (read counter i (2 ^ 32)).isSome) ∧
      ∀ fuel n s i r, backToBack counter fuel n s i = some r →
        r.1.fails = s.fails ∧ r.1.nchecks = s.nchecks + n := by
  obtain rfl : read = stableRead := by
    rcases hread with rfl | rfl
    · rfl
    · rfl
  refine ⟨fun i fuel v j hv => ?_, fun i i' fuel fuel' v v' j j' h hle h' =>
    stableRead_ordered hmono h hle h', fun i k hcarry hsame => stableRead_eq hmono hcarry hsame,
    fun i => ?_, fun fuel n s i r hloop => backToBack_passes hmono hloop⟩
  · obtain ⟨k, hj, rfl⟩ := stableRead_value hmono hv
    refine ⟨k, hj, rfl, fun atCall atReturn hcall hreturn => ⟨?_, ?_⟩⟩
    · exact BitVec.le_trans hcall (counter_le hmono (by omega))
    · exact BitVec.le_trans (hmono _) hreturn
  · obtain ⟨k, hk, hcarry, hsame⟩ := exists_no_carry hmono i
    rw [stableRead_eq hmono hcarry hsame, if_neg (by omega)]
    rfl

/-- A counter that carries into the high word while it is read. -/
def carryingCounter (i : Nat) : Word :=
  if i = 0 then 0xffffffff else 0x100000000

/-- The first iteration is given up and the second one returns the counter. -/
theorem read_mtime_carrying :
    mdtReadMtime carryingCounter 0 2 = some (0x100000000, 6) := by
  have hmono : Nondecreasing carryingCounter := by
    intro i
    cases i with
    | zero => decide
    | succ i => exact BitVec.le_refl _
  obtain ⟨-, -, hends, -⟩ := read_mtime_stable hmono (Or.inl rfl)
  have hcarry : ∀ j, j < 1 → Carry carryingCounter (0 + 3 * j) := by
    intro j hj
    obtain rfl : j = 0 := by omega
    unfold Carry
    decide
  have hsame : ¬ Carry carryingCounter (0 + 3 * 1) := by
    unfold Carry
    decide
  exact hends 0 1 hcarry hsame 2

end ReadMtime
end BareMetal
