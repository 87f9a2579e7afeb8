import BareMetal.Machine.Hart

/-!
# Loops that stride over the machine words

`for (b = start; b <= hi; b += step)` need not end: `b` wraps, and may step over
the words above `hi` each time around.  `strided_iff` says which values `b` takes
if the loop ends.

A bucket of width `w` begins at each multiple of `w`, all counted without the wrap;
round `r` are the numbers from `r * M` up to `(r + 1) * M`.  The rules below are
about the residues mod `M`.
-/

namespace BareMetal
namespace Machine

/-- `for (b = start; b <= hi; b += step) body(b);`, with the list of the `b` for which
the body runs. -/
def strided (hi step : Word) : Nat → Word → Option (List Word)
  | 0, _ => none
  | fuel + 1, b =>
      if b ≤ hi then (strided hi step fuel (b + step)).map (b :: ·) else some []

/-- The value of `b` after `k` rounds of the loop. -/
def stride (b step : Word) (k : Nat) : Word :=
  BitVec.ofNat 64 (b.toNat + k * step.toNat)

@[simp] theorem toNat_stride (b step : Word) (k : Nat) :
    (stride b step k).toNat = (b.toNat + k * step.toNat) % 2 ^ 64 :=
  BitVec.toNat_ofNat _ _

@[simp] theorem stride_zero (b step : Word) : stride b step 0 = b := by
  rw [stride, Nat.zero_mul, Nat.add_zero, BitVec.ofNat_toNat, BitVec.setWidth_eq]

theorem stride_add (b step : Word) (k : Nat) :
    stride (b + step) step k = stride b step (k + 1) := by
  apply BitVec.eq_of_toNat_eq
  rw [toNat_stride, toNat_stride, BitVec.toNat_add, Nat.mod_add_mod, Nat.add_one_mul]
  congr 1
  omega

theorem stride_succ (b step : Word) (k : Nat) :
    stride b step (k + 1) = stride b step k + step := by
  apply BitVec.eq_of_toNat_eq
  rw [toNat_stride, BitVec.toNat_add, toNat_stride, Nat.mod_add_mod, Nat.add_one_mul]
  congr 1
  omega

/-- The loop ends at the first stride beyond `hi`. -/
theorem strided_iff {hi step b : Word} {bs : List Word} :
    (∃ fuel, strided hi step fuel b = some bs) ↔
      ∃ K, (∀ k < K, stride b step k ≤ hi) ∧ hi < stride b step K ∧
        bs = (List.range K).map (stride b step) := by
  constructor
  · rintro ⟨fuel, hrun⟩
    induction fuel generalizing b bs with
    | zero => cases hrun
    | succ fuel ih =>
        rw [strided] at hrun
        split at hrun
        · next hin =>
          obtain ⟨rest, hrest, rfl⟩ := Option.map_eq_some_iff.mp hrun
          obtain ⟨K, hbelow, habove, rfl⟩ := ih hrest
          refine ⟨K + 1, ?_, ?_, ?_⟩
          · rintro (_ | k) hk
            · rw [stride_zero]
              exact hin
            · rw [← stride_add]
              exact hbelow k (by omega)
          · rw [← stride_add]
            exact habove
          · rw [List.range_succ_eq_map, List.map_cons, stride_zero, List.map_map]
            congr 1
            exact List.map_congr_left fun k _ => stride_add b step k
        · next hout =>
          cases hrun
          refine ⟨0, fun k hk => absurd hk (Nat.not_lt_zero k), ?_, rfl⟩
          rw [stride_zero]
          exact BitVec.not_le.mp hout
  · rintro ⟨K, hbelow, habove, rfl⟩
    induction K generalizing b with
    | zero =>
        rw [stride_zero] at habove
        exact ⟨1, if_neg (BitVec.not_le.mpr habove)⟩
    | succ K ih =>
        have hin : b ≤ hi := by
          have hfirst := hbelow 0 (Nat.succ_pos K)
          rwa [stride_zero] at hfirst
        obtain ⟨fuel, hrun⟩ := ih (b := b + step)
          (fun k hk => by
            rw [stride_add]
            exact hbelow (k + 1) (by omega))
          (by rw [stride_add]; exact habove)
        refine ⟨fuel + 1, ?_⟩
        rw [strided, if_pos hin, hrun, Option.map_some, List.range_succ_eq_map, List.map_cons,
          stride_zero, List.map_map]
        congr 2
        exact List.map_congr_left fun k _ => stride_add b step k

/-- Up to the greatest word the loop never ends. -/
theorem strided_allOnes (step : Word) (fuel : Nat) (b : Word) :
    strided (BitVec.allOnes 64) step fuel b = none := by
  induction fuel generalizing b with
  | zero => rfl
  | succ fuel ih =>
      have hin : b ≤ BitVec.allOnes 64 := by
        rw [BitVec.le_def, BitVec.toNat_allOnes]
        omega
      rw [strided, if_pos hin, ih, Option.map_none]

/-! ## Rounds of a modulus -/

section Rounds

/-- The bucket of `v` in round `r` begins in that round. -/
def Begins (M w r v : Nat) : Prop :=
  r * M ≤ (r * M + v) / w * w

/-- The bucket of `v` in round `r` ends before that round does. -/
def Closes (M w r v : Nat) : Prop :=
  ((r * M + v) / w + 1) * w < (r + 1) * M

variable {M w c hi v : Nat}

theorem round_eq {a r : Nat} (hlow : r * M ≤ a) (hhigh : a < (r + 1) * M) :
    a / M = r ∧ r * M + a % M = a := by
  have hdiv : a / M = r := Nat.div_eq_of_lt_le hlow hhigh
  refine ⟨hdiv, ?_⟩
  have hsplit := Nat.div_add_mod' a M
  rwa [hdiv] at hsplit

/-- The residue of a bucket's beginning is not above `v`, and that of the next one is,
exactly for the buckets of `v` that lie inside a round. -/
theorem caught_iff (hw : 0 < w) (hwM : w < M) (hv : v < M) (j : Nat) :
    j * w % M ≤ v ∧ v < (j + 1) * w % M ↔
      ∃ r, j = (r * M + v) / w ∧ Begins M w r v ∧ Closes M w r v := by
  constructor
  · rintro ⟨hbegin, hend⟩
    have hsplit := Nat.div_add_mod' (j * w) M
    have hmod : j * w % M < M := Nat.mod_lt _ (by omega)
    generalize j * w / M = r at hsplit
    have hnext : (j + 1) * w = j * w + w := Nat.add_one_mul j w
    have hround : (r + 1) * M = r * M + M := Nat.add_one_mul r M
    have hround' : (r + 1 + 1) * M = (r + 1) * M + M := Nat.add_one_mul (r + 1) M
    by_cases hinside : (j + 1) * w < (r + 1) * M
    · obtain ⟨-, hresidue⟩ := round_eq (r := r) (by omega) hinside
      have hj : (r * M + v) / w = j := Nat.div_eq_of_lt_le (by omega) (by omega)
      refine ⟨r, hj.symm, ?_, ?_⟩
      · rw [Begins, hj]
        omega
      · rw [Closes, hj]
        exact hinside
    · -- the next bucket begins behind the wrap, and below this one
      obtain ⟨-, hresidue⟩ := round_eq (r := r + 1) (by omega) (show (j + 1) * w < (r + 1 + 1) * M by omega)
      omega
  · rintro ⟨r, hj, hbegin, hend⟩
    rw [Begins, ← hj] at hbegin
    rw [Closes, ← hj] at hend
    have hround : (r + 1) * M = r * M + M := Nat.add_one_mul r M
    have hnext : (j + 1) * w = j * w + w := Nat.add_one_mul j w
    have hlow : j * w ≤ r * M + v := by
      rw [hj]
      exact Nat.div_mul_le_self _ _
    have hhigh : r * M + v < (j + 1) * w := by
      rw [hnext, hj]
      exact Nat.lt_div_mul_add hw
    obtain ⟨-, hthis⟩ := round_eq hbegin (by omega)
    obtain ⟨-, hlast⟩ := round_eq (r := r) (by omega) hend
    omega

/-- A bucket beginning above `hi` in its round ends the bucket of `hi` in there. -/
theorem closes_of_lt {j r : Nat} (hround : j * w / M = r) (hM : 0 < M) (hhi : hi < j * w % M) :
    Closes M w r hi := by
  have hsplit := Nat.div_add_mod' (j * w) M
  have hmod : j * w % M < M := Nat.mod_lt _ hM
  rw [hround] at hsplit
  have hnext : (r + 1) * M = r * M + M := Nat.add_one_mul r M
  have hw : 0 < w := Nat.pos_of_ne_zero (by rintro rfl; simp at hhi)
  have hbelow : (r * M + hi) / w < j := by
    rw [Nat.div_lt_iff_lt_mul hw]
    omega
  have hle : ((r * M + hi) / w + 1) * w ≤ j * w := Nat.mul_le_mul_right w hbelow
  rw [Closes]
  omega

/-- The bucket behind that of `hi`, if it begins in the same round. -/
theorem lt_of_closes {r : Nat} (hw : 0 < w) (h : Closes M w r hi) :
    hi < ((r * M + hi) / w + 1) * w % M := by
  have habove : r * M + hi < ((r * M + hi) / w + 1) * w := by
    rw [Nat.add_one_mul]
    exact Nat.lt_div_mul_add hw
  obtain ⟨-, hresidue⟩ := round_eq (r := r) (by omega) h
  omega

/-- Round `R` is the first in which the bucket of `hi` is closed. -/
structure FirstClosed (M w R hi : Nat) : Prop where
  closed : Closes M w R hi
  open_before : ∀ r < R, ¬ Closes M w r hi

/-- The buckets from number `c` on, up to the first that begins above `hi`: these are
the ones up to that of `hi` in the round that closes it first. -/
theorem firstClosed_iff (hw : 0 < w) (hM : 0 < M) (hc : c * w ≤ hi) {J : Nat} (hJ : c ≤ J) :
    (∀ j, c ≤ j → j < J → j * w % M ≤ hi) ∧ hi < J * w % M ↔
      ∃ R, FirstClosed M w R hi ∧ J = (R * M + hi) / w + 1 := by
  have hfrom : ∀ r, c ≤ (r * M + hi) / w := by
    intro r
    rw [Nat.le_div_iff_mul_le hw]
    omega
  constructor
  · rintro ⟨hbelow, habove⟩
    have hclosed : Closes M w (J * w / M) hi := closes_of_lt rfl hM habove
    have hsplit := Nat.div_add_mod' (J * w) M
    have hmod : J * w % M < M := Nat.mod_lt _ hM
    generalize J * w / M = R at hclosed hsplit
    have hlast : (R * M + hi) / w < J := by
      rw [Nat.div_lt_iff_lt_mul hw]
      omega
    refine ⟨R, ⟨hclosed, ?_⟩, ?_⟩
    · intro r hr hearly
      have hrounds : (r + 1) * M ≤ R * M := Nat.mul_le_mul_right M hr
      have hbefore : (r * M + hi) / w + 1 < J := by
        apply Nat.lt_of_mul_lt_mul_right (a := w)
        rw [Closes] at hearly
        omega
      have hle := hbelow _ (Nat.le_succ_of_le (hfrom r)) hbefore
      exact absurd (lt_of_closes hw hearly) (Nat.not_lt.mpr hle)
    · by_contra hne
      have hle := hbelow ((R * M + hi) / w + 1) (Nat.le_succ_of_le (hfrom R)) (by omega)
      exact absurd (lt_of_closes hw hclosed) (Nat.not_lt.mpr hle)
  · rintro ⟨R, ⟨hclosed, hopen⟩, rfl⟩
    refine ⟨?_, lt_of_closes hw hclosed⟩
    intro j _ hj
    by_contra hover
    have hearly : Closes M w (j * w / M) hi := closes_of_lt rfl hM (Nat.not_le.mp hover)
    have hupto : j * w ≤ R * M + hi := by
      rw [← Nat.le_div_iff_mul_le hw]
      omega
    have hsplit := Nat.div_add_mod' (j * w) M
    generalize j * w / M = r at hearly hsplit
    rcases Nat.lt_trichotomy r R with hr | rfl | hr
    · exact hopen r hr hearly
    · omega
    · have hrounds : (R + 1) * M ≤ r * M := Nat.mul_le_mul_right M hr
      rw [Nat.add_one_mul] at hrounds
      omega

/-- Among the buckets up to that of `hi` in round `R`, those that catch `v` are one for
each round up to `R` in which the bucket of `v` begins and ends. -/
theorem existsUnique_caught_iff (hw : 0 < w) (hwM : w < M) (hhi : hi < M) (hv : v ≤ hi)
    (hc : c * w ≤ v) {R : Nat} :
    (∃! j, c ≤ j ∧ j < (R * M + hi) / w + 1 ∧ j * w % M ≤ v ∧ v < (j + 1) * w % M) ↔
      ∃! r, r ≤ R ∧ Begins M w r v ∧ Closes M w r v := by
  have hround : ∀ {r}, Begins M w r v → (r * M + v) / w * w / M = r := by
    intro r hbegin
    have hle : (r * M + v) / w * w ≤ r * M + v := Nat.div_mul_le_self _ _
    exact (round_eq hbegin (by rw [Nat.add_one_mul]; omega)).1
  have hvisited : ∀ {r}, Begins M w r v →
      ((r * M + v) / w < (R * M + hi) / w + 1 ↔ r ≤ R) := by
    intro r hbegin
    rw [Nat.lt_succ_iff]
    constructor
    · intro hle
      rw [Nat.le_div_iff_mul_le hw] at hle
      rw [Begins] at hbegin
      by_contra hr
      have hrounds : (R + 1) * M ≤ r * M := Nat.mul_le_mul_right M (by omega)
      rw [Nat.add_one_mul] at hrounds
      omega
    · intro hr
      have hrounds : r * M ≤ R * M := Nat.mul_le_mul_right M hr
      exact Nat.div_le_div_right (by omega)
  constructor
  · rintro ⟨j, ⟨-, hupto, hcaught⟩, hunique⟩
    obtain ⟨r, rfl, hbegin, hend⟩ := (caught_iff hw hwM (by omega) j).mp hcaught
    refine ⟨r, ⟨(hvisited hbegin).mp hupto, hbegin, hend⟩, ?_⟩
    rintro r' ⟨hr', hbegin', hend'⟩
    have hsame := hunique ((r' * M + v) / w)
      ⟨by rw [Nat.le_div_iff_mul_le hw]; omega, (hvisited hbegin').mpr hr',
        (caught_iff hw hwM (by omega) _).mpr ⟨r', rfl, hbegin', hend'⟩⟩
    rw [← hround hbegin', ← hround hbegin, hsame]
  · rintro ⟨r, ⟨hr, hbegin, hend⟩, hunique⟩
    refine ⟨(r * M + v) / w,
      ⟨by rw [Nat.le_div_iff_mul_le hw]; omega, (hvisited hbegin).mpr hr,
        (caught_iff hw hwM (by omega) _).mpr ⟨r, rfl, hbegin, hend⟩⟩, ?_⟩
    rintro j ⟨-, hupto, hcaught⟩
    obtain ⟨r', rfl, hbegin', hend'⟩ := (caught_iff hw hwM (by omega) j).mp hcaught
    rw [hunique r' ⟨(hvisited hbegin').mp hupto, hbegin', hend'⟩]

theorem existsUnique_shift {c K : Nat} {p : Nat → Prop} :
    (∃! k, k < K ∧ p (c + k)) ↔ ∃! j, c ≤ j ∧ j < c + K ∧ p j := by
  constructor
  · rintro ⟨k, ⟨hk, hp⟩, hunique⟩
    refine ⟨c + k, ⟨by omega, by omega, hp⟩, ?_⟩
    rintro j ⟨hc, hj, hp'⟩
    have hsame := hunique (j - c) ⟨by omega, by rwa [Nat.add_sub_cancel' hc]⟩
    omega
  · rintro ⟨j, ⟨hc, hj, hp⟩, hunique⟩
    refine ⟨j - c, ⟨by omega, by rwa [Nat.add_sub_cancel' hc]⟩, ?_⟩
    rintro k ⟨hk, hp'⟩
    have hsame := hunique (c + k) ⟨by omega, by omega, hp'⟩
    omega

/-- A walk over the buckets from number `c` on ends and catches each `v i` once exactly if
some round closes the bucket of `hi`, and up to the first such round the bucket of
`v i` lies inside one. -/
theorem walk_iff (hw : 0 < w) (hwM : w < M) {n : Nat} {v : Nat → Nat} (hc : ∀ i < n, c * w ≤ v i)
    (hv : ∀ i < n, v i ≤ hi) (hcHi : c * w ≤ hi) (hhi : hi < M) :
    (∃ K, (∀ k < K, (c + k) * w % M ≤ hi) ∧ hi < (c + K) * w % M ∧
        ∀ i < n, ∃! k, k < K ∧ (c + k) * w % M ≤ v i ∧ v i < (c + k + 1) * w % M) ↔
      ∃ R, FirstClosed M w R hi ∧
        ∀ i < n, ∃! r, r ≤ R ∧ Begins M w r (v i) ∧ Closes M w r (v i) := by
  have hM : 0 < M := by omega
  have hcaught : ∀ i < n, ∀ {K R}, c + K = (R * M + hi) / w + 1 →
      ((∃! k, k < K ∧ (c + k) * w % M ≤ v i ∧ v i < (c + k + 1) * w % M) ↔
        ∃! r, r ≤ R ∧ Begins M w r (v i) ∧ Closes M w r (v i)) := by
    intro i hi' K R hK
    rw [← existsUnique_caught_iff hw hwM hhi (hv i hi') (hc i hi'), ← hK]
    exact existsUnique_shift (p := fun j => j * w % M ≤ v i ∧ v i < (j + 1) * w % M)
  constructor
  · rintro ⟨K, hbelow, habove, honce⟩
    have hwalk : ∀ j, c ≤ j → j < c + K → j * w % M ≤ hi := by
      intro j hj hjK
      have hle := hbelow (j - c) (by omega)
      rwa [Nat.add_sub_cancel' hj] at hle
    obtain ⟨R, hR, hK⟩ :=
      (firstClosed_iff hw hM hcHi (Nat.le_add_right c K)).mp ⟨hwalk, habove⟩
    exact ⟨R, hR, fun i hi' => (hcaught i hi' hK).mp (honce i hi')⟩
  · rintro ⟨R, hR, honce⟩
    have hfrom : c ≤ (R * M + hi) / w + 1 := by
      apply Nat.le_succ_of_le
      rw [Nat.le_div_iff_mul_le hw]
      omega
    obtain ⟨K, hK⟩ : ∃ K, c + K = (R * M + hi) / w + 1 := ⟨_, Nat.add_sub_cancel' hfrom⟩
    obtain ⟨hwalk, habove⟩ :=
      (firstClosed_iff hw hM hcHi (Nat.le_add_right c K)).mpr ⟨R, hR, hK⟩
    refine ⟨K, ?_, habove, fun i hi' => (hcaught i hi' hK).mpr (honce i hi')⟩
    intro k hk
    exact hwalk (c + k) (by omega) (by omega)

/-- If the bucket of `hi` ends in a round, so does that of every `v` below. -/
theorem Closes.mono {r : Nat} (h : Closes M w r hi) (hv : v ≤ hi) : Closes M w r v := by
  rw [Closes] at h ⊢
  have hquotient : (r * M + v) / w ≤ (r * M + hi) / w := Nat.div_le_div_right (by omega)
  have hle : ((r * M + v) / w + 1) * w ≤ ((r * M + hi) / w + 1) * w :=
    Nat.mul_le_mul_right w (Nat.succ_le_succ hquotient)
  omega

theorem begins_zero : Begins M w 0 v := by
  rw [Begins, Nat.zero_mul]
  exact Nat.zero_le _

end Rounds

end Machine
end BareMetal
