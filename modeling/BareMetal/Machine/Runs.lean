import Mathlib.Data.List.Basic
import Mathlib.Tactic

/-!
# Runs of a partial step function

A system is a step function `σ → ι → Option σ`; a run feeds it a list of
inputs.  `none` means that the system does not come out of that step: it has
parked itself or is still inside a loop.

`runAll_keeps` is the invariant rule used for every run of this development:
an invariant that holds at the start and survives each step whose input is
allowed holds in every state reached; `runAll_invariant` is the case in which
every input is.  `runAll_history` lets the invariant
speak of the inputs consumed so far.  `runAll_relates` is its counterpart for
two systems that take the same inputs, and `runAll_returns` and
`runAll_completes` are the two for progress; `runAll_next_iff` is for statements about one step behind a run.
`Inevitable` is progress for a relation: whatever the runs choose, they arrive.
-/

namespace BareMetal
namespace Machine

variable {σ τ ι : Type*}

/-- Feed a list of inputs to a partial step function. -/
def runAll (step : σ → ι → Option σ) : σ → List ι → Option σ
  | s, [] => some s
  | s, i :: is => (step s i).bind fun s' => runAll step s' is

@[simp] theorem runAll_nil (step : σ → ι → Option σ) (s : σ) :
    runAll step s [] = some s := rfl

theorem runAll_cons_eq_some {step : σ → ι → Option σ} {s s' : σ} {i : ι} {is : List ι} :
    runAll step s (i :: is) = some s' ↔
      ∃ mid, step s i = some mid ∧ runAll step mid is = some s' := by
  rw [runAll, Option.bind_eq_some_iff]

theorem runAll_append (step : σ → ι → Option σ) (s : σ) (is js : List ι) :
    runAll step s (is ++ js) = (runAll step s is).bind fun s' => runAll step s' js := by
  induction is generalizing s with
  | nil => rfl
  | cons i is ih =>
      cases hstep : step s i with
      | none => simp only [List.cons_append, runAll, hstep, Option.bind_none]
      | some mid => simp only [List.cons_append, runAll, hstep, Option.bind_some, ih]

/-- Invariant rule: what holds initially and is kept by every step on an
allowed input holds after every run on allowed inputs. -/
theorem runAll_keeps {step : σ → ι → Option σ} {I : σ → Prop} {P : ι → Prop}
    (hstep : ∀ {s i s'}, P i → I s → step s i = some s' → I s')
    {s s' : σ} {is : List ι} (hP : ∀ i ∈ is, P i) (hinv : I s)
    (hrun : runAll step s is = some s') : I s' := by
  induction is generalizing s with
  | nil =>
      obtain rfl : s = s' := by simpa using hrun
      exact hinv
  | cons i is ih =>
      obtain ⟨mid, hmid, hrest⟩ := runAll_cons_eq_some.mp hrun
      have hi : P i := hP i (by simp)
      have his : ∀ j ∈ is, P j := fun j hj => hP j (by simp [hj])
      exact ih his (hstep hi hinv hmid) hrest

/-- Invariant rule for a step that keeps the invariant whatever its input. -/
theorem runAll_invariant {step : σ → ι → Option σ} {I : σ → Prop}
    (hstep : ∀ {s i s'}, I s → step s i = some s' → I s') {s s' : σ} {is : List ι}
    (hinv : I s) (hrun : runAll step s is = some s') : I s' :=
  runAll_keeps (P := fun _ => True) (fun _ => hstep) (fun _ _ => trivial) hinv hrun

/-- History rule: a property of the inputs so far and the state, kept when an
input is added, holds after every run for all of its inputs. -/
theorem runAll_history {step : σ → ι → Option σ} {H : List ι → σ → Prop}
    (hstep : ∀ {js s i s'}, H js s → step s i = some s' → H (js ++ [i]) s')
    {js is : List ι} {s s' : σ} (hinit : H js s) (hrun : runAll step s is = some s') :
    H (js ++ is) s' := by
  induction is generalizing js s with
  | nil =>
      obtain rfl : s = s' := by simpa using hrun
      rw [List.append_nil]
      exact hinit
  | cons i is ih =>
      obtain ⟨mid, hmid, hrest⟩ := runAll_cons_eq_some.mp hrun
      have hmore : H (js ++ [i]) mid := hstep hinit hmid
      rw [List.append_cons]
      exact ih hmore hrest

/-- Relation rule: what relates two systems initially and is kept when both
take a step on the same input relates them after every common run. -/
theorem runAll_relates {step₁ : σ → ι → Option σ} {step₂ : τ → ι → Option τ}
    {R : σ → τ → Prop}
    (hstep : ∀ {s t i s' t'}, R s t → step₁ s i = some s' → step₂ t i = some t' → R s' t')
    {s s' : σ} {t t' : τ} {is : List ι} (hrel : R s t)
    (hrun₁ : runAll step₁ s is = some s') (hrun₂ : runAll step₂ t is = some t') : R s' t' := by
  induction is generalizing s t with
  | nil =>
      obtain rfl : s = s' := by simpa using hrun₁
      obtain rfl : t = t' := by simpa using hrun₂
      exact hrel
  | cons i is ih =>
      obtain ⟨mid₁, hmid₁, hrest₁⟩ := runAll_cons_eq_some.mp hrun₁
      obtain ⟨mid₂, hmid₂, hrest₂⟩ := runAll_cons_eq_some.mp hrun₂
      exact ih (hstep hrel hmid₁ hmid₂) hrest₁ hrest₂

/-- Progress rule: a system that can take every allowed step from a state of
the invariant, and stays in it, completes every allowed run. -/
theorem runAll_returns {step : σ → ι → Option σ} {I : σ → Prop} {P : ι → Prop}
    (hstep : ∀ {s i}, P i → I s → ∃ s', step s i = some s' ∧ I s')
    {s : σ} {is : List ι} (hP : ∀ i ∈ is, P i) (hinv : I s) :
    ∃ s', runAll step s is = some s' ∧ I s' := by
  induction is generalizing s with
  | nil => exact ⟨s, rfl, hinv⟩
  | cons i is ih =>
      obtain ⟨mid, hmid, hinv'⟩ := hstep (hP i (by simp)) hinv
      obtain ⟨s', hs', hinv''⟩ := ih (fun j hj => hP j (by simp [hj])) hinv'
      exact ⟨s', runAll_cons_eq_some.mpr ⟨mid, hmid, hs'⟩, hinv''⟩

/-- Progress rule for a step that returns in the invariant whatever its input. -/
theorem runAll_completes {step : σ → ι → Option σ} {I : σ → Prop}
    (hstep : ∀ {s i}, I s → ∃ s', step s i = some s' ∧ I s') {s : σ} (is : List ι)
    (hinv : I s) : ∃ s', runAll step s is = some s' ∧ I s' :=
  runAll_returns (P := fun _ => True) (fun _ => hstep) (fun _ _ => trivial) hinv

/-- Next-step rule: behind a run that returns in the invariant, what a further
step does is decided by its effect from the invariant alone. -/
theorem runAll_next_iff {step : σ → ι → Option σ} {I : σ → Prop} {R : σ → σ → Prop} {c : Prop}
    {s : σ} {is : List ι} {i : ι} (hrun : ∃ s', runAll step s is = some s' ∧ I s')
    (hstep : ∀ {s'}, I s' → ∃ s'', step s' i = some s'' ∧ (R s' s'' ↔ c)) :
    (∃ s' s'', runAll step s is = some s' ∧ step s' i = some s'' ∧ R s' s'') ↔ c := by
  obtain ⟨mid, hmid, hinv⟩ := hrun
  obtain ⟨last, hlast, hiff⟩ := hstep hinv
  constructor
  · rintro ⟨s', s'', hs', hs'', hR⟩
    obtain rfl : mid = s' := Option.some.inj (hmid.symm.trans hs')
    obtain rfl : last = s'' := Option.some.inj (hlast.symm.trans hs'')
    exact hiff.mp hR
  · intro hc
    exact ⟨mid, last, hmid, hlast, hiff.mpr hc⟩

/-! ## Iterating a total step -/

/-- Ranking rule: a system that in every step from the invariant either is done
or stays in the invariant with a smaller rank is done after finitely many
steps. -/
theorem iterate_reaches {step : σ → σ} {I Done : σ → Prop} (rank : σ → Nat)
    (hstep : ∀ {s}, I s → Done (step s) ∨ (I (step s) ∧ rank (step s) < rank s))
    {s : σ} (hs : I s) : ∃ n, Done (step^[n] s) := by
  induction hrank : rank s using Nat.strong_induction_on generalizing s with
  | _ r ih =>
      rcases hstep hs with hdone | ⟨hnext, hless⟩
      · exact ⟨1, hdone⟩
      · rw [hrank] at hless
        obtain ⟨n, hn⟩ := ih _ hless hnext rfl
        exact ⟨n + 1, hn⟩

/-- An invariant of a total step holds after any number of steps. -/
theorem iterate_keeps {step : σ → σ} {I : σ → Prop} (hstep : ∀ {s}, I s → I (step s))
    {s : σ} (hs : I s) (n : Nat) : I (step^[n] s) := by
  induction n generalizing s with
  | zero => exact hs
  | succ n ih => exact ih (hstep hs)

/-! ## Histories of a labelled relation -/

/-- The labels `es`, one after the other. -/
def Replays {σ ε : Type*} (R : σ → ε → σ → Prop) : σ → List ε → σ → Prop
  | s, [], s' => s' = s
  | s, e :: es, s' => ∃ mid, R s e mid ∧ Replays R mid es s'

theorem replays_append {σ ε : Type*} {R : σ → ε → σ → Prop} {s s' : σ} {es fs : List ε} :
    Replays R s (es ++ fs) s' ↔ ∃ mid, Replays R s es mid ∧ Replays R mid fs s' := by
  induction es generalizing s with
  | nil => simp [Replays]
  | cons e es ih =>
      simp only [List.cons_append, Replays, ih]
      constructor
      · rintro ⟨a, ha, b, hb, hs'⟩
        exact ⟨b, ⟨a, ha, hb⟩, hs'⟩
      · rintro ⟨b, ⟨a, ha, hb⟩, hs'⟩
        exact ⟨a, ha, b, hb, hs'⟩

theorem replays_singleton {σ ε : Type*} {R : σ → ε → σ → Prop} {s s' : σ} {e : ε} :
    Replays R s [e] s' ↔ R s e s' := by
  simp [Replays]

/-- What every label of a history keeps, the history keeps. -/
theorem replays_keeps {σ ε : Type*} {R : σ → ε → σ → Prop} {I : σ → Prop} {es : List ε}
    (hstep : ∀ {s e s'}, e ∈ es → I s → R s e s' → I s') {s s' : σ} (hs : I s)
    (h : Replays R s es s') : I s' := by
  induction es generalizing s with
  | nil =>
      obtain rfl : s' = s := h
      exact hs
  | cons e es ih =>
      obtain ⟨mid, hmid, hrest⟩ := h
      exact ih (fun he => hstep (List.mem_cons_of_mem e he))
        (hstep List.mem_cons_self hs hmid) hrest

/-! ## Following another system -/

/-- `step` follows `spec`, with at most `slack` idle steps before each of its
steps.  The number in `R` is how many of them are left. -/
structure Tracks {σ τ : Type*} (step : σ → σ) (spec : τ → τ) (slack : Nat)
    (R : Nat → σ → τ → Prop) : Prop where
  step : ∀ {k s t}, R k s t → R slack (step s) (spec t) ∨ ∃ j < k, R j (step s) t

/-- After `n` steps the followed system has taken at most `n` steps, and at
least one for every `slack + 1`. -/
theorem Tracks.iterate {step : σ → σ} {spec : τ → τ} {slack : Nat} {R : Nat → σ → τ → Prop}
    (h : Tracks step spec slack R) {k : Nat} {s : σ} {t : τ} (hk : k ≤ slack) (hR : R k s t)
    (n : Nat) :
    ∃ j m, R j (step^[n] s) (spec^[m] t) ∧ m ≤ n ∧ n + j ≤ m * (slack + 1) + slack := by
  induction n with
  | zero => exact ⟨k, 0, hR, le_refl 0, by omega⟩
  | succ n ih =>
      obtain ⟨j, m, hrel, hle, hbound⟩ := ih
      rw [Function.iterate_succ_apply']
      rcases h.step hrel with hnext | ⟨i, hi, hidle⟩
      · refine ⟨slack, m + 1, ?_, by omega, ?_⟩
        · rw [Function.iterate_succ_apply']
          exact hnext
        · rw [Nat.succ_mul]
          omega
      · exact ⟨i, m, hidle, by omega, by omega⟩

/-! ## Inevitability -/

/-- Every run of `R` from `s` comes to a state of `P`: it does not stop before and
does not go on without. -/
inductive Inevitable {σ : Type*} (R : σ → σ → Prop) (P : σ → Prop) : σ → Prop
  | here {s : σ} (h : P s) : Inevitable R P s
  | next {s : σ} (can : ∃ s', R s s') (all : ∀ s', R s s' → Inevitable R P s') :
      Inevitable R P s

end Machine
end BareMetal
