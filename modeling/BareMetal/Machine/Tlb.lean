import BareMetal.Machine.Runs

/-!
# Cached address translations

A hart keeps the translations that its table walks find.  It may walk for any
address at any time, use what it cached for as long as it likes and forget it
whenever it likes; only a fence makes it drop the translations it names.  So an
access sees a translation that was in the tables at some time since the last
fence for it, and the program decides nothing more.

`Client` is a program on such a hart, with a type `K` of what can be cached and a
type `V` of what a walk finds.  `Step.visible` says what can be seen behind a
step, and the rules for `Inevitable` follow it through the steps of a program.
-/

namespace BareMetal
namespace Machine
namespace Tlb

/-- A program whose accesses go through cached translations. -/
structure Client (γ K V : Type*) where
  /-- It takes no further step. -/
  stopped : γ → Prop
  /-- What a walk of the tables finds now. -/
  walks : γ → K → V → Prop
  /-- The translation that the next step goes through. -/
  wants : γ → Option K
  next : γ → Option V → γ
  /-- The translations that the next step orders the hart to drop. -/
  flushes : γ → K → Prop

/-- The program's state, and what the hart has cached. -/
structure Hart (γ K V : Type*) where
  core : γ
  cache : K → V → Prop

section Step

variable {γ K V : Type*} (P : Client γ K V)

/-- A translation the next access can see: a cached one, or the one in the tables. -/
def Visible (s : Hart γ K V) (k : K) (v : V) : Prop :=
  s.cache k v ∨ P.walks s.core k v

/-- The translation that a step goes through is in the cache `c`. -/
def Used (c : K → V → Prop) : Option K → Option V → Prop
  | none, o => o = none
  | some k, o => ∃ v, o = some v ∧ c k v

/-- The hart caches and forgets as it likes, and the program takes a step. -/
def Step (s s' : Hart γ K V) : Prop :=
  ¬ P.stopped s.core ∧
    ∃ c o, (∀ k v, c k v → Visible P s k v) ∧ Used c (P.wants s.core) o ∧
      s' = ⟨P.next s.core o, fun k v => c k v ∧ ¬ P.flushes s.core k⟩

variable {P} {s s' : Hart γ K V}

theorem walks_visible {k : K} {v : V} (h : P.walks s.core k v) : Visible P s k v :=
  Or.inr h

/-- What is visible behind a step was visible before and is not dropped, or is in
the tables now. -/
theorem Step.visible (h : Step P s s') {k : K} {v : V} (hv : Visible P s' k v) :
    (Visible P s k v ∧ ¬ P.flushes s.core k) ∨ P.walks s'.core k v := by
  obtain ⟨-, c, o, hc, -, rfl⟩ := h
  rcases hv with ⟨hcached, hkept⟩ | hwalk
  · exact Or.inl ⟨hc k v hcached, hkept⟩
  · exact Or.inr hwalk

/-- A step that goes through no translation. -/
theorem Step.core_of_none (h : Step P s s') (hwants : P.wants s.core = none) :
    s'.core = P.next s.core none := by
  obtain ⟨-, c, o, -, hused, rfl⟩ := h
  rw [hwants] at hused
  rw [show o = none from hused]

/-- A step goes through some translation that was visible. -/
theorem Step.core_of_some (h : Step P s s') {k : K} (hwants : P.wants s.core = some k) :
    ∃ v, Visible P s k v ∧ s'.core = P.next s.core (some v) := by
  obtain ⟨-, c, o, hc, hused, rfl⟩ := h
  rw [hwants] at hused
  obtain ⟨v, rfl, hv⟩ := hused
  exact ⟨v, hc k v hv, rfl⟩

theorem step_exists_of_none (hgoing : ¬ P.stopped s.core) (hwants : P.wants s.core = none) :
    ∃ s', Step P s s' := by
  refine ⟨_, hgoing, s.cache, none, fun k v hv => Or.inl hv, ?_, rfl⟩
  rw [hwants]
  rfl

theorem step_exists_of_some (hgoing : ¬ P.stopped s.core) {k : K} (hwants : P.wants s.core = some k)
    {v : V} (hv : Visible P s k v) : ∃ s', Step P s s' := by
  refine ⟨_, hgoing, Visible P s, some v, fun _ _ h => h, ?_, rfl⟩
  rw [hwants]
  exact ⟨v, rfl, hv⟩

/-- Rule for a step that goes through no translation. -/
theorem inevitable_of_none {Q : Hart γ K V → Prop} (hgoing : ¬ P.stopped s.core)
    (hwants : P.wants s.core = none)
    (h : ∀ s', s'.core = P.next s.core none →
      (∀ k v, Visible P s' k v →
        (Visible P s k v ∧ ¬ P.flushes s.core k) ∨ P.walks s'.core k v) →
      Inevitable (Step P) Q s') : Inevitable (Step P) Q s := by
  apply Inevitable.next (step_exists_of_none hgoing hwants)
  intro s' hs'
  exact h s' (hs'.core_of_none hwants) fun k v => hs'.visible

/-- Rule for a step that goes through a translation: the program has to be ready
for each that is visible. -/
theorem inevitable_of_some {Q : Hart γ K V → Prop} (hgoing : ¬ P.stopped s.core) {k : K}
    (hwants : P.wants s.core = some k) (hsome : ∃ v, P.walks s.core k v)
    (h : ∀ s' v, Visible P s k v → s'.core = P.next s.core (some v) →
      (∀ k v, Visible P s' k v →
        (Visible P s k v ∧ ¬ P.flushes s.core k) ∨ P.walks s'.core k v) →
      Inevitable (Step P) Q s') : Inevitable (Step P) Q s := by
  obtain ⟨v, hv⟩ := hsome
  apply Inevitable.next (step_exists_of_some hgoing hwants (walks_visible hv))
  intro s' hs'
  obtain ⟨w, hw, hcore⟩ := hs'.core_of_some hwants
  exact h s' w hw hcore fun k v => hs'.visible

end Step

end Tlb
end Machine
end BareMetal
