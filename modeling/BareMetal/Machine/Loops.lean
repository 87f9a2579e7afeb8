import Mathlib.Tactic

/-!
# Counting loops with an early exit

A `for` loop whose body may leave it, and a plain one, over any state.  The body
is a partial function; `none` means that the body does not come back.

Both rules ask for one step of the body in an invariant that knows the loop
variable.  `retry_ends` tells a loop that was left apart from one that ran out.
-/

namespace BareMetal
namespace Machine

variable {σ : Type*}

/-- `for (; k < k + left; k++) { body; if (accepted) break; }`, with the final value
of `k`. -/
def retry (body : Nat → σ → Option (Bool × σ)) : Nat → Nat → σ → Option (Nat × σ)
  | k, 0, s => some (k, s)
  | k, left + 1, s =>
      (body k s).bind fun out =>
        if out.1 then some (k, out.2) else retry body (k + 1) left out.2

/-- A body that from the invariant either accepts, with `Q`, or keeps the invariant:
the loop ends at some `k` below the bound with `Q`, or at the bound with the
invariant. -/
theorem retry_ends {body : Nat → σ → Option (Bool × σ)} {I Q : Nat → σ → Prop} {max : Nat}
    (hbody : ∀ {k s}, k < max → I k s →
      ∃ s', body k s = some (true, s') ∧ Q k s' ∨ body k s = some (false, s') ∧ I (k + 1) s')
    {k left : Nat} {s : σ} (hmax : k + left = max) (hinv : I k s) :
    ∃ n s', retry body k left s = some (n, s') ∧ (n < max ∧ Q n s' ∨ n = max ∧ I max s') := by
  induction left generalizing k s with
  | zero =>
      obtain rfl : k = max := hmax
      exact ⟨k, s, rfl, .inr ⟨rfl, hinv⟩⟩
  | succ left ih =>
      obtain ⟨s', hstep⟩ := hbody (show k < max by omega) hinv
      rw [retry]
      rcases hstep with ⟨hstep, hQ⟩ | ⟨hstep, hnext⟩
      · rw [hstep]
        exact ⟨k, s', rfl, .inl ⟨by omega, hQ⟩⟩
      · rw [hstep]
        exact ih (by omega) hnext

/-- `for (i = 0; i < n; i++) body(i);` -/
def forUp (body : Nat → σ → Option σ) : Nat → σ → Option σ
  | 0, s => some s
  | n + 1, s => (forUp body n s).bind (body n)

theorem forUp_keeps {body : Nat → σ → Option σ} {I : Nat → σ → Prop} {N : Nat}
    (hbody : ∀ {i s}, i < N → I i s → ∃ s', body i s = some s' ∧ I (i + 1) s')
    {s : σ} (hinv : I 0 s) {n : Nat} (hn : n ≤ N) :
    ∃ s', forUp body n s = some s' ∧ I n s' := by
  induction n with
  | zero => exact ⟨s, rfl, hinv⟩
  | succ n ih =>
      obtain ⟨mid, hmid, hmidInv⟩ := ih (by omega)
      obtain ⟨s', hs', hlast⟩ := hbody (show n < N by omega) hmidInv
      refine ⟨s', ?_, hlast⟩
      rw [forUp, hmid]
      exact hs'

end Machine
end BareMetal
