import BareMetal.VirtioBlk.Matching

/-!
# Ring indices that wrap around

`avail->idx`, `used->idx` and `used_seen` have 16 bits, and the slot of an index
is its remainder by a queue size that need not divide `2 ^ 16`.  As long as no
call gives up, both sides number the requests alike: the `k`-th call uses the
slot the device reads for its `k`-th request, and consumes the used element
that was written for it, for any number of calls.
-/

namespace BareMetal
namespace VirtioBlk

open Machine

/-- A call that is number `k` in the record has published entry `k` and
consumed the used element of request `k`. -/
def Return.Numbered (r : Return) (k : Nat) : Prop :=
  r.seq = k ∧ ∃ u, r.used = some u ∧ u.req.seq = k

/-- The record numbers the calls as the rings do. -/
structure Counted (s : Sys) : Prop where
  numbered : ∀ {k : Nat} {r : Return}, s.returns[k]? = some r → r.Numbered k
  published : s.published = s.returns.length + s.pc.pending

section Steps

variable {L : Layout} {s s' : Sys}

theorem Counted.of_same (h : Counted s) (hsame : SameRecord s s') : Counted s' := by
  constructor
  · rw [hsame.returns]
    exact h.numbered
  · rw [hsame.published, hsame.returns, hsame.pending]
    exact h.published

/-- A call that ends is numbered after those before it. -/
theorem Counted.ret (h : Counted s) (hpc : s.pc.pending = 1) {timedOut : Bool} {result : Int}
    {u : Used} (hseq : u.req.seq + 1 = s.published) :
    Counted (s.ret timedOut result (some u)) := by
  have hcount := h.published
  rw [hpc] at hcount
  constructor
  · intro k r hk
    by_cases hold : k < s.returns.length
    · refine h.numbered ?_
      rw [← hk]
      exact (List.getElem?_append_left hold).symm
    · obtain ⟨hlast, hr⟩ : k = s.returns.length ∧
          ⟨s.call, s.published - 1, timedOut, result, some u⟩ = r := by
        rw [Sys.ret, List.getElem?_append_right (Nat.le_of_not_lt hold),
          List.getElem?_singleton] at hk
        split at hk
        · exact ⟨by omega, Option.some.inj hk⟩
        · cases hk
      rw [← hr]
      refine ⟨?_, u, rfl, by omega⟩
      show s.published - 1 = k
      omega
  · show s.published = (s.returns ++ [_]).length + 0
    rw [List.length_append, List.length_singleton, hcount]

/-- Every step of the system in which no call gives up. -/
theorem step_counted {a : Action} (hinv : Inv L s) (h : Counted s) (hstep : step L s a = some s')
    (hall : ∀ q ∈ s'.returns, q.timedOut = false) : Counted s' := by
  have hat := hinv.atPc
  rcases step_cases hstep with hsame | hdriver
  · exact h.of_same hsame
  rcases driverStep_cases hdriver with
    hsame | ⟨idx, hpc, hpc', hreturns, hpublished⟩ | ⟨timedOut, result, used, seen, rfl, hend⟩
  · exact h.of_same hsame
  · have hcount := h.published
    rw [hpc] at hcount
    refine ⟨?_, ?_⟩
    · rw [hreturns]
      exact h.numbered
    · rw [hpublished, hreturns, hpc', hcount]
      rfl
  have hseen : Counted { s with usedSeen := seen } := h.of_same ⟨rfl, rfl, rfl⟩
  rcases hend with rfl | ⟨id, hpc, rfl⟩ | hpc
  · -- the call gives up, which is excluded
    exact absurd (hall _ (List.mem_append_right _ List.mem_cons_self)) (by simp)
  · simp only [AtPc, hpc] at hat
    obtain ⟨-, n, hwaits, hserved⟩ := hat
    obtain ⟨made, hused, -⟩ := hserved.entry
    -- the element is taken from the slot of the `n`-th request
    have hslot : s.usedBy (s.usedSeen % L.vqSize) = some ⟨reqOf L s.call n, made⟩ := by
      rw [hwaits.seen]
      exact hused
    rw [hslot]
    refine hseen.ret ?_ hwaits.published.symm
    show s.pc.pending = 1
    rw [hpc]
    rfl
  · simp only [AtPc, hpc] at hat
    obtain ⟨-, n, made, hpublished, rfl, -⟩ := hat
    refine hseen.ret ?_ hpublished.symm
    show s.pc.pending = 1
    rw [hpc]
    rfl

end Steps

section Runs

variable {L : Layout} {s s' : Sys}

/-- Invariant and numbering, as long as no call has given up. -/
def InStep (L : Layout) (s : Sys) : Prop :=
  Sound L s ∧ ((∀ q ∈ s.returns, q.timedOut = false) → Counted s)

theorem step_inStep (hL : L.Separate) (hsize : 3 ≤ L.vqSize) {a : Action} (ha : a.Ok L)
    (h : InStep L s) (hstep : step L s a = some s') : InStep L s' := by
  refine ⟨step_sound hL hsize ha h.1 hstep, fun hall => ?_⟩
  have hbefore : ∀ q ∈ s.returns, q.timedOut = false := by
    intro q hq
    rcases step_returns hstep with hsame | ⟨r, hadd⟩
    · exact hall q (hsame ▸ hq)
    · refine hall q ?_
      rw [hadd]
      exact List.mem_append_left _ hq
  exact step_counted (h.1.inv hbefore) (h.2 hbefore) hstep hall

theorem start_inStep (L : Layout) (m : ByteMem) (disk : Nat → UInt8) :
    InStep L (Sys.start L m disk) := by
  refine ⟨start_sound L m disk, fun _ => ⟨?_, rfl⟩⟩
  intro k r hk
  rw [Sys.start, List.getElem?_nil] at hk
  cases hk

/-- Wrap-around: in every run in which no call gives up, the `k`-th call has
published entry `k` and consumed the used element of request `k`.  The entry of
a call goes to the slot of its number; the request that the device takes is the
one of that number, found in that slot.  Between calls the three indices are
the number of calls so far, in 16 bits. -/
theorem indices_in_step (hL : L.Separate) (hsize : 3 ≤ L.vqSize) {m : ByteMem}
    {disk : Nat → UInt8} {actions : List Action} (hok : ∀ a ∈ actions, a.Ok L)
    (hrun : runAll (step L) (Sys.start L m disk) actions = some s)
    (hall : ∀ r ∈ s.returns, r.timedOut = false) :
    (∀ (k : Nat) (r : Return), s.returns[k]? = some r →
      r.seq = k ∧ ∃ u, r.used = some u ∧ u.req.seq = k) ∧
    (∀ idx, s.pc = .storeRing idx → idx % L.vqSize = slot L s.returns.length) ∧
    (∀ s', take L s = some s' → s.taken = s.returns.length ∧
      loadLE s.mem (L.availRing (slot L s.taken)) 2 = HEAD ∧
      s'.fetched = s.fetched ++ [reqOf L s.call s.taken]) ∧
    (s.pc = .idle → loadLE s.mem L.availIdx 2 = s.usedSeen ∧
      loadLE s.mem L.usedIdx 2 = s.usedSeen ∧ s.usedSeen = s.returns.length % 2 ^ 16) := by
  have hstate : InStep L s :=
    runAll_keeps (I := InStep L) (fun ha h hstep => step_inStep hL hsize ha h hstep) hok
      (start_inStep L m disk) hrun
  have hinv : Inv L s := hstate.1.inv hall
  have hcounted : Counted s := hstate.2 hall
  have hpublished := hcounted.published
  have hat := hinv.atPc
  refine ⟨fun k r hk => hcounted.numbered hk, fun idx hpc => ?_, fun s' htake => ?_, fun hpc => ?_⟩
  · simp only [AtPc, hpc] at hat
    rw [hat.2.2, hpublished, hpc]
    rfl
  · obtain ⟨hpc, hwaits, -, -, -, -, hentry⟩ := take_waiting hinv htake
    have hpending : s.pc.pending = 1 := by
      rcases hpc with hpc | ⟨timeout, hpc⟩ <;> rw [hpc] <;> rfl
    refine ⟨?_, hentry, ?_⟩
    · have hnext := hwaits.published
      omega
    · rw [take_eq hinv htake]
  · simp only [AtPc, hpc] at hat
    have hcount : s.published = s.returns.length := by
      rw [hpublished, hpc]
      rfl
    refine ⟨?_, ?_, ?_⟩
    · rw [hinv.indices.avail, hat.seen]
    · rw [hinv.indices.used, hat.completed, hat.seen]
    · rw [hat.seen, hcount]

end Runs

/-- The sample queue with three entries. -/
def narrowLayout : Layout := { sampleLayout with qmax := 3 }

theorem narrowLayout_separate : narrowLayout.Separate where
  qmem_req := sampleLayout_separate.qmem_req
  qmem_status := sampleLayout_separate.qmem_status
  req_status := sampleLayout_separate.req_status
  req_lt := sampleLayout_separate.req_lt
  status_lt := sampleLayout_separate.status_lt

theorem sampleRead_ok_narrow : sampleRead.Ok narrowLayout where
  qmem := sampleRead_ok.qmem
  req := sampleRead_ok.req
  status := sampleRead_ok.status

/-- Seven calls, each served in time. -/
def sevenCalls : List Action :=
  (List.replicate 7 servedRun).flatten

theorem sevenCalls_ok : ∀ a ∈ sevenCalls, a.Ok narrowLayout := by
  intro a ha
  obtain ⟨actions, hcall, hin⟩ := List.mem_flatten.mp ha
  rw [(List.mem_replicate.mp hcall).2] at hin
  exact serve_ok sampleRead_ok_narrow a hin

/-- Seven calls on three entries: the last one is in slot 0 for the third time. -/
theorem sevenCalls_in_step :
    ∃ s, runAll (step narrowLayout) (sampleStart narrowLayout) sevenCalls = some s ∧
      s.returns.map Return.seq = List.range 7 ∧ s.usedSeen = 7 ∧
      loadLE s.mem narrowLayout.availIdx 2 = 7 ∧ loadLE s.mem narrowLayout.usedIdx 2 = 7 ∧
      slot narrowLayout 6 = 0 := by
  have hstate : (runAll (step narrowLayout) (sampleStart narrowLayout) sevenCalls).map
      (fun s => (s.returns.map Return.seq, s.returns.map Return.timedOut, s.pc)) =
      some (List.range 7, List.replicate 7 false, .idle) := by
    decide +kernel
  obtain ⟨s, hrun, hs⟩ := Option.map_eq_some_iff.mp hstate
  obtain ⟨hseqs, hrest⟩ := Prod.mk.inj hs
  obtain ⟨htimes, hpc⟩ := Prod.mk.inj hrest
  have hall : ∀ r ∈ s.returns, r.timedOut = false := by
    intro r hr
    have hin := List.mem_map_of_mem (f := Return.timedOut) hr
    rw [htimes] at hin
    exact (List.mem_replicate.mp hin).2
  have hlength : s.returns.length = 7 := by
    rw [← List.length_map (f := Return.seq), hseqs, List.length_range]
  obtain ⟨-, -, -, hidle⟩ := indices_in_step narrowLayout_separate (by decide) sevenCalls_ok
    hrun hall
  obtain ⟨havail, hused, hseen⟩ := hidle hpc
  rw [hlength] at hseen
  exact ⟨s, hrun, hseqs, hseen, havail.trans hseen, hused.trans hseen, by decide⟩

end VirtioBlk
end BareMetal
