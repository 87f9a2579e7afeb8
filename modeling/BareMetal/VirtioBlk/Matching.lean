import BareMetal.VirtioBlk.Stages

/-!
# Requests and completions

A call that returns 0 has consumed the used element of its own request, as long
as no call before it has given up.  A call that gives up leaves its request
behind, and the next call takes the late completion for its own.
-/

namespace BareMetal
namespace VirtioBlk

open Machine

/-! ## Runs -/

section Runs

variable {L : Layout} {s s' : Sys}

/-- One step of the system. -/
theorem step_goes (hL : L.Separate) (hsize : 3 ≤ L.vqSize) {a : Action} (ha : a.Ok L)
    (h : Inv L s) (hstep : step L s a = some s') : Goes L s s' := by
  cases a with
  | call c =>
      simp only [step] at hstep
      split at hstep
      · next hpc =>
        have hat := h.atPc
        simp only [AtPc, hpc] at hat
        obtain rfl := Option.some.inj hstep
        refine Or.inl ⟨rfl, h.indices, Or.inr ha, ?_⟩
        exact ⟨⟨hat.taken, hat.completed, hat.fetched, hat.finished, hat.seen⟩, [], rfl,
          fun st hst => absurd hst List.not_mem_nil⟩
      · cases hstep
  | client a v =>
      simp only [step] at hstep
      split at hstep
      · next hpc =>
        have hat := h.atPc
        simp only [AtPc, hpc] at hat
        obtain rfl := Option.some.inj hstep
        refine Or.inl ⟨rfl, h.indices.foreign (f := fun _ => v) hsize ha, Or.inl hpc, ?_⟩
        simp only [AtPc, hpc]
        exact ⟨hat.taken, hat.completed, hat.fetched, hat.finished, hat.seen⟩
      · cases hstep
  | driver => exact driverStep_goes hL hsize h hstep
  | take => exact Or.inl (take_inv h hstep)
  | transfer j status => exact Or.inl (transfer_inv hL hsize h hstep)
  | publish j len => exact Or.inl (publish_inv hL hsize h hstep)

/-- The current call has published its entry. -/
def Pc.pending : Pc → Nat
  | .idle | .setup _ | .storeRing _ | .storeIdx _ => 0
  | .notify | .poll _ | .loadId | .loadLen _ | .loadStatus _ => 1

/-- The record and the place in the call stay as they are. -/
structure SameRecord (s s' : Sys) : Prop where
  returns : s'.returns = s.returns
  published : s'.published = s.published
  pending : s'.pc.pending = s.pc.pending

/-- What a step of the driver does to the record: nothing, or it publishes the
entry, or the call ends in one of three ways. -/
theorem driverStep_cases (hstep : driverStep L s = some s') :
    SameRecord s s' ∨
    (∃ idx, s.pc = .storeIdx idx ∧ s'.pc = .notify ∧ s'.returns = s.returns ∧
      s'.published = s.published + 1) ∨
    ∃ timedOut result used seen, s' = { s with usedSeen := seen }.ret timedOut result used ∧
      (timedOut = true ∨
        (∃ id, s.pc = .loadLen id ∧ used = s.usedBy (s.usedSeen % L.vqSize)) ∨
        s.pc = .loadStatus used) := by
  cases hpc : s.pc with
  | idle => simp only [driverStep, hpc, reduceCtorEq] at hstep
  | setup rest =>
      cases rest with
      | nil =>
          simp only [driverStep, hpc, Option.some.injEq] at hstep
          subst hstep
          exact Or.inl ⟨rfl, rfl, by rw [hpc]; rfl⟩
      | cons st rest =>
          simp only [driverStep, hpc, Option.some.injEq] at hstep
          subst hstep
          exact Or.inl ⟨rfl, rfl, by rw [hpc]; rfl⟩
  | storeRing idx =>
      simp only [driverStep, hpc, Option.some.injEq] at hstep
      subst hstep
      exact Or.inl ⟨rfl, rfl, by rw [hpc]; rfl⟩
  | storeIdx idx =>
      simp only [driverStep, hpc, Option.some.injEq] at hstep
      subst hstep
      exact Or.inr (Or.inl ⟨idx, rfl, rfl, rfl, rfl⟩)
  | notify =>
      simp only [driverStep, hpc, Option.some.injEq] at hstep
      subst hstep
      exact Or.inl ⟨rfl, rfl, by rw [hpc]; rfl⟩
  | poll timeout =>
      simp only [driverStep, hpc] at hstep
      split at hstep
      · split at hstep
        · obtain rfl := Option.some.inj hstep
          exact Or.inr (Or.inr ⟨true, -1, none, s.usedSeen, rfl, Or.inl rfl⟩)
        · obtain rfl := Option.some.inj hstep
          exact Or.inl ⟨rfl, rfl, by rw [hpc]; rfl⟩
      · obtain rfl := Option.some.inj hstep
        exact Or.inl ⟨rfl, rfl, by rw [hpc]; rfl⟩
  | loadId =>
      simp only [driverStep, hpc, Option.some.injEq] at hstep
      subst hstep
      exact Or.inl ⟨rfl, rfl, by rw [hpc]; rfl⟩
  | loadLen id =>
      simp only [driverStep, hpc] at hstep
      split at hstep
      · obtain rfl := Option.some.inj hstep
        exact Or.inr (Or.inr ⟨false, _, _, _, rfl, Or.inr (Or.inl ⟨id, rfl, rfl⟩)⟩)
      · obtain rfl := Option.some.inj hstep
        exact Or.inl ⟨rfl, rfl, by rw [hpc]; rfl⟩
  | loadStatus used =>
      simp only [driverStep, hpc, Option.some.injEq] at hstep
      subst hstep
      exact Or.inr (Or.inr ⟨false, _, used, s.usedSeen, rfl, Or.inr (Or.inr rfl)⟩)

theorem moveData_same {r : Req} {q : Sys × Transfer} (h : moveData r s = some q) :
    SameRecord s q.1 := by
  rw [moveData] at h
  split at h
  · obtain rfl := Option.some.inj h
    exact ⟨rfl, rfl, rfl⟩
  · split at h
    · obtain rfl := Option.some.inj h
      exact ⟨rfl, rfl, rfl⟩
    · cases h

/-- Only the driver changes the record. -/
theorem step_cases {a : Action} (hstep : step L s a = some s') :
    SameRecord s s' ∨ driverStep L s = some s' := by
  cases a with
  | call c =>
      simp only [step] at hstep
      split at hstep
      · next hpc =>
        obtain rfl := Option.some.inj hstep
        exact Or.inl ⟨rfl, rfl, by rw [hpc]; rfl⟩
      · cases hstep
  | client a v =>
      simp only [step] at hstep
      split at hstep
      · obtain rfl := Option.some.inj hstep
        exact Or.inl ⟨rfl, rfl, rfl⟩
      · cases hstep
  | driver => exact Or.inr hstep
  | take =>
      simp only [step, take] at hstep
      split at hstep
      · cases hstep
      · obtain ⟨r, -, rfl⟩ := Option.map_eq_some_iff.mp hstep
        exact Or.inl ⟨rfl, rfl, rfl⟩
  | transfer j status =>
      obtain ⟨r, -, hr⟩ := Option.bind_eq_some_iff.mp hstep
      split at hr
      · obtain ⟨q, hq, rfl⟩ := Option.map_eq_some_iff.mp hr
        obtain ⟨hreturns, hpublished, hpending⟩ := moveData_same hq
        exact Or.inl ⟨hreturns, hpublished, hpending⟩
      · obtain rfl := Option.some.inj hr
        exact Or.inl ⟨rfl, rfl, rfl⟩
  | publish j len =>
      obtain ⟨u, -, rfl⟩ := Option.map_eq_some_iff.mp hstep
      exact Or.inl ⟨rfl, rfl, rfl⟩

/-- A step ends at most one call. -/
theorem step_returns {a : Action} (hstep : step L s a = some s') :
    s'.returns = s.returns ∨ ∃ r, s'.returns = s.returns ++ [r] := by
  rcases step_cases hstep with hsame | hdriver
  · exact Or.inl hsame.returns
  · rcases driverStep_cases hdriver with hsame | ⟨-, -, -, hsame, -⟩ | ⟨_, _, _, _, rfl, -⟩
    · exact Or.inl hsame.returns
    · exact Or.inl hsame
    · exact Or.inr ⟨_, rfl⟩

/-- Every call before which no call has given up is matched. -/
def AllMatched (s : Sys) : Prop :=
  ∀ before r after, s.returns = before ++ r :: after →
    (∀ q ∈ before, q.timedOut = false) → r.Matched

/-- What holds along every run. -/
structure Sound (L : Layout) (s : Sys) : Prop where
  matched : AllMatched s
  inv : (∀ q ∈ s.returns, q.timedOut = false) → Inv L s

/-- A call that ends is the last of the record. -/
theorem AllMatched.concat {r : Return} (h : AllMatched s) (hreturns : s'.returns = s.returns ++ [r])
    (hlast : (∀ q ∈ s.returns, q.timedOut = false) → r.Matched) : AllMatched s' := by
  intro before q after hsplit hbefore
  rw [hreturns] at hsplit
  -- either `q` is the call that has just ended, or it was there before
  rcases List.eq_nil_or_concat after with rfl | ⟨front, last, rfl⟩
  · obtain ⟨rfl, hq⟩ := List.append_inj' hsplit rfl
    rw [← (List.cons.inj hq).1]
    exact hlast hbefore
  · refine h before q front ?_ hbefore
    have hcut : s.returns ++ [r] = (before ++ q :: front) ++ [last] := by
      rw [hsplit, List.append_assoc, List.cons_append, List.concat_eq_append]
    exact (List.append_inj' hcut rfl).1

theorem step_sound (hL : L.Separate) (hsize : 3 ≤ L.vqSize) {a : Action} (ha : a.Ok L)
    (h : Sound L s) (hstep : step L s a = some s') : Sound L s' := by
  by_cases hall : ∀ q ∈ s.returns, q.timedOut = false
  · rcases step_goes hL hsize ha (h.inv hall) hstep with ⟨hsame, hinv⟩ | ⟨r, hadd, hmatched, hinv⟩
    · refine ⟨?_, fun _ => hinv⟩
      rw [AllMatched, hsame]
      exact h.matched
    · refine ⟨h.matched.concat hadd fun _ => hmatched, fun hall' => hinv (hall' r ?_)⟩
      rw [hadd]
      exact List.mem_append_right _ List.mem_cons_self
  · -- a call has given up before: nothing is promised any more
    rcases step_returns hstep with hsame | ⟨r, hadd⟩
    · refine ⟨?_, fun hall' => absurd (hsame ▸ hall') hall⟩
      rw [AllMatched, hsame]
      exact h.matched
    · refine ⟨h.matched.concat hadd fun hall' => absurd hall' hall, fun hall' => ?_⟩
      refine absurd (fun q hq => hall' q ?_) hall
      rw [hadd]
      exact List.mem_append_left _ hq

theorem start_sound (L : Layout) (m : ByteMem) (disk : Nat → UInt8) :
    Sound L (Sys.start L m disk) := by
  have hle : L.vqSize ≤ 128 := vqSize_le
  have hqmem : QMEM_SIZE = 5128 := rfl
  have hoff : L.usedOff = 4096 := usedOff_eq
  have hzero : ∀ a, L.qmem ≤ a → a + 2 ≤ L.qmem + QMEM_SIZE →
      loadLE (Sys.start L m disk).mem a 2 = 0 := by
    intro a hlo hhi
    have hbyte : ∀ b, L.qmem ≤ b → b < L.qmem + QMEM_SIZE → (Sys.start L m disk).mem b = 0 :=
      fun b h1 h2 => if_pos ⟨h1, h2⟩
    rw [loadLE, loadLE, loadLE, hbyte a hlo (by omega), hbyte (a + 1) (by omega) (by omega)]
    rfl
  refine ⟨fun before r after hsplit => ?_, fun _ => ⟨⟨?_, ?_⟩, Or.inl rfl, rfl, rfl, rfl, rfl, rfl⟩⟩
  · exact absurd hsplit (by simp [Sys.start])
  · apply hzero
    · unfold Layout.availIdx Layout.qavail
      omega
    · unfold Layout.availIdx Layout.qavail
      omega
  · apply hzero
    · unfold Layout.usedIdx Layout.qused
      omega
    · unfold Layout.usedIdx Layout.qused
      omega

/-- In every run, a call before which no call has given up returns 0 only if
the device has completed the very request that this call submitted. -/
theorem blkOp_matched (hL : L.Separate) (hsize : 3 ≤ L.vqSize) {m : ByteMem} {disk : Nat → UInt8}
    {actions : List Action} (hok : ∀ a ∈ actions, a.Ok L)
    (hrun : runAll (step L) (Sys.start L m disk) actions = some s) {before after : List Return}
    {r : Return} (hsplit : s.returns = before ++ r :: after)
    (hbefore : ∀ q ∈ before, q.timedOut = false) (hzero : r.result = 0) :
    ∃ u, r.used = some u ∧ u.req.seq = r.seq ∧ u.made = some (transferOf r.call) := by
  have hsound : Sound L s :=
    runAll_keeps (I := Sound L) (fun ha h hstep => step_sound hL hsize ha h hstep) hok
      (start_sound L m disk) hrun
  exact hsound.matched before r after hsplit hbefore hzero

/-- Polling changes nothing but the budget. -/
theorem poll_driver {timeout : Nat} (hsame : loadLE s.mem L.usedIdx 2 = s.usedSeen)
    (hpc : s.pc = .poll timeout) {n : Nat} (hn : n < timeout) :
    runAll (step L) s (List.replicate n .driver) = some { s with pc := .poll (timeout - n) } := by
  induction n with
  | zero =>
      rw [List.replicate_zero, runAll_nil, Nat.sub_zero, ← hpc]
  | succ n ih =>
      have hlast : driverStep L { s with pc := .poll (timeout - n) } =
          some { s with pc := .poll (timeout - (n + 1)) } := by
        simp only [driverStep, if_pos hsame]
        rw [if_neg (by omega), Nat.sub_sub]
      rw [List.replicate_succ', runAll_append, ih (by omega), Option.bind_some, runAll, step, hlast]
      rfl

/-- A call whose whole budget is used up gives up. -/
theorem poll_timesOut {timeout : Nat} (hsame : loadLE s.mem L.usedIdx 2 = s.usedSeen)
    (hpc : s.pc = .poll timeout) (hpos : 0 < timeout) :
    runAll (step L) s (List.replicate timeout .driver) = some (s.ret true (-1) none) := by
  obtain ⟨n, rfl⟩ : ∃ n, timeout = n + 1 := ⟨timeout - 1, by omega⟩
  have hlast : driverStep L { s with pc := .poll (n + 1 - n) } = some (s.ret true (-1) none) := by
    simp only [driverStep, if_pos hsame]
    rw [if_pos (by omega)]
    rfl
  rw [List.replicate_succ', runAll_append, poll_driver hsame hpc (Nat.lt_succ_self n),
    Option.bind_some, runAll, step, hlast]
  rfl

end Runs

/-! ## A late completion -/

def sampleLayout : Layout where
  qmem := 0x80010000
  req := 0x80020000
  statusByte := 0x80020010
  qmax := 1024

theorem sampleLayout_separate : sampleLayout.Separate where
  qmem_req := by unfold Apart; decide
  qmem_status := by unfold Apart; decide
  req_status := by unfold Apart; decide
  req_lt := by decide
  status_lt := by decide

def sampleStart (L : Layout) : Sys :=
  Sys.start L (fun _ => 0) fun _ => 7

/-- `blk_read` of sector 5. -/
def sampleRead : Call := ⟨5, 0x80030000, false⟩

/-- `blk_write` to sector 9 from another buffer. -/
def sampleWrite : Call := ⟨9, 0x80040000, true⟩

theorem sampleRead_ok : sampleRead.Ok sampleLayout where
  qmem := by unfold Apart; decide
  req := by unfold Apart; decide
  status := by unfold Apart; decide

theorem sampleWrite_ok : sampleWrite.Ok sampleLayout where
  qmem := by unfold Apart; decide
  req := by unfold Apart; decide
  status := by unfold Apart; decide

/-- A call up to its first poll: 16 stores, the load of the index, the ring
entry, the index and the notification. -/
def issue (c : Call) : List Action :=
  .call c :: List.replicate 20 .driver

/-- From the published used element to the return of the call. -/
def collect : List Action :=
  List.replicate 4 .driver

theorem driver_ok {L : Layout} {n : Nat} {a : Action} (h : a ∈ List.replicate n Action.driver) :
    a.Ok L := by
  rw [(List.mem_replicate.mp h).2]
  trivial

theorem issue_ok {L : Layout} {c : Call} (hc : c.Ok L) {a : Action} (h : a ∈ issue c) : a.Ok L := by
  rcases List.mem_cons.mp h with rfl | htail
  · exact hc
  · exact driver_ok htail

/-- A call that the device serves in time. -/
def serve (c : Call) : List Action :=
  issue c ++ [.take, .transfer 0 0, .publish 0 513] ++ collect

theorem serve_ok {L : Layout} {c : Call} (hc : c.Ok L) : ∀ a ∈ serve c, a.Ok L := by
  intro a ha
  rcases List.mem_append.mp ha with hfront | htail
  · rcases List.mem_append.mp hfront with hissue | hdevice
    · exact issue_ok hc hissue
    · fin_cases hdevice <;> trivial
  · exact driver_ok htail

/-- One call that is served in time. -/
def servedRun : List Action :=
  serve sampleRead

def servedReturn : Return :=
  ⟨sampleRead, 0, false, 0,
    some ⟨reqOf sampleLayout sampleRead 0, some (transferOf sampleRead)⟩⟩

theorem servedRun_matched :
    ∃ s r, runAll (step sampleLayout) (sampleStart sampleLayout) servedRun = some s ∧
      s.returns = [r] ∧ r.result = 0 ∧
      ∃ u, r.used = some u ∧ u.req.seq = r.seq ∧ u.made = some (transferOf r.call) := by
  have hreturns : (runAll (step sampleLayout) (sampleStart sampleLayout) servedRun).map
      Sys.returns = some [servedReturn] := by
    decide +kernel
  obtain ⟨s, hrun, hs⟩ := Option.map_eq_some_iff.mp hreturns
  have hnone : ∀ q ∈ ([] : List Return), q.timedOut = false :=
    fun q hq => absurd hq List.not_mem_nil
  have hsplit : s.returns = [] ++ servedReturn :: [] := hs
  have hmatched := blkOp_matched sampleLayout_separate (by decide) (serve_ok sampleRead_ok)
    hrun hsplit hnone rfl
  exact ⟨s, servedReturn, hrun, hs, rfl, hmatched⟩

/-- Two calls on a queue of two entries, where the store of the third descriptor
makes entries available by itself: the device takes two of them for the first
call and one for the second. -/
def overlapRun : List Action :=
  Action.call sampleRead :: List.replicate 16 Action.driver ++ [Action.take] ++
    List.replicate 4 Action.driver ++ [Action.take, Action.transfer 0 0, Action.publish 0 513] ++
    collect ++ [Action.transfer 0 0, Action.call sampleWrite] ++ List.replicate 16 Action.driver ++
    [Action.take, Action.transfer 0 0] ++ List.replicate 4 Action.driver ++
    [Action.publish 0 513] ++ collect

/-- The device has filled a buffer 64 KiB behind the caller's. -/
def misplaced : Return :=
  ⟨sampleRead, 0, false, 0, some ⟨{ reqOf sampleLayout sampleRead 0 with data := 0x80040000 },
    some { transferOf sampleRead with data := 0x80040000 }⟩⟩

/-- The second call has consumed the second completion of the first. -/
def mixedUp : Return :=
  ⟨sampleWrite, 1, false, 0, some ⟨{ reqOf sampleLayout sampleRead 1 with status := 0x80030010 },
    some (transferOf sampleRead)⟩⟩

theorem not_matched_of_made {r : Return} {u : Used} (hused : r.used = some u)
    (hmade : u.made ≠ some (transferOf r.call)) (hzero : r.result = 0) : ¬ r.Matched := by
  intro hmatched
  obtain ⟨u', hu', -, hmade'⟩ := hmatched hzero
  rw [hused, Option.some.injEq] at hu'
  subst hu'
  exact hmade hmade'

/-- A queue of fewer than three entries is not enough, even if no call gives up:
the descriptors lie on the available ring. -/
theorem small_queue_mismatch {n : Nat} (hn : n = 1 ∨ n = 2) :
    ∃ actions s r, runAll (step { sampleLayout with qmax := n })
        (sampleStart { sampleLayout with qmax := n }) actions = some s ∧
      (∀ q ∈ s.returns, q.timedOut = false) ∧ r ∈ s.returns ∧ ¬ r.Matched := by
  rcases hn with rfl | rfl
  · have hreturns : (runAll (step { sampleLayout with qmax := 1 })
        (sampleStart { sampleLayout with qmax := 1 }) servedRun).map Sys.returns =
        some [misplaced] := by
      decide +kernel
    obtain ⟨s, hrun, hs⟩ := Option.map_eq_some_iff.mp hreturns
    refine ⟨servedRun, s, misplaced, hrun, ?_, ?_, not_matched_of_made rfl (by decide) rfl⟩
    · rw [hs]
      decide
    · rw [hs]
      exact List.mem_cons_self
  · have hreturns : (runAll (step { sampleLayout with qmax := 2 })
        (sampleStart { sampleLayout with qmax := 2 }) overlapRun).map Sys.returns =
        some [servedReturn, mixedUp] := by
      decide +kernel
    obtain ⟨s, hrun, hs⟩ := Option.map_eq_some_iff.mp hreturns
    refine ⟨overlapRun, s, mixedUp, hrun, ?_, ?_, not_matched_of_made rfl (by decide) rfl⟩
    · rw [hs]
      decide
    · rw [hs]
      exact List.mem_cons_of_mem _ List.mem_cons_self

/-- The device has taken the entry of the first call, which polls. -/
def firstPolls : Sys :=
  (runAll (step sampleLayout) (sampleStart sampleLayout) (issue sampleRead ++ [.take])).getD
    (sampleStart sampleLayout)

/-- The device completes the first request during the second call. -/
def secondCall : List Action :=
  issue sampleWrite ++ [.transfer 0 0, .publish 0 513] ++ collect

theorem secondCall_ok {a : Action} (h : a ∈ secondCall) : a.Ok sampleLayout := by
  rcases List.mem_append.mp h with hfront | htail
  · rcases List.mem_append.mp hfront with hissue | hdevice
    · exact issue_ok sampleWrite_ok hissue
    · fin_cases hdevice <;> trivial
  · exact driver_ok htail

/-- The first call gives up; the second call takes the late completion for its
own and returns 0, although the device has read sector 5 and not written
sector 9. -/
theorem late_completion_not_matched :
    ∃ actions s first r, (∀ a ∈ actions, a.Ok sampleLayout) ∧
      runAll (step sampleLayout) (sampleStart sampleLayout) actions = some s ∧
      s.returns = [first, r] ∧ first.timedOut = true ∧ r.call = sampleWrite ∧ r.result = 0 ∧
      r.used = some ⟨reqOf sampleLayout sampleRead 0, some (transferOf sampleRead)⟩ ∧
      ¬ ∃ u, r.used = some u ∧ u.req.seq = r.seq ∧ u.made = some (transferOf r.call) := by
  have hfirst : runAll (step sampleLayout) (sampleStart sampleLayout)
      (issue sampleRead ++ [.take]) = some firstPolls := by
    have hsome : (runAll (step sampleLayout) (sampleStart sampleLayout)
        (issue sampleRead ++ [.take])).isSome := by decide +kernel
    obtain ⟨s, hs⟩ := Option.isSome_iff_exists.mp hsome
    rw [firstPolls, hs, Option.getD_some]
  have hpolls : firstPolls.pc = .poll KICK_TIMEOUT ∧
      loadLE firstPolls.mem sampleLayout.usedIdx 2 = firstPolls.usedSeen := by
    decide +kernel
  -- the device does nothing while the first call polls
  have hgivesUp := poll_timesOut hpolls.2 hpolls.1 (by decide)
  have hreturns : (runAll (step sampleLayout) (firstPolls.ret true (-1) none) secondCall).map
      Sys.returns = some [⟨sampleRead, 0, true, -1, none⟩, ⟨sampleWrite, 1, false, 0,
        some ⟨reqOf sampleLayout sampleRead 0, some (transferOf sampleRead)⟩⟩] := by
    decide +kernel
  obtain ⟨s, hsecond, hs⟩ := Option.map_eq_some_iff.mp hreturns
  refine ⟨issue sampleRead ++ [.take] ++ List.replicate KICK_TIMEOUT .driver ++ secondCall, s, _, _,
    fun a ha => ?_, ?_, hs, rfl, rfl, rfl, rfl, ?_⟩
  · rcases List.mem_append.mp ha with hfront | hlate
    · rcases List.mem_append.mp hfront with hstart | hpoll
      · rcases List.mem_append.mp hstart with hissue | htake
        · exact issue_ok sampleRead_ok hissue
        · rw [List.mem_singleton.mp htake]
          trivial
      · exact driver_ok hpoll
    · exact secondCall_ok hlate
  · rw [runAll_append, runAll_append, hfirst, Option.bind_some, hgivesUp, Option.bind_some, hsecond]
  · rintro ⟨u, hu, hseq, -⟩
    obtain rfl := Option.some.inj hu
    exact absurd hseq (by decide)

end VirtioBlk
end BareMetal
