import BareMetal.VirtioBlk.Request

/-!
# The stages of a request

Every call of `blk_op` uses the same head, header and status byte.  As long as
no call has given up, at most one request is under way, and `Inv` follows it
through its stages: written, published, fetched, worked on, and appended to the
used ring.  The driver's steps and the device's steps are shown to keep it one
by one.
-/

namespace BareMetal
namespace VirtioBlk

open Machine

/-! ## The invariant -/

/-- No request is under way. -/
structure Quiet (s : Sys) : Prop where
  taken : s.taken = s.published
  completed : s.completed = s.published
  fetched : s.fetched = []
  finished : s.finished = []
  seen : s.usedSeen = s.published % 2 ^ 16

/-- The status byte says `OK` only if the transfer of the current call was made. -/
def StatusTells (L : Layout) (s : Sys) (made : Option Transfer) : Prop :=
  loadLE s.mem L.statusByte 1 = BLK_S_OK → made = some (transferOf s.call)

/-- The used element of request `n`, the current call's, is in the used ring. -/
structure Served (L : Layout) (s : Sys) (n : Nat) : Prop where
  taken : s.taken = n + 1
  completed : s.completed = n + 1
  fetched : s.fetched = []
  finished : s.finished = []
  id : loadLE s.mem (L.usedElem (slot L n)) 4 = HEAD
  entry : ∃ made, s.usedBy (slot L n) = some ⟨reqOf L s.call n, made⟩ ∧ StatusTells L s made

/-- Where the published request `n` of the current call is. -/
inductive Stage (L : Layout) (s : Sys) (n : Nat) : Prop
  | waiting (taken : s.taken = n) (completed : s.completed = n) (fetched : s.fetched = [])
      (finished : s.finished = []) (ready : Ready L s.call s.mem)
      (entry : loadLE s.mem (L.availRing (slot L n)) 2 = HEAD)
  | fetched (taken : s.taken = n + 1) (completed : s.completed = n)
      (fetched : s.fetched = [reqOf L s.call n]) (finished : s.finished = [])
  | finished (made : Option Transfer) (taken : s.taken = n + 1) (completed : s.completed = n)
      (fetched : s.fetched = []) (finished : s.finished = [⟨reqOf L s.call n, made⟩])
      (tells : StatusTells L s made)
  | served (h : Served L s n)

theorem Served.setPc {L : Layout} {s : Sys} {n : Nat} (h : Served L s n) (pc : Pc) :
    Served L { s with pc := pc } n :=
  ⟨h.taken, h.completed, h.fetched, h.finished, h.id, h.entry⟩

/-- The stage of a request does not depend on the driver's position. -/
theorem Stage.setPc {L : Layout} {s : Sys} {n : Nat} (h : Stage L s n) (pc : Pc) :
    Stage L { s with pc := pc } n := by
  cases h with
  | waiting taken completed fetched finished ready entry =>
      exact .waiting taken completed fetched finished ready entry
  | fetched taken completed fetched finished => exact .fetched taken completed fetched finished
  | finished made taken completed fetched finished tells =>
      exact .finished made taken completed fetched finished tells
  | served hserved => exact .served (hserved.setPc pc)

/-- The driver has published request `n` and not consumed its completion. -/
structure Waits (s : Sys) (n : Nat) : Prop where
  published : s.published = n + 1
  seen : s.usedSeen = n % 2 ^ 16

/-- What the system looks like at each point of the driver, as long as no call
has given up. -/
def AtPc (L : Layout) (s : Sys) : Prop :=
  match s.pc with
  | .idle => Quiet s
  | .setup rest => Quiet s ∧ ∃ done, done ++ rest = blkSetup L s.call ∧
      ∀ st ∈ done, st.Holds s.mem
  | .storeRing idx => Quiet s ∧ Ready L s.call s.mem ∧ idx = s.published % 2 ^ 16
  | .storeIdx idx => Quiet s ∧ Ready L s.call s.mem ∧ idx = s.published % 2 ^ 16 ∧
      loadLE s.mem (L.availRing (slot L s.published)) 2 = HEAD
  | .notify => ∃ n, Waits s n ∧ Stage L s n
  | .poll _ => ∃ n, Waits s n ∧ Stage L s n
  | .loadId => ∃ n, Waits s n ∧ Served L s n
  | .loadLen id => id = HEAD ∧ ∃ n, Waits s n ∧ Served L s n
  | .loadStatus used => Quiet s ∧ ∃ n made, s.published = n + 1 ∧
      used = some ⟨reqOf L s.call n, made⟩ ∧ StatusTells L s made

structure Inv (L : Layout) (s : Sys) : Prop where
  indices : Indices L s.mem s.published s.completed
  call : s.pc = .idle ∨ s.call.Ok L
  atPc : AtPc L s

/-- What a call that returns 0 promises: the used element it consumed was
written for the entry it published, and the device has made the transfer it
asked for. -/
def Return.Matched (r : Return) : Prop :=
  r.result = 0 → ∃ u, r.used = some u ∧ u.req.seq = r.seq ∧ u.made = some (transferOf r.call)

/-! ## The driver's steps -/

/-- A step keeps the invariant, or it ends a call as it should; the invariant
is lost only if that call has given up. -/
def Goes (L : Layout) (s s' : Sys) : Prop :=
  (s'.returns = s.returns ∧ Inv L s') ∨
    ∃ r, s'.returns = s.returns ++ [r] ∧ r.Matched ∧ (r.timedOut = false → Inv L s')

section Driver

variable {L : Layout} {s s' : Sys}

theorem Inv.callOk (h : Inv L s) (hpc : s.pc ≠ .idle) : s.call.Ok L :=
  h.call.resolve_left hpc

theorem driver_setup (hL : L.Separate) (hsize : 3 ≤ L.vqSize) {st : Store} {rest : List Store}
    (h : Inv L s) (hpc : s.pc = .setup (st :: rest)) :
    Inv L { s with mem := st.run s.mem, pc := .setup rest } := by
  have hat := h.atPc
  simp only [AtPc, hpc] at hat
  obtain ⟨hquiet, done, hdone, hholds⟩ := hat
  have hmem : st ∈ blkSetup L s.call := by
    rw [← hdone]
    exact List.mem_append_right _ List.mem_cons_self
  have hpair := blkSetup_pairwise hL s.call
  rw [← hdone, List.pairwise_append] at hpair
  refine ⟨h.indices.setup hL hsize hmem, Or.inr (h.callOk (by rw [hpc]; exact Pc.noConfusion)), ?_⟩
  refine ⟨⟨hquiet.taken, hquiet.completed, hquiet.fetched, hquiet.finished, hquiet.seen⟩,
    done ++ [st], by rw [← hdone, List.append_assoc]; rfl, fun q hq => ?_⟩
  -- the store just made is there, and it has not hit an earlier one
  rcases List.mem_append.mp hq with hold | hnew
  · exact (hholds q hold).run (hpair.2.2 q hold st List.mem_cons_self)
  · rw [List.mem_singleton.mp hnew]
    exact Store.holds_run_self (blkSetup_fits hL hmem) s.mem

theorem driver_loadIdx (h : Inv L s) (hpc : s.pc = .setup []) :
    Inv L { s with pc := .storeRing (loadLE s.mem L.availIdx 2) } := by
  have hat := h.atPc
  simp only [AtPc, hpc] at hat
  obtain ⟨hquiet, done, hdone, hholds⟩ := hat
  rw [List.append_nil] at hdone
  rw [hdone] at hholds
  refine ⟨h.indices, Or.inr (h.callOk (by rw [hpc]; exact Pc.noConfusion)), ?_⟩
  exact ⟨⟨hquiet.taken, hquiet.completed, hquiet.fetched, hquiet.finished, hquiet.seen⟩,
    hholds, h.indices.avail⟩

theorem driver_storeRing (hL : L.Separate) (hsize : 3 ≤ L.vqSize) {idx : Nat} (h : Inv L s)
    (hpc : s.pc = .storeRing idx) :
    Inv L { s with
      mem := storeLE s.mem (L.availRing (idx % L.vqSize)) 2 HEAD
      pc := .storeIdx idx } := by
  have hat := h.atPc
  simp only [AtPc, hpc] at hat
  obtain ⟨hquiet, hready, hidx⟩ := hat
  have hslot : idx % L.vqSize = slot L s.published := by rw [hidx, slot]
  obtain ⟨h1, h2, h3⟩ := indices_within hsize
  obtain ⟨hlo, hhi⟩ := availRing_within hsize (slot_lt hsize s.published)
  rw [hslot]
  refine ⟨h.indices.store HEAD (Or.inl hlo) (Or.inr hhi),
    Or.inr (h.callOk (by rw [hpc]; exact Pc.noConfusion)), ?_⟩
  exact ⟨⟨hquiet.taken, hquiet.completed, hquiet.fetched, hquiet.finished, hquiet.seen⟩,
    hready.store hL HEAD (by omega) (by omega), hidx, loadLE_storeLE_self (by decide)⟩

theorem driver_storeIdx (hL : L.Separate) (hsize : 3 ≤ L.vqSize) {idx : Nat} (h : Inv L s)
    (hpc : s.pc = .storeIdx idx) :
    Inv L { s with
      mem := storeLE s.mem L.availIdx 2 ((idx + 1) % 2 ^ 16)
      published := s.published + 1
      pc := .notify } := by
  have hat := h.atPc
  simp only [AtPc, hpc] at hat
  obtain ⟨hquiet, hready, hidx, hentry⟩ := hat
  obtain ⟨h1, h2, h3⟩ := indices_within hsize
  obtain ⟨hlo, hhi⟩ := availRing_within hsize (slot_lt hsize s.published)
  have havail : loadLE (storeLE s.mem L.availIdx 2 ((idx + 1) % 2 ^ 16)) L.availIdx 2 =
      (s.published + 1) % 2 ^ 16 := by
    have hfits : (idx + 1) % 2 ^ 16 < 256 ^ 2 := by omega
    rw [loadLE_storeLE_self hfits, hidx]
    omega
  refine ⟨⟨havail, (loadLE_storeLE_of_apart (Or.inr h2)).trans h.indices.used⟩,
    Or.inr (h.callOk (by rw [hpc]; exact Pc.noConfusion)), ?_⟩
  refine ⟨s.published, ⟨rfl, hquiet.seen⟩, .waiting hquiet.taken hquiet.completed hquiet.fetched
    hquiet.finished (hready.store hL _ h1 (by omega)) ?_⟩
  exact (loadLE_storeLE_of_apart (Or.inr hlo)).trans hentry

/-- The used index has moved: the used element of the call is there. -/
theorem served_of_moved {n : Nat} (hi : Indices L s.mem s.published s.completed)
    (hwaits : Waits s n) (hstage : Stage L s n) (hmoved : loadLE s.mem L.usedIdx 2 ≠ s.usedSeen) :
    Served L s n := by
  have hcompleted : s.completed ≠ n := by
    intro heq
    apply hmoved
    rw [hi.used, hwaits.seen, heq]
  cases hstage with
  | waiting _ completed => exact absurd completed hcompleted
  | fetched _ completed => exact absurd completed hcompleted
  | finished _ _ completed => exact absurd completed hcompleted
  | served hserved => exact hserved

/-- A completed call leaves no request behind. -/
theorem Served.quiet {n : Nat} (h : Served L s n) (hpub : s.published = n + 1) :
    Quiet { s with usedSeen := (n + 1) % 2 ^ 16 } := by
  refine ⟨?_, ?_, h.fetched, h.finished, ?_⟩
  · exact h.taken.trans hpub.symm
  · exact h.completed.trans hpub.symm
  · show (n + 1) % 2 ^ 16 = s.published % 2 ^ 16
    rw [hpub]

theorem driver_poll {timeout : Nat} (h : Inv L s) (hpc : s.pc = .poll timeout)
    (hstep : driverStep L s = some s') : Goes L s s' := by
  have hat := h.atPc
  simp only [AtPc, hpc] at hat
  obtain ⟨n, hwaits, hstage⟩ := hat
  have hok : s.call.Ok L := h.callOk (by rw [hpc]; exact Pc.noConfusion)
  simp only [driverStep, hpc] at hstep
  split at hstep
  · split at hstep
    · -- the budget is used up
      obtain rfl := Option.some.inj hstep
      refine Or.inr ⟨_, rfl, fun hzero => ?_, fun hfalse => Bool.noConfusion hfalse⟩
      have hminus : (-1 : Int) = 0 := hzero
      omega
    · obtain rfl := Option.some.inj hstep
      refine Or.inl ⟨rfl, h.indices, Or.inr hok, n, ⟨hwaits.published, hwaits.seen⟩, ?_⟩
      exact hstage.setPc _
  · next hmoved =>
    obtain rfl := Option.some.inj hstep
    have hserved := served_of_moved h.indices hwaits hstage hmoved
    exact Or.inl ⟨rfl, h.indices, Or.inr hok, n, ⟨hwaits.published, hwaits.seen⟩,
      hserved.setPc _⟩

theorem driver_loadId (h : Inv L s) (hpc : s.pc = .loadId) (hstep : driverStep L s = some s') :
    Goes L s s' := by
  have hat := h.atPc
  simp only [AtPc, hpc] at hat
  obtain ⟨n, hwaits, hserved⟩ := hat
  have hok : s.call.Ok L := h.callOk (by rw [hpc]; exact Pc.noConfusion)
  simp only [driverStep, hpc, Option.some.injEq] at hstep
  subst hstep
  refine Or.inl ⟨rfl, h.indices, Or.inr hok, ?_, n, ⟨hwaits.published, hwaits.seen⟩,
    hserved.setPc _⟩
  rw [hwaits.seen]
  exact hserved.id

theorem driver_loadLen {id : Nat} (h : Inv L s) (hpc : s.pc = .loadLen id)
    (hstep : driverStep L s = some s') : Goes L s s' := by
  have hat := h.atPc
  simp only [AtPc, hpc] at hat
  obtain ⟨-, n, hwaits, hserved⟩ := hat
  have hok : s.call.Ok L := h.callOk (by rw [hpc]; exact Pc.noConfusion)
  have hseen : (s.usedSeen + 1) % 2 ^ 16 = (n + 1) % 2 ^ 16 := by
    rw [hwaits.seen]
    omega
  have hquiet := hserved.quiet hwaits.published
  simp only [driverStep, hpc, hseen] at hstep
  split at hstep
  · next hneg =>
    -- the length is negative as an `int`: the call fails, but its request is done
    obtain rfl := Option.some.inj hstep
    refine Or.inr ⟨_, rfl, fun hzero => ?_, fun _ => ⟨h.indices, Or.inl rfl, ?_⟩⟩
    · exact absurd hzero hneg.ne
    · exact ⟨hquiet.taken, hquiet.completed, hquiet.fetched, hquiet.finished, hquiet.seen⟩
  · obtain rfl := Option.some.inj hstep
    obtain ⟨made, hused, htells⟩ := hserved.entry
    refine Or.inl ⟨rfl, h.indices, Or.inr hok, ?_, n, made, hwaits.published, ?_, htells⟩
    · exact ⟨hquiet.taken, hquiet.completed, hquiet.fetched, hquiet.finished, hquiet.seen⟩
    · show s.usedBy (s.usedSeen % L.vqSize) = _
      rw [hwaits.seen]
      exact hused

theorem driver_loadStatus {used : Option Used} (h : Inv L s) (hpc : s.pc = .loadStatus used)
    (hstep : driverStep L s = some s') : Goes L s s' := by
  have hat := h.atPc
  simp only [AtPc, hpc] at hat
  obtain ⟨hquiet, n, made, hpub, hused, htells⟩ := hat
  simp only [driverStep, hpc, Option.some.injEq] at hstep
  subst hstep
  refine Or.inr ⟨_, rfl, fun hzero => ?_, fun _ => ⟨h.indices, Or.inl rfl, ?_⟩⟩
  · have hstatus : loadLE s.mem L.statusByte 1 = BLK_S_OK := by
      by_contra hne
      simp only [if_pos hne] at hzero
      omega
    refine ⟨_, hused, ?_, htells hstatus⟩
    show n = s.published - 1
    omega
  · exact ⟨hquiet.taken, hquiet.completed, hquiet.fetched, hquiet.finished, hquiet.seen⟩

/-- Every step of the driver. -/
theorem driverStep_goes (hL : L.Separate) (hsize : 3 ≤ L.vqSize) (h : Inv L s)
    (hstep : driverStep L s = some s') : Goes L s s' := by
  cases hpc : s.pc with
  | idle => simp only [driverStep, hpc, reduceCtorEq] at hstep
  | setup rest =>
      cases rest with
      | nil =>
          simp only [driverStep, hpc, Option.some.injEq] at hstep
          exact Or.inl (hstep ▸ ⟨rfl, driver_loadIdx h hpc⟩)
      | cons st rest =>
          simp only [driverStep, hpc, Option.some.injEq] at hstep
          exact Or.inl (hstep ▸ ⟨rfl, driver_setup hL hsize h hpc⟩)
  | storeRing idx =>
      simp only [driverStep, hpc, Option.some.injEq] at hstep
      exact Or.inl (hstep ▸ ⟨rfl, driver_storeRing hL hsize h hpc⟩)
  | storeIdx idx =>
      simp only [driverStep, hpc, Option.some.injEq] at hstep
      exact Or.inl (hstep ▸ ⟨rfl, driver_storeIdx hL hsize h hpc⟩)
  | notify =>
      have hat := h.atPc
      simp only [AtPc, hpc] at hat
      obtain ⟨n, hwaits, hstage⟩ := hat
      simp only [driverStep, hpc, Option.some.injEq] at hstep
      subst hstep
      exact Or.inl ⟨rfl, h.indices, Or.inr (h.callOk (by rw [hpc]; exact Pc.noConfusion)), n,
        ⟨hwaits.published, hwaits.seen⟩, hstage.setPc _⟩
  | poll timeout => exact driver_poll h hpc hstep
  | loadId => exact driver_loadId h hpc hstep
  | loadLen id => exact driver_loadLen h hpc hstep
  | loadStatus used => exact driver_loadStatus h hpc hstep

end Driver

/-! ## The device's steps -/

section Device

variable {L : Layout} {s s' : Sys}

/-- Either the device has nothing to do, or it is at some stage of the request
the driver is waiting for. -/
theorem AtPc.cases (h : AtPc L s) :
    (s.taken = s.published ∧ s.fetched = [] ∧ s.finished = []) ∨
      ((s.pc = .notify ∨ ∃ timeout, s.pc = .poll timeout) ∧ ∃ n, Waits s n ∧ Stage L s n) := by
  have hserved : (∃ n, Waits s n ∧ Served L s n) →
      s.taken = s.published ∧ s.fetched = [] ∧ s.finished = [] := by
    intro ⟨n, hwaits, hs⟩
    exact ⟨hs.taken.trans hwaits.published.symm, hs.fetched, hs.finished⟩
  have hquiet : Quiet s → s.taken = s.published ∧ s.fetched = [] ∧ s.finished = [] :=
    fun hq => ⟨hq.taken, hq.fetched, hq.finished⟩
  unfold AtPc at h
  cases hpc : s.pc with
  | idle =>
      rw [hpc] at h
      exact Or.inl (hquiet h)
  | setup rest =>
      rw [hpc] at h
      exact Or.inl (hquiet h.1)
  | storeRing idx =>
      rw [hpc] at h
      exact Or.inl (hquiet h.1)
  | storeIdx idx =>
      rw [hpc] at h
      exact Or.inl (hquiet h.1)
  | notify =>
      rw [hpc] at h
      exact Or.inr ⟨Or.inl rfl, h⟩
  | poll timeout =>
      rw [hpc] at h
      exact Or.inr ⟨Or.inr ⟨timeout, rfl⟩, h⟩
  | loadId =>
      rw [hpc] at h
      exact Or.inl (hserved h)
  | loadLen id =>
      rw [hpc] at h
      exact Or.inl (hserved h.2)
  | loadStatus used =>
      rw [hpc] at h
      exact Or.inl (hquiet h.1)

theorem AtPc.of_stage {n : Nat} (hpc : s.pc = .notify ∨ ∃ timeout, s.pc = .poll timeout)
    (hwaits : Waits s n) (hstage : Stage L s n) : AtPc L s := by
  rcases hpc with hpc | ⟨timeout, hpc⟩
  · simp only [AtPc, hpc]
    exact ⟨n, hwaits, hstage⟩
  · simp only [AtPc, hpc]
    exact ⟨n, hwaits, hstage⟩

/-- There is an entry to take only while the current call waits, and it is the
entry of that call. -/
theorem take_waiting (h : Inv L s) (hstep : take L s = some s') :
    (s.pc = .notify ∨ ∃ timeout, s.pc = .poll timeout) ∧ Waits s s.taken ∧
      s.completed = s.taken ∧ s.fetched = [] ∧ s.finished = [] ∧ Ready L s.call s.mem ∧
      loadLE s.mem (L.availRing (slot L s.taken)) 2 = HEAD := by
  have hnone : s.taken = s.published → False := by
    intro heq
    rw [take, if_pos (by rw [h.indices.avail, heq])] at hstep
    cases hstep
  rcases h.atPc.cases with ⟨heq, -, -⟩ | ⟨hpc, n, hwaits, hstage⟩
  · exact (hnone heq).elim
  · cases hstage with
    | waiting taken completed fetched finished ready entry =>
        subst taken
        exact ⟨hpc, hwaits, completed, fetched, finished, ready, entry⟩
    | fetched taken => exact (hnone (taken.trans hwaits.published.symm)).elim
    | finished _ taken => exact (hnone (taken.trans hwaits.published.symm)).elim
    | served hserved => exact (hnone (hserved.taken.trans hwaits.published.symm)).elim

/-- The device fetches the request of the current call. -/
theorem take_eq (h : Inv L s) (hstep : take L s = some s') :
    s' = { s with taken := s.taken + 1, fetched := s.fetched ++ [reqOf L s.call s.taken] } := by
  obtain ⟨-, hwaits, -, -, -, ready, entry⟩ := take_waiting h hstep
  have hmore : ¬ loadLE s.mem L.availIdx 2 = s.taken % 2 ^ 16 := by
    rw [h.indices.avail, hwaits.published]
    omega
  have hfetch : fetch L s.mem s.taken
      (loadLE s.mem (L.availRing (s.taken % 2 ^ 16 % L.vqSize)) 2) =
      some (reqOf L s.call s.taken) :=
    (congrArg _ entry).trans (fetch_ready ready s.taken)
  rw [take, if_neg hmore, hfetch, Option.map_some, Option.some.injEq] at hstep
  exact hstep.symm

/-- The device takes an entry: it is the one of the current call. -/
theorem take_inv (h : Inv L s) (hstep : take L s = some s') :
    s'.returns = s.returns ∧ Inv L s' := by
  obtain ⟨hpc, hwaits, completed, fetched, finished, -, -⟩ := take_waiting h hstep
  obtain rfl := take_eq h hstep
  refine ⟨rfl, h.indices, h.call, AtPc.of_stage hpc ⟨hwaits.published, hwaits.seen⟩
    (.fetched rfl completed ?_ finished)⟩
  show s.fetched ++ [_] = _
  rw [fetched]
  rfl

/-- The transfer of a request fetched from `blk_op` is the one the call asks
for, and it touches the caller's buffer only. -/
theorem moveData_reqOf (hsize : 3 ≤ L.vqSize) {c : Call} (hok : c.Ok L) (n : Nat) (s : Sys) :
    ∃ m disk, moveData (reqOf L c n) s = some ({ s with mem := m, disk := disk }, transferOf c) ∧
      ∀ p u, Indices L s.mem p u → Indices L m p u := by
  cases hwrite : c.write with
  | true =>
      refine ⟨s.mem, writeBytes s.disk (BLK_SECTOR_SIZE * c.sector.toNat) BLK_SECTOR_SIZE
        fun i => s.mem (c.data.toNat + i), ?_, fun p u hi => hi⟩
      simp only [moveData, reqOf, transferOf, hwrite, Bool.not_true, if_true, BLK_T_IN, BLK_T_OUT,
        Bool.false_eq_true, and_false, not_false_eq_true, and_true, if_false]
  | false =>
      refine ⟨writeBytes s.mem c.data.toNat BLK_SECTOR_SIZE
        fun i => s.disk (BLK_SECTOR_SIZE * c.sector.toNat + i), s.disk, ?_,
        fun p u hi => hi.foreign hsize hok⟩
      simp only [moveData, reqOf, transferOf, hwrite, Bool.not_false, if_true, BLK_T_IN,
        and_true, Bool.false_eq_true, if_false]

/-- With one request fetched the device can only work on that one. -/
theorem eq_zero_of_singleton {r : Req} {j : Nat} {status : UInt8} (hone : s.fetched = [r])
    (hstep : transfer s j status = some s') : j = 0 := by
  cases j with
  | zero => rfl
  | succ j =>
      rw [transfer, hone, List.getElem?_cons_succ, List.getElem?_nil] at hstep
      cases hstep

/-- The device works on a request: it is the one of the current call. -/
theorem transfer_inv (hL : L.Separate) (hsize : 3 ≤ L.vqSize) {j : Nat} {status : UInt8}
    (h : Inv L s) (hstep : transfer s j status = some s') :
    s'.returns = s.returns ∧ Inv L s' := by
  obtain ⟨h1, h2, h3⟩ := indices_within hsize
  have hstatus : ∀ m p u, Indices L m p u →
      Indices L (storeLE m L.statusByte 1 status.toNat) p u := fun m p u hi =>
    hi.store _ (hL.qmem_status.sub (by omega) (by omega) le_rfl le_rfl)
      (hL.qmem_status.sub (by omega) (by omega) le_rfl le_rfl)
  have hread : ∀ m, loadLE (storeLE m L.statusByte 1 status.toNat) L.statusByte 1 =
      status.toNat := fun m => loadLE_storeLE_self status.toNat_lt
  have hnone : s.fetched = [] → False := by
    intro hnil
    rw [transfer, hnil, List.getElem?_nil] at hstep
    cases hstep
  rcases h.atPc.cases with ⟨-, hnil, -⟩ | ⟨hpc, n, hwaits, hstage⟩
  · exact (hnone hnil).elim
  · cases hstage with
    | waiting _ _ fetched => exact (hnone fetched).elim
    | finished _ _ _ fetched => exact (hnone fetched).elim
    | served hserved => exact (hnone hserved.fetched).elim
    | fetched taken completed fetched finished =>
        have hok : s.call.Ok L := h.callOk (by rcases hpc with hpc | ⟨_, hpc⟩ <;> simp [hpc])
        obtain rfl := eq_zero_of_singleton fetched hstep
        have hempty : s.fetched.eraseIdx 0 = [] := by
          rw [fetched]
          rfl
        have hone : ∀ made, s.finished ++ [⟨reqOf L s.call n, made⟩] =
            [⟨reqOf L s.call n, made⟩] := by
          intro made
          rw [finished]
          rfl
        rw [transfer, fetched, List.getElem?_cons_zero, Option.bind_some] at hstep
        split at hstep
        · obtain ⟨m, disk, hmove, hkeep⟩ := moveData_reqOf hsize hok n s
          rw [hmove, Option.map_some, Option.some.injEq] at hstep
          subst hstep
          exact ⟨rfl, hstatus _ _ _ (hkeep _ _ h.indices), h.call,
            AtPc.of_stage hpc ⟨hwaits.published, hwaits.seen⟩
              (.finished (some (transferOf s.call)) taken completed hempty (hone _) fun _ => rfl)⟩
        · next hne =>
          -- the status byte is not `OK`, so it promises nothing
          rw [Option.some.injEq] at hstep
          subst hstep
          exact ⟨rfl, hstatus _ _ _ h.indices, h.call,
            AtPc.of_stage hpc ⟨hwaits.published, hwaits.seen⟩
              (.finished none taken completed hempty (hone _) fun hzero =>
                absurd ((hread s.mem).symm.trans hzero) hne)⟩

/-- Memory after the device has appended a used element to slot `i`. -/
def appended (L : Layout) (m : ByteMem) (i head len idx : Nat) : ByteMem :=
  storeLE (storeLE (storeLE m (L.usedElem i) 4 head) (L.usedElem i + 4) 4 len) L.usedIdx 2 idx

/-- Appending a used element moves the used index and leaves the available ring
and the status byte alone. -/
theorem appended_loads (hL : L.Separate) (hsize : 3 ≤ L.vqSize) {i : Nat} (hi : i < L.vqSize)
    (m : ByteMem) {head idx : Nat} (len : Nat) (hhead : head < 256 ^ 4) (hidx : idx < 256 ^ 2) :
    loadLE (appended L m i head len idx) L.availIdx 2 = loadLE m L.availIdx 2 ∧
      loadLE (appended L m i head len idx) L.usedIdx 2 = idx ∧
      loadLE (appended L m i head len idx) (L.usedElem i) 4 = head ∧
      loadLE (appended L m i head len idx) L.statusByte 1 = loadLE m L.statusByte 1 := by
  obtain ⟨h1, h2, h3⟩ := indices_within hsize
  obtain ⟨hlo, hhi⟩ := usedElem_within hi
  have hstatus : ∀ b k, L.qmem ≤ b → b + k ≤ L.qmem + QMEM_SIZE → Apart L.statusByte 1 b k :=
    fun b k hb hk => (hL.qmem_status.sub hb hk le_rfl le_rfl).symm
  unfold appended
  refine ⟨?_, loadLE_storeLE_self hidx, ?_, ?_⟩
  · rw [loadLE_storeLE_of_apart (Or.inl h2), loadLE_storeLE_of_apart (Or.inl (by omega)),
      loadLE_storeLE_of_apart (Or.inl (by omega))]
  · rw [loadLE_storeLE_of_apart (Or.inr hlo), loadLE_storeLE_of_apart (Or.inl le_rfl),
      loadLE_storeLE_self hhead]
  · rw [loadLE_storeLE_of_apart (hstatus _ _ (by omega) (by omega)),
      loadLE_storeLE_of_apart (hstatus _ _ (by omega) (by omega)),
      loadLE_storeLE_of_apart (hstatus _ _ (by omega) (by omega))]

/-- The device publishes a used element: it is the one of the current call. -/
theorem publish_inv (hL : L.Separate) (hsize : 3 ≤ L.vqSize) {j : Nat} {len : BitVec 32}
    (h : Inv L s) (hstep : publish L s j len = some s') :
    s'.returns = s.returns ∧ Inv L s' := by
  have hnone : s.finished = [] → False := by
    intro hnil
    rw [publish, hnil, List.getElem?_nil] at hstep
    cases hstep
  rcases h.atPc.cases with ⟨-, -, hnil⟩ | ⟨hpc, n, hwaits, hstage⟩
  · exact (hnone hnil).elim
  · cases hstage with
    | waiting _ _ _ finished => exact (hnone finished).elim
    | fetched _ _ _ finished => exact (hnone finished).elim
    | served hserved => exact (hnone hserved.finished).elim
    | finished made taken completed fetched finished tells =>
        obtain rfl : j = 0 := by
          cases j with
          | zero => rfl
          | succ j =>
              rw [publish, finished, List.getElem?_cons_succ, List.getElem?_nil] at hstep
              cases hstep
        rw [publish, finished, List.getElem?_cons_zero, Option.map_some, Option.some.injEq,
          completed] at hstep
        subst hstep
        have headFits : HEAD < 256 ^ 4 := by decide
        have hindex : (n + 1) % 2 ^ 16 < 256 ^ 2 := by omega
        obtain ⟨havail, hused, hid, hstatus⟩ := appended_loads hL hsize (slot_lt hsize n) s.mem
          len.toNat headFits hindex
        refine ⟨rfl, ⟨havail.trans h.indices.avail, hused⟩, h.call,
          AtPc.of_stage hpc ⟨hwaits.published, hwaits.seen⟩
            (.served ⟨taken, rfl, fetched, ?_, hid, made, ?_, fun hzero => ?_⟩)⟩
        · rfl
        · exact Function.update_self _ _ _
        · exact tells (hstatus.symm.trans hzero)

end Device

end VirtioBlk
end BareMetal
