import BareMetal.VirtioBlk.Matching

/-!
# The block device as its clients see it

What `blk_read` and `blk_write` are for: a disk of sectors beside the memory of
their clients (`Volume`), to which calls are made one after the other.  A call
that returns 0 has made its transfer, a call that returns a device status has
not, and about a call that returns a transport error nothing is said
(`Volume.Serves`).

As long as no call gives up, the driver with its device is exactly that
(`driver_refines_volume`): neither the rings nor the order in which driver and
device move can be told from the clients' memory, the disk and the results.
-/

namespace BareMetal
namespace VirtioBlk

open Machine

/-! ## The specification -/

/-- A disk and the memory of its clients. -/
structure Volume where
  mem : ByteMem
  disk : Nat → UInt8

/-- What a client does: a store of its own, or a call that returns. -/
inductive Event
  | put (a : Nat) (v : UInt8)
  | done (c : Call) (result : Int)
  deriving DecidableEq, Repr

namespace Volume

def put (v : Volume) (a : Nat) (b : UInt8) : Volume :=
  { v with mem := writeBytes v.mem a 1 fun _ => b }

/-- A sector to a buffer, or back. -/
def transfer (v : Volume) (c : Call) : Volume :=
  let first := BLK_SECTOR_SIZE * c.sector.toNat
  if c.write then
    { v with disk := writeBytes v.disk first BLK_SECTOR_SIZE fun i => v.mem (c.data.toNat + i) }
  else
    { v with mem := writeBytes v.mem c.data.toNat BLK_SECTOR_SIZE fun i => v.disk (first + i) }

/-- A write fills the sector and leaves the memory alone. -/
theorem transfer_write {v : Volume} {c : Call} (hc : c.write = true) :
    (v.transfer c).mem = v.mem ∧ ∀ i < BLK_SECTOR_SIZE,
      (v.transfer c).disk (BLK_SECTOR_SIZE * c.sector.toNat + i) = v.mem (c.data.toNat + i) := by
  simp only [transfer, hc, if_true, true_and]
  exact fun i hi => writeBytes_of_lt hi

/-- A read fills the buffer and leaves the disk and other memory alone. -/
theorem transfer_read {v : Volume} {c : Call} (hc : c.write = false) :
    (v.transfer c).disk = v.disk ∧
      (∀ i < BLK_SECTOR_SIZE, (v.transfer c).mem (c.data.toNat + i) =
        v.disk (BLK_SECTOR_SIZE * c.sector.toNat + i)) ∧
      ∀ a, Apart a 1 c.data.toNat BLK_SECTOR_SIZE → (v.transfer c).mem a = v.mem a := by
  simp only [transfer, hc, Bool.false_eq_true, if_false, true_and]
  exact ⟨fun i hi => writeBytes_of_lt hi, fun a ha => writeBytes_of_apart ha⟩

/-- One event. -/
inductive Serves (v : Volume) : Event → Volume → Prop
  | put (a : Nat) (b : UInt8) : Serves v (.put a b) (v.put a b)
  | made (c : Call) {r : Int} (h : r ≤ 0) : Serves v (.done c r) (v.transfer c)
  | refused (c : Call) {r : Int} (h : r ≠ 0) : Serves v (.done c r) v

/-- A call that returns 0 has made its transfer. -/
theorem Serves.of_zero {v v' : Volume} {c : Call} (h : v.Serves (.done c 0) v') :
    v' = v.transfer c := by
  cases h with
  | made _ _ => rfl
  | refused _ hne => exact absurd rfl hne

/-- A call that returns a device status has not. -/
theorem Serves.of_pos {v v' : Volume} {c : Call} {r : Int} (h : v.Serves (.done c r) v')
    (hr : 0 < r) : v' = v := by
  cases h with
  | made _ hle => exact absurd hr (not_lt.mpr hle)
  | refused _ _ => rfl

/-- Bytes of different sectors are different bytes of the disk. -/
theorem sector_disjoint {n k i : Nat} (hne : n ≠ k) (hi : i < BLK_SECTOR_SIZE) :
    Apart (BLK_SECTOR_SIZE * n + i) 1 (BLK_SECTOR_SIZE * k) BLK_SECTOR_SIZE := by
  unfold Apart BLK_SECTOR_SIZE at *
  omega

/-- Only a write to a sector changes it. -/
theorem transfer_sector {v : Volume} {c : Call} {n i : Nat} (hi : i < BLK_SECTOR_SIZE)
    (hother : c.write = true → c.sector.toNat ≠ n) :
    (v.transfer c).disk (BLK_SECTOR_SIZE * n + i) = v.disk (BLK_SECTOR_SIZE * n + i) := by
  rw [transfer]
  split
  next hwrite =>
    dsimp only
    exact writeBytes_of_apart (sector_disjoint (hother hwrite).symm hi)
  · rfl

end Volume

/-- The event may have changed sector `n`. -/
def Event.Touches (n : Nat) : Event → Prop
  | .put _ _ => False
  | .done c r => c.write = true ∧ c.sector.toNat = n ∧ r ≤ 0

/-- A sector that no event touches keeps its contents. -/
theorem replays_sector {v v' : Volume} {es : List Event} {n : Nat}
    (h : Replays Volume.Serves v es v') (hes : ∀ e ∈ es, ¬ e.Touches n) {i : Nat}
    (hi : i < BLK_SECTOR_SIZE) :
    v'.disk (BLK_SECTOR_SIZE * n + i) = v.disk (BLK_SECTOR_SIZE * n + i) := by
  refine replays_keeps (I := fun w : Volume =>
    w.disk (BLK_SECTOR_SIZE * n + i) = v.disk (BLK_SECTOR_SIZE * n + i)) ?_ rfl h
  intro w e w' he hw hstep
  rw [← hw]
  cases hstep with
  | put a b => rfl
  | made c hle => exact Volume.transfer_sector hi fun hwrite hn => hes _ he ⟨hwrite, hn, hle⟩
  | refused c hne => rfl

/-! ## What a run shows -/

/-- What a step shows to the clients. -/
def visible (s : Sys) (a : Action) (s' : Sys) : List Event :=
  match a with
  | .client x v => [.put x v]
  | _ => (s'.returns.drop s.returns.length).map fun r => .done r.call r.result

/-- A step that ends no call and is not the client's shows nothing. -/
theorem visible_of_same {s s' : Sys} {a : Action} (ha : ∀ {x v}, a ≠ .client x v)
    (hsame : s'.returns = s.returns) : visible s a s' = [] := by
  cases a with
  | client x v => exact absurd rfl ha
  | _ => simp [visible, hsame]

/-- The system with the history of what its clients have seen. -/
structure Watched where
  sys : Sys
  seen : List Event

def Watched.start (L : Layout) (m : ByteMem) (disk : Nat → UInt8) : Watched :=
  ⟨Sys.start L m disk, []⟩

def watch (L : Layout) (o : Watched) (a : Action) : Option Watched :=
  (step L o.sys a).map fun s' => ⟨s', o.seen ++ visible o.sys a s'⟩

theorem watch_eq_some {L : Layout} {o o' : Watched} {a : Action} (h : watch L o a = some o') :
    step L o.sys a = some o'.sys ∧ o'.seen = o.seen ++ visible o.sys a o'.sys := by
  obtain ⟨s', hs', rfl⟩ := Option.map_eq_some_iff.mp h
  exact ⟨hs', rfl⟩

/-- The completion of the current call, as far as the device has come. -/
def completion (L : Layout) (s : Sys) : Option Used :=
  match s.pc with
  | .notify | .poll _ | .loadId | .loadLen _ =>
      if s.completed = s.published then s.usedBy (s.usedSeen % L.vqSize) else s.finished.head?
  | .loadStatus used => used
  | _ => none

/-- The device has made the transfer of the current call. -/
def Made (L : Layout) (s : Sys) : Prop :=
  ∃ u, completion L s = some u ∧ u.made ≠ none

/-- The clients' memory and the disk are those of the volume. -/
structure Shows (L : Layout) (s : Sys) (v : Volume) : Prop where
  mem : ∀ a, L.Foreign a 1 → s.mem a = v.mem a
  disk : s.disk = v.disk

/-- What holds along every run without a call that gives up, for a history `es`
since the volume was `v₀`. -/
structure Simulates (L : Layout) (v₀ : Volume) (s : Sys) (es : List Event) : Prop where
  inv : Inv L s
  replays : ∃ v, Replays Volume.Serves v₀ es v ∧
    ((¬ Made L s ∧ Shows L s v) ∨
      (Made L s ∧ Shows L s (v.transfer s.call) ∧ loadLE s.mem L.statusByte 1 = BLK_S_OK))

/-! ## Memory of the clients -/

section Frame

variable {L : Layout} {a b k : Nat} {m : ByteMem}

/-- A foreign byte is not hit by a store to the queue. -/
theorem Layout.Foreign.qmem_store (ha : L.Foreign a 1) (hlo : L.qmem ≤ b)
    (hhi : b + k ≤ L.qmem + QMEM_SIZE) (v : Nat) : storeLE m b k v a = m a :=
  writeBytes_of_apart (ha.qmem.symm.sub le_rfl le_rfl hlo hhi)

theorem Layout.Foreign.status_store (ha : L.Foreign a 1) (v : Nat) :
    storeLE m L.statusByte 1 v a = m a :=
  writeBytes_of_apart ha.status.symm

/-- A foreign byte is not hit by a store of `blk_op`. -/
theorem Layout.Foreign.setup (ha : L.Foreign a 1) {c : Call} {st : Store}
    (hst : st ∈ blkSetup L c) : st.run m a = m a := by
  have hqmem : QMEM_SIZE = 5128 := rfl
  refine Store.run_of_apart ?_
  rcases blkSetup_within hst with hw | hw | hw
  · have hhi := hw.2
    exact ha.qmem.symm.sub le_rfl le_rfl hw.1 (by omega)
  · exact ha.req.symm.sub le_rfl le_rfl hw.1 hw.2
  · exact ha.status.symm.sub le_rfl le_rfl hw.1 hw.2

/-- Every byte of a foreign buffer is foreign. -/
theorem Layout.Foreign.byte {n i : Nat} (h : L.Foreign b n) (hi : i < n) : L.Foreign (b + i) 1 :=
  ⟨h.qmem.sub le_rfl le_rfl (by omega) (by omega), h.req.sub le_rfl le_rfl (by omega) (by omega),
    h.status.sub le_rfl le_rfl (by omega) (by omega)⟩

end Frame

/-! ## Steps the clients do not see -/

section Steps

variable {L : Layout} {v₀ : Volume} {s s' : Sys} {es : List Event}

/-- A step the clients do not see. -/
structure Unseen (L : Layout) (s s' : Sys) : Prop where
  returns : s'.returns = s.returns
  completion : completion L s' = completion L s
  call : Made L s → s'.call = s.call
  mem : ∀ a, L.Foreign a 1 → s'.mem a = s.mem a
  disk : s'.disk = s.disk
  status : Made L s → loadLE s'.mem L.statusByte 1 = loadLE s.mem L.statusByte 1

theorem Shows.unseen {v : Volume} (h : Shows L s v) (hs : Unseen L s s') : Shows L s' v :=
  ⟨fun a ha => (hs.mem a ha).trans (h.mem a ha), hs.disk.trans h.disk⟩

theorem Simulates.unseen (h : Simulates L v₀ s es) (hinv : Inv L s') (hs : Unseen L s s') :
    Simulates L v₀ s' es := by
  obtain ⟨-, v, hreplays, hv⟩ := h
  have hmade : Made L s' ↔ Made L s := by rw [Made, Made, hs.completion]
  refine ⟨hinv, v, hreplays, ?_⟩
  rcases hv with ⟨hno, hshows⟩ | ⟨hyes, hshows, hstatus⟩
  · exact Or.inl ⟨fun hm => hno (hmade.mp hm), hshows.unseen hs⟩
  · refine Or.inr ⟨hmade.mpr hyes, ?_, (hs.status hyes).trans hstatus⟩
    rw [hs.call hyes]
    exact hshows.unseen hs

/-- Before the entry is published nothing has been completed. -/
theorem not_made_of_none (h : completion L s = none) : ¬ Made L s := by
  rintro ⟨u, hu, -⟩
  rw [h] at hu
  cases hu

/-- A driver step that ends no call. -/
theorem driver_unseen (h : Inv L s) (hsize : 3 ≤ L.vqSize) (hstep : driverStep L s = some s')
    (hreturns : s'.returns = s.returns) : Unseen L s s' := by
  have hat := h.atPc
  have hle : ∀ r : Return, s.returns ++ [r] ≠ s.returns := by simp
  cases hpc : s.pc with
  | idle => simp only [driverStep, hpc, reduceCtorEq] at hstep
  | setup rest =>
      have hno : ¬ Made L s := not_made_of_none (by simp only [completion, hpc])
      simp only [AtPc, hpc] at hat
      obtain ⟨-, done, hdone, -⟩ := hat
      cases rest with
      | nil =>
          simp only [driverStep, hpc, Option.some.injEq] at hstep
          subst hstep
          exact ⟨rfl, by simp only [completion, hpc], fun hm => absurd hm hno, fun _ _ => rfl, rfl,
            fun hm => absurd hm hno⟩
      | cons st rest =>
          simp only [driverStep, hpc, Option.some.injEq] at hstep
          subst hstep
          have hmem : st ∈ blkSetup L s.call := by
            rw [← hdone]
            exact List.mem_append_right _ List.mem_cons_self
          exact ⟨rfl, by simp only [completion, hpc], fun hm => absurd hm hno,
            fun a ha => ha.setup hmem, rfl, fun hm => absurd hm hno⟩
  | storeRing idx =>
      have hno : ¬ Made L s := not_made_of_none (by simp only [completion, hpc])
      simp only [driverStep, hpc, Option.some.injEq] at hstep
      subst hstep
      obtain ⟨h1, h2, h3⟩ := indices_within hsize
      have hslot : idx % L.vqSize < L.vqSize := Nat.mod_lt _ (by omega)
      obtain ⟨hlo, hhi⟩ := availRing_within hsize hslot
      exact ⟨rfl, by simp only [completion, hpc], fun hm => absurd hm hno,
        fun a ha => ha.qmem_store (by omega) (by omega) _, rfl, fun hm => absurd hm hno⟩
  | storeIdx idx =>
      have hno : ¬ Made L s := not_made_of_none (by simp only [completion, hpc])
      simp only [AtPc, hpc] at hat
      obtain ⟨hquiet, -⟩ := hat
      simp only [driverStep, hpc, Option.some.injEq] at hstep
      subst hstep
      obtain ⟨h1, h2, h3⟩ := indices_within hsize
      refine ⟨rfl, ?_, fun hm => absurd hm hno,
        fun a ha => ha.qmem_store (by omega) (by omega) _, rfl, fun hm => absurd hm hno⟩
      have hcompleted : s.completed ≠ s.published + 1 := by
        rw [hquiet.completed]
        omega
      simp only [completion, hpc, if_neg hcompleted, hquiet.finished, List.head?_nil]
  | notify =>
      simp only [driverStep, hpc, Option.some.injEq] at hstep
      subst hstep
      exact ⟨rfl, by simp only [completion, hpc], fun _ => rfl, fun _ _ => rfl, rfl, fun _ => rfl⟩
  | poll timeout =>
      simp only [driverStep, hpc] at hstep
      split at hstep
      · split at hstep
        · obtain rfl := Option.some.inj hstep
          exact absurd hreturns (hle _)
        · obtain rfl := Option.some.inj hstep
          exact ⟨rfl, by simp only [completion, hpc], fun _ => rfl, fun _ _ => rfl, rfl,
            fun _ => rfl⟩
      · obtain rfl := Option.some.inj hstep
        exact ⟨rfl, by simp only [completion, hpc], fun _ => rfl, fun _ _ => rfl, rfl, fun _ => rfl⟩
  | loadId =>
      simp only [driverStep, hpc, Option.some.injEq] at hstep
      subst hstep
      exact ⟨rfl, by simp only [completion, hpc], fun _ => rfl, fun _ _ => rfl, rfl, fun _ => rfl⟩
  | loadLen id =>
      simp only [AtPc, hpc] at hat
      obtain ⟨-, n, hwaits, hserved⟩ := hat
      have hcompleted : s.completed = s.published := hserved.completed.trans hwaits.published.symm
      simp only [driverStep, hpc] at hstep
      split at hstep
      · obtain rfl := Option.some.inj hstep
        exact absurd hreturns (hle _)
      · obtain rfl := Option.some.inj hstep
        exact ⟨rfl, by simp only [completion, hpc, if_pos hcompleted], fun _ => rfl, fun _ _ => rfl,
          rfl, fun _ => rfl⟩
  | loadStatus used =>
      simp only [driverStep, hpc, Option.some.injEq] at hstep
      subst hstep
      exact absurd hreturns (hle _)

/-- A driver step that ends a call without giving up. -/
theorem driver_done (h : Simulates L v₀ s es) (hstep : driverStep L s = some s')
    (hinv : Inv L s') {r : Return} (hreturns : s'.returns = s.returns ++ [r])
    (htime : r.timedOut = false) :
    Simulates L v₀ s' (es ++ [.done r.call r.result]) := by
  obtain ⟨hinv₀, v, hreplays, hv⟩ := h
  have hat := hinv₀.atPc
  -- the history goes on with the call, and no call is under way after it
  have hgo : ∀ {v'}, v.Serves (.done r.call r.result) v' → ¬ Made L s' → Shows L s' v' →
      Simulates L v₀ s' (es ++ [.done r.call r.result]) := fun hserves hno hshows =>
    ⟨hinv, _, replays_append.mpr ⟨v, hreplays, replays_singleton.mpr hserves⟩,
      Or.inl ⟨hno, hshows⟩⟩
  have hidle : completion L s' = none → ¬ Made L s' := not_made_of_none
  have hnot : s'.returns ≠ s.returns := by simp [hreturns]
  rcases driverStep_cases hstep with hsame | ⟨-, -, -, hsame, -⟩ |
    ⟨timedOut, result, used, seen, hret, hwhere⟩
  · exact absurd hsame.returns hnot
  · exact absurd hsame hnot
  have hr : r = ⟨s.call, s.published - 1, timedOut, result, used⟩ := by
    rw [hret] at hreturns
    exact (List.singleton_inj.mp (List.append_cancel_left hreturns)).symm
  rcases hwhere with hgave | ⟨id, hpc, -⟩ | hpc
  · -- giving up is excluded
    rw [hr] at htime
    exact absurd hgave (ne_true_of_eq_false htime)
  · simp only [driverStep, hpc] at hstep
    split at hstep
    · next hneg =>
      obtain rfl := Option.some.inj hstep
      obtain rfl := List.singleton_inj.mp (List.append_cancel_left hreturns)
      -- a transport error: the transfer may have been made or not
      rcases hv with ⟨-, hshows⟩ | ⟨-, hshows, -⟩
      · exact hgo (.refused _ hneg.ne) (hidle rfl) ⟨hshows.mem, hshows.disk⟩
      · exact hgo (.made _ hneg.le) (hidle rfl) ⟨hshows.mem, hshows.disk⟩
    · obtain rfl := Option.some.inj hstep
      exact absurd rfl hnot
  · simp only [AtPc, hpc] at hat
    obtain ⟨-, n, made, -, hused, htells⟩ := hat
    have hmade : Made L s ↔ made ≠ none := by
      simp only [Made, completion, hpc, hused, Option.some.injEq, exists_eq_left']
    simp only [driverStep, hpc, Option.some.injEq] at hstep
    subst hstep
    obtain rfl := List.singleton_inj.mp (List.append_cancel_left hreturns)
    rcases hv with ⟨hno, hshows⟩ | ⟨-, hshows, hstatus⟩
    · -- the transfer was not made, so the status is not `OK`
      have hne : loadLE s.mem L.statusByte 1 ≠ BLK_S_OK := by
        intro hok
        exact hno (hmade.mpr (by rw [htells hok]; exact Option.some_ne_none _))
      refine hgo (.refused _ ?_) (hidle rfl) ⟨hshows.mem, hshows.disk⟩
      simp only [if_pos hne]
      omega
    · refine hgo (.made _ ?_) (hidle rfl) ⟨hshows.mem, hshows.disk⟩
      simp only [hstatus, ne_eq, not_true_eq_false, if_false, le_refl]

/-! ## Steps of the device -/

theorem take_unseen (hstep : take L s = some s') : Unseen L s s' := by
  rw [take] at hstep
  split at hstep
  · cases hstep
  · obtain ⟨r, -, rfl⟩ := Option.map_eq_some_iff.mp hstep
    exact ⟨rfl, rfl, fun _ => rfl, fun _ _ => rfl, rfl, fun _ => rfl⟩

theorem publish_unseen (hL : L.Separate) (hsize : 3 ≤ L.vqSize) (h : Inv L s) {j : Nat}
    {len : BitVec 32} (hstep : publish L s j len = some s') : Unseen L s s' := by
  have hnone : s.finished = [] → False := by
    intro hnil
    rw [publish, hnil, List.getElem?_nil] at hstep
    cases hstep
  rcases h.atPc.cases with ⟨-, -, hnil⟩ | ⟨hpc, n, hwaits, hstage⟩
  · exact (hnone hnil).elim
  cases hstage with
  | waiting _ _ _ finished => exact (hnone finished).elim
  | fetched _ _ _ finished => exact (hnone finished).elim
  | served hserved => exact (hnone hserved.finished).elim
  | finished made taken completed fetched finished tells =>
      obtain rfl : j = 0 := by
        cases j with
        | zero => rfl
        | succ j =>
            rw [publish, finished, List.getElem?_cons_succ, List.getElem?_nil] at hstep
            cases hstep
      rw [publish, finished, List.getElem?_cons_zero, Option.map_some, Option.some.injEq,
        completed] at hstep
      subst hstep
      obtain ⟨h1, h2, h3⟩ := indices_within hsize
      obtain ⟨hlo, hhi⟩ := usedElem_within (L := L) (slot_lt hsize n)
      have hfits : HEAD < 256 ^ 4 ∧ (n + 1) % 2 ^ 16 < 256 ^ 2 := ⟨by decide, by omega⟩
      obtain ⟨-, -, -, hstatus⟩ :=
        appended_loads hL hsize (slot_lt hsize n) s.mem len.toNat hfits.1 hfits.2
      refine ⟨rfl, ?_, fun _ => rfl, fun a ha => ?_, rfl, fun _ => hstatus⟩
      · -- the element moves from the finished ones to the used ring
        have hbefore : s.completed ≠ s.published := by
          rw [completed, hwaits.published]
          omega
        have hslot : s.usedSeen % L.vqSize = slot L n := by rw [hwaits.seen, slot]
        have hafter : n + 1 = s.published := hwaits.published.symm
        rcases hpc with hpc | ⟨timeout, hpc⟩
        · simp only [completion, hpc, if_neg hbefore, if_pos hafter, finished, hslot]
          exact Function.update_self _ _ _
        · simp only [completion, hpc, if_neg hbefore, if_pos hafter, finished, hslot]
          exact Function.update_self _ _ _
      · show storeLE (storeLE (storeLE s.mem (L.usedElem (slot L n)) 4 HEAD)
          (L.usedElem (slot L n) + 4) 4 len.toNat) L.usedIdx 2 ((n + 1) % 2 ^ 16) a = s.mem a
        rw [ha.qmem_store (by omega) (by omega), ha.qmem_store (by omega) (by omega),
          ha.qmem_store (by omega) (by omega)]

/-- The transfer of a request fetched from `blk_op`, as the volume makes it. -/
theorem moveData_transfer (c : Call) (n : Nat) (s : Sys) :
    moveData (reqOf L c n) s =
      some ({ s with
        mem := (Volume.transfer ⟨s.mem, s.disk⟩ c).mem
        disk := (Volume.transfer ⟨s.mem, s.disk⟩ c).disk }, transferOf c) := by
  cases hwrite : c.write with
  | true =>
      simp only [moveData, reqOf, transferOf, Volume.transfer, hwrite, Bool.not_true, if_true,
        BLK_T_IN, BLK_T_OUT, Bool.false_eq_true, and_false, not_false_eq_true, and_true, if_false]
  | false =>
      simp only [moveData, reqOf, transferOf, Volume.transfer, hwrite, Bool.not_false, if_true,
        BLK_T_IN, and_true, Bool.false_eq_true, if_false]

/-- The transfer sees the client's memory and the disk only. -/
theorem Shows.transfer {v : Volume} (h : Shows L s v) {c : Call} (hok : c.Ok L) {status : Nat}
    (hmem : s'.mem = storeLE (Volume.transfer ⟨s.mem, s.disk⟩ c).mem L.statusByte 1 status)
    (hdisk : s'.disk = (Volume.transfer ⟨s.mem, s.disk⟩ c).disk) :
    Shows L s' (v.transfer c) := by
  constructor
  · intro a ha
    rw [hmem, ha.status_store, Volume.transfer, Volume.transfer, h.disk]
    split
    · exact h.mem a ha
    · dsimp only
      rw [writeBytes, writeBytes]
      split
      · rfl
      · exact h.mem a ha
  · rw [hdisk, Volume.transfer, Volume.transfer, h.disk]
    split
    · ext1 x
      dsimp only
      rw [writeBytes, writeBytes]
      split
      · exact h.mem _ (hok.byte (by omega))
      · rfl
    · rfl

/-- The device works on the request: with the status `OK` that is the moment at
which the volume makes the transfer. -/
theorem transfer_simulates {j : Nat} {status : UInt8}
    (h : Simulates L v₀ s es) (hinv : Inv L s') (hstep : transfer s j status = some s') :
    Simulates L v₀ s' es := by
  obtain ⟨hinv₀, v, hreplays, hv⟩ := h
  have hnone : s.fetched = [] → False := by
    intro hnil
    rw [VirtioBlk.transfer, hnil, List.getElem?_nil] at hstep
    cases hstep
  have hread : ∀ m, loadLE (storeLE m L.statusByte 1 status.toNat) L.statusByte 1 =
      status.toNat := fun m => loadLE_storeLE_self status.toNat_lt
  rcases hinv₀.atPc.cases with ⟨-, hnil, -⟩ | ⟨hpc, n, hwaits, hstage⟩
  · exact (hnone hnil).elim
  cases hstage with
  | waiting _ _ fetched => exact (hnone fetched).elim
  | finished _ _ _ fetched => exact (hnone fetched).elim
  | served hserved => exact (hnone hserved.fetched).elim
  | fetched taken completed fetched finished =>
      have hok : s.call.Ok L := hinv₀.callOk (by rcases hpc with hpc | ⟨_, hpc⟩ <;> simp [hpc])
      have hbefore : s.completed ≠ s.published := by
        rw [completed, hwaits.published]
        omega
      -- nothing is completed before the step, and `u` is afterwards
      have hcompletion : ∀ (q : Sys), q.pc = s.pc → q.completed = s.completed →
          q.published = s.published → completion L q = q.finished.head? := by
        intro q h1 h2 h3
        rcases hpc with hpc | ⟨timeout, hpc⟩
        · simp only [completion, h1, hpc, h2, h3, if_neg hbefore]
        · simp only [completion, h1, hpc, h2, h3, if_neg hbefore]
      have hfinish : ∀ (q : Sys) (r : Req) (made : Option Transfer), q.pc = s.pc →
          q.completed = s.completed → q.published = s.published → q.finished = [] →
          completion L (q.finish 0 r status made) = some ⟨r, made⟩ := by
        intro q r made h1 h2 h3 h4
        rw [hcompletion (q.finish 0 r status made) h1 h2 h3, Sys.finish, h4]
        rfl
      have hno : ¬ Made L s :=
        not_made_of_none (by rw [hcompletion s rfl rfl rfl, finished, List.head?_nil])
      obtain rfl := eq_zero_of_singleton fetched hstep
      have hshows : Shows L s v := by
        rcases hv with ⟨-, hshows⟩ | ⟨hyes, -⟩
        · exact hshows
        · exact absurd hyes hno
      rw [VirtioBlk.transfer, fetched, List.getElem?_cons_zero, Option.bind_some] at hstep
      split at hstep
      · next hzero =>
        rw [moveData_transfer, Option.map_some, Option.some.injEq] at hstep
        subst hstep
        exact ⟨hinv, v, hreplays, Or.inr ⟨⟨_, hfinish _ _ _ rfl rfl rfl finished,
          Option.some_ne_none _⟩, hshows.transfer hok rfl rfl, (hread _).trans hzero⟩⟩
      · rw [Option.some.injEq] at hstep
        subst hstep
        refine ⟨hinv, v, hreplays, Or.inl ⟨?_, fun a ha => ?_, hshows.disk⟩⟩
        · rintro ⟨u, hu, hmade⟩
          rw [hfinish s _ _ rfl rfl rfl finished] at hu
          obtain rfl := Option.some.inj hu
          exact hmade rfl
        · exact (ha.status_store _).trans (hshows.mem a ha)

/-! ## Every step -/

theorem step_simulates (hL : L.Separate) (hsize : 3 ≤ L.vqSize) {a : Action} (ha : a.Ok L)
    (h : Simulates L v₀ s es) (hstep : step L s a = some s')
    (htime : ∀ q ∈ s'.returns, q.timedOut = false) :
    Simulates L v₀ s' (es ++ visible s a s') := by
  have hinv : Inv L s' := by
    rcases step_goes hL hsize ha h.inv hstep with ⟨-, hinv⟩ | ⟨r, hadd, -, hinv⟩
    · exact hinv
    · exact hinv (htime r (by rw [hadd]; exact List.mem_append_right _ List.mem_cons_self))
  have hunseen : (∀ {x v}, a ≠ .client x v) → Unseen L s s' →
      Simulates L v₀ s' (es ++ visible s a s') := by
    intro hne hs
    rw [visible_of_same hne hs.returns, List.append_nil]
    exact h.unseen hinv hs
  cases a with
  | call c =>
      refine hunseen (by simp) ?_
      simp only [step] at hstep
      split at hstep
      · next hpc =>
        obtain rfl := Option.some.inj hstep
        have hno : ¬ Made L s := not_made_of_none (by simp only [completion, hpc])
        exact ⟨rfl, by simp only [completion, hpc], fun hm => absurd hm hno,
          fun _ _ => rfl, rfl, fun hm => absurd hm hno⟩
      · cases hstep
  | client x b =>
      simp only [step] at hstep
      split at hstep
      · next hpc =>
        obtain rfl := Option.some.inj hstep
        obtain ⟨-, v, hreplays, hv⟩ := h
        have hno : ∀ {m}, ¬ Made L { s with mem := m } :=
          not_made_of_none (by simp only [completion, hpc])
        have hshows : Shows L s v := by
          rcases hv with ⟨-, hshows⟩ | ⟨hyes, -⟩
          · exact hshows
          · exact absurd hyes (hno (m := s.mem))
        refine ⟨hinv, _, replays_append.mpr ⟨v, hreplays, replays_singleton.mpr (.put x b)⟩,
          Or.inl ⟨hno, fun y hy => ?_, hshows.disk⟩⟩
        show writeBytes s.mem x 1 (fun _ => b) y = writeBytes v.mem x 1 (fun _ => b) y
        rw [writeBytes, writeBytes, hshows.mem y hy]
      · cases hstep
  | driver =>
      rcases step_returns (a := .driver) hstep with hsame | ⟨r, hadd⟩
      · exact hunseen (by simp) (driver_unseen h.inv hsize hstep hsame)
      · have hr : r.timedOut = false :=
          htime r (by rw [hadd]; exact List.mem_append_right _ List.mem_cons_self)
        have hseen : visible s .driver s' = [.done r.call r.result] := by
          simp only [visible, hadd, List.drop_left, List.map_cons, List.map_nil]
        rw [hseen]
        exact driver_done h hstep hinv hadd hr
  | take => exact hunseen (by simp) (take_unseen hstep)
  | transfer j status =>
      have hsame : s'.returns = s.returns := (transfer_inv hL hsize h.inv hstep).1
      rw [visible_of_same (by simp) hsame, List.append_nil]
      exact transfer_simulates h hinv hstep
  | publish j len => exact hunseen (by simp) (publish_unseen hL hsize h.inv hstep)

end Steps

/-! ## Whole runs -/

section WholeRuns

variable {L : Layout} {o o' : Watched} {actions : List Action}

/-- Calls that have returned stay on the record. -/
theorem run_returns_prefix (hrun : runAll (watch L) o actions = some o') :
    ∃ rs, o'.sys.returns = o.sys.returns ++ rs := by
  refine runAll_invariant (I := fun q : Watched => ∃ rs, q.sys.returns = o.sys.returns ++ rs)
    (fun {q a q'} hq hstep => ?_) ⟨[], (List.append_nil _).symm⟩ hrun
  obtain ⟨rs, hrs⟩ := hq
  rcases step_returns (watch_eq_some hstep).1 with hsame | ⟨r, hadd⟩
  · exact ⟨rs, hsame.trans hrs⟩
  · exact ⟨rs ++ [r], by rw [hadd, hrs, List.append_assoc]⟩

/-- A run in which no call gives up is a history of the volume. -/
theorem run_simulates (hL : L.Separate) (hsize : 3 ≤ L.vqSize) {v₀ : Volume}
    (hok : ∀ a ∈ actions, a.Ok L) (hstart : Simulates L v₀ o.sys [])
    (hrun : runAll (watch L) o actions = some o')
    (htime : ∀ q ∈ o'.sys.returns, q.timedOut = false) :
    ∃ es, o'.seen = o.seen ++ es ∧ Simulates L v₀ o'.sys es := by
  refine runAll_keeps (P := fun a : Action => a.Ok L)
    (I := fun q : Watched => (∀ r ∈ q.sys.returns, r.timedOut = false) →
      ∃ es, q.seen = o.seen ++ es ∧ Simulates L v₀ q.sys es)
    (fun {q a q'} ha hq hstep htime => ?_) hok
    (fun _ => ⟨[], (List.append_nil _).symm, hstart⟩) hrun htime
  obtain ⟨hsys, hseen⟩ := watch_eq_some hstep
  have hbefore : ∀ r ∈ q.sys.returns, r.timedOut = false := by
    intro r hr
    refine htime r ?_
    rcases step_returns hsys with hsame | ⟨last, hadd⟩
    · rw [hsame]
      exact hr
    · rw [hadd]
      exact List.mem_append_left _ hr
  obtain ⟨es, hes, hsim⟩ := hq hbefore
  refine ⟨es ++ visible q.sys a q'.sys, ?_, step_simulates hL hsize ha hsim hsys htime⟩
  rw [hseen, hes, List.append_assoc]

/-- Between two calls the clients' memory and the disk are the volume's. -/
theorem Simulates.idle {v₀ : Volume} {s : Sys} {es : List Event} (h : Simulates L v₀ s es)
    (hpc : s.pc = .idle) : ∃ v, Replays Volume.Serves v₀ es v ∧ Shows L s v := by
  obtain ⟨-, v, hreplays, ⟨-, hshows⟩ | ⟨hyes, -⟩⟩ := h
  · exact ⟨v, hreplays, hshows⟩
  · exact absurd hyes (not_made_of_none (by simp only [completion, hpc]))

/-- A volume that is shown between two calls can be gone on from. -/
theorem Shows.simulates {v : Volume} {s : Sys} (h : Shows L s v) (hinv : Inv L s)
    (hpc : s.pc = .idle) : Simulates L v s [] :=
  ⟨hinv, v, rfl, Or.inl ⟨not_made_of_none (by simp only [completion, hpc]), h⟩⟩

theorem start_simulates (L : Layout) (m : ByteMem) (disk : Nat → UInt8) :
    Simulates L ⟨m, disk⟩ (Watched.start L m disk).sys [] := by
  have hinv : Inv L (Sys.start L m disk) :=
    (start_sound L m disk).inv fun q hq => absurd hq List.not_mem_nil
  have hmem : ∀ a, L.Foreign a 1 → (Sys.start L m disk).mem a = m a :=
    fun a ha => writeBytes_of_apart (m := m) (f := fun _ => 0) ha.qmem.symm
  exact Shows.simulates ⟨hmem, rfl⟩ hinv rfl

/-- The results a history shows. -/
def results (es : List Event) : List (Call × Int) :=
  es.filterMap fun
    | .put _ _ => none
    | .done c r => some (c, r)

/-- The history shows the results of all calls, in order. -/
theorem seen_results {m : ByteMem} {disk : Nat → UInt8}
    (hrun : runAll (watch L) (Watched.start L m disk) actions = some o) :
    results o.seen = o.sys.returns.map fun r => (r.call, r.result) := by
  refine runAll_invariant (I := fun q : Watched =>
    results q.seen = q.sys.returns.map fun r => (r.call, r.result)) (fun {q a q'} hq hstep => ?_)
    rfl hrun
  obtain ⟨hsys, hseen⟩ := watch_eq_some hstep
  have happend : results q'.seen = results q.seen ++ results (visible q.sys a q'.sys) := by
    rw [hseen, results, List.filterMap_append]
    rfl
  rw [happend, hq]
  rcases step_returns hsys with hsame | ⟨r, hadd⟩
  · have hnone : results (visible q.sys a q'.sys) = [] := by
      cases a with
      | client x v => rfl
      | _ => simp [visible, hsame, results]
    rw [hnone, List.append_nil, hsame]
  · have hone : results (visible q.sys a q'.sys) = [(r.call, r.result)] := by
      cases a with
      | client x v =>
          simp only [step] at hsys
          split at hsys
          · obtain h := Option.some.inj hsys
            rw [← h] at hadd
            simp at hadd
          · cases hsys
      | _ => simp [visible, hadd, results]
    rw [hone, hadd, List.map_append, List.map_singleton]

/-- `blk_read` of the sector that `sampleWrite` goes to. -/
def sampleBack : Call := ⟨9, 0x80030000, false⟩

def sampleWatched : Watched :=
  Watched.start sampleLayout (fun _ => 0) fun _ => 7

/-- What a test looks at: the place in the driver, the history, and which calls
have given up. -/
def Watched.summary (o : Watched) : Pc × List Event × List Bool :=
  (o.sys.pc, o.seen, o.sys.returns.map Return.timedOut)

/-- A run with this summary. -/
theorem exists_of_summary {L : Layout} {o : Watched} {actions : List Action}
    {t : Pc × List Event × List Bool}
    (h : (runAll (watch L) o actions).map Watched.summary = some t) :
    ∃ o', runAll (watch L) o actions = some o' ∧ o'.sys.pc = t.1 ∧ o'.seen = t.2.1 ∧
      (t.2.2.all (!·) = true → ∀ q ∈ o'.sys.returns, q.timedOut = false) := by
  obtain ⟨o', hrun, rfl⟩ := Option.map_eq_some_iff.mp h
  refine ⟨o', hrun, rfl, rfl, fun hall q hq => ?_⟩
  have hin : q.timedOut ∈ o'.sys.returns.map Return.timedOut := List.mem_map_of_mem hq
  simpa using List.all_eq_true.mp hall _ hin

end WholeRuns

end VirtioBlk
end BareMetal
