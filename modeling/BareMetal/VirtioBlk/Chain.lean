import BareMetal.VirtioBlk.Matching

/-!
# The chain the device is told about

`blk_op` always uses three descriptors.  `virtio_init` accepts every queue size
but 0 and puts the available ring right behind the descriptors that fit, so
with one or two of them the chain leaves the table and its last descriptors are
stored over the available ring.

`Submitting` follows one call up to its notification, with whatever the device
does to the rest of memory in the meantime.
-/

namespace BareMetal
namespace VirtioBlk

open Machine

/-- The stores of `blk_op` to the descriptor table. -/
def descStores (L : Layout) (c : Call) : List Store :=
  virtioDescSet L 0 L.req BLK_REQ_SIZE VIRTQ_DESC_F_NEXT 1 ++
    virtioDescSet L 1 c.data.toNat BLK_SECTOR_SIZE
      (VIRTQ_DESC_F_NEXT ||| if c.write then 0 else VIRTQ_DESC_F_WRITE) 2 ++
    virtioDescSet L 2 L.statusByte 1 VIRTQ_DESC_F_WRITE 0

theorem mem_blkSetup_of_descStores {L : Layout} {c : Call} {st : Store}
    (h : st ∈ descStores L c) : st ∈ blkSetup L c := by
  have happend : blkSetup L c =
      [⟨L.req, 4, if c.write then BLK_T_OUT else BLK_T_IN⟩, ⟨L.req + 4, 4, 0⟩,
        ⟨L.req + 8, 8, c.sector.toNat⟩, ⟨L.statusByte, 1, 0xff⟩] ++ descStores L c := by
    simp only [blkSetup, descStores, List.append_assoc]
  rw [happend]
  exact List.mem_append_right _ h

theorem descStores_within {L : Layout} {c : Call} {st : Store} (h : st ∈ descStores L c) :
    Within st L.qmem 48 := by
  simp only [descStores, virtioDescSet, Layout.qdesc, List.cons_append, List.nil_append,
    List.mem_cons, List.not_mem_nil, or_false] at h
  unfold Within
  rcases h with rfl | rfl | rfl | rfl | rfl | rfl | rfl | rfl | rfl | rfl | rfl | rfl
  all_goals dsimp only; omega

/-- The chain from descriptor `i` on, with the indices, as a device reads it
that stays inside the table. -/
def tableChain (L : Layout) (m : ByteMem) : Nat → Nat → Option (List (Nat × Desc))
  | 0, _ => none
  | fuel + 1, i =>
      if i < L.vqSize then
        let d := readDesc L m i
        if d.flags &&& VIRTQ_DESC_F_NEXT ≠ 0 then
          (tableChain L m fuel d.next).map fun rest => (i, d) :: rest
        else some [(i, d)]
      else none

/-- The chain of `blk_op`: a header that the device reads, the data that it
writes for a read and reads for a write, and a status that it writes. -/
def blkChain (L : Layout) (c : Call) : List (Nat × Desc) :=
  [(0, ⟨L.req, BLK_REQ_SIZE, VIRTQ_DESC_F_NEXT, 1⟩),
   (1, ⟨c.data.toNat, BLK_SECTOR_SIZE,
      VIRTQ_DESC_F_NEXT ||| if c.write then 0 else VIRTQ_DESC_F_WRITE, 2⟩),
   (2, ⟨L.statusByte, 1, VIRTQ_DESC_F_WRITE, 0⟩)]

/-- What the device finds when it is notified. -/
structure Intact (L : Layout) (c : Call) (m : ByteMem) : Prop where
  chain : tableChain L m L.vqSize HEAD = some (blkChain L c)
  inTable : ∀ p ∈ blkChain L c, p.1 < L.vqSize
  ring : ∀ st ∈ descStores L c, Apart L.qavail (4 + 2 * L.vqSize) st.addr st.width

/-- A call from the entry of `blk_op` to its notification.  In between the
device may change every byte outside the descriptor table and the available
ring. -/
inductive Submitting (L : Layout) (s : Sys) : Sys → Prop
  | entered : Submitting L s s
  | driver {t t' : Sys} (h : Submitting L s t) (hpc : t.pc ≠ .notify)
      (hstep : driverStep L t = some t') : Submitting L s t'
  | other {t : Sys} (m : ByteMem) (h : Submitting L s t)
      (hkept : ∀ a, L.qmem ≤ a → a < L.qavail + (6 + 2 * L.vqSize) → m a = t.mem a) :
      Submitting L s { t with mem := m }

section Chain

variable {L : Layout} {c : Call} {m : ByteMem}

/-! ## Reading the chain -/

theorem tableChain_next {i : Nat} {d : Desc} {rest : List (Nat × Desc)} (fuel : Nat)
    (hi : i < L.vqSize) (hd : readDesc L m i = d) (hnext : d.flags &&& VIRTQ_DESC_F_NEXT ≠ 0)
    (hrest : tableChain L m fuel d.next = some rest) :
    tableChain L m (fuel + 1) i = some ((i, d) :: rest) := by
  subst hd
  rw [tableChain, if_pos hi]
  dsimp only
  rw [if_pos hnext, hrest, Option.map_some]

theorem tableChain_last {i : Nat} {d : Desc} (fuel : Nat) (hi : i < L.vqSize)
    (hd : readDesc L m i = d) (hlast : d.flags &&& VIRTQ_DESC_F_NEXT = 0) :
    tableChain L m (fuel + 1) i = some [(i, d)] := by
  subst hd
  rw [tableChain, if_pos hi]
  dsimp only
  rw [if_neg (not_not.mpr hlast)]

/-- With room for three descriptors the chain is read as it was stored. -/
theorem tableChain_stored (hsize : 3 ≤ L.vqSize) (h : ∀ st ∈ descStores L c, st.Holds m) :
    tableChain L m L.vqSize HEAD = some (blkChain L c) := by
  simp only [descStores, List.forall_mem_append] at h
  obtain ⟨⟨h0, h1⟩, h2⟩ := h
  obtain ⟨fuel, hfuel⟩ := Nat.exists_eq_add_of_le' hsize
  have hhead : VIRTQ_DESC_F_NEXT &&& VIRTQ_DESC_F_NEXT ≠ 0 := by decide
  have hlast : VIRTQ_DESC_F_WRITE &&& VIRTQ_DESC_F_NEXT = 0 := by decide
  have hstatus := tableChain_last fuel (by omega) (readDesc_stored h2) hlast
  have hdata := tableChain_next (fuel + 1) (by omega) (readDesc_stored h1) (dataFlags_next _)
    hstatus
  have hheader := tableChain_next (fuel + 2) (by omega) (readDesc_stored h0) hhead hdata
  rw [hfuel]
  exact hheader

/-! ## One call up to its notification -/

/-- What has been stored to the descriptors at each point of the call. -/
def StoredAt (L : Layout) (c : Call) (t : Sys) : Prop :=
  match t.pc with
  | .setup rest => ∃ done, done ++ rest = blkSetup L c ∧
      ∀ st ∈ done, st ∈ descStores L c → st.Holds t.mem
  | .storeRing _ | .storeIdx _ | .notify => ∀ st ∈ descStores L c, st.Holds t.mem
  | _ => False

theorem holds_of_same {st : Store} {m' : ByteMem} (hst : Within st L.qmem 48) (h : st.Holds m)
    (hsame : ∀ a, L.qmem ≤ a → a < L.qmem + 48 → m' a = m a) : st.Holds m' := by
  obtain ⟨hlo, hhi⟩ := hst
  refine h.of_apart (loadLE_congr fun i hi => ?_)
  exact hsame _ (by omega) (by omega)

/-- A store behind the first three descriptors leaves them alone. -/
theorem holds_storeLE {st : Store} (hst : Within st L.qmem 48) (h : st.Holds m) {b k v : Nat}
    (hb : L.qmem + 48 ≤ b) : st.Holds (storeLE m b k v) := by
  refine holds_of_same hst h fun a _ ha => ?_
  rw [storeLE, writeBytes_of_apart (Or.inl (by omega))]

theorem setup_stored (hL : L.Separate) {t : Sys} {st : Store} {rest : List Store}
    (hpc : t.pc = .setup (st :: rest)) (h : StoredAt L c t) :
    StoredAt L c { t with mem := st.run t.mem, pc := .setup rest } := by
  rw [StoredAt, hpc] at h
  obtain ⟨done, hdone, hholds⟩ := h
  have hpair := blkSetup_pairwise hL c
  rw [← hdone, List.pairwise_append] at hpair
  have hmem : st ∈ blkSetup L c := by
    rw [← hdone]
    exact List.mem_append_right _ List.mem_cons_self
  refine ⟨done ++ [st], by rw [List.append_assoc]; exact hdone, fun st' hst' hdesc => ?_⟩
  rcases List.mem_append.mp hst' with hold | hnew
  · exact (hholds st' hold hdesc).run (hpair.2.2 st' hold st List.mem_cons_self)
  · rw [List.mem_singleton.mp hnew]
    exact Store.holds_run_self (blkSetup_fits hL hmem) t.mem

/-- Every step of the driver before the notification. -/
theorem driverStep_stored (hL : L.Separate) (hsize : 3 ≤ L.vqSize) {t t' : Sys}
    (h : StoredAt L c t) (hnot : t.pc ≠ .notify) (hstep : driverStep L t = some t') :
    StoredAt L c t' := by
  have hbehind : L.qmem + 48 ≤ L.qavail := by
    unfold Layout.qavail
    omega
  have hkeep : ∀ {b k v : Nat}, L.qavail ≤ b → (∀ st ∈ descStores L c, st.Holds t.mem) →
      ∀ st ∈ descStores L c, st.Holds (storeLE t.mem b k v) := fun hb hall st hst =>
    holds_storeLE (descStores_within hst) (hall st hst) (hbehind.trans hb)
  cases hpc : t.pc with
  | setup rest =>
      cases rest with
      | cons st rest =>
          simp only [driverStep, hpc, Option.some.injEq] at hstep
          subst hstep
          exact setup_stored hL hpc h
      | nil =>
          rw [StoredAt, hpc] at h
          obtain ⟨done, hdone, hholds⟩ := h
          rw [List.append_nil] at hdone
          simp only [driverStep, hpc, Option.some.injEq] at hstep
          subst hstep
          intro st hst
          refine hholds st ?_ hst
          rw [hdone]
          exact mem_blkSetup_of_descStores hst
  | storeRing idx =>
      rw [StoredAt, hpc] at h
      simp only [driverStep, hpc, Option.some.injEq] at hstep
      subst hstep
      refine hkeep ?_ h
      unfold Layout.availRing
      omega
  | storeIdx idx =>
      rw [StoredAt, hpc] at h
      simp only [driverStep, hpc, Option.some.injEq] at hstep
      subst hstep
      refine hkeep ?_ h
      unfold Layout.availIdx
      omega
  | notify => exact absurd hpc hnot
  | idle | poll | loadId | loadLen | loadStatus =>
      rw [StoredAt, hpc] at h
      exact h.elim

/-- The device's part of the time changes nothing here. -/
theorem other_stored (hsize : 3 ≤ L.vqSize) {t : Sys} (h : StoredAt L c t)
    (hkept : ∀ a, L.qmem ≤ a → a < L.qavail + (6 + 2 * L.vqSize) → m a = t.mem a) :
    StoredAt L c { t with mem := m } := by
  have hbehind : L.qmem + 48 ≤ L.qavail := by
    unfold Layout.qavail
    omega
  have hsame : ∀ st ∈ descStores L c, st.Holds t.mem → st.Holds m := fun st hst hholds =>
    holds_of_same (descStores_within hst) hholds fun a hlo hhi => hkept a hlo (by omega)
  unfold StoredAt at h ⊢
  cases hpc : t.pc with
  | setup rest =>
      rw [hpc] at h
      obtain ⟨done, hdone, hholds⟩ := h
      exact ⟨done, hdone, fun st hst hdesc => hsame st hdesc (hholds st hst hdesc)⟩
  | storeRing | storeIdx | notify =>
      rw [hpc] at h
      exact fun st hst => hsame st hst (h st hst)
  | idle | poll | loadId | loadLen | loadStatus =>
      rw [hpc] at h
      exact h.elim

theorem submitting_stored (hL : L.Separate) (hsize : 3 ≤ L.vqSize) {s t : Sys}
    (hpc : s.pc = .setup (blkSetup L c)) (h : Submitting L s t) : StoredAt L c t := by
  induction h with
  | entered =>
      rw [StoredAt, hpc]
      exact ⟨[], rfl, fun st hst => absurd hst List.not_mem_nil⟩
  | driver _ hnot hstep ih => exact driverStep_stored hL hsize ih hnot hstep
  | other m _ hkept ih => exact other_stored hsize ih hkept

/-- Undisturbed, a call gets to its notification. -/
theorem submitting_notifies {s t : Sys} {rest : List Store} (hpc : t.pc = .setup rest)
    (h : Submitting L s t) : ∃ t', Submitting L s t' ∧ t'.pc = .notify := by
  induction rest generalizing t with
  | cons st rest ih =>
      have hstep : driverStep L t = some { t with mem := st.run t.mem, pc := .setup rest } := by
        simp only [driverStep, hpc]
      exact ih rfl (h.driver (by rw [hpc]; exact Pc.noConfusion) hstep)
  | nil =>
      have hload : driverStep L t = some { t with pc := .storeRing (loadLE t.mem L.availIdx 2) } := by
        simp only [driverStep, hpc]
      have hring := h.driver (by rw [hpc]; exact Pc.noConfusion) hload
      have hidx := hring.driver Pc.noConfusion rfl
      exact ⟨_, hidx.driver Pc.noConfusion rfl, rfl⟩

/-- When `blk_op` notifies the device, chain and available ring are intact, for
every call and whatever the device has done before, exactly if the device
offers at least three queue entries. -/
theorem chain_intact_iff (hL : L.Separate) {s : Sys} (hpc : s.pc = .setup (blkSetup L c)) :
    (∀ t, Submitting L s t → t.pc = .notify → Intact L c t.mem) ↔ 3 ≤ L.qmax := by
  have hsize : 3 ≤ L.qmax ↔ 3 ≤ L.vqSize := by
    rw [Layout.vqSize, VQ_NUM]
    split <;> omega
  rw [hsize]
  constructor
  · intro hall
    obtain ⟨t, ht, hnotify⟩ := submitting_notifies hpc .entered
    have hstatus : (2, ⟨L.statusByte, 1, VIRTQ_DESC_F_WRITE, 0⟩) ∈ blkChain L c := by
      simp [blkChain]
    exact (hall t ht hnotify).inTable _ hstatus
  · intro hthree t ht hnotify
    have hstored := submitting_stored hL hthree hpc ht
    rw [StoredAt, hnotify] at hstored
    refine ⟨tableChain_stored hthree hstored, fun p hp => ?_, fun st hst => ?_⟩
    · have hlt : p.1 < 3 := by
        simp only [blkChain, List.mem_cons, List.not_mem_nil, or_false] at hp
        rcases hp with rfl | rfl | rfl <;> simp
      omega
    · obtain ⟨hlo, hhi⟩ := descStores_within hst
      refine Or.inr ?_
      unfold Layout.qavail
      omega

end Chain

/-- The sample call as `blk_op` is entered. -/
def sampleEntered (L : Layout) : Sys :=
  { sampleStart L with call := sampleRead, pc := .setup (blkSetup L sampleRead) }

/-- A queue of 128 entries: the sample call gets to its notification with its
chain intact. -/
theorem sampleRead_intact :
    ∃ t, Submitting sampleLayout (sampleEntered sampleLayout) t ∧ t.pc = .notify ∧
      Intact sampleLayout sampleRead t.mem := by
  obtain ⟨t, ht, hnotify⟩ := submitting_notifies (t := sampleEntered sampleLayout) rfl .entered
  have hall := (chain_intact_iff sampleLayout_separate (c := sampleRead)
    (s := sampleEntered sampleLayout) rfl).mpr (by decide)
  exact ⟨t, ht, hnotify, hall t ht hnotify⟩

/-- A queue of two entries: the third descriptor is stored over the available
ring, the index published there is made of the address of the status byte, and
the chain leaves the table. -/
theorem two_entries_overlap :
    let L := { sampleLayout with qmax := 2 }
    ∃ t, runAll (step L) (sampleStart L) (.call sampleRead :: List.replicate 19 .driver) = some t ∧
      t.pc = .notify ∧ L.qdesc 2 = L.qavail ∧ loadLE t.mem L.availIdx 2 = 0x8003 ∧
      tableChain L t.mem L.vqSize HEAD = none ∧ ¬ Intact L sampleRead t.mem := by
  dsimp only
  have hstate : (runAll (step { sampleLayout with qmax := 2 })
      (sampleStart { sampleLayout with qmax := 2 })
      (.call sampleRead :: List.replicate 19 .driver)).map (fun t => (t.pc,
        loadLE t.mem ({ sampleLayout with qmax := 2 } : Layout).availIdx 2,
        tableChain { sampleLayout with qmax := 2 } t.mem 2 HEAD)) =
      some (.notify, 0x8003, none) := by
    decide +kernel
  obtain ⟨t, hrun, ht⟩ := Option.map_eq_some_iff.mp hstate
  simp only [Prod.mk.injEq] at ht
  obtain ⟨hpc, hidx, hchain⟩ := ht
  refine ⟨t, hrun, hpc, by decide, hidx, hchain, fun hintact => ?_⟩
  exact absurd (hchain.symm.trans hintact.chain) (by simp)

end VirtioBlk
end BareMetal
