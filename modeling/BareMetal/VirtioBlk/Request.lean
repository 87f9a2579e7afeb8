import BareMetal.VirtioBlk.System

/-!
# A request in memory

Where the stores of `blk_op` go, that they do not overlap each other and, with
at least three descriptors, nothing else of the queue; and that the device
fetches from them the request the call asks for.
-/

namespace BareMetal
namespace VirtioBlk

open Machine

/-! ## Layout -/

section Layout

variable {L : Layout}

theorem vqSize_le : L.vqSize ≤ VQ_NUM := by
  rw [Layout.vqSize]
  split
  · omega
  · exact le_rfl

/-- The used ring starts on the second page of `qmem`, whatever the size. -/
theorem usedOff_eq : L.usedOff = VQ_ALIGN := by
  have hle : L.vqSize ≤ 128 := vqSize_le
  unfold Layout.usedOff VQ_ALIGN
  omega

/-- A store lies within the `n` bytes at `a`. -/
def Within (st : Store) (a n : Nat) : Prop :=
  a ≤ st.addr ∧ st.addr + st.width ≤ a + n

/-- The stores of `blk_op` go to the first three descriptors, the header and the
status byte. -/
theorem blkSetup_within {c : Call} {st : Store} (h : st ∈ blkSetup L c) :
    Within st L.qmem 48 ∨ Within st L.req BLK_REQ_SIZE ∨ Within st L.statusByte 1 := by
  have hreq : BLK_REQ_SIZE = 16 := rfl
  simp only [blkSetup, virtioDescSet, Layout.qdesc, List.cons_append, List.nil_append,
    List.mem_cons, List.not_mem_nil, or_false] at h
  unfold Within
  rcases h with rfl | rfl | rfl | rfl | rfl | rfl | rfl | rfl | rfl | rfl | rfl | rfl | rfl | rfl |
    rfl | rfl
  all_goals dsimp only; omega

theorem blkSetup_fits (hL : L.Separate) {c : Call} {st : Store} (h : st ∈ blkSetup L c) :
    st.Fits := by
  have hreq := hL.req_lt
  have hstatus := hL.status_lt
  have hsize : BLK_REQ_SIZE = 16 := rfl
  have hdata := c.data.isLt
  have hsector := c.sector.isLt
  simp only [blkSetup, virtioDescSet, List.cons_append, List.nil_append, List.mem_cons,
    List.not_mem_nil, or_false] at h
  unfold Store.Fits
  rcases h with rfl | rfl | rfl | rfl | rfl | rfl | rfl | rfl | rfl | rfl | rfl | rfl | rfl | rfl |
    rfl | rfl
  all_goals dsimp only
  all_goals first | omega | (cases c.write <;> decide)

/-- No two stores of `blk_op` overlap. -/
theorem blkSetup_pairwise (hL : L.Separate) (c : Call) :
    (blkSetup L c).Pairwise fun s t => Apart s.addr s.width t.addr t.width := by
  obtain ⟨hqr, hqs, hrs, -, -⟩ := hL
  have hqmem : QMEM_SIZE = 5128 := rfl
  have hsize : BLK_REQ_SIZE = 16 := rfl
  unfold Apart at hqr hqs hrs
  simp only [blkSetup, virtioDescSet, Layout.qdesc, List.cons_append, List.nil_append,
    List.pairwise_cons, List.mem_cons, List.not_mem_nil, or_false, forall_eq_or_imp, forall_eq,
    Apart, List.Pairwise.nil, and_true, false_imp_iff, implies_true]
  omega

end Layout

/-! ## The request in memory -/

/-- All stores of `blk_op` are in memory. -/
def Ready (L : Layout) (c : Call) (m : ByteMem) : Prop :=
  ∀ st ∈ blkSetup L c, st.Holds m

/-- The request of a call, as number `n` of the available ring. -/
def reqOf (L : Layout) (c : Call) (n : Nat) : Req where
  seq := n
  head := HEAD
  type := if c.write then BLK_T_OUT else BLK_T_IN
  sector := c.sector.toNat
  data := c.data.toNat
  len := BLK_SECTOR_SIZE
  writable := !c.write
  status := L.statusByte

/-- The transfer a call asks for. -/
def transferOf (c : Call) : Transfer where
  dir := if c.write then .toDisk else .fromDisk
  sector := c.sector.toNat
  data := c.data.toNat
  len := BLK_SECTOR_SIZE

theorem readChain_next {L : Layout} {m : ByteMem} {i : Nat} {d : Desc} (fuel : Nat)
    (hd : readDesc L m i = d) (hnext : d.flags &&& VIRTQ_DESC_F_NEXT ≠ 0) :
    readChain L m (fuel + 1) i = d :: readChain L m fuel d.next := by
  subst hd
  rw [readChain, if_pos hnext]

theorem readChain_last {L : Layout} {m : ByteMem} {i : Nat} {d : Desc} (fuel : Nat)
    (hd : readDesc L m i = d) (hlast : d.flags &&& VIRTQ_DESC_F_NEXT = 0) :
    readChain L m (fuel + 1) i = [d] := by
  subst hd
  rw [readChain, if_neg (not_not.mpr hlast)]

/-- A descriptor whose stores are in memory is read as it was set. -/
theorem readDesc_stored {L : Layout} {m : ByteMem} {i addr len flags next : Nat}
    (h : ∀ st ∈ virtioDescSet L i addr len flags next, st.Holds m) :
    readDesc L m i = ⟨addr, len, flags, next⟩ := by
  simp only [virtioDescSet, List.mem_cons, List.not_mem_nil, or_false, forall_eq_or_imp, forall_eq,
    Store.Holds] at h
  obtain ⟨haddr, hlen, hflags, hnext⟩ := h
  rw [readDesc, haddr, hlen, hflags, hnext]

/-- The data descriptor chains in both directions. -/
theorem dataFlags_next (write : Bool) :
    (VIRTQ_DESC_F_NEXT ||| if write then 0 else VIRTQ_DESC_F_WRITE) &&& VIRTQ_DESC_F_NEXT ≠ 0 := by
  cases write <;> decide

/-- The device fetches the request that `blk_op` has written. -/
theorem fetch_ready {L : Layout} {c : Call} {m : ByteMem} (h : Ready L c m) (n : Nat) :
    fetch L m n HEAD = some (reqOf L c n) := by
  simp only [Ready, blkSetup, List.forall_mem_append] at h
  obtain ⟨⟨⟨hreq, h0⟩, h1⟩, h2⟩ := h
  simp only [List.mem_cons, List.not_mem_nil, or_false, forall_eq_or_imp, forall_eq,
    Store.Holds] at hreq
  obtain ⟨htype, -, hsector, -⟩ := hreq
  have hd0 : readDesc L m HEAD = _ := readDesc_stored h0
  have hd1 := readDesc_stored h1
  have hd2 := readDesc_stored h2
  have hchain : readChain L m VQ_NUM HEAD =
      [readDesc L m HEAD, readDesc L m 1, readDesc L m 2] := by
    have hhead : VIRTQ_DESC_F_NEXT &&& VIRTQ_DESC_F_NEXT ≠ 0 := by decide
    have hlast : VIRTQ_DESC_F_WRITE &&& VIRTQ_DESC_F_NEXT = 0 := by decide
    show readChain L m (125 + 1 + 1 + 1) HEAD = _
    rw [readChain_next _ hd0 hhead, readChain_next _ hd1 (dataFlags_next _), readChain_last _ hd2 hlast, hd0,
      hd1, hd2]
  have hwritable : (decide ((VIRTQ_DESC_F_NEXT ||| if c.write then 0 else VIRTQ_DESC_F_WRITE) &&&
      VIRTQ_DESC_F_WRITE ≠ 0)) = !c.write := by
    cases c.write <;> decide
  simp only [fetch, hchain, hd0, hd1, hd2, htype, hsector, hwritable, reqOf]

/-! ## Indices and slots -/

/-- The two ring indices in memory are the low halves of the true counts. -/
structure Indices (L : Layout) (m : ByteMem) (published completed : Nat) : Prop where
  avail : loadLE m L.availIdx 2 = published % 2 ^ 16
  used : loadLE m L.usedIdx 2 = completed % 2 ^ 16

/-- The slot of the rings that belongs to number `n`. -/
def slot (L : Layout) (n : Nat) : Nat :=
  n % 2 ^ 16 % L.vqSize

/-! ## Writes to other parts of memory -/

section Frame

variable {L : Layout} {m : ByteMem} {p u b k : Nat} {f : Nat → UInt8}

theorem Indices.write (h : Indices L m p u) (havail : Apart L.availIdx 2 b k)
    (hused : Apart L.usedIdx 2 b k) : Indices L (writeBytes m b k f) p u :=
  ⟨(loadLE_writeBytes_of_apart havail).trans h.avail,
    (loadLE_writeBytes_of_apart hused).trans h.used⟩

theorem Indices.store (h : Indices L m p u) (v : Nat) (havail : Apart L.availIdx 2 b k)
    (hused : Apart L.usedIdx 2 b k) : Indices L (storeLE m b k v) p u := by
  rw [storeLE]
  exact h.write havail hused

/-- Both indices lie in `qmem`, outside of the first three descriptors. -/
theorem indices_within (hsize : 3 ≤ L.vqSize) :
    L.qmem + 48 ≤ L.availIdx ∧ L.availIdx + 2 ≤ L.usedIdx ∧
      L.usedIdx + 2 ≤ L.qmem + QMEM_SIZE := by
  have hle : L.vqSize ≤ 128 := vqSize_le
  have hqmem : QMEM_SIZE = 5128 := rfl
  have hoff : L.usedOff = 4096 := usedOff_eq
  unfold Layout.availIdx Layout.usedIdx Layout.qavail Layout.qused
  omega

theorem Indices.foreign (hsize : 3 ≤ L.vqSize) (h : Indices L m p u) (hb : L.Foreign b k) :
    Indices L (writeBytes m b k f) p u := by
  obtain ⟨h1, h2, h3⟩ := indices_within hsize
  exact h.write (hb.qmem.sub (by omega) (by omega) le_rfl le_rfl)
    (hb.qmem.sub (by omega) (by omega) le_rfl le_rfl)

/-- A store to the descriptors, the header or the status byte. -/
theorem Indices.setup (hL : L.Separate) (hsize : 3 ≤ L.vqSize) (h : Indices L m p u) {c : Call}
    {st : Store} (hst : st ∈ blkSetup L c) : Indices L (st.run m) p u := by
  obtain ⟨h1, h2, h3⟩ := indices_within hsize
  have hqmem : QMEM_SIZE = 5128 := rfl
  have hapart : Apart L.availIdx 2 st.addr st.width ∧ Apart L.usedIdx 2 st.addr st.width := by
    rcases blkSetup_within hst with hw | hw | hw
    · have hhi := hw.2
      exact ⟨Or.inr (by omega), Or.inr (by omega)⟩
    · exact ⟨hL.qmem_req.sub (by omega) (by omega) hw.1 hw.2,
        hL.qmem_req.sub (by omega) (by omega) hw.1 hw.2⟩
    · exact ⟨hL.qmem_status.sub (by omega) (by omega) hw.1 hw.2,
        hL.qmem_status.sub (by omega) (by omega) hw.1 hw.2⟩
  exact h.store st.value hapart.1 hapart.2

/-- A store to `qmem` behind the first three descriptors. -/
theorem Ready.store (hL : L.Separate) {c : Call} (h : Ready L c m) (v : Nat)
    (hlo : L.qmem + 48 ≤ b) (hhi : b + k ≤ L.qmem + QMEM_SIZE) :
    Ready L c (storeLE m b k v) := by
  intro st hst
  refine (h st hst).of_apart (loadLE_storeLE_of_apart ?_)
  rcases blkSetup_within hst with hw | hw | hw
  · have hend := hw.2
    exact Or.inl (by omega)
  · exact hL.qmem_req.symm.sub hw.1 hw.2 (by omega) hhi
  · exact hL.qmem_status.symm.sub hw.1 hw.2 (by omega) hhi

/-- An entry of the available ring lies between the two indices. -/
theorem availRing_within (hsize : 3 ≤ L.vqSize) {i : Nat} (hi : i < L.vqSize) :
    L.availIdx + 2 ≤ L.availRing i ∧ L.availRing i + 2 ≤ L.usedIdx := by
  have hle : L.vqSize ≤ 128 := vqSize_le
  have hoff : L.usedOff = 4096 := usedOff_eq
  unfold Layout.availIdx Layout.availRing Layout.usedIdx Layout.qavail Layout.qused
  omega

/-- An element of the used ring lies behind both indices. -/
theorem usedElem_within {i : Nat} (hi : i < L.vqSize) :
    L.usedIdx + 2 ≤ L.usedElem i ∧ L.usedElem i + 8 ≤ L.qmem + QMEM_SIZE := by
  have hle : L.vqSize ≤ 128 := vqSize_le
  have hqmem : QMEM_SIZE = 5128 := rfl
  have hoff : L.usedOff = 4096 := usedOff_eq
  unfold Layout.usedIdx Layout.usedElem Layout.qused
  omega

theorem slot_lt (hsize : 3 ≤ L.vqSize) (n : Nat) : slot L n < L.vqSize :=
  Nat.mod_lt _ (by omega)

end Frame

end VirtioBlk
end BareMetal
