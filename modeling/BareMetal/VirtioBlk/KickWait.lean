import BareMetal.VirtioBlk.System

/-!
# The result of `virtio_kick_wait`

`virtio_kick_wait` and the classification `blk_op` makes of its result, as
functions of what the driver reads: `view n` is the memory at the driver's
`n`-th load after the notify write, whatever the device has done to it in the
meantime.  The length of the used element comes back through a signed `int`,
and a negative `int` is also how the two transport errors are reported.

`driver_returns` connects this with the system of `VirtioBlk.System`: there,
too, a call returns `blkOp` of the memories its loads have seen.
-/

namespace BareMetal
namespace VirtioBlk

open Machine

/-! ## The functions -/

/-- The loop on `qused->idx`, entered at load `n`: the number of the load that
has seen it move, or `none` when the budget is used up first. -/
def pollUsed (L : Layout) (usedSeen : Nat) (view : Nat → ByteMem) : Nat → Nat → Option Nat
  | 0, _ => none
  | timeout + 1, n =>
      if loadLE (view n) L.usedIdx 2 = usedSeen then
        -- `--timeout == 0`
        if timeout = 0 then none else pollUsed L usedSeen view timeout (n + 1)
      else some n

/-- How `virtio_kick_wait` ends: what it returns, `used_seen`, and the number of
the driver's next load. -/
structure Kick where
  result : Int
  usedSeen : Nat
  next : Nat
  deriving DecidableEq, Repr

/-- `e.id` of the used element after load `n` has seen the index move. -/
def usedId (L : Layout) (usedSeen : Nat) (view : Nat → ByteMem) (n : Nat) : Nat :=
  loadLE (view (n + 1)) (L.usedElem (usedSeen % L.vqSize)) 4

/-- `e.len` of that element. -/
def usedLen (L : Layout) (usedSeen : Nat) (view : Nat → ByteMem) (n : Nat) : Nat :=
  loadLE (view (n + 2)) (L.usedElem (usedSeen % L.vqSize) + 4) 4

/-- `virtio_kick_wait`, from the notify write on. -/
def virtioKickWait (L : Layout) (usedSeen : Nat) (view : Nat → ByteMem) (head : BitVec 16) : Kick :=
  match pollUsed L usedSeen view KICK_TIMEOUT 0 with
  | none => ⟨-1, usedSeen, KICK_TIMEOUT⟩
  | some n =>
      ⟨kickResult head.toNat (usedId L usedSeen view n) (usedLen L usedSeen view n),
        (usedSeen + 1) % 2 ^ 16, n + 3⟩

/-- The status byte as `blk_op` reads it after a call that has ended as `k`. -/
def statusAfter (L : Layout) (view : Nat → ByteMem) (k : Kick) : Nat :=
  loadLE (view k.next) L.statusByte 1

/-- `blk_op`, from the notify write on. -/
def blkOp (L : Layout) (usedSeen : Nat) (view : Nat → ByteMem) : Int :=
  let k := virtioKickWait L usedSeen view (BitVec.ofNat 16 HEAD)
  if k.result < 0 then k.result
  else if statusAfter L view k ≠ BLK_S_OK then 100 + statusAfter L view k
  else 0

/-! ## The polling loop -/

/-- The index has not moved in any of the loads the budget allows. -/
def TimedOut (L : Layout) (usedSeen : Nat) (view : Nat → ByteMem) : Prop :=
  ∀ n < KICK_TIMEOUT, loadLE (view n) L.usedIdx 2 = usedSeen

/-- Load `n` is the first to see the index move, and within the budget. -/
structure CompletesAt (L : Layout) (usedSeen : Nat) (view : Nat → ByteMem) (n : Nat) : Prop where
  inTime : n < KICK_TIMEOUT
  moved : loadLE (view n) L.usedIdx 2 ≠ usedSeen
  first : ∀ k < n, loadLE (view k) L.usedIdx 2 = usedSeen

section Poll

variable {L : Layout} {usedSeen : Nat} {view : Nat → ByteMem}

theorem pollUsed_eq_none {timeout n : Nat}
    (hstill : ∀ k < timeout, loadLE (view (n + k)) L.usedIdx 2 = usedSeen) :
    pollUsed L usedSeen view timeout n = none := by
  induction timeout generalizing n with
  | zero => rfl
  | succ timeout ih =>
      have hnow : loadLE (view n) L.usedIdx 2 = usedSeen := hstill 0 (Nat.succ_pos timeout)
      have hlater : pollUsed L usedSeen view timeout (n + 1) = none := by
        apply ih
        intro k hk
        rw [Nat.add_right_comm]
        exact hstill (k + 1) (Nat.succ_lt_succ hk)
      rw [pollUsed, if_pos hnow, hlater, ite_self]

theorem pollUsed_eq_some {timeout n k : Nat} (hk : k < timeout)
    (hmoved : loadLE (view (n + k)) L.usedIdx 2 ≠ usedSeen)
    (hfirst : ∀ j < k, loadLE (view (n + j)) L.usedIdx 2 = usedSeen) :
    pollUsed L usedSeen view timeout n = some (n + k) := by
  induction timeout generalizing n k with
  | zero => exact absurd hk (Nat.not_lt_zero k)
  | succ timeout ih =>
      cases k with
      | zero =>
          rw [Nat.add_zero] at hmoved
          rw [pollUsed, if_neg hmoved, Nat.add_zero]
      | succ k =>
          have hnow : loadLE (view n) L.usedIdx 2 = usedSeen := hfirst 0 (Nat.succ_pos k)
          have hleft : timeout ≠ 0 := by omega
          rw [pollUsed, if_pos hnow, if_neg hleft, Nat.add_comm k 1, ← Nat.add_assoc]
          apply ih (Nat.lt_of_succ_lt_succ hk)
          · rwa [Nat.add_assoc, Nat.add_comm 1 k]
          · intro j hj
            rw [Nat.add_assoc, Nat.add_comm 1 j]
            exact hfirst (j + 1) (Nat.succ_lt_succ hj)

/-- A call times out, or some load is the first to see the index move. -/
theorem timedOut_or_completesAt (L : Layout) (usedSeen : Nat) (view : Nat → ByteMem) :
    TimedOut L usedSeen view ∨ ∃ n, CompletesAt L usedSeen view n := by
  by_cases hstill : TimedOut L usedSeen view
  · exact .inl hstill
  · right
    have hexists : ∃ n, n < KICK_TIMEOUT ∧ loadLE (view n) L.usedIdx 2 ≠ usedSeen := by
      unfold TimedOut at hstill
      push Not at hstill
      exact hstill
    obtain ⟨hlt, hmoved⟩ := Nat.find_spec hexists
    refine ⟨Nat.find hexists, hlt, hmoved, fun k hk => ?_⟩
    have hnot := Nat.find_min hexists hk
    push Not at hnot
    exact hnot (hk.trans hlt)

theorem CompletesAt.not_timedOut {n : Nat} (h : CompletesAt L usedSeen view n) :
    ¬ TimedOut L usedSeen view :=
  fun hstill => h.moved (hstill n h.inTime)

theorem CompletesAt.unique {n k : Nat} (hn : CompletesAt L usedSeen view n)
    (hk : CompletesAt L usedSeen view k) : n = k := by
  rcases Nat.lt_trichotomy n k with hlt | heq | hgt
  · exact absurd (hk.first n hlt) hn.moved
  · exact heq
  · exact absurd (hn.first k hgt) hk.moved

theorem virtioKickWait_of_timedOut (head : BitVec 16) (h : TimedOut L usedSeen view) :
    virtioKickWait L usedSeen view head = ⟨-1, usedSeen, KICK_TIMEOUT⟩ := by
  have hpoll : pollUsed L usedSeen view KICK_TIMEOUT 0 = none := by
    apply pollUsed_eq_none
    intro k hk
    rw [Nat.zero_add]
    exact h k hk
  rw [virtioKickWait, hpoll]

theorem virtioKickWait_of_completesAt (head : BitVec 16) {n : Nat}
    (h : CompletesAt L usedSeen view n) :
    virtioKickWait L usedSeen view head =
      ⟨kickResult head.toNat (usedId L usedSeen view n) (usedLen L usedSeen view n),
        (usedSeen + 1) % 2 ^ 16, n + 3⟩ := by
  have hpoll : pollUsed L usedSeen view KICK_TIMEOUT 0 = some (0 + n) := by
    apply pollUsed_eq_some h.inTime
    · rw [Nat.zero_add]
      exact h.moved
    · intro k hk
      rw [Nat.zero_add]
      exact h.first k hk
  rw [virtioKickWait, hpoll, Nat.zero_add]

end Poll

/-! ## The contract of the result -/

/-- The contract of `virtio_kick_wait`: negative exactly for the two transport
errors, each with its own code, and the length otherwise. -/
structure KickContract (L : Layout) (usedSeen : Nat) (view : Nat → ByteMem) (head : BitVec 16) :
    Prop where
  negative_iff : (virtioKickWait L usedSeen view head).result < 0 ↔
    TimedOut L usedSeen view ∨
      ∃ n, CompletesAt L usedSeen view n ∧ usedId L usedSeen view n ≠ head.toNat
  timeout : TimedOut L usedSeen view → (virtioKickWait L usedSeen view head).result = -1
  mismatch : ∀ n, CompletesAt L usedSeen view n → usedId L usedSeen view n ≠ head.toNat →
    (virtioKickWait L usedSeen view head).result = -2
  length : ∀ n, CompletesAt L usedSeen view n → usedId L usedSeen view n = head.toNat →
    (virtioKickWait L usedSeen view head).result = usedLen L usedSeen view n

/-- The contract of `blk_op`: a transport error only in the two cases, and for a
request that has completed under its own head a device error exactly when the
status byte is not `BLK_S_OK`, with the status in the code. -/
structure BlkContract (L : Layout) (usedSeen : Nat) (view : Nat → ByteMem) : Prop where
  transport : blkOp L usedSeen view < 0 →
    TimedOut L usedSeen view ∨
      ∃ n, CompletesAt L usedSeen view n ∧ usedId L usedSeen view n ≠ HEAD
  device_iff : ∀ n, CompletesAt L usedSeen view n → usedId L usedSeen view n = HEAD →
    (0 < blkOp L usedSeen view ↔ loadLE (view (n + 3)) L.statusByte 1 ≠ BLK_S_OK)
  device : ∀ n, CompletesAt L usedSeen view n → usedId L usedSeen view n = HEAD →
    loadLE (view (n + 3)) L.statusByte 1 ≠ BLK_S_OK →
      blkOp L usedSeen view = 100 + loadLE (view (n + 3)) L.statusByte 1

/-- A request that completes in time and under its head, with a length that does
not fit an `int`. -/
def LengthOverflows (L : Layout) (usedSeen : Nat) (view : Nat → ByteMem) (head : Nat) : Prop :=
  ∃ n, CompletesAt L usedSeen view n ∧ usedId L usedSeen view n = head ∧
    2 ^ 31 ≤ usedLen L usedSeen view n

theorem kickResult_of_ne {head id : Nat} (len : Nat) (h : id ≠ head) : kickResult head id len = -2 :=
  if_pos h

theorem kickResult_of_lt {head id len : Nat} (h : id = head) (hlen : len < 2 ^ 31) :
    kickResult head id len = len := by
  rw [kickResult, if_neg (not_not.mpr h), if_pos hlen]

theorem kickResult_of_le {head id len : Nat} (h : id = head) (hlen : 2 ^ 31 ≤ len) :
    kickResult head id len = len - 2 ^ 32 := by
  rw [kickResult, if_neg (not_not.mpr h), if_neg (Nat.not_lt.mpr hlen)]

theorem loadLE_lt (m : ByteMem) (a n : Nat) : loadLE m a n < 256 ^ n := by
  induction n generalizing a with
  | zero => exact Nat.one_pos
  | succ n ih =>
      have hbyte : (m a).toNat < 256 := (m a).toNat_lt
      have hrest := ih (a + 1)
      rw [loadLE, pow_succ']
      omega

section Contract

variable {L : Layout} {usedSeen : Nat} {view : Nat → ByteMem}

theorem usedLen_lt (n : Nat) : usedLen L usedSeen view n < 2 ^ 32 :=
  loadLE_lt _ _ 4

theorem kickContract_of_not_overflows {head : BitVec 16}
    (h : ¬ LengthOverflows L usedSeen view head.toNat) : KickContract L usedSeen view head := by
  rcases timedOut_or_completesAt L usedSeen view with hout | ⟨n, hn⟩
  · have hkick := virtioKickWait_of_timedOut head hout
    refine ⟨?_, ?_, ?_, ?_⟩
    · rw [hkick]
      exact iff_of_true neg_one_lt_zero (.inl hout)
    · intro _
      rw [hkick]
    · exact fun k hk => absurd hout hk.not_timedOut
    · exact fun k hk => absurd hout hk.not_timedOut
  · have hkick := virtioKickWait_of_completesAt head hn
    by_cases hid : usedId L usedSeen view n = head.toNat
    · have hlen : usedLen L usedSeen view n < 2 ^ 31 := by
        by_contra hlen
        exact h ⟨n, hn, hid, Nat.not_lt.mp hlen⟩
      have hresult : (virtioKickWait L usedSeen view head).result = usedLen L usedSeen view n := by
        rw [hkick]
        exact kickResult_of_lt hid hlen
      refine ⟨?_, ?_, ?_, ?_⟩
      · rw [hresult]
        refine iff_of_false (Int.not_lt.mpr (Int.natCast_nonneg _)) ?_
        rintro (hout | ⟨k, hk, hne⟩)
        · exact hn.not_timedOut hout
        · exact hne (hn.unique hk ▸ hid)
      · exact fun hout => absurd hout hn.not_timedOut
      · exact fun k hk hne => absurd (hn.unique hk ▸ hid) hne
      · intro k hk _
        rw [hresult, hn.unique hk]
    · have hresult : (virtioKickWait L usedSeen view head).result = -2 := by
        rw [hkick]
        exact kickResult_of_ne _ hid
      refine ⟨?_, ?_, ?_, ?_⟩
      · rw [hresult]
        exact iff_of_true (by decide) (.inr ⟨n, hn, hid⟩)
      · exact fun hout => absurd hout hn.not_timedOut
      · exact fun k hk hne => hresult
      · exact fun k hk heq => absurd (hn.unique hk ▸ heq) hid

/-- A length that does not fit comes back negative. -/
theorem virtioKickWait_of_overflows {head : BitVec 16} {n : Nat}
    (hn : CompletesAt L usedSeen view n) (hid : usedId L usedSeen view n = head.toNat)
    (hlen : 2 ^ 31 ≤ usedLen L usedSeen view n) :
    (virtioKickWait L usedSeen view head).result < 0 := by
  have hlt : usedLen L usedSeen view n < 2 ^ 32 := usedLen_lt n
  rw [virtioKickWait_of_completesAt head hn]
  show kickResult _ _ _ < 0
  rw [kickResult_of_le hid hlen]
  omega

theorem blkContract_of_not_overflows (h : ¬ LengthOverflows L usedSeen view HEAD) :
    BlkContract L usedSeen view := by
  have hkick : KickContract L usedSeen view (BitVec.ofNat 16 HEAD) :=
    kickContract_of_not_overflows h
  have hserved : ∀ n, CompletesAt L usedSeen view n → usedId L usedSeen view n = HEAD →
      blkOp L usedSeen view =
        if loadLE (view (n + 3)) L.statusByte 1 ≠ BLK_S_OK
        then 100 + (loadLE (view (n + 3)) L.statusByte 1 : Int) else 0 := by
    intro n hn hid
    have hlen := hkick.length n hn hid
    have hpos : ¬ (virtioKickWait L usedSeen view (BitVec.ofNat 16 HEAD)).result < 0 := by omega
    have hnext : (virtioKickWait L usedSeen view (BitVec.ofNat 16 HEAD)).next = n + 3 := by
      rw [virtioKickWait_of_completesAt _ hn]
    simp only [blkOp, if_neg hpos, statusAfter, hnext]
  refine ⟨?_, ?_, ?_⟩
  · intro hneg
    by_contra hnone
    rcases timedOut_or_completesAt L usedSeen view with hout | ⟨n, hn⟩
    · exact hnone (.inl hout)
    · have hid : usedId L usedSeen view n = HEAD := by
        by_contra hid
        exact hnone (.inr ⟨n, hn, hid⟩)
      rw [hserved n hn hid] at hneg
      split at hneg <;> omega
  · intro n hn hid
    rw [hserved n hn hid]
    split
    next hstatus => exact iff_of_true (by omega) hstatus
    next hstatus => exact iff_of_false (by omega) hstatus
  · intro n hn hid hstatus
    rw [hserved n hn hid, if_pos hstatus]

/-- `virtio_kick_wait` and `blk_op` report what their contracts say exactly for
the requests whose length fits an `int`: a request that completes in time, under
its own head, with a length of 2³¹ or more comes back as a transport error. -/
theorem kick_wait_result_iff (L : Layout) (usedSeen : Nat) (view : Nat → ByteMem)
    (head : BitVec 16) :
    (KickContract L usedSeen view head ↔ ¬ LengthOverflows L usedSeen view head.toNat) ∧
    (BlkContract L usedSeen view ↔ ¬ LengthOverflows L usedSeen view HEAD) := by
  refine ⟨⟨?_, kickContract_of_not_overflows⟩, ⟨?_, blkContract_of_not_overflows⟩⟩
  · rintro hcontract ⟨n, hn, hid, hlen⟩
    have hneg := virtioKickWait_of_overflows hn hid hlen
    rw [hcontract.length n hn hid] at hneg
    omega
  · rintro hcontract ⟨n, hn, hid, hlen⟩
    have hneg : (virtioKickWait L usedSeen view (BitVec.ofNat 16 HEAD)).result < 0 :=
      virtioKickWait_of_overflows hn hid hlen
    have hblk : blkOp L usedSeen view < 0 := by
      simp only [blkOp, if_pos hneg]
      exact hneg
    rcases hcontract.transport hblk with hout | ⟨k, hk, hne⟩
    · exact hn.not_timedOut hout
    · exact hne (hn.unique hk ▸ hid)

end Contract

/-- Memory that is zero but for the used index and the top byte of the length of
used element 0: the device has completed head 0 with a length of 2³¹. -/
def overflowMem (L : Layout) : ByteMem :=
  storeLE (storeLE (fun _ => 0) L.usedIdx 2 1) (L.usedElem 0 + 4) 4 (2 ^ 31)

/-- A queue of eight entries. -/
def overflowLayout : Layout where
  qmem := 0x80010000
  req := 0x80020000
  statusByte := 0x80020100
  qmax := 8

theorem overflow_reported_as_transport_error :
    let view : Nat → ByteMem := fun _ => overflowMem overflowLayout
    (virtioKickWait overflowLayout 0 view 0).result = -2147483648 ∧
      blkOp overflowLayout 0 view = -2147483648 ∧
      ¬ KickContract overflowLayout 0 view 0 ∧ ¬ BlkContract overflowLayout 0 view := by
  intro view
  have hn : CompletesAt overflowLayout 0 view 0 := ⟨by decide, by decide, by simp⟩
  have hid : usedId overflowLayout 0 view 0 = 0 := by decide
  have hlen : usedLen overflowLayout 0 view 0 = 2 ^ 31 := by decide
  have hkick : (virtioKickWait overflowLayout 0 view 0).result = -2147483648 := by
    rw [virtioKickWait_of_completesAt 0 hn, hid, hlen]
    rfl
  have hblk : blkOp overflowLayout 0 view = -2147483648 := by
    have hneg : (virtioKickWait overflowLayout 0 view (BitVec.ofNat 16 HEAD)).result < 0 := by
      have hzero : BitVec.ofNat 16 HEAD = 0 := rfl
      rw [hzero, hkick]
      decide
    simp only [blkOp, if_pos hneg]
    exact hkick
  refine ⟨hkick, hblk, fun hcontract => ?_, fun hcontract => ?_⟩
  · have hresult := hcontract.length 0 hn hid
    rw [hkick, hlen] at hresult
    exact absurd hresult (by decide)
  · have hneg : blkOp overflowLayout 0 view < 0 := by
      rw [hblk]
      decide
    rcases hcontract.transport hneg with hout | ⟨k, hk, hne⟩
    · exact hn.not_timedOut hout
    · rw [← hn.unique hk] at hne
      exact hne hid

/-! ## The driver of the system -/

/-- `t` is in the same call as `s`, with nothing consumed in between. -/
structure SameCall (s t : Sys) : Prop where
  call : t.call = s.call
  usedSeen : t.usedSeen = s.usedSeen
  returns : t.returns = s.returns

/-- The states before each of the driver's steps, up to the return of its call.
Between two of them the device may have done anything that is not the driver's. -/
def Drives (L : Layout) (states : Nat → Sys) : Prop :=
  ∀ k, (states k).pc ≠ .idle →
    ∃ t, driverStep L (states k) = some t ∧ (states (k + 1)).pc = t.pc ∧
      SameCall t (states (k + 1))

/-- The call under way in `s` has returned `result` in `t`. -/
structure Returned (s t : Sys) (result : Int) : Prop where
  idle : t.pc = .idle
  returns : ∃ r, t.returns = s.returns ++ [r] ∧ r.call = s.call ∧ r.result = result

section Driver

variable {L : Layout} {states : Nat → Sys}

theorem SameCall.trans {s t u : Sys} (hst : SameCall s t) (htu : SameCall t u) : SameCall s u :=
  ⟨htu.call.trans hst.call, htu.usedSeen.trans hst.usedSeen, htu.returns.trans hst.returns⟩

theorem Returned.of_sameCall {s t u : Sys} {result : Int} (h : SameCall s t)
    (hret : Returned t u result) : Returned s u result := by
  obtain ⟨hidle, r, hreturns, hcall, hresult⟩ := hret
  exact ⟨hidle, r, h.returns ▸ hreturns, hcall.trans h.call, hresult⟩

theorem Drives.step (hdrives : Drives L states) {k : Nat} {t : Sys}
    (hpc : (states k).pc ≠ .idle) (hstep : driverStep L (states k) = some t) :
    (states (k + 1)).pc = t.pc ∧ SameCall t (states (k + 1)) := by
  obtain ⟨t', hstep', hsame⟩ := hdrives k hpc
  rw [hstep] at hstep'
  obtain rfl : t = t' := by simpa using hstep'
  exact hsame

/-- A step in which the call returns. -/
theorem Drives.returned (hdrives : Drives L states) {k : Nat} {t : Sys} {timedOut : Bool}
    {result : Int} {used : Option Used} (hpc : (states k).pc ≠ .idle)
    (hstep : driverStep L (states k) = some (t.ret timedOut result used))
    (hcall : t.call = (states k).call) (hreturns : t.returns = (states k).returns) :
    Returned (states k) (states (k + 1)) result := by
  obtain ⟨hidle, hsame⟩ := hdrives.step hpc hstep
  refine ⟨hidle, ⟨t.call, t.published - 1, timedOut, result, used⟩, ?_, hcall, rfl⟩
  rw [hsame.returns, Sys.ret, hreturns]

/-- The polling loop of the system is `pollUsed`. -/
theorem driver_polls (hdrives : Drives L states) {timeout n : Nat} (hpos : timeout ≠ 0)
    (hpc : (states n).pc = .poll timeout) :
    match pollUsed L (states n).usedSeen (fun k => (states k).mem) timeout n with
    | none => ∃ k, Returned (states n) (states k) (-1)
    | some k => (states (k + 1)).pc = .loadId ∧ SameCall (states n) (states (k + 1)) := by
  have hbusy : (states n).pc ≠ .idle := by simp [hpc]
  induction timeout generalizing n with
  | zero => exact absurd rfl hpos
  | succ timeout ih =>
      by_cases hstill : loadLE (states n).mem L.usedIdx 2 = (states n).usedSeen
      · by_cases hlast : timeout = 0
        · have hstep : driverStep L (states n) = some ((states n).ret true (-1) none) := by
            simp [driverStep, hpc, hstill, hlast]
          simp only [pollUsed, if_pos hstill, if_pos hlast]
          exact ⟨n + 1, hdrives.returned hbusy hstep rfl rfl⟩
        · have hstep : driverStep L (states n) = some { states n with pc := .poll timeout } := by
            simp [driverStep, hpc, hstill, hlast]
          obtain ⟨hnext, hcall, husedSeen, hreturns⟩ := hdrives.step hbusy hstep
          have hsame : SameCall (states n) (states (n + 1)) := ⟨hcall, husedSeen, hreturns⟩
          have hrest := ih hlast hnext (by simp [hnext])
          rw [husedSeen] at hrest
          rw [pollUsed, if_pos hstill, if_neg hlast]
          cases hpoll : pollUsed L (states n).usedSeen (fun k => (states k).mem) timeout
              (n + 1) with
          | none =>
              simp only [hpoll] at hrest
              obtain ⟨k, hret⟩ := hrest
              exact ⟨k, hret.of_sameCall hsame⟩
          | some k =>
              simp only [hpoll] at hrest
              exact ⟨hrest.1, hsame.trans hrest.2⟩
      · have hstep : driverStep L (states n) = some { states n with pc := .loadId } := by
          simp [driverStep, hpc, hstill]
        obtain ⟨hnext, hcall, husedSeen, hreturns⟩ := hdrives.step hbusy hstep
        simp only [pollUsed, if_neg hstill]
        exact ⟨hnext, hcall, husedSeen, hreturns⟩

/-- The load of the length, and the result that follows from it. -/
theorem driver_loads_len (hdrives : Drives L states) {n id : Nat}
    (hpc : (states n).pc = .loadLen id) {r : Int}
    (hr : kickResult HEAD id (loadLE (states n).mem
      (L.usedElem ((states n).usedSeen % L.vqSize) + 4) 4) = r) :
    if r < 0 then Returned (states n) (states (n + 1)) r
    else (∃ used, (states (n + 1)).pc = .loadStatus used) ∧
      (states (n + 1)).call = (states n).call ∧ (states (n + 1)).returns = (states n).returns := by
  have hbusy : (states n).pc ≠ .idle := by simp [hpc]
  split
  next hneg =>
    have hstep : driverStep L (states n) =
        some (Sys.ret { states n with usedSeen := ((states n).usedSeen + 1) % 2 ^ 16 } false r
          ((states n).usedBy ((states n).usedSeen % L.vqSize))) := by
      simp only [driverStep, hpc, hr, if_pos hneg]
    exact hdrives.returned hbusy hstep rfl rfl
  next hpos =>
    have hstep : driverStep L (states n) =
        some { states n with
          usedSeen := ((states n).usedSeen + 1) % 2 ^ 16
          pc := .loadStatus ((states n).usedBy ((states n).usedSeen % L.vqSize)) } := by
      simp only [driverStep, hpc, hr, if_neg hpos]
    obtain ⟨hnext, hcall, -, hreturns⟩ := hdrives.step hbusy hstep
    exact ⟨⟨_, hnext⟩, hcall, hreturns⟩

theorem driver_loads_status (hdrives : Drives L states) {n : Nat} {used : Option Used}
    (hpc : (states n).pc = .loadStatus used) :
    Returned (states n) (states (n + 1))
      (if loadLE (states n).mem L.statusByte 1 ≠ BLK_S_OK
       then 100 + (loadLE (states n).mem L.statusByte 1 : Int) else 0) := by
  have hbusy : (states n).pc ≠ .idle := by simp [hpc]
  have hstep : driverStep L (states n) = some ((states n).ret false
      (if loadLE (states n).mem L.statusByte 1 ≠ BLK_S_OK
       then 100 + (loadLE (states n).mem L.statusByte 1 : Int) else 0) used) := by
    simp only [driverStep, hpc]
  exact hdrives.returned hbusy hstep rfl rfl

/-- A call of the system returns what `blkOp` makes of the memories the driver's
loads have seen. -/
theorem driver_returns (hdrives : Drives L states) (hpc : (states 0).pc = .poll KICK_TIMEOUT) :
    ∃ k, Returned (states 0) (states k)
      (blkOp L (states 0).usedSeen fun k => (states k).mem) := by
  have hpolls := driver_polls hdrives (by decide) hpc
  cases hpoll : pollUsed L (states 0).usedSeen (fun k => (states k).mem) KICK_TIMEOUT 0 with
  | none =>
      simp only [hpoll] at hpolls
      simp only [blkOp, virtioKickWait, hpoll]
      exact hpolls
  | some n =>
      simp only [hpoll] at hpolls
      obtain ⟨hid, hsame⟩ := hpolls
      have hstep : driverStep L (states (n + 1)) = some { states (n + 1) with
          pc := .loadLen (usedId L (states 0).usedSeen (fun k => (states k).mem) n) } := by
        simp only [driverStep, hid, usedId, hsame.usedSeen]
      obtain ⟨hlen, hcall, husedSeen, hreturns⟩ := hdrives.step (by simp [hid]) hstep
      have hsame : SameCall (states 0) (states (n + 2)) :=
        hsame.trans ⟨hcall, husedSeen, hreturns⟩
      have hresult : kickResult HEAD (usedId L (states 0).usedSeen (fun k => (states k).mem) n)
          (loadLE (states (n + 2)).mem
            (L.usedElem ((states (n + 2)).usedSeen % L.vqSize) + 4) 4) =
          (virtioKickWait L (states 0).usedSeen (fun k => (states k).mem)
            (BitVec.ofNat 16 HEAD)).result := by
        rw [hsame.usedSeen, virtioKickWait, hpoll]
        rfl
      have hkick := driver_loads_len hdrives hlen hresult
      unfold blkOp
      split at hkick
      next hneg =>
        rw [if_pos hneg]
        exact ⟨n + 3, hkick.of_sameCall hsame⟩
      next hpos =>
        obtain ⟨⟨used, hstatus⟩, hcall, hreturns⟩ := hkick
        have hnext : (virtioKickWait L (states 0).usedSeen (fun k => (states k).mem)
            (BitVec.ofNat 16 HEAD)).next = n + 3 := by
          rw [virtioKickWait, hpoll]
        have hret := driver_loads_status hdrives hstatus
        simp only [if_neg hpos, statusAfter, hnext]
        obtain ⟨hidle, r, hr, hrcall, hrresult⟩ := hret
        exact ⟨n + 4, hidle, r, by rw [hr, hreturns, hsame.returns],
          hrcall.trans (hcall.trans hsame.call), hrresult⟩

end Driver

end VirtioBlk
end BareMetal
