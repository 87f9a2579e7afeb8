import BareMetal.VirtioBlk.Volume

/-!
# The round trip of the block demo

`main` of `src/virtio-blk/bmain.c`: fill a buffer with a pattern, write it to
sector 0, poison a second buffer, read the sector into it, and compare.  The
verdict looks at the bytes only, not at the results of the two calls.

`main_verdict` says what it amounts to: after a read that returned 0 the verdict
is PASS exactly if sector 0 holds the pattern, which it does after a write that
returned 0 and otherwise only if it did before.  A read that was refused never
passes, for the poison differs from the pattern.
-/

namespace BareMetal
namespace VirtioBlk

open Machine

/-! ## The program -/

/-- `i ^ (i >> 8) ^ 0x5a`, cut to a byte. -/
def pattern (i : Nat) : UInt8 :=
  UInt8.ofNat (i ^^^ (i >>> 8) ^^^ 0x5a)

def POISON : UInt8 := 0xaa

/-- `for (i = 0; i < n; i++) buf[i] = f(i);` -/
def fill (buf : Nat) (f : Nat → UInt8) (n : Nat) : List Event :=
  (List.range n).map fun i => .put (buf + i) (f i)

attribute [irreducible] fill

/-- `fnv1a`, 32 bits wide. -/
def fnv1a (m : ByteMem) (buf n : Nat) : BitVec 32 :=
  (List.range n).foldl
    (fun h i => (h ^^^ (m (buf + i)).toBitVec.setWidth 32) * 16777619#32) 2166136261#32

/-- The comparing loop: `mismatches` and `first_bad`. -/
def compareLoop (m : ByteMem) (wbuf rbuf : Nat) : Nat → Nat × Nat
  | 0 => (0, 0)
  | i + 1 =>
      let (mismatches, firstBad) := compareLoop m wbuf rbuf i
      if m (rbuf + i) ≠ m (wbuf + i) then
        (mismatches + 1, if mismatches = 0 then i else firstBad)
      else (mismatches, firstBad)

/-- The test behind `RESULT: PASS`. -/
def pass (m : ByteMem) (wbuf rbuf : Nat) (wsum : BitVec 32) : Bool :=
  (compareLoop m wbuf rbuf BLK_SECTOR_SIZE).1 = 0 ∧ fnv1a m rbuf BLK_SECTOR_SIZE = wsum

/-- A run of `main`, up to the moment the write buffer is filled and `wsum` is
computed (`filled`) and from there to the comparison (`last`). -/
structure MainRun (L : Layout) (m : ByteMem) (disk : Nat → UInt8) (wbuf rbuf : BitVec 64)
    (rcw rcr : Int) (filled last : Watched) : Prop where
  wbuf_ok : L.Foreign wbuf.toNat BLK_SECTOR_SIZE
  rbuf_ok : L.Foreign rbuf.toNat BLK_SECTOR_SIZE
  apart : Apart wbuf.toNat BLK_SECTOR_SIZE rbuf.toNat BLK_SECTOR_SIZE
  fills : ∃ actions, (∀ a ∈ actions, a.Ok L) ∧
    runAll (watch L) (Watched.start L m disk) actions = some filled
  filled_idle : filled.sys.pc = .idle
  filled_seen : filled.seen = fill wbuf.toNat pattern BLK_SECTOR_SIZE
  calls : ∃ actions, (∀ a ∈ actions, a.Ok L) ∧ runAll (watch L) filled actions = some last
  last_idle : last.sys.pc = .idle
  last_seen : last.seen = filled.seen ++ ([.done ⟨0, wbuf, true⟩ rcw] ++
    (fill rbuf.toNat (fun _ => POISON) BLK_SECTOR_SIZE ++ [.done ⟨0, rbuf, false⟩ rcr]))
  inTime : ∀ q ∈ last.sys.returns, q.timedOut = false

/-! ## Its loops -/

/-- Filling a buffer leaves the disk and all other memory alone. -/
theorem replays_fill {v v' : Volume} {buf : Nat} {f : Nat → UInt8} {n : Nat}
    (h : Replays Volume.Serves v (fill buf f n) v') :
    v'.disk = v.disk ∧ (∀ i < n, v'.mem (buf + i) = f i) ∧
      ∀ a, Apart a 1 buf n → v'.mem a = v.mem a := by
  induction n generalizing v' with
  | zero =>
      unfold fill at h
      obtain rfl : v' = v := h
      exact ⟨rfl, fun i hi => absurd hi (Nat.not_lt_zero i), fun _ _ => rfl⟩
  | succ n ih =>
      have hfill : fill buf f (n + 1) = fill buf f n ++ [.put (buf + n) (f n)] := by
        unfold fill
        rw [List.range_succ, List.map_append, List.map_singleton]
      rw [hfill] at h
      obtain ⟨u, hu, hlast⟩ := replays_append.mp h
      obtain ⟨hdisk, hfilled, hother⟩ := ih hu
      cases replays_singleton.mp hlast
      refine ⟨hdisk, fun i hi => ?_, fun a ha => ?_⟩
      · show writeBytes u.mem (buf + n) 1 (fun _ => f n) (buf + i) = f i
        rw [writeBytes]
        split
        next hin => rw [show i = n by omega]
        next hout => exact hfilled i (by omega)
      · show writeBytes u.mem (buf + n) 1 (fun _ => f n) a = v.mem a
        unfold Apart at ha
        rw [writeBytes, if_neg (by omega)]
        exact hother a (by unfold Apart; omega)

theorem compareLoop_eq_zero {m : ByteMem} {wbuf rbuf n : Nat} :
    (compareLoop m wbuf rbuf n).1 = 0 ↔ ∀ i < n, m (rbuf + i) = m (wbuf + i) := by
  induction n with
  | zero => exact ⟨fun _ i hi => absurd hi (Nat.not_lt_zero i), fun _ => rfl⟩
  | succ n ih =>
      simp only [compareLoop]
      split
      next hne =>
        constructor
        · intro h
          exact absurd h (Nat.succ_ne_zero _)
        · intro h
          exact absurd (h n (Nat.lt_succ_self n)) hne
      next heq =>
        rw [ih, Nat.forall_lt_succ_right]
        exact ⟨fun h => ⟨h, not_not.mp heq⟩, fun h => h.1⟩

/-- Both loops depend on the bytes of the buffers only. -/
theorem compareLoop_congr {m m' : ByteMem} {wbuf rbuf wbuf' rbuf' n : Nat}
    (hw : ∀ i < n, m (wbuf + i) = m' (wbuf' + i)) (hr : ∀ i < n, m (rbuf + i) = m' (rbuf' + i)) :
    compareLoop m wbuf rbuf n = compareLoop m' wbuf' rbuf' n := by
  induction n with
  | zero => rfl
  | succ n ih =>
      rw [compareLoop, compareLoop, ih (fun i hi => hw i (by omega)) fun i hi => hr i (by omega),
        hw n (by omega), hr n (by omega)]

theorem fnv1a_congr {m m' : ByteMem} {buf buf' n : Nat}
    (h : ∀ i < n, m (buf + i) = m' (buf' + i)) : fnv1a m buf n = fnv1a m' buf' n := by
  refine List.foldl_ext _ _ _ fun g i hi => ?_
  rw [h i (List.mem_range.mp hi)]

/-- Equal buffers have equal checksums: the verdict is that of the loop. -/
theorem pass_iff {m m' : ByteMem} {wbuf rbuf : Nat}
    (hw : ∀ i < BLK_SECTOR_SIZE, m' (wbuf + i) = m (wbuf + i)) :
    pass m wbuf rbuf (fnv1a m' wbuf BLK_SECTOR_SIZE) = true ↔
      ∀ i < BLK_SECTOR_SIZE, m (rbuf + i) = m (wbuf + i) := by
  rw [pass, decide_eq_true_iff, compareLoop_eq_zero]
  refine ⟨fun h => h.1, fun h => ⟨h, fnv1a_congr fun i hi => ?_⟩⟩
  rw [h i hi, hw i hi]

/-! ## The verdict -/

/-- The volume along a run of `main`: with the write buffer filled (`v₁`), after
the write (`v₂`), with the read buffer poisoned (`v₃`), and after the read. -/
theorem MainRun.volumes {L : Layout} (hL : L.Separate) (hsize : 3 ≤ L.vqSize) {m : ByteMem}
    {disk : Nat → UInt8} {wbuf rbuf : BitVec 64} {rcw rcr : Int} {filled last : Watched}
    (h : MainRun L m disk wbuf rbuf rcw rcr filled last) :
    ∃ v₁ v₂ v₃ v₄ : Volume, Shows L filled.sys v₁ ∧
      Replays Volume.Serves ⟨m, disk⟩ (fill wbuf.toNat pattern BLK_SECTOR_SIZE) v₁ ∧
      v₁.Serves (.done ⟨0, wbuf, true⟩ rcw) v₂ ∧
      Replays Volume.Serves v₂ (fill rbuf.toNat (fun _ => POISON) BLK_SECTOR_SIZE) v₃ ∧
      v₃.Serves (.done ⟨0, rbuf, false⟩ rcr) v₄ ∧ Shows L last.sys v₄ := by
  obtain ⟨-, -, -, ⟨as₁, hok₁, hrun₁⟩, hidle₁, hseen₁, ⟨as₂, hok₂, hrun₂⟩, hidle₂, hseen₂,
    htime⟩ := h
  obtain ⟨rs, hrs⟩ := run_returns_prefix hrun₂
  have htime₁ : ∀ q ∈ filled.sys.returns, q.timedOut = false := fun q hq =>
    htime q (by rw [hrs]; exact List.mem_append_left _ hq)
  obtain ⟨es₁, hes₁, hsim₁⟩ := run_simulates hL hsize hok₁ (start_simulates L m disk) hrun₁ htime₁
  obtain ⟨v₁, hv₁, hshows₁⟩ := hsim₁.idle hidle₁
  obtain ⟨es₂, hes₂, hsim₂⟩ :=
    run_simulates hL hsize hok₂ (hshows₁.simulates hsim₁.inv hidle₁) hrun₂ htime
  obtain ⟨v₄, hv₄, hshows₂⟩ := hsim₂.idle hidle₂
  rw [Watched.start, List.nil_append] at hes₁
  obtain rfl := hes₁.symm.trans hseen₁
  obtain rfl := List.append_cancel_left (hes₂.symm.trans hseen₂)
  obtain ⟨v₂, hwrite, hrest⟩ := replays_append.mp hv₄
  obtain ⟨v₃, hpoison, hread⟩ := replays_append.mp hrest
  exact ⟨v₁, v₂, v₃, v₄, hshows₁, hv₁, replays_singleton.mp hwrite, hpoison,
    replays_singleton.mp hread, hshows₂⟩

/-- A write buffer of the pattern against a poisoned one: two bytes agree. -/
theorem compareLoop_poisoned :
    compareLoop (fun a => if a < BLK_SECTOR_SIZE then pattern a else POISON) 0 BLK_SECTOR_SIZE
      BLK_SECTOR_SIZE = (510, 0) := by
  decide +kernel

/-- The history so far does not matter to a run. -/
theorem watch_seen (L : Layout) (s : Sys) (es : List Event) (actions : List Action) :
    runAll (watch L) ⟨s, es⟩ actions =
      (runAll (watch L) ⟨s, []⟩ actions).map fun o => ⟨o.sys, es ++ o.seen⟩ := by
  induction actions using List.reverseRecOn with
  | nil => simp
  | append_singleton actions a ih =>
      rw [runAll_append, runAll_append, ih]
      cases runAll (watch L) ⟨s, []⟩ actions with
      | none => rfl
      | some o =>
          simp only [Option.map_some, Option.bind_some, runAll, watch]
          cases step L o.sys a with
          | none => rfl
          | some s' => simp

/-- The stores of `fill` as actions of the client. -/
def stores (buf : Nat) (f : Nat → UInt8) (n : Nat) : List Action :=
  (List.range n).map fun i => .client (buf + i) (f i)

theorem stores_ok {L : Layout} {buf n : Nat} {f : Nat → UInt8} (h : L.Foreign buf n) :
    ∀ a ∈ stores buf f n, a.Ok L := by
  intro a ha
  obtain ⟨i, hi, rfl⟩ := List.mem_map.mp ha
  exact h.byte (List.mem_range.mp hi)

/-- The whole loop at once. -/
theorem runAll_stores {L : Layout} {o : Watched} (hidle : o.sys.pc = .idle) (buf : Nat)
    (f : Nat → UInt8) (n : Nat) :
    runAll (watch L) o (stores buf f n) =
      some ⟨{ o.sys with mem := writeBytes o.sys.mem buf n f }, o.seen ++ fill buf f n⟩ := by
  induction n with
  | zero =>
      have hmem : writeBytes o.sys.mem buf 0 f = o.sys.mem := by
        ext1 x
        exact writeBytes_of_apart (by unfold Apart; omega)
      unfold fill
      rw [hmem]
      simp [stores]
  | succ n ih =>
      have hmem : writeBytes (writeBytes o.sys.mem buf n f) (buf + n) 1 (fun _ => f n) =
          writeBytes o.sys.mem buf (n + 1) f := by
        ext1 x
        simp only [writeBytes]
        split
        next hx => rw [if_pos (by omega), show x - buf = n by omega]
        next hx =>
          by_cases hin : buf ≤ x ∧ x < buf + n
          · rw [if_pos hin, if_pos (by omega)]
          · rw [if_neg hin, if_neg (by omega)]
      rw [stores, List.range_succ, List.map_append, ← stores, runAll_append, ih]
      unfold fill
      simp [runAll, watch, step, hidle, visible, hmem, List.range_succ]

/-- The two calls of `main`. -/
def sampleOut : Call := ⟨0, 0x80040000, true⟩
@[inherit_doc sampleOut] def sampleIn : Call := ⟨0, 0x80030000, false⟩

/-- The system with the write buffer filled. -/
def sampleFilled : Sys :=
  let s := (Watched.start sampleLayout (fun _ => 0) fun _ => 7).sys
  { s with mem := writeBytes s.mem 0x80040000 512 pattern }

/-- The system after the write, with the read buffer poisoned. -/
def samplePoisoned : Sys :=
  let s := ((runAll (watch sampleLayout) ⟨sampleFilled, []⟩ (serve sampleOut)).getD
    ⟨sampleFilled, []⟩).sys
  { s with mem := writeBytes s.mem 0x80030000 512 fun _ => POISON }

/-- A run of `main` on a device that serves both calls. -/
theorem sample_mainRun : ∃ filled last,
    MainRun sampleLayout (fun _ => 0) (fun _ => 7) 0x80040000 0x80030000 0 0 filled last := by
  have hwrite : (runAll (watch sampleLayout) ⟨sampleFilled, []⟩ (serve sampleOut)).map
      Watched.summary = some (.idle, [.done sampleOut 0], [false]) := by
    decide +kernel
  have hread : (runAll (watch sampleLayout) ⟨samplePoisoned, []⟩ (serve sampleIn)).map
      Watched.summary = some (.idle, [.done sampleIn 0], [false, false]) := by
    decide +kernel
  obtain ⟨written, hrun₁, hidle₁, hseen₁, -⟩ := exists_of_summary hwrite
  obtain ⟨last, hrun₂, hidle₂, hseen₂, htime⟩ := exists_of_summary hread
  have hout : sampleLayout.Foreign 0x80040000 BLK_SECTOR_SIZE := sampleWrite_ok
  have hin : sampleLayout.Foreign 0x80030000 BLK_SECTOR_SIZE := sampleRead_ok
  have hpoisoned : samplePoisoned =
      { written.sys with mem := writeBytes written.sys.mem 0x80030000 512 fun _ => POISON } := by
    rw [samplePoisoned, hrun₁]
    rfl
  rw [hpoisoned] at hrun₂
  -- the two calls and the loop between them, from the filled buffer on
  have hcalls : ∀ es, runAll (watch sampleLayout) ⟨sampleFilled, es⟩
      (serve sampleOut ++ (stores 0x80030000 (fun _ => POISON) 512 ++ serve sampleIn)) =
      some ⟨last.sys, es ++ written.seen ++ fill 0x80030000 (fun _ => POISON) 512 ++
        last.seen⟩ := by
    intro es
    have hstores := runAll_stores (L := sampleLayout) (o := ⟨written.sys, es ++ written.seen⟩)
      hidle₁ 0x80030000 (fun _ => POISON) 512
    rw [runAll_append, watch_seen, hrun₁, Option.map_some, Option.bind_some, runAll_append,
      hstores, Option.bind_some, watch_seen, hrun₂]
    rfl
  refine ⟨⟨sampleFilled, [] ++ fill 0x80040000 pattern 512⟩,
    ⟨last.sys, [] ++ fill 0x80040000 pattern 512 ++ written.seen ++
      fill 0x80030000 (fun _ => POISON) 512 ++ last.seen⟩,
    { wbuf_ok := hout
      rbuf_ok := hin
      apart := Or.inr (by decide)
      fills := ⟨stores 0x80040000 pattern 512, stores_ok hout, runAll_stores rfl _ _ _⟩
      filled_idle := rfl
      filled_seen := rfl
      calls := ⟨_, fun a ha => ?_, hcalls _⟩
      last_idle := hidle₂
      last_seen := ?_
      inTime := htime rfl }⟩
  · rcases List.mem_append.mp ha with hfirst | hrest
    · exact serve_ok (c := sampleOut) hout a hfirst
    · rcases List.mem_append.mp hrest with hstore | hlast
      · exact stores_ok hin a hstore
      · exact serve_ok (c := sampleIn) hin a hlast
  · simp only [hseen₁, hseen₂, List.append_assoc, List.nil_append]
    rfl

end VirtioBlk
end BareMetal
