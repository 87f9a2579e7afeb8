import BareMetal.Machine.Runs
import BareMetal.StvecVectored.Trap

/-!
# The event log over whole runs

Traps reach the handler through `stvec` in vectored mode, so the entry follows
from the cause: an interrupt enters at its own code, an exception at entry 0.
`run_log` says which sequences of traps the handler comes back from and what is
in the log then: at most four, logged in the order they were taken.
-/

namespace BareMetal
namespace StvecVectored

open Machine

/-- The table entry at which a trap with the given cause enters. -/
def entryOf (cause : Word) : Nat :=
  if cause.getLsbD 63 then (cause &&& ~~~ BitVec.twoPow 64 63).toNat else 0

/-- `stvec` as `main` programs it. -/
def Image.stvec (im : Image) : Word :=
  im.table ||| 1#64

theorem tvecTarget_entryOf (im : Image) (cause : Word) :
    tvecTarget im.stvec cause = im.vec (entryOf cause) := by
  rw [Image.stvec, tvecTarget_vectored (mode_of_aligned im.table_aligned), entryOf, Image.vec]
  split
  · apply congrArg (im.table + ·)
    apply BitVec.eq_of_toNat_eq
    simp [BitVec.toNat_mul]
  · exact (addr_zero im.table).symm

/-- An address of one of the handler's objects. -/
def Owned (im : Image) (a : Word) : Prop :=
  ∃ o : Obj, ∃ i < o.words, a = im.word o i

instance (im : Image) : DecidablePred (Owned im) :=
  fun a => inferInstanceAs (Decidable (∃ o : Obj, ∃ i < o.words, a = im.word o i))

/-- A trap through the table: the interrupted code may have any registers, pc
and status, and any memory outside the handler's objects. -/
structure Trap where
  cause : Word
  regs : Reg → Word
  pc : Word
  mem : Mem
  mstatus : Word
  answers : Answers
  entry_lt : entryOf cause < 16

/-- The hart when that trap is taken. -/
def Trap.onHart (im : Image) (t : Trap) (h : Hart) : Hart :=
  { (h.setCsr .mstatus t.mstatus).clobberMem (Owned im) t.mem with
    regs := t.regs, pc := t.pc, priv := .supervisor }

/-- Take a trap; `none` when the handler does not come back. -/
def takeTrap (im : Image) (h : Hart) (t : Trap) : Option Hart :=
  match handle im t.answers ((t.onHart im h).trapS t.cause) with
  | some (.resumed h' _) => some h'
  | _ => none

/-- `main` has pointed `stvec` at the table and `sscratch` at `stvv_save`. -/
structure Installed (im : Image) (h : Hart) : Prop where
  stvec : h.csr .stvec = im.stvec
  sscratch : h.csr .sscratch = im.place .save

/-- The log holds exactly the given traps, in order. -/
structure LogHolds (im : Image) (ts : List Trap) (h : Hart) : Prop where
  installed : Installed im h
  room : ts.length ≤ 4
  count : h.mem (im.word .evCount 0) = BitVec.ofNat 64 ts.length
  events : ∀ k (hk : k < ts.length),
    let t := ts.get ⟨k, hk⟩
    h.mem (im.word .evScause k) = t.cause ∧
      h.mem (im.word .evLand k) = im.vec (entryOf t.cause) ∧
      h.mem (im.word .evIdx k) = BitVec.ofNat 64 (entryOf t.cause)

/-- The hart at the entry: the vector and the objects are as before. -/
theorem onHart_trapS (im : Image) (t : Trap) (h : Hart) (hinst : Installed im h) :
    let taken := (t.onHart im h).trapS t.cause
    taken.pc = im.vec (entryOf t.cause) ∧ taken.csr .sscratch = im.place .save ∧
      taken.csr .stvec = im.stvec ∧
      ∀ o i, i < o.words → taken.mem (im.word o i) = h.mem (im.word o i) := by
  have htvec : (t.onHart im h).csr .stvec = im.stvec := hinst.stvec
  refine ⟨?_, hinst.sscratch, hinst.stvec, fun o i hi => ?_⟩
  · rw [Hart.trapS_pc, htvec, tvecTarget_entryOf]
  · exact Hart.clobberMem_keep _ _ _ ⟨o, i, hi, rfl⟩

/-- The count of a log with at most four events reads back. -/
theorem LogHolds.toNat_count {im : Image} {ts : List Trap} {h : Hart} (hlog : LogHolds im ts h) :
    (h.mem (im.word .evCount 0)).toNat = ts.length := by
  have hroom := hlog.room
  rw [hlog.count, BitVec.toNat_ofNat]
  omega

/-- A trap that finds room is transparent and appended to the log. -/
theorem takeTrap_room (im : Image) (ts : List Trap) (h : Hart) (t : Trap)
    (hlog : LogHolds im ts h) (hroom : ts.length < 4) :
    ∃ h', takeTrap im h t = some h' ∧ LogHolds im (ts ++ [t]) h' ∧
      h'.regs = t.regs ∧ h'.pc = t.pc := by
  obtain ⟨hpc, hscratch, hstvec, hmem⟩ := onHart_trapS im t h hlog.installed
  have hcount := hmem .evCount 0 (by decide)
  have hlen := hlog.toNat_count
  obtain ⟨h', bus, hrun, hresumed, hlogged, hstvec'⟩ := handle_room im t.answers t.entry_lt _ hpc
    hscratch (by rw [hcount, hlen]; exact hroom)
  rw [hcount, hlen] at hlogged
  refine ⟨h', by rw [takeTrap, hrun], ⟨⟨hstvec'.trans hstvec, hresumed.sscratch⟩, ?_, ?_, ?_⟩,
    hresumed.regs, hresumed.pc⟩
  · simpa using hroom
  · rw [hlogged.count, List.length_append, List.length_singleton]
  · intro k hk
    rw [List.length_append, List.length_singleton] at hk
    rcases Nat.lt_succ_iff_lt_or_eq.mp hk with hold | rfl
    -- an earlier event: this trap wrote at another index
    · obtain ⟨hscause, hland, hidx⟩ := hlog.events k hold
      have hget : (ts ++ [t]).get ⟨k, by simp; omega⟩ = ts.get ⟨k, hold⟩ := by
        simp [List.getElem_append_left hold]
      have hkept : ∀ o ∈ eventArrays, h'.mem (im.word o k) = h.mem (im.word o k) := by
        intro o ho
        have hwords : o.words = 4 := by
          revert o
          decide
        rw [hlogged.others o ho k (by omega) (by omega), hmem o k (by omega)]
      dsimp only
      rw [hget, hkept .evScause (by decide), hkept .evLand (by decide), hkept .evIdx (by decide)]
      exact ⟨hscause, hland, hidx⟩
    -- the event of this trap
    · have hget : (ts ++ [t]).get ⟨ts.length, by simp⟩ = t := by simp
      dsimp only
      rw [hget]
      exact ⟨hlogged.scause, hlogged.land, hlogged.idx⟩

/-- A trap that finds four events in the log is not returned from. -/
theorem takeTrap_full (im : Image) (ts : List Trap) (h : Hart) (t : Trap)
    (hlog : LogHolds im ts h) (hfull : ts.length = 4) : takeTrap im h t = none := by
  obtain ⟨hpc, hscratch, -, hmem⟩ := onHart_trapS im t h hlog.installed
  have hcount := hmem .evCount 0 (by decide)
  obtain ⟨h', hrun, -⟩ := handle_full im t.answers t.entry_lt _ hpc hscratch
    (by rw [hcount, hlog.toNat_count, hfull])
  rw [takeTrap, hrun]

/-- A run from a log that holds `js`: with room for all traps they are appended
in order, without it the handler does not come back. -/
theorem run_log (im : Image) (js ts : List Trap) (h : Hart) (hlog : LogHolds im js h) :
    (js.length + ts.length ≤ 4 →
      ∃ h', runAll (takeTrap im) h ts = some h' ∧ LogHolds im (js ++ ts) h') ∧
    (4 < js.length + ts.length → runAll (takeTrap im) h ts = none) := by
  induction ts generalizing js h with
  | nil =>
      have hroom := hlog.room
      refine ⟨fun _ => ⟨h, rfl, by rwa [List.append_nil]⟩, fun hfull => ?_⟩
      simp only [List.length_nil] at hfull
      omega
  | cons t ts ih =>
      rw [List.length_cons]
      -- the first trap decides: it is logged, or it is the one that parks
      by_cases hroom : js.length < 4
      · obtain ⟨mid, hstep, hmid, -⟩ := takeTrap_room im js h t hlog hroom
        have hrest := ih (js ++ [t]) mid hmid
        rw [List.length_append, List.length_singleton] at hrest
        obtain ⟨hfits, hparks⟩ := hrest
        constructor
        · intro hlen
          obtain ⟨h', hrun, hlog'⟩ := hfits (by omega)
          refine ⟨h', runAll_cons_eq_some.mpr ⟨mid, hstep, hrun⟩, ?_⟩
          rwa [List.append_cons]
        · intro hlen
          rw [runAll, hstep, Option.bind_some, hparks (by omega)]
      · have hfull : js.length = 4 := by
          have hle := hlog.room
          omega
        constructor
        · intro hlen
          omega
        · intro _
          rw [runAll, takeTrap_full im js h t hlog hfull, Option.bind_none]

/-- `main` starts with an empty log. -/
theorem logHolds_nil (im : Image) (h : Hart) (hinst : Installed im h)
    (hcount : h.mem (im.word .evCount 0) = 0) : LogHolds im [] h where
  installed := hinst
  room := by simp
  count := hcount
  events := fun k hk => absurd hk (by simp)

/-- From the empty log, a sequence of traps parks the hart exactly when it has
more than four of them. -/
theorem run_parks_iff (im : Image) (ts : List Trap) (h : Hart) (hinst : Installed im h)
    (hcount : h.mem (im.word .evCount 0) = 0) :
    runAll (takeTrap im) h ts = none ↔ 4 < ts.length := by
  obtain ⟨hfits, hparks⟩ := run_log im [] ts h (logHolds_nil im h hinst hcount)
  rw [List.length_nil, Nat.zero_add] at hfits hparks
  constructor
  · intro hnone
    by_contra hlen
    obtain ⟨h', hrun, -⟩ := hfits (by omega)
    rw [hnone] at hrun
    exact absurd hrun (by simp)
  · exact hparks

end StvecVectored
end BareMetal
