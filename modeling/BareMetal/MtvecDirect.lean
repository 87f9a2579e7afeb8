import BareMetal.Machine.CallFrame
import BareMetal.Machine.Runs

/-!
# The single trap entry of direct mode

`src/mtvec-mode0-direct/d0_trap.S` is the one entry of an image whose `mtvec`
is in direct mode: M-mode `ecall`s and machine timer interrupts both enter
there.  It saves the caller-saved registers, calls `d0_c_handle` of
`d0_main.c`, and returns to the address the C handler stored in
`d0_regs[18]`.

The base of `d0_regs` is swapped back into `mscratch` before the call, so it
survives; the interrupted `t0` comes out of `mscratch` in the same
instruction, and from then on its only copy is in the caller-saved `t0`.
`direct_trap_faithful_iff` is what follows, after any number of earlier traps.
-/

namespace BareMetal
namespace MtvecDirect

open Machine

/-- Link-time symbols: the array `d0_regs` and the entry (`.align 2`). -/
structure Image where
  d0Regs : Word
  entry : Word
  entry_aligned : entry &&& 3#64 = 0#64

/-! ## The C handler -/

def MCAUSE_ECALL_M : Word := 11
def MCAUSE_MTI : Word := 0x8000000000000007

/-- The counters and records of `d0_main.c` that the handler updates, and the
CLINT compare register it disarms. -/
structure Globals where
  ecallCount : Word
  timerCount : Word
  unexpectedCount : Word
  unexpectedMcause : Word
  ecallLanding : Word
  ecallMcause : Word
  ecallMepc : Word
  timerLanding : Word
  timerMcause : Word
  mtimecmp : Word

/-- Byte offset of `d0_regs[18]`, the resume address. -/
def resumeOff : Nat := 18 * 8

/-- `d0_c_handle`: the new globals and the new memory. -/
def d0CHandle (im : Image) (g : Globals) (m : Mem) : Globals × Mem :=
  let landing := m (addr im.d0Regs (0 * 8))
  let mcause := m (addr im.d0Regs (1 * 8))
  let mepc := m (addr im.d0Regs (2 * 8))
  if mcause = MCAUSE_ECALL_M then
    ({ g with
        ecallCount := g.ecallCount + 1
        ecallLanding := landing, ecallMcause := mcause, ecallMepc := mepc },
      Function.update m (addr im.d0Regs resumeOff) (mepc + 4))
  else if mcause = MCAUSE_MTI then
    ({ g with
        timerCount := g.timerCount + 1, timerLanding := landing, timerMcause := mcause
        mtimecmp := ~~~ 0 },
      Function.update m (addr im.d0Regs resumeOff) mepc)
  else
    ({ g with unexpectedCount := g.unexpectedCount + 1, unexpectedMcause := mcause },
      Function.update m (addr im.d0Regs resumeOff) mepc)

/-! ## The assembly -/

/-- The caller-saved registers saved and reloaded in one row; `t1` is saved
before them. -/
def callerPairs : List (Reg × Nat) :=
  [(.ra, 3 * 8), (.t2, 5 * 8), (.t3, 6 * 8), (.t4, 7 * 8), (.t5, 8 * 8), (.t6, 9 * 8),
   (.a0, 10 * 8), (.a1, 11 * 8), (.a2, 12 * 8), (.a3, 13 * 8), (.a4, 14 * 8),
   (.a5, 15 * 8), (.a6, 16 * 8), (.a7, 17 * 8)]

/-- `d0_trap_entry` up to the call. -/
def trapSave (im : Image) : List Instr :=
  -- first swap: `t0` is the base, the interrupted `t0` is in `mscratch`
  [.csrrw .t0 .mscratch .t0,
   .sd .t1 (4 * 8) .t0,
   .la .t1 im.entry,
   .sd .t1 (0 * 8) .t0,
   .csrr .t1 .mcause,
   .sd .t1 (1 * 8) .t0,
   .csrr .t1 .mepc,
   .sd .t1 (2 * 8) .t0] ++
  (sdAll .t0 callerPairs ++
  -- second swap: the base is safe in `mscratch`, the interrupted `t0` is back in
  -- the caller-saved `t0`
  [.csrrw .t0 .mscratch .t0])

/-- `d0_trap_entry` behind the call, without the final `mret`. -/
def trapRestore : List Instr :=
  -- third swap: the base again, and whatever the C handler left in `t0`
  [.csrrw .t0 .mscratch .t0] ++
  (ldAll .t0 callerPairs ++
  [.ld .t1 resumeOff .t0,
   .csrw .mepc .t1,
   .ld .t1 (4 * 8) .t0,
   .csrrw .t0 .mscratch .t0])

/-- What the compiled C handler leaves in the registers it may change and in
memory outside `d0_regs`. -/
structure Leftover where
  regs : Reg → Word
  mem : Mem

/-- `d0_trap_entry` with the C handler called in the middle. -/
def handle (im : Image) (g : Globals) (h : Hart) (left : Leftover) : Globals × Hart :=
  let saved := run (trapSave im) h
  let out := d0CHandle im g saved.mem
  -- the compiled handler may store anywhere but in `d0_regs`
  let returned := ({ saved with mem := out.2 }.clobberMem (InArea im.d0Regs 20) left.mem).callC
    left.regs (left.regs .a0)
  (out.1, (run trapRestore returned).mret)

/-! ## Runs -/

/-- The C globals together with the hart. -/
structure Sys where
  g : Globals
  hart : Hart

/-- The two traps of the module. -/
inductive Kind
  | timer | ecall
  deriving DecidableEq, Repr

def Kind.cause : Kind → Word
  | .timer => MCAUSE_MTI
  | .ecall => ecallCause .machine

/-- Where the interrupted code is to go on. -/
def Kind.resume : Kind → Word → Word
  | .timer, pc => pc
  | .ecall, pc => pc + 4

/-- A trap: the interrupted M-mode code may have any registers, memory, pc and
status, and the C handler may leave anything behind. -/
structure Trap where
  kind : Kind
  regs : Reg → Word
  pc : Word
  mem : Mem
  mstatus : Word
  left : Leftover

/-- The hart when that trap is taken.  Only `main` writes `mscratch` and
`mtvec`, once. -/
def Trap.onHart (t : Trap) (h : Hart) : Hart :=
  { h.setCsr .mstatus t.mstatus with regs := t.regs, pc := t.pc, mem := t.mem, priv := .machine }

/-- Take a trap; `none` when the hart does not land at the entry. -/
def takeTrap (im : Image) (s : Sys) (t : Trap) : Option Sys :=
  let taken := (t.onHart s.hart).trapM t.kind.cause
  if taken.pc = im.entry then
    let out := handle im s.g taken t.left
    some ⟨out.1, out.2⟩
  else none

/-- `main` has pointed `mtvec` at the entry and `mscratch` at `d0_regs`. -/
structure Installed (im : Image) (h : Hart) : Prop where
  mtvec : h.csr .mtvec = im.entry
  mscratch : h.csr .mscratch = im.d0Regs

/-- The trap is transparent: the interrupted code goes on where it should, with
all its registers, and the entry is ready for the next trap. -/
structure Resumed (im : Image) (t : Trap) (h' : Hart) : Prop where
  pc : h'.pc = t.kind.resume t.pc
  regs : h'.regs = t.regs
  mscratch : h'.csr .mscratch = im.d0Regs

/-- After the earlier traps the trap `t` is taken, returns, and is
transparent. -/
def Faithful (im : Image) (s : Sys) (earlier : List Trap) (t : Trap) : Prop :=
  ∃ s' s'', runAll (takeTrap im) s earlier = some s' ∧ takeTrap im s' t = some s'' ∧
    Resumed im t s''.hart

/-! ## One trap -/

/-- The layout of `d0_regs` as a frame. -/
def frame : CallFrame where
  words := 20
  slot
    | .ra => 24 | .t2 => 40 | .t3 => 48 | .t4 => 56 | .t5 => 64 | .t6 => 72
    | .a0 => 80 | .a1 => 88 | .a2 => 96 | .a3 => 104 | .a4 => 112 | .a5 => 120
    | .a6 => 128 | .a7 => 136
    | _ => 0
  t1Off := 4 * 8
  resumeOff := resumeOff
  words_le := by decide
  slot_inside := by decide
  slot_inj := by decide
  slot_ne := by decide
  t1Off_inside := by decide
  resumeOff_inside := by decide
  t1Off_ne := by decide

@[simp] theorem frame_resumeOff : frame.resumeOff = resumeOff := rfl

theorem callerPairs_eq_pairs : callerPairs = frame.pairs := by
  decide

/-- Behind its first swap the exit is the restore block of the frame. -/
theorem trapRestore_eq : trapRestore = .csrrw .t0 .mscratch .t0 :: frame.restore := by
  rw [trapRestore, callerPairs_eq_pairs]
  rfl

/-- Memory while the C handler runs. -/
def savedMem (im : Image) (h : Hart) : Mem :=
  let base := h.csr .mscratch
  storeAll (Function.update (Function.update h.regs .t0 base) .t1 (h.csr .mepc)) base frame.pairs
    (Function.update (Function.update (Function.update (Function.update h.mem
      (addr base (4 * 8)) (h.regs .t1))
      (addr base (0 * 8)) im.entry)
      (addr base (1 * 8)) (h.csr .mcause))
      (addr base (2 * 8)) (h.csr .mepc))

/-- The save half: `t1` is scratch, and `t0` and `mscratch` have been swapped
twice. -/
theorem run_trapSave (im : Image) (h : Hart) :
    (run (trapSave im) h).mem = savedMem im h ∧
      (run (trapSave im) h).csr = h.csr ∧
      ∀ r, r ≠ .t1 → (run (trapSave im) h).regs r = h.regs r := by
  have hbase : run (trapSave im) h =
      { h with
        regs := Function.update (Function.update (Function.update h.regs .t0 (h.csr .mscratch))
          .t1 (h.csr .mepc)) .t0 (h.regs .t0)
        csr := Function.update (Function.update h.csr .mscratch (h.regs .t0)) .mscratch
          (h.csr .mscratch)
        mem := savedMem im h } := by
    simp [trapSave, callerPairs_eq_pairs, savedMem, run_append, run_sdAll, Instr.exec,
      Hart.setReg, Hart.setCsr, Hart.store]
  refine ⟨by rw [hbase], by rw [hbase]; simp, ?_⟩
  intro r hr1
  rw [hbase]
  by_cases hr0 : r = .t0
  · subst hr0
    simp
  · simp [hr0, hr1]

/-- The array while the C handler runs: the trap registers, and the frame of
the interrupted file. -/
theorem savedMem_slots (im : Image) (h : Hart) :
    let base := h.csr .mscratch
    savedMem im h (addr base (1 * 8)) = h.csr .mcause ∧
      savedMem im h (addr base (2 * 8)) = h.csr .mepc ∧
      frame.Holds (savedMem im h) base h.regs := by
  refine ⟨?_, ?_, ?_⟩
  · rw [savedMem, frame.storeAll_pairs_of_ne _ _ _ (by decide) (by decide)]
    simp [update_addr]
  · rw [savedMem, frame.storeAll_pairs_of_ne _ _ _ (by decide) (by decide)]
    simp
  · apply frame.holds_storeAll
    · intro r hr
      have hr0 : r ≠ .t0 := by rintro rfl; exact absurd hr (by decide)
      have hr1 : r ≠ .t1 := by rintro rfl; exact absurd hr (by decide)
      rw [Function.update_of_ne hr1, Function.update_of_ne hr0]
    · simp [frame, update_addr]

/-- The C handler stores to the resume slot only. -/
theorem d0CHandle_frame (im : Image) (g : Globals) (m : Mem) {a : Word}
    (ha : a ≠ addr im.d0Regs resumeOff) : (d0CHandle im g m).2 a = m a := by
  unfold d0CHandle
  dsimp only
  split_ifs <;> simp [Function.update_of_ne, ha]

/-- What the C handler decides for the two traps of the module: where to
resume, and which counter moves. -/
theorem d0CHandle_kind (im : Image) (g : Globals) (m : Mem) (k : Kind)
    (hcause : m (addr im.d0Regs (1 * 8)) = k.cause) :
    let out := d0CHandle im g m
    out.2 (addr im.d0Regs resumeOff) = k.resume (m (addr im.d0Regs (2 * 8))) ∧
      out.1.timerCount = g.timerCount + (if k = .timer then 1 else 0) ∧
      out.1.ecallCount = g.ecallCount + (if k = .ecall then 1 else 0) ∧
      out.1.unexpectedCount = g.unexpectedCount := by
  cases k with
  | timer =>
      have hne : MCAUSE_MTI ≠ MCAUSE_ECALL_M := by decide
      have heq : Kind.timer.cause = MCAUSE_MTI := rfl
      simp [d0CHandle, hcause, hne, heq, Kind.resume]
  | ecall =>
      have heq : Kind.ecall.cause = MCAUSE_ECALL_M := rfl
      simp [d0CHandle, hcause, heq, Kind.resume]

/-- The exit, entered with `mscratch` at the array: what the C handler left in
`t0` trades places with the base twice and comes back with the file. -/
theorem trapRestore_effect (h : Hart) (base : Word) (v : Reg → Word)
    (hbase : h.csr .mscratch = base) (hframe : frame.Holds h.mem base v)
    (hcallee : ∀ r, r.calleeSaved = true → h.regs r = v r) :
    (run trapRestore h).regs = Function.update v .t0 (h.regs .t0) ∧
      (run trapRestore h).csr .mepc = h.mem (addr base resumeOff) ∧
      (run trapRestore h).csr .mscratch = base ∧
      (run trapRestore h).csr .mtvec = h.csr .mtvec := by
  let back := (Instr.csrrw .t0 .mscratch .t0).exec h
  have hback : run trapRestore h = run frame.restore back := by
    rw [trapRestore_eq, run_cons]
  have ht0 : back.regs .t0 = base := by
    simp [back, Instr.exec, hbase]
  have hscratch : back.csr .mscratch = h.regs .t0 := by
    simp [back, Instr.exec]
  have hrun := frame.run_restore back
  rw [ht0] at hrun
  rw [hback]
  refine ⟨?_, ?_, ?_, ?_⟩
  · rw [frame.restore_regs back v (by rw [ht0]; exact hframe), hscratch]
    intro r hr
    have hr0 : r ≠ .t0 := by rintro rfl; exact absurd hr (by decide)
    simp [back, Instr.exec, hr0, hcallee r hr]
  · rw [hrun]
    simp [back, Instr.exec]
  · rw [hrun]
    simp
  · rw [hrun]
    simp [back, Instr.exec]

/-- One pass through the entry with `mscratch` at the array.  Every register
but `t0` survives; `t0` is what the compiled C handler left there. -/
theorem handle_effect (im : Image) (g : Globals) (h : Hart) (left : Leftover)
    (hbase : h.csr .mscratch = im.d0Regs) :
    let out := d0CHandle im g (savedMem im h)
    let h' := (handle im g h left).2
    (handle im g h left).1 = out.1 ∧
      h'.pc = out.2 (addr im.d0Regs resumeOff) ∧
      h'.regs = Function.update h.regs .t0 (left.regs .t0) ∧
      h'.csr .mscratch = im.d0Regs ∧
      h'.csr .mtvec = h.csr .mtvec := by
  obtain ⟨hmem, hcsr, hregs⟩ := run_trapSave im h
  obtain ⟨-, -, hframe⟩ := savedMem_slots im h
  rw [hbase, ← hmem] at hframe
  unfold handle
  generalize run (trapSave im) h = saved at hmem hcsr hregs hframe
  dsimp only
  rw [hmem]
  -- of the array the C handler writes the resume slot only
  have hC : ∀ a, InArea im.d0Regs 20 a → a ≠ addr im.d0Regs resumeOff →
      (d0CHandle im g (savedMem im h)).2 a = saved.mem a := by
    intro a _ hresume
    rw [d0CHandle_frame im g _ hresume, hmem]
  generalize d0CHandle im g (savedMem im h) = out at hC
  have hretFrame := hframe.callC hC (InArea im.d0Regs 20) (fun _ ha => ha) left.mem left.regs
    (left.regs .a0)
  generalize hret : ({ saved with mem := out.2 }.clobberMem (InArea im.d0Regs 20) left.mem).callC
    left.regs (left.regs .a0) = returned at hretFrame
  have hretCsr : returned.csr = h.csr := by
    rw [← hret, ← hcsr]
    rfl
  have hretCallee : ∀ r : Reg, r.calleeSaved = true → returned.regs r = h.regs r := by
    intro r hr
    have hr1 : r ≠ .t1 := by rintro rfl; exact absurd hr (by decide)
    rw [← hret, Hart.callC_calleeSaved _ _ _ hr, ← hregs r hr1]
    rfl
  have hresume : returned.mem (addr im.d0Regs resumeOff) = out.2 (addr im.d0Regs resumeOff) := by
    rw [← hret]
    exact Hart.clobberMem_keep _ _ _ (inArea_addr (i := 18) (by decide) rfl)
  have ht0 : returned.regs .t0 = left.regs .t0 := by rw [← hret]; rfl
  obtain ⟨hfile, hepc, hscratch, htvec⟩ := trapRestore_effect returned im.d0Regs h.regs
    (by rw [hretCsr, hbase]) hretFrame hretCallee
  rw [hretCsr] at htvec
  refine ⟨rfl, hepc.trans hresume, by rw [Hart.mret_regs, hfile, ht0], ?_, ?_⟩
  · rw [Hart.mret_csr_of_ne _ (by decide), hscratch]
  · rw [Hart.mret_csr_of_ne _ (by decide), htvec]

/-- One trap of a run: it returns to the right place with the entry still
installed, `t0` as the C handler left it, and its counter one higher. -/
theorem takeTrap_effect (im : Image) (s : Sys) (t : Trap) (hinst : Installed im s.hart) :
    ∃ s', takeTrap im s t = some s' ∧ Installed im s'.hart ∧
      s'.hart.pc = t.kind.resume t.pc ∧
      s'.hart.regs = Function.update t.regs .t0 (t.left.regs .t0) ∧
      s'.g.timerCount = s.g.timerCount + (if t.kind = .timer then 1 else 0) ∧
      s'.g.ecallCount = s.g.ecallCount + (if t.kind = .ecall then 1 else 0) ∧
      s'.g.unexpectedCount = s.g.unexpectedCount := by
  let taken := (t.onHart s.hart).trapM t.kind.cause
  have htvec : taken.csr .mtvec = im.entry := hinst.mtvec
  have hscratch : taken.csr .mscratch = im.d0Regs := hinst.mscratch
  have hland : taken.pc = im.entry := by
    have hvec : (t.onHart s.hart).csr .mtvec = im.entry := hinst.mtvec
    rw [Hart.trapM_pc, hvec, tvecTarget_direct im.entry_aligned]
  obtain ⟨hcause, hepc, -⟩ := savedMem_slots im taken
  rw [hscratch] at hcause hepc
  obtain ⟨hresume, htimer, hecall, hunexpected⟩ :=
    d0CHandle_kind im s.g (savedMem im taken) t.kind hcause
  obtain ⟨hg, hpc, hregs, hscratch', htvec'⟩ := handle_effect im s.g taken t.left hscratch
  rw [hepc] at hresume
  refine ⟨⟨(handle im s.g taken t.left).1, (handle im s.g taken t.left).2⟩, if_pos hland,
    ⟨htvec'.trans htvec, hscratch'⟩, hpc.trans hresume, hregs, ?_, ?_, ?_⟩
  · rw [hg, htimer]
  · rw [hg, hecall]
  · rw [hg, hunexpected]

/-! ## Whole runs -/

/-- Any number of traps leaves the entry installed, and each of them has been
counted by its kind. -/
theorem run_counts (im : Image) (s : Sys) (hinst : Installed im s.hart) (ts : List Trap) :
    ∃ s', runAll (takeTrap im) s ts = some s' ∧ Installed im s'.hart ∧
      s'.g.timerCount = s.g.timerCount + BitVec.ofNat 64 (ts.countP (·.kind = .timer)) ∧
      s'.g.ecallCount = s.g.ecallCount + BitVec.ofNat 64 (ts.countP (·.kind = .ecall)) ∧
      s'.g.unexpectedCount = s.g.unexpectedCount := by
  induction ts generalizing s with
  | nil => exact ⟨s, rfl, hinst, by simp, by simp, rfl⟩
  | cons t ts ih =>
      obtain ⟨mid, hstep, hmid, -, -, htimer, hecall, hunexpected⟩ := takeTrap_effect im s t hinst
      obtain ⟨s', hrun, hinst', htimer', hecall', hunexpected'⟩ := ih mid hmid
      refine ⟨s', runAll_cons_eq_some.mpr ⟨mid, hstep, hrun⟩, hinst', ?_, ?_,
        hunexpected'.trans hunexpected⟩
      · rw [htimer', htimer, List.countP_cons]
        cases t.kind <;> simp [BitVec.ofNat_add, BitVec.add_comm, BitVec.add_assoc]
      · rw [hecall', hecall, List.countP_cons]
        cases t.kind <;> simp [BitVec.ofNat_add, BitVec.add_comm, BitVec.add_assoc]

theorem run_installed (im : Image) (s : Sys) (hinst : Installed im s.hart) (ts : List Trap) :
    ∃ s', runAll (takeTrap im) s ts = some s' ∧ Installed im s'.hart := by
  obtain ⟨s', hrun, hinst', -⟩ := run_counts im s hinst ts
  exact ⟨s', hrun, hinst'⟩

/-- A trap returns, and is transparent exactly when `t0` survives the C
handler. -/
theorem takeTrap_resumed_iff (im : Image) (s : Sys) (t : Trap) (hinst : Installed im s.hart) :
    ∃ s', takeTrap im s t = some s' ∧
      (Resumed im t s'.hart ↔ t.left.regs .t0 = t.regs .t0) := by
  obtain ⟨s', hstep, hinst', hpc, hregs, -⟩ := takeTrap_effect im s t hinst
  refine ⟨s', hstep, fun hresumed => ?_, fun ht0 => ⟨hpc, ?_, hinst'.mscratch⟩⟩
  · have ht0 := congrFun (hregs.symm.trans hresumed.regs) .t0
    rwa [Function.update_self] at ht0
  · rw [hregs, ht0, Function.update_eq_self]

/-- After any number of earlier traps, a trap is transparent exactly when the
compiled C handler happens to leave in `t0` what the interrupted code had
there. -/
theorem direct_trap_faithful_iff (im : Image) (s : Sys) (hinst : Installed im s.hart)
    (earlier : List Trap) (t : Trap) :
    Faithful im s earlier t ↔ t.left.regs .t0 = t.regs .t0 :=
  runAll_next_iff (run_installed im s hinst earlier) fun hinst' =>
    takeTrap_resumed_iff im _ t hinst'

/-- A linked image of the module. -/
def sampleImage : Image where
  d0Regs := 0x80002000
  entry := 0x80000200
  entry_aligned := by decide

/-- The module when `main` has installed the entry. -/
def sampleSys : Sys where
  g := ⟨0, 0, 0, 0, 0, 0, 0, 0, 0, 0⟩
  hart :=
    { regs := fun _ => 0
      csr := Function.update (Function.update (fun _ => 0) .mscratch sampleImage.d0Regs)
        .mtvec sampleImage.entry
      mem := fun _ => 0, time := 0, cycle := 0, pc := 0x80000800, priv := .machine }

theorem sampleSys_installed : Installed sampleImage sampleSys.hart :=
  ⟨rfl, rfl⟩

/-- A trap of the given kind in code with the given word in `t0`, and a C
handler that leaves a zero there. -/
def sampleTrap (kind : Kind) (t0 : Word) : Trap where
  kind := kind
  regs := Function.update (fun _ => 0) .t0 t0
  pc := 0x80000900
  mem := fun _ => 0
  mstatus := 0
  left := ⟨fun _ => 0, fun _ => 0⟩

/-- A timer interrupt behind the `ecall` of `main` takes the interrupted `t0`
away. -/
theorem timer_loses_t0 :
    ¬ Faithful sampleImage sampleSys [sampleTrap .ecall 0] (sampleTrap .timer 1234) := by
  intro hfaithful
  have ht0 : (0 : Word) = 1234 :=
    (runAll_next_iff (run_installed sampleImage sampleSys sampleSys_installed _) fun hinst =>
      takeTrap_resumed_iff sampleImage _ (sampleTrap .timer 1234) hinst).mp hfaithful
  exact absurd ht0 (by decide)

/-- The same interrupt with a zero in `t0` goes unnoticed. -/
theorem timer_keeps_zero_t0 :
    Faithful sampleImage sampleSys [sampleTrap .ecall 0] (sampleTrap .timer 0) :=
  (direct_trap_faithful_iff sampleImage sampleSys sampleSys_installed [sampleTrap .ecall 0]
    (sampleTrap .timer 0)).mpr rfl

end MtvecDirect
end BareMetal
