import BareMetal.Machine.Blocks
import BareMetal.Machine.Privilege

/-!
# Interrupt entries that call C

Four modules take one kind of interrupt through the same entry:
`src/msip/msip_trap.S`, `src/mie-msip/mie_trap.S`, `src/mie-global/mig_trap.S`
and `src/mie-toggle/mie-toggle_trap.S`.  The entry parks `t0` in `mscratch`,
saves `t1`, `ra` and `a0` in the module's array, records a few trap registers
there, and calls a C handler; behind the call it reloads the three registers
relative to `t0` and swaps `t0` back.

The C handler is ordinary compiled code, for which `t0` (the array base) and
the other temporaries and argument registers are free.  `handle_regs` says
what the interrupted code gets back, and `interrupt_transparent_iff` which C
handlers it survives.
-/

namespace BareMetal
namespace IrqEntry

open Machine

/-! ## The entries -/

/-- What distinguishes the four entries: the length of the array, the recorded
trap registers with their slots, and the slots of `ra` and `a0`.  The slot of
`t1` is word 1 everywhere.  No two slots coincide and all are in the array. -/
structure Entry where
  words : Nat
  records : List (Source × Nat)
  raOff : Nat
  a0Off : Nat
  slots_nodup : (1 * 8 :: raOff :: a0Off :: records.map Prod.snd).Nodup
  slots_inside : ∀ off ∈ 1 * 8 :: raOff :: a0Off :: records.map Prod.snd,
    off % 8 = 0 ∧ off < 8 * words
  words_le : words ≤ 9

/-- The entry up to the call. -/
def Entry.save (e : Entry) : List Instr :=
  -- the base comes out of `mscratch`, the interrupted `t0` goes in
  [.csrrw .t0 .mscratch .t0,
   .sd .t1 (1 * 8) .t0] ++
  (recordAll .t1 .t0 e.records ++
  [.sd .ra e.raOff .t0,
   .sd .a0 e.a0Off .t0])

/-- The entry behind the call, without the final `mret`. -/
def Entry.restore (e : Entry) : List Instr :=
  -- `t0` is taken to be the base still, although the call was free to change it
  [.ld .ra e.raOff .t0,
   .ld .a0 e.a0Off .t0,
   .ld .t1 (1 * 8) .t0,
   .csrrw .t0 .mscratch .t0]

/-- `msip_trap_entry`, with the eight words of `msip_regs`. -/
def msipTrapEntry : Entry where
  words := 8
  records := [(.csr .mcause, 2 * 8), (.csr .mepc, 3 * 8), (.csr .mtval, 4 * 8), (.cycle, 5 * 8)]
  raOff := 6 * 8
  a0Off := 7 * 8
  slots_nodup := by decide
  slots_inside := by decide
  words_le := by decide

/-- `mie_trap_entry` of the `mie.MSIE` module. -/
def mieTrapEntry : Entry where
  words := 8
  records := [(.csr .mcause, 2 * 8), (.csr .mepc, 3 * 8), (.csr .mtval, 4 * 8), (.cycle, 5 * 8)]
  raOff := 6 * 8
  a0Off := 7 * 8
  slots_nodup := by decide
  slots_inside := by decide
  words_le := by decide

/-- `mig_trap_entry`, which also records `mstatus`, in the ninth word. -/
def migTrapEntry : Entry where
  words := 9
  records := [(.csr .mcause, 2 * 8), (.csr .mepc, 3 * 8), (.csr .mtval, 4 * 8), (.cycle, 5 * 8),
    (.csr .mstatus, 8 * 8)]
  raOff := 6 * 8
  a0Off := 7 * 8
  slots_nodup := by decide
  slots_inside := by decide
  words_le := by decide

/-- `mie_toggle_trap_entry`, which records `mcause` and `mepc` only. -/
def mieToggleTrapEntry : Entry where
  words := 8
  records := [(.csr .mcause, 2 * 8), (.csr .mepc, 3 * 8)]
  raOff := 4 * 8
  a0Off := 5 * 8
  slots_nodup := by decide
  slots_inside := by decide
  words_le := by decide

/-! ## The C handlers -/

/-- The globals the four C handlers write, and the two CLINT registers with
which they end the delivery. -/
structure Globals where
  trapCount : Word
  lastMcause : Word
  lastMepc : Word
  lastMtval : Word
  lastEntryCycle : Word
  lastEntryMstatus : Word
  msip0 : BitVec 32
  mtimecmp0 : Word

section CHandlers

variable (area : Word) (g : Globals) (m : Mem)

/-- `msip_c_handle`; `area` is `msip_regs`. -/
def msipCHandle : Globals :=
  { g with
    msip0 := 0
    trapCount := g.trapCount + 1
    lastMcause := m (addr area (2 * 8))
    lastMepc := m (addr area (3 * 8))
    lastEntryCycle := m (addr area (5 * 8)) }

/-- `mie_c_handle` of the `mie.MSIE` module. -/
def mieCHandle : Globals :=
  { g with
    msip0 := 0
    trapCount := g.trapCount + 1
    lastMcause := m (addr area (2 * 8))
    lastMepc := m (addr area (3 * 8)) }

/-- `mig_c_handle`. -/
def migCHandle : Globals :=
  { g with
    msip0 := 0
    trapCount := g.trapCount + 1
    lastMcause := m (addr area (2 * 8))
    lastMepc := m (addr area (3 * 8))
    lastMtval := m (addr area (4 * 8))
    lastEntryMstatus := m (addr area (8 * 8)) }

/-- `mie_c_handle` of the `mie-toggle` module. -/
def mieToggleCHandle : Globals :=
  { g with
    mtimecmp0 := ~~~ 0
    trapCount := g.trapCount + 1
    lastMcause := m (addr area (2 * 8))
    lastMepc := m (addr area (3 * 8)) }

end CHandlers

/-- The four modules. -/
inductive Lab
  | msip | mieMsip | mieGlobal | mieToggle
  deriving DecidableEq, Repr

def Lab.entry : Lab → Entry
  | .msip => msipTrapEntry
  | .mieMsip => mieTrapEntry
  | .mieGlobal => migTrapEntry
  | .mieToggle => mieToggleTrapEntry

def Lab.cHandle : Lab → Word → Globals → Mem → Globals
  | .msip => msipCHandle
  | .mieMsip => mieCHandle
  | .mieGlobal => migCHandle
  | .mieToggle => mieToggleCHandle

/-! ## Taking the interrupt -/

/-- Link-time symbols: the array and the entry (`.align 2`). -/
structure Image where
  area : Word
  entry : Word
  entry_aligned : entry &&& 3#64 = 0#64

/-- What the compiled C handler leaves in the registers it may change and in
memory outside the array. -/
structure Leftover where
  regs : Reg → Word
  mem : Mem

/-- The entry with the C handler called in the middle. -/
def handle (lab : Lab) (im : Image) (g : Globals) (h : Hart) (left : Leftover) : Globals × Hart :=
  let saved := run lab.entry.save h
  -- the compiled handler keeps the callee-saved registers and the array
  let returned := (saved.clobberMem (InArea im.area lab.entry.words) left.mem).callC
    left.regs (left.regs .a0)
  (lab.cHandle im.area g saved.mem, (run lab.entry.restore returned).mret)

/-- Take a trap, for which the hardware also sets `mtval`; `none` when the hart
does not land at the entry. -/
def trap (lab : Lab) (im : Image) (g : Globals) (h : Hart) (cause tval : Word) (left : Leftover) :
    Option (Globals × Hart) :=
  let taken := (h.setCsr .mtval tval).trapM cause
  if taken.pc = im.entry then some (handle lab im g taken left) else none

/-- `main` has pointed `mtvec` at the entry, in direct mode, and `mscratch` at
the array. -/
structure Installed (im : Image) (h : Hart) : Prop where
  mtvec : h.csr .mtvec = im.entry
  mscratch : h.csr .mscratch = im.area

/-! ## The save half -/

section Save

variable (e : Entry) (h : Hart)

/-- The hart behind the first swap of the entry. -/
def swapped : Hart :=
  (h.setCsr .mscratch (h.regs .t0)).setReg .t0 (h.csr .mscratch)

/-- Memory while the C handler runs. -/
def Entry.savedMem : Mem :=
  let base := h.csr .mscratch
  Function.update (Function.update
    (recordMem (Source.read (swapped h)) base e.records
      (Function.update h.mem (addr base (1 * 8)) (h.regs .t1)))
    (addr base e.raOff) (h.regs .ra))
    (addr base e.a0Off) (h.regs .a0)

/-- The save half: the array base is in `t0`, the interrupted `t0` in
`mscratch`, and `t1` is scratch. -/
theorem run_save :
    ∃ v, run e.save h =
      { h with
        regs := Function.update (swapped h).regs .t1 v
        csr := (swapped h).csr
        mem := e.savedMem h } := by
  let parked := (swapped h).store (addr (h.csr .mscratch) (1 * 8)) (h.regs .t1)
  have hstart : run [.csrrw .t0 .mscratch .t0, .sd .t1 (1 * 8) .t0] h = parked := by
    simp [Instr.exec, parked, swapped]
  have hread : Source.read parked = Source.read (swapped h) := by
    funext s
    cases s <;> rfl
  have hbase : parked.regs .t0 = h.csr .mscratch := by
    simp [parked, swapped]
  obtain ⟨v, hv⟩ := run_recordAll (show Reg.t0 ≠ Reg.t1 by decide) e.records parked
  refine ⟨v, ?_⟩
  rw [Entry.save, run_append, run_append, hstart, hv, hread, hbase]
  simp [Instr.exec, parked, swapped, Entry.savedMem, Hart.store, Hart.setReg, Hart.setCsr]

/-- Slots are offsets of the array, hence small. -/
theorem Entry.slot_lt {off : Nat}
    (hoff : off ∈ 1 * 8 :: e.raOff :: e.a0Off :: e.records.map Prod.snd) : off < 2 ^ 64 := by
  have hin := e.slots_inside off hoff
  have hwords := e.words_le
  omega

/-- The slots of the array while the C handler runs. -/
theorem savedMem_slots :
    let base := h.csr .mscratch
    e.savedMem h (addr base (1 * 8)) = h.regs .t1 ∧
      e.savedMem h (addr base e.raOff) = h.regs .ra ∧
      e.savedMem h (addr base e.a0Off) = h.regs .a0 ∧
      ∀ p ∈ e.records, e.savedMem h (addr base p.2) = Source.read (swapped h) p.1 := by
  obtain ⟨ht1, hrest⟩ := List.nodup_cons.mp e.slots_nodup
  obtain ⟨hra, hrest⟩ := List.nodup_cons.mp hrest
  obtain ⟨ha0, hrecords⟩ := List.nodup_cons.mp hrest
  simp only [List.mem_cons, not_or] at ht1 hra
  have hlt1 : 1 * 8 < 2 ^ 64 := by decide
  have hltra : e.raOff < 2 ^ 64 := e.slot_lt (by simp)
  have hlta0 : e.a0Off < 2 ^ 64 := e.slot_lt (by simp)
  have hltp : ∀ p ∈ e.records, p.2 < 2 ^ 64 := fun p hp =>
    e.slot_lt (by simpa using .inr (.inr (.inr ⟨p.1, hp⟩)))
  have hmem : ∀ p ∈ e.records, p.2 ∈ e.records.map Prod.snd := fun p hp =>
    List.mem_map_of_mem hp
  refine ⟨?_, ?_, ?_, fun p hp => ?_⟩
  -- `t1` is stored first, so every later store has to miss its slot
  · rw [Entry.savedMem, update_addr _ _ _ hlta0 hlt1, if_neg ht1.2.1,
      update_addr _ _ _ hltra hlt1, if_neg ht1.1, recordMem_of_ne, Function.update_self]
    intro p hp haddr
    have hoff := (addr_inj hlt1 (hltp p hp)).mp haddr
    exact ht1.2.2 (hoff ▸ hmem p hp)
  · rw [Entry.savedMem, update_addr _ _ _ hlta0 hltra, if_neg hra.1, Function.update_self]
  · rw [Entry.savedMem, Function.update_self]
  · have hp0 : p.2 ≠ e.a0Off := fun heq => ha0 (heq ▸ hmem p hp)
    have hpr : p.2 ≠ e.raOff := fun heq => hra.2 (heq ▸ hmem p hp)
    rw [Entry.savedMem, update_addr _ _ _ hlta0 (hltp p hp), if_neg hp0,
      update_addr _ _ _ hltra (hltp p hp), if_neg hpr, recordMem_of_mem _ _ _ hrecords hltp hp]

/-- The array holds the slots. -/
theorem Entry.inArea_slot (base : Word) {off : Nat}
    (hoff : off ∈ 1 * 8 :: e.raOff :: e.a0Off :: e.records.map Prod.snd) :
    InArea base e.words (addr base off) := by
  have hin := e.slots_inside off hoff
  exact inArea_addr (i := off / 8) (by omega) (by omega)

end Save

/-- The C handler of every module counts the trap and notes its cause and its
pc. -/
theorem cHandle_savedMem (lab : Lab) (area : Word) (g : Globals) (h : Hart)
    (hscratch : h.csr .mscratch = area) :
    let g' := lab.cHandle area g (lab.entry.savedMem h)
    g'.trapCount = g.trapCount + 1 ∧ g'.lastMcause = h.csr .mcause ∧
      g'.lastMepc = h.csr .mepc := by
  obtain ⟨-, -, -, hslots⟩ := savedMem_slots lab.entry h
  rw [hscratch] at hslots
  have hcause : (Source.csr .mcause, 2 * 8) ∈ lab.entry.records := by cases lab <;> decide
  have hepc : (Source.csr .mepc, 3 * 8) ∈ lab.entry.records := by cases lab <;> decide
  have hcauseMem := hslots _ hcause
  have hepcMem := hslots _ hepc
  have hread : ∀ c, c ≠ .mscratch → Source.read (swapped h) (.csr c) = h.csr c := by
    intro c hc
    simp [Source.read, swapped, hc]
  rw [hread .mcause (by decide)] at hcauseMem
  rw [hread .mepc (by decide)] at hepcMem
  cases lab <;> exact ⟨rfl, hcauseMem, hepcMem⟩

/-! ## The exit half -/

/-- The registers that neither the entry nor the C handler keeps. -/
def unsaved : List Reg :=
  [.t2, .t3, .t4, .t5, .t6, .a1, .a2, .a3, .a4, .a5, .a6, .a7]

/-- Every register is the base, one of the three saved ones, callee-saved, or
unsaved. -/
theorem reg_cases (r : Reg) :
    r = .t0 ∨ r = .t1 ∨ r = .ra ∨ r = .a0 ∨
      (r.calleeSaved = true ∧ r ∉ unsaved ∧ r ≠ .t0 ∧ r ≠ .t1 ∧ r ≠ .ra ∧ r ≠ .a0) ∨
      (r.calleeSaved = false ∧ r ∈ unsaved ∧ r ≠ .t0 ∧ r ≠ .t1 ∧ r ≠ .ra ∧ r ≠ .a0) := by
  cases r <;> decide

theorem run_restore (e : Entry) (h : Hart) :
    let base := h.regs .t0
    run e.restore h =
      { h with
        regs := Function.update (Function.update (Function.update (Function.update h.regs
          .ra (h.mem (addr base e.raOff))) .a0 (h.mem (addr base e.a0Off)))
          .t1 (h.mem (addr base (1 * 8)))) .t0 (h.csr .mscratch)
        csr := Function.update h.csr .mscratch base } := by
  simp [Entry.restore, Instr.exec, Hart.setReg, Hart.setCsr]

/-! ## One interrupt -/

section Handle

variable (lab : Lab) (im : Image) (g : Globals) (h : Hart) (left : Leftover)

/-- The hart as the C handler returns it. -/
def returned : Hart :=
  ((run lab.entry.save h).clobberMem (InArea im.area lab.entry.words) left.mem).callC
    left.regs (left.regs .a0)

theorem handle_snd :
    (handle lab im g h left).2 = (run lab.entry.restore (returned lab im h left)).mret := rfl

/-- The entry always resumes at `mepc`; whatever the C handler left in `t0`
ends up in `mscratch`. -/
theorem handle_csr :
    (handle lab im g h left).2.pc = h.csr .mepc ∧
      (handle lab im g h left).2.csr .mscratch = left.regs .t0 := by
  obtain ⟨v, hsave⟩ := run_save lab.entry h
  have hepc : (returned lab im h left).csr .mepc = h.csr .mepc := by
    simp [returned, hsave, swapped]
  have ht0 : (returned lab im h left).regs .t0 = left.regs .t0 := rfl
  rw [handle_snd, run_restore]
  constructor
  · simpa using hepc
  · simpa using ht0

/-- With the array base still in `t0` behind the call, the interrupted code
gets back every register except the unsaved ones, which are as the C handler
left them. -/
theorem handle_regs (hscratch : h.csr .mscratch = im.area) (ht0 : left.regs .t0 = im.area) :
    (handle lab im g h left).2.regs =
      fun r => if r ∈ unsaved then left.regs r else h.regs r := by
  obtain ⟨v, hsave⟩ := run_save lab.entry h
  obtain ⟨hslot1, hslotra, hslota0, -⟩ := savedMem_slots lab.entry h
  rw [hscratch] at hslot1 hslotra hslota0
  -- the array is the C handler's to read, not to write
  have hmem : ∀ off ∈ 1 * 8 :: lab.entry.raOff :: lab.entry.a0Off ::
      lab.entry.records.map Prod.snd,
      (returned lab im h left).mem (addr im.area off) =
        lab.entry.savedMem h (addr im.area off) := by
    intro off hoff
    rw [returned, Hart.callC_mem, Hart.clobberMem_keep _ _ _ (lab.entry.inArea_slot _ hoff),
      hsave]
  have hbase : (returned lab im h left).regs .t0 = im.area := ht0
  have hparked : (returned lab im h left).csr .mscratch = h.regs .t0 := by
    simp [returned, hsave, swapped]
  rw [handle_snd, Hart.mret_regs, run_restore, hbase]
  dsimp only
  funext r
  obtain rfl | rfl | rfl | rfl | ⟨hkept, hr, hr0, hr1, hra, ha0⟩ |
    ⟨hlost, hr, hr0, hr1, hra, ha0⟩ := reg_cases r
  · rw [Function.update_self, hparked, if_neg (by decide)]
  · rw [Function.update_of_ne (by decide), Function.update_self, hmem _ (by simp), hslot1,
      if_neg (by decide)]
  · simp only [ne_eq, reduceCtorEq, not_false_eq_true, Function.update_of_ne,
      Function.update_self]
    rw [hmem _ (by simp), hslotra, if_neg (by decide)]
  · simp only [ne_eq, reduceCtorEq, not_false_eq_true, Function.update_of_ne,
      Function.update_self]
    rw [hmem _ (by simp), hslota0, if_neg (by decide)]
  · rw [Function.update_of_ne hr0, Function.update_of_ne hr1, Function.update_of_ne ha0,
      Function.update_of_ne hra, if_neg hr, returned, Hart.callC_calleeSaved _ _ _ hkept, hsave]
    simp [swapped, hr0, hr1]
  · rw [Function.update_of_ne hr0, Function.update_of_ne hr1, Function.update_of_ne ha0,
      Function.update_of_ne hra, if_pos hr]
    simp [returned, Hart.callC, ha0, hlost]

end Handle

/-- The interrupted code goes on where it was, with all its registers, and the
entry is ready for the next interrupt. -/
structure Resumed (im : Image) (h h' : Hart) : Prop where
  pc : h'.pc = h.pc
  regs : h'.regs = h.regs
  mscratch : h'.csr .mscratch = im.area

/-- The interrupt returns, to interrupted code that does not notice it. -/
def Transparent (lab : Lab) (im : Image) (g : Globals) (h : Hart) (cause tval : Word)
    (left : Leftover) : Prop :=
  ∃ out, trap lab im g h cause tval left = some out ∧ Resumed im h out.2

section Interrupt

variable (lab : Lab) (im : Image) (g : Globals) (h : Hart) (cause tval : Word) (left : Leftover)

/-- Every trap lands at the entry. -/
theorem trap_eq_handle (hinst : Installed im h) :
    trap lab im g h cause tval left =
      some (handle lab im g ((h.setCsr .mtval tval).trapM cause) left) := by
  have hpc : ((h.setCsr .mtval tval).trapM cause).pc = im.entry := by
    have htvec : (h.setCsr .mtval tval).csr .mtvec = im.entry := hinst.mtvec
    rw [Hart.trapM_pc, htvec, tvecTarget_direct im.entry_aligned]
  simp only [trap, hpc, if_true]

/-- Every trap is counted and noted, whatever becomes of the registers. -/
theorem trap_noted (hinst : Installed im h) :
    ∃ out, trap lab im g h cause tval left = some out ∧
      out.1.trapCount = g.trapCount + 1 ∧ out.1.lastMcause = cause ∧ out.1.lastMepc = h.pc := by
  let taken := (h.setCsr .mtval tval).trapM cause
  obtain ⟨v, hsave⟩ := run_save lab.entry taken
  have hmem : (run lab.entry.save taken).mem = lab.entry.savedMem taken := by rw [hsave]
  refine ⟨_, trap_eq_handle lab im g h cause tval left hinst, ?_⟩
  have hnoted := cHandle_savedMem lab im.area g taken hinst.mscratch
  rw [← hmem] at hnoted
  exact hnoted

/-- An interrupt is transparent exactly when the compiled C handler happens to
return with the array base in `t0` and with the other temporaries and argument
registers as it found them. -/
theorem interrupt_transparent_iff (hinst : Installed im h) :
    Transparent lab im g h cause tval left ↔
      left.regs .t0 = im.area ∧ ∀ r ∈ unsaved, left.regs r = h.regs r := by
  let taken := (h.setCsr .mtval tval).trapM cause
  have htrap := trap_eq_handle lab im g h cause tval left hinst
  have hscratch : taken.csr .mscratch = im.area := hinst.mscratch
  obtain ⟨hpc, hparked⟩ := handle_csr lab im g taken left
  constructor
  · rintro ⟨out, hout, hresumed⟩
    obtain rfl : handle lab im g taken left = out := Option.some.inj (htrap.symm.trans hout)
    -- `mscratch` shows what the C handler left in `t0`; only with that known do
    -- the reloads say anything about the other registers
    have ht0 : left.regs .t0 = im.area := hparked.symm.trans hresumed.mscratch
    refine ⟨ht0, fun r hr => ?_⟩
    have hregs := congrFun (handle_regs lab im g taken left hscratch ht0) r
    rw [hresumed.regs, if_pos hr] at hregs
    exact hregs.symm
  · rintro ⟨ht0, hsame⟩
    refine ⟨_, htrap, hpc, ?_, hparked.trans ht0⟩
    rw [handle_regs lab im g taken left hscratch ht0]
    funext r
    by_cases hr : r ∈ unsaved
    · rw [if_pos hr, hsame r hr]
    · rw [if_neg hr]
      rfl

end Interrupt

/-! ## A handler that uses `a5` -/

/-- A machine software interrupt, the only one the first three modules enable. -/
def MCAUSE_MSI : Word := 0x8000000000000003

/-- A machine timer interrupt, the only one `mie-toggle` enables. -/
def MCAUSE_MTI : Word := 0x8000000000000007

/-- A linked image of one of the modules. -/
def sampleImage : Image where
  area := 0x80002000
  entry := 0x80000100
  entry_aligned := by decide

/-- `main` polling for the trap, with the spin count in `a5`. -/
def sampleHart : Hart where
  regs := Function.update (fun _ => 0) .a5 1234
  csr := Function.update (Function.update (fun _ => 0) .mscratch sampleImage.area)
    .mtvec sampleImage.entry
  mem := fun _ => 0
  time := 0
  cycle := 0
  pc := 0x80000900
  priv := .machine

theorem sampleHart_installed : Installed sampleImage sampleHart :=
  ⟨rfl, rfl⟩

def sampleGlobals : Globals := ⟨0, 0, 0, 0, 0, 0, 1, 0⟩

/-- A C handler that leaves `t0` alone and ends with the given word in `a5`. -/
def sampleLeftover (a5 : Word) : Leftover where
  regs := Function.update (Function.update (fun _ => 0) .t0 sampleImage.area) .a5 a5
  mem := fun _ => 0

/-- A C handler that went through `a5` for a CLINT address breaks the
interrupted loop. -/
theorem sample_not_transparent (lab : Lab) (cause : Word) :
    ¬ Transparent lab sampleImage sampleGlobals sampleHart cause 0
      (sampleLeftover 0x02000000) := by
  rintro ⟨out, hout, hresumed⟩
  have htrap := trap_eq_handle lab sampleImage sampleGlobals sampleHart cause 0
    (sampleLeftover 0x02000000) sampleHart_installed
  obtain rfl := Option.some.inj (htrap.symm.trans hout)
  have hregs := handle_regs lab sampleImage sampleGlobals
    ((sampleHart.setCsr .mtval 0).trapM cause) (sampleLeftover 0x02000000) rfl rfl
  have ha5 := congrFun (hresumed.regs.symm.trans hregs) .a5
  rw [if_pos (by decide)] at ha5
  exact absurd ha5 (by decide)

/-- The spin count of the polling loop comes back as a CLINT address, in each
of the four modules. -/
theorem spin_count_lost :
    ¬ Transparent .msip sampleImage sampleGlobals sampleHart MCAUSE_MSI 0
        (sampleLeftover 0x02000000) ∧
      ¬ Transparent .mieMsip sampleImage sampleGlobals sampleHart MCAUSE_MSI 0
        (sampleLeftover 0x02000000) ∧
      ¬ Transparent .mieGlobal sampleImage sampleGlobals sampleHart MCAUSE_MSI 0
        (sampleLeftover 0x02000000) ∧
      ¬ Transparent .mieToggle sampleImage sampleGlobals sampleHart MCAUSE_MTI 0
        (sampleLeftover 0x02000000) :=
  ⟨sample_not_transparent .msip _, sample_not_transparent .mieMsip _,
    sample_not_transparent .mieGlobal _, sample_not_transparent .mieToggle _⟩

/-- A handler that hands `a5` back is not noticed. -/
theorem spin_count_kept :
    Transparent .msip sampleImage sampleGlobals sampleHart MCAUSE_MSI 0 (sampleLeftover 1234) :=
  (interrupt_transparent_iff .msip sampleImage sampleGlobals sampleHart MCAUSE_MSI 0
    (sampleLeftover 1234) sampleHart_installed).mpr ⟨rfl, by decide⟩

end IrqEntry
end BareMetal
