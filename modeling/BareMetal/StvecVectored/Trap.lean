import BareMetal.Machine.Blocks
import BareMetal.Machine.Objects
import BareMetal.Machine.Privilege

/-!
# The vectored S-mode table and its event log

`src/stvec-vectored/stvv_trap.S`: sixteen one-instruction table entries jump to
stubs that note which entry ran, and one common handler appends an event to
the log, serves the timer or the external interrupt, and returns.  No C is
called; only `t0`-`t3` are used, and all four are parked in `stvv_save`.

The log has room for four events.  A trap that finds it full parks the hart.
`trap_logged` is the effect of one trap; `StvecVectored.Log` follows whole
sequences.
-/

namespace BareMetal
namespace StvecVectored

open Machine

/-! ## Objects -/

/-- The objects of `stvv_main.c` that the handler touches. -/
inductive Obj
  | save | evCount | evScause | evLand | evIdx | unexpected | timerDone | extDone | claimed
  deriving DecidableEq, Repr

/-- Their lengths in doublewords. -/
def Obj.words : Obj → Nat
  | .save => 32
  | .evScause | .evLand | .evIdx => 4
  | .evCount | .unexpected | .timerDone | .extDone | .claimed => 1

instance : Fintype Obj :=
  Fintype.ofList
    [.save, .evCount, .evScause, .evLand, .evIdx, .unexpected, .timerDone, .extDone, .claimed]
    fun o => by cases o <;> simp

/-- Link-time symbols.  The table is 256-byte aligned (`.align 8`). -/
structure Image extends Layout Obj Obj.words where
  table : Word
  table_aligned : table &&& 0xFF#64 = 0#64

/-- The address of `stvv_vec<n>`. -/
def Image.vec (im : Image) (n : Nat) : Word :=
  addr im.table (4 * n)

/-! ## The assembly -/

def SCAUSE_S_TIMER : Word := 0x8000000000000005
def SCAUSE_S_EXT : Word := 0x8000000000000009

/-- The PLIC claim register of the hart's S-mode context. -/
def plicClaim : Word := 0x0c201004

/-- The receive buffer of the UART. -/
def uartRbr : Word := 0x10000000

/-- `-1`, written to `stimecmp` to disarm the timer. -/
def never : Word := -1

/-- `stvv_stub_<n>`. -/
def stub (im : Image) (n : Nat) : List Instr :=
  [.csrrw .t0 .sscratch .t0,
   .sd .t1 (1 * 8) .t0,
   .la .t1 (im.vec n),
   .sd .t1 (2 * 8) .t0,
   .li .t1 (BitVec.ofNat 64 n),
   .sd .t1 (3 * 8) .t0]

/-- `stvv_common` up to the log. -/
def parkTemps : List Instr :=
  [.sd .t2 (6 * 8) .t0,
   .sd .t3 (7 * 8) .t0,
   .csrr .t2 .scause,
   .csrr .t3 .sepc,
   .sd .t3 (5 * 8) .t0]

/-- The count and the bound it is compared with. -/
def loadCount (im : Image) : List Instr :=
  [.la .t3 (im.place .evCount),
   .ld .t1 0 .t3,
   .li .t3 4]

/-- The cause goes to `stvv_ev_scause[count]`. -/
def logScause (im : Image) : List Instr :=
  [.slli .t3 .t1 3,
   .la .t1 (im.place .evScause),
   .add .t1 .t1 .t3,
   .sd .t2 0 .t1]

/-- A word of `stvv_save` goes to `o[count]`; the byte offset is in `t3`. -/
def logSaved (im : Image) (off : Nat) (o : Obj) : List Instr :=
  [.ld .t1 off .t0,
   .la .t2 (im.place o),
   .add .t2 .t2 .t3,
   .sd .t1 0 .t2]

/-- A counter goes up by one. -/
def bump (im : Image) (o : Obj) : List Instr :=
  [.la .t3 (im.place o),
   .ld .t1 0 .t3,
   .addi .t1 .t1 1,
   .sd .t1 0 .t3]

/-- A flag is raised. -/
def raise (im : Image) (o : Obj) : List Instr :=
  [.la .t3 (im.place o),
   .li .t1 1,
   .sd .t1 0 .t3]

/-- Append the event: cause, landing address, entry index. -/
def appendEvent (im : Image) : List Instr :=
  logScause im ++
  (logSaved im (2 * 8) .evLand ++
  (logSaved im (3 * 8) .evIdx ++
  bump im .evCount))

/-- `stvv_timer_isr`. -/
def timerIsr (im : Image) : List Instr :=
  [.li .t1 never,
   .csrw .stimecmp .t1] ++
  raise im .timerDone

/-- A device access of the handler. -/
inductive Bus
  | lw (a : Word)
  | lbu (a : Word)
  | sw (a : Word) (v : BitVec 32)
  deriving DecidableEq, Repr

/-- What the devices answer: the claimed interrupt id and the received byte. -/
structure Answers where
  claim : BitVec 32
  byte : BitVec 8

/-- `stvv_ext_isr`: claim, read the byte, complete.  The device accesses are
listed with the addresses the registers hold. -/
def extIsr (im : Image) (d : Answers) (h : Hart) : Hart × List Bus :=
  let h₁ := run [.li .t1 plicClaim] h
  -- `lw t1, 0(t1)`
  let claimed := h₁.setReg .t1 (d.claim.signExtend 64)
  let h₂ := run [.la .t3 (im.place .claimed), .sd .t1 0 .t3, .li .t1 uartRbr] claimed
  -- `lbu t1, 0(t1)`
  let received := h₂.setReg .t1 (d.byte.setWidth 64)
  let h₃ := run [.li .t1 plicClaim, .li .t3 10] received
  -- `sw t3, 0(t1)` completes the claim
  (run (raise im .extDone) h₃,
    [.lw (h₁.regs .t1), .lbu (h₂.regs .t1), .sw (h₃.regs .t1) ((h₃.regs .t3).setWidth 32)])

/-- The dispatch on `scause`. -/
def dispatch (im : Image) (d : Answers) (h : Hart) : Hart × List Bus :=
  let caused := run [.csrr .t2 .scause, .li .t1 SCAUSE_S_TIMER] h
  if caused.regs .t2 = caused.regs .t1 then (run (timerIsr im) caused, [])
  else
    let other := run [.li .t1 SCAUSE_S_EXT] caused
    if other.regs .t2 = other.regs .t1 then extIsr im d other
    else (run (bump im .unexpected) other, [])

/-- `stvv_resume` without the final `sret`. -/
def resume : List Instr :=
  [.ld .t3 (7 * 8) .t0,
   .ld .t2 (6 * 8) .t0,
   .ld .t1 (1 * 8) .t0,
   .csrrw .t0 .sscratch .t0]

/-- How a trap ends: back in the interrupted code, or in the `wfi` loop of
`stvv_overflow`. -/
inductive Outcome
  | resumed (h : Hart) (bus : List Bus)
  | parked (h : Hart)

/-- `stvv_common`; `bgeu` compares the count without sign. -/
def common (im : Image) (d : Answers) (h : Hart) : Outcome :=
  let counted := run (parkTemps ++ loadCount im) h
  -- the comparison stands before the first store to the log
  if counted.regs .t3 ≤ counted.regs .t1 then .parked counted
  else
    let served := dispatch im d (run (appendEvent im) counted)
    .resumed (run resume served.1).sret served.2

/-- The table entry at `pc`, if there is one. -/
def entryAt (im : Image) (pc : Word) : Option Nat :=
  (List.range 16).find? fun n => pc = im.vec n

/-- The handler from the table entry at the hart's pc on; `none` when there is
none. -/
def handle (im : Image) (d : Answers) (h : Hart) : Option Outcome :=
  (entryAt im h.pc).map fun n => common im d (run (stub im n) h)

/-! ## The blocks -/

section Blocks

variable (im : Image) (h : Hart)

theorem run_stub (n : Nat) :
    run (stub im n) h =
      { h with
        regs := Function.update (Function.update h.regs .t0 (h.csr .sscratch))
          .t1 (BitVec.ofNat 64 n)
        csr := Function.update h.csr .sscratch (h.regs .t0)
        mem := Function.update (Function.update (Function.update h.mem
          (addr (h.csr .sscratch) (1 * 8)) (h.regs .t1))
          (addr (h.csr .sscratch) (2 * 8)) (im.vec n))
          (addr (h.csr .sscratch) (3 * 8)) (BitVec.ofNat 64 n) } := by
  simp only [stub, run_cons, run_nil, Instr.exec, Hart.setReg, Hart.setCsr, Hart.store]
  simp only [Function.update_self, Function.update_of_ne, ne_eq, reduceCtorEq, not_false_eq_true,
    Function.update_idem]

theorem run_parkTemps :
    run parkTemps h =
      { h with
        regs := Function.update (Function.update h.regs .t2 (h.csr .scause)) .t3 (h.csr .sepc)
        mem := Function.update (Function.update (Function.update h.mem
          (addr (h.regs .t0) (6 * 8)) (h.regs .t2))
          (addr (h.regs .t0) (7 * 8)) (h.regs .t3))
          (addr (h.regs .t0) (5 * 8)) (h.csr .sepc) } := by
  simp only [parkTemps, run_cons, run_nil, Instr.exec, Hart.setReg, Hart.store]
  simp only [Function.update_self, Function.update_of_ne, ne_eq, reduceCtorEq, not_false_eq_true]

theorem loadCount_effect :
    (run (loadCount im) h).regs .t1 = h.mem (im.word .evCount 0) ∧
      (run (loadCount im) h).regs .t3 = 4 ∧
      (run (loadCount im) h).mem = h.mem := by
  refine ⟨?_, ?_, ?_⟩
  · rw [← Layout.place_eq_word]
    simp [loadCount, Instr.exec]
  · simp [loadCount, Instr.exec]
  · simp [loadCount, Instr.exec]

theorem logScause_effect :
    (run (logScause im) h).regs .t3 = h.regs .t1 <<< 3 ∧
      (run (logScause im) h).mem =
        Function.update h.mem (im.word .evScause (h.regs .t1).toNat) (h.regs .t2) := by
  constructor
  · simp [logScause, Instr.exec]
  · rw [← Layout.place_add_shift]
    simp [logScause, Instr.exec]

theorem logSaved_mem (off : Nat) (o : Obj) :
    (run (logSaved im off o) h).mem =
      Function.update h.mem (addr (im.place o + h.regs .t3) 0) (h.mem (addr (h.regs .t0) off)) := by
  simp [logSaved, Instr.exec]

theorem bump_mem (o : Obj) :
    (run (bump im o) h).mem =
      Function.update h.mem (im.word o 0) (h.mem (im.word o 0) + 1) := by
  rw [← Layout.place_eq_word]
  simp [bump, Instr.exec]

theorem raise_mem (o : Obj) :
    (run (raise im o) h).mem = Function.update h.mem (im.word o 0) 1 := by
  rw [← Layout.place_eq_word]
  simp [raise, Instr.exec]

end Blocks

/-! ## Parking the interrupted registers -/

/-- The four registers the handler works with. -/
def temps : List Reg := [.t0, .t1, .t2, .t3]

/-- The interrupted register file `v` is parked, and the stub's notes are those
of entry `n`. -/
structure Parked (im : Image) (n : Nat) (v : Reg → Word) (h : Hart) : Prop where
  base : h.regs .t0 = im.place .save
  t0 : h.csr .sscratch = v .t0
  t1 : h.mem (im.word .save 1) = v .t1
  land : h.mem (im.word .save 2) = im.vec n
  idx : h.mem (im.word .save 3) = BitVec.ofNat 64 n
  t2 : h.mem (im.word .save 6) = v .t2
  t3 : h.mem (im.word .save 7) = v .t3
  others : ∀ r, r ∉ temps → h.regs r = v r

/-- Code that uses `t1`-`t3` only and stays out of `sscratch` and `stvv_save`
leaves everything parked. -/
theorem Parked.of_keeps {im : Image} {n : Nat} {v : Reg → Word} {h h' : Hart}
    (hp : Parked im n v h) (hregs : ∀ r, r = .t0 ∨ r ∉ temps → h'.regs r = h.regs r)
    (hscratch : h'.csr .sscratch = h.csr .sscratch)
    (hmem : ∀ i < 32, h'.mem (im.word .save i) = h.mem (im.word .save i)) :
    Parked im n v h' where
  base := (hregs .t0 (.inl rfl)).trans hp.base
  t0 := hscratch.trans hp.t0
  t1 := (hmem 1 (by decide)).trans hp.t1
  land := (hmem 2 (by decide)).trans hp.land
  idx := (hmem 3 (by decide)).trans hp.idx
  t2 := (hmem 6 (by decide)).trans hp.t2
  t3 := (hmem 7 (by decide)).trans hp.t3
  others := fun r hr => (hregs r (.inr hr)).trans (hp.others r hr)

/-- The stub and the start of the common handler park the interrupted file in
`stvv_save`, and change no other object. -/
theorem stub_parkTemps_effect (im : Image) (n : Nat) (h : Hart)
    (hscratch : h.csr .sscratch = im.place .save) :
    let h' := run parkTemps (run (stub im n) h)
    Parked im n h.regs h' ∧ h'.regs .t2 = h.csr .scause ∧
      (∀ c, c ≠ .sscratch → h'.csr c = h.csr c) ∧
      ∀ o i, o ≠ .save → i < o.words → h'.mem (im.word o i) = h.mem (im.word o i) := by
  have hstub := run_stub im h n
  have hpark := run_parkTemps (run (stub im n) h)
  rw [hscratch] at hstub
  have hbase : (run (stub im n) h).regs .t0 = im.place .save := by
    rw [hstub]
    simp
  rw [hbase] at hpark
  have hmem : (run parkTemps (run (stub im n) h)).mem =
      Function.update (Function.update (Function.update (Function.update (Function.update
        (Function.update h.mem
          (im.word .save 1) (h.regs .t1))
          (im.word .save 2) (im.vec n))
          (im.word .save 3) (BitVec.ofNat 64 n))
          (im.word .save 6) (h.regs .t2))
          (im.word .save 7) (h.regs .t3))
          (im.word .save 5) (h.csr .sepc) := by
    rw [hpark, hstub]
    rfl
  have hcsr : (run parkTemps (run (stub im n) h)).csr =
      Function.update h.csr .sscratch (h.regs .t0) := by
    rw [hpark, hstub]
  refine ⟨⟨?_, ?_, ?_, ?_, ?_, ?_, ?_, fun r hr => ?_⟩, ?_, fun c hc => ?_, fun o i ho hi => ?_⟩
  · rw [hpark]
    simpa using hbase
  · rw [hcsr]
    simp
  -- the six stores to `stvv_save` hit six different words
  · rw [hmem]
    simp (disch := decide) [Layout.update_word]
  · rw [hmem]
    simp (disch := decide) [Layout.update_word]
  · rw [hmem]
    simp (disch := decide) [Layout.update_word]
  · rw [hmem]
    simp (disch := decide) [Layout.update_word]
  · rw [hmem]
    simp (disch := decide) [Layout.update_word]
  · simp only [temps, List.mem_cons, not_or] at hr
    rw [hpark, hstub]
    simp [hr]
  · rw [hpark, hstub]
    simp
  · rw [hcsr]
    simp [hc]
  · rw [hmem]
    simp (disch := first | exact hi | decide) [Layout.update_word, ho]

/-- What code that works with `t1`-`t3` and `stimecmp` keeps. -/
structure Keeps (h h' : Hart) : Prop where
  regs : ∀ r, r = .t0 ∨ r ∉ temps → h'.regs r = h.regs r
  csr : ∀ c, c ≠ .stimecmp → h'.csr c = h.csr c

theorem Keeps.trans {h h' h'' : Hart} (hfirst : Keeps h h') (hsecond : Keeps h' h'') :
    Keeps h h'' :=
  ⟨fun r hr => (hsecond.regs r hr).trans (hfirst.regs r hr),
    fun c hc => (hsecond.csr c hc).trans (hfirst.csr c hc)⟩

/-- The instruction writes none of the kept registers. -/
def scratchOnly (i : Instr) : Bool :=
  i.dst ∈ [none, some Reg.t1, some Reg.t2, some Reg.t3] && i.csrDst ∈ [none, some Csr.stimecmp]

theorem keeps_run {is : List Instr} (his : is.all scratchOnly = true) (h : Hart) :
    Keeps h (run is h) := by
  have hall : ∀ i ∈ is, scratchOnly i = true := List.all_eq_true.mp his
  constructor
  · intro r hr
    apply run_keeps_reg
    intro i hi hdst
    have hscratch := hall i hi
    rw [scratchOnly, hdst] at hscratch
    cases r <;> simp_all [temps]
  · intro c hc
    apply run_keeps_csr
    intro i hi hdst
    have hscratch := hall i hi
    rw [scratchOnly, hdst] at hscratch
    simp_all

theorem keeps_setReg {r : Reg} (hr : r = .t1 ∨ r = .t2 ∨ r = .t3) (h : Hart) (v : Word) :
    Keeps h (h.setReg r v) := by
  constructor
  · intro q hq
    apply Function.update_of_ne
    rintro rfl
    rcases hr with rfl | rfl | rfl <;> exact absurd hq (by decide)
  · intro c _
    rfl

/-! ## The log -/

/-- The log after the event: cause, landing address and index at the count, and
the count one higher. -/
theorem appendEvent_mem (im : Image) (h : Hart) (hbase : h.regs .t0 = im.place .save)
    (hroom : (h.regs .t1).toNat < 4) :
    let c := (h.regs .t1).toNat
    (run (appendEvent im) h).mem =
      Function.update (Function.update (Function.update (Function.update h.mem
        (im.word .evScause c) (h.regs .t2))
        (im.word .evLand c) (h.mem (im.word .save 2)))
        (im.word .evIdx c) (h.mem (im.word .save 3)))
        (im.word .evCount 0) (h.mem (im.word .evCount 0) + 1) := by
  obtain ⟨hoff, hmem₁⟩ := logScause_effect im h
  have hkeep₁ : Keeps h (run (logScause im) h) := keeps_run rfl h
  rw [appendEvent, run_append, run_append, run_append]
  generalize run (logScause im) h = h₁ at hoff hmem₁ hkeep₁
  -- the byte offset stays in `t3` for the two other arrays
  have hbase₁ : h₁.regs .t0 = im.place .save := (hkeep₁.regs .t0 (.inl rfl)).trans hbase
  have hmem₂ := logSaved_mem im h₁ (2 * 8) .evLand
  have hkeep₂ : Keeps h₁ (run (logSaved im (2 * 8) .evLand) h₁) := keeps_run rfl h₁
  have hoff₂ : (run (logSaved im (2 * 8) .evLand) h₁).regs .t3 = h₁.regs .t3 :=
    run_keeps_reg (by simp [logSaved, Instr.dst]) h₁
  rw [hbase₁, hoff, Layout.place_add_shift] at hmem₂
  rw [hoff] at hoff₂
  generalize run (logSaved im (2 * 8) .evLand) h₁ = h₂ at hmem₂ hkeep₂ hoff₂
  have hbase₂ : h₂.regs .t0 = im.place .save := (hkeep₂.regs .t0 (.inl rfl)).trans hbase₁
  have hmem₃ := logSaved_mem im h₂ (3 * 8) .evIdx
  rw [hbase₂, hoff₂, Layout.place_add_shift] at hmem₃
  -- none of the stores is seen when the stub's notes and the count are read
  have hnotes : ∀ i, i < 32 → ∀ o, o ≠ .save → (h.regs .t1).toNat < o.words →
      ∀ (m : Mem) (v : Word), Function.update m (im.word o (h.regs .t1).toNat) v (addr (im.place .save) (i * 8)) =
        m (im.word .save i) :=
    fun i hi o ho hc m v => im.update_word_of_ne m v ho.symm hc hi
  have hcount : ∀ o, o ≠ .evCount → (h.regs .t1).toNat < o.words → ∀ (m : Mem) (v : Word),
      Function.update m (im.word o (h.regs .t1).toNat) v (im.word .evCount 0) =
        m (im.word .evCount 0) :=
    fun o ho hc m v => im.update_word_of_ne m v ho.symm hc (by decide)
  rw [bump_mem, hmem₃, hmem₂, hmem₁, hcount .evIdx (by decide) hroom,
    hcount .evLand (by decide) hroom, hcount .evScause (by decide) hroom,
    hnotes 3 (by decide) .evLand (by decide) hroom,
    hnotes 2 (by decide) .evScause (by decide) hroom]
  congr 2
  exact hnotes 3 (by decide) .evScause (by decide) hroom h.mem _

/-! ## The dispatch and the exit -/

/-- The objects that the service routines write. -/
def Obj.served : Obj → Bool
  | .unexpected | .timerDone | .extDone | .claimed => true
  | .save | .evCount | .evScause | .evLand | .evIdx => false

/-- A store to word 0 of a served object is not seen in `stvv_save` or the
log. -/
theorem update_served (im : Image) (m : Mem) (v : Word) {o o' : Obj} {j : Nat}
    (ho : o.served = true) (ho' : o'.served = false) (hj : j < o'.words) :
    Function.update m (im.word o 0) v (im.word o' j) = m (im.word o' j) := by
  have hne : o' ≠ o := by
    rintro rfl
    rw [ho] at ho'
    exact absurd ho' (by decide)
  exact im.update_word_of_ne m v hne (by revert ho; cases o <;> decide) hj

/-- The external interrupt: two stores to served objects, between accesses to
the PLIC and the UART. -/
theorem extIsr_effect (im : Image) (d : Answers) (h : Hart) :
    Keeps h (extIsr im d h).1 ∧
      (∀ o i, o.served = false → i < o.words →
        (extIsr im d h).1.mem (im.word o i) = h.mem (im.word o i)) ∧
      (extIsr im d h).2 = [.lw plicClaim, .lbu uartRbr, .sw plicClaim 10] := by
  let h₁ := run [.li .t1 plicClaim] h
  let claimed := h₁.setReg .t1 (d.claim.signExtend 64)
  let h₂ := run [.la .t3 (im.place .claimed), .sd .t1 0 .t3, .li .t1 uartRbr] claimed
  let received := h₂.setReg .t1 (d.byte.setWidth 64)
  let h₃ := run [.li .t1 plicClaim, .li .t3 10] received
  refine ⟨?_, fun o i ho hi => ?_, by simp [extIsr, Instr.exec]⟩
  · have hclaim : Keeps h claimed := (keeps_run rfl h).trans (keeps_setReg (.inl rfl) h₁ _)
    have hreceive : Keeps claimed received :=
      (keeps_run rfl claimed).trans (keeps_setReg (.inl rfl) h₂ _)
    have hfinish : Keeps received (extIsr im d h).1 := (keeps_run rfl received).trans
      (keeps_run rfl h₃)
    exact hclaim.trans (hreceive.trans hfinish)
  · have hmem : h₃.mem = Function.update h.mem (im.word .claimed 0) (claimed.regs .t1) := by
      rw [← Layout.place_eq_word]
      simp [h₃, received, h₂, claimed, h₁, Instr.exec]
    have hlast : (extIsr im d h).1 = run (raise im .extDone) h₃ := rfl
    rw [hlast, raise_mem, update_served im _ _ rfl ho hi, hmem, update_served im _ _ rfl ho hi]

/-- Whatever the cause, the dispatch keeps the parked registers and the log. -/
theorem dispatch_effect (im : Image) (d : Answers) (h : Hart) :
    Keeps h (dispatch im d h).1 ∧
      ∀ o i, o.served = false → i < o.words →
        (dispatch im d h).1.mem (im.word o i) = h.mem (im.word o i) := by
  let caused := run [.csrr .t2 .scause, .li .t1 SCAUSE_S_TIMER] h
  let other := run [.li .t1 SCAUSE_S_EXT] caused
  have hcaused : Keeps h caused := keeps_run rfl h
  have hother : Keeps h other := hcaused.trans (keeps_run rfl caused)
  -- one case for each `beq`; the objects that are written differ, their kind
  -- does not
  by_cases htimer : caused.regs .t2 = caused.regs .t1
  · have hpath : dispatch im d h = (run (timerIsr im) caused, []) := if_pos htimer
    rw [hpath]
    refine ⟨hcaused.trans (keeps_run rfl caused), fun o i ho hi => ?_⟩
    rw [timerIsr, run_append, raise_mem, update_served im _ _ rfl ho hi]
    rfl
  by_cases hext : other.regs .t2 = other.regs .t1
  · have hpath : dispatch im d h = extIsr im d other := (if_neg htimer).trans (if_pos hext)
    obtain ⟨hkeeps, hmem, -⟩ := extIsr_effect im d other
    rw [hpath]
    exact ⟨hother.trans hkeeps, hmem⟩
  · have hpath : dispatch im d h = (run (bump im .unexpected) other, []) :=
      (if_neg htimer).trans (if_neg hext)
    rw [hpath]
    refine ⟨hother.trans (keeps_run rfl other), fun o i ho hi => ?_⟩
    rw [bump_mem, update_served im _ _ rfl ho hi]
    rfl

/-- The exit puts the parked file back. -/
theorem resume_effect (im : Image) (n : Nat) (v : Reg → Word) (h : Hart)
    (hp : Parked im n v h) :
    (run resume h).regs = v ∧ (run resume h).csr .sscratch = im.place .save ∧
      (run resume h).csr .sepc = h.csr .sepc ∧ (run resume h).mem = h.mem := by
  have ht1 : h.mem (addr (h.regs .t0) (1 * 8)) = v .t1 := by rw [hp.base]; exact hp.t1
  have ht2 : h.mem (addr (h.regs .t0) (6 * 8)) = v .t2 := by rw [hp.base]; exact hp.t2
  have ht3 : h.mem (addr (h.regs .t0) (7 * 8)) = v .t3 := by rw [hp.base]; exact hp.t3
  have hrun : run resume h =
      { h with
        regs := Function.update (Function.update (Function.update (Function.update h.regs
          .t3 (v .t3)) .t2 (v .t2)) .t1 (v .t1)) .t0 (v .t0)
        csr := Function.update h.csr .sscratch (im.place .save) } := by
    rw [← ht1, ← ht2, ← ht3, ← hp.t0, ← hp.base]
    simp [resume, Instr.exec, Hart.setReg, Hart.setCsr]
  rw [hrun]
  refine ⟨?_, by simp, by simp, rfl⟩
  dsimp only
  funext r
  by_cases hr : r ∈ temps
  · simp only [temps, List.mem_cons, List.not_mem_nil, or_false] at hr
    rcases hr with rfl | rfl | rfl | rfl <;> simp
  · have hr' := hr
    simp only [temps, List.mem_cons, not_or] at hr'
    simp [hr', hp.others r hr]

/-! ## One trap -/

/-- The interrupted code goes on at `sepc` with all its registers, and the
table is ready for the next trap. -/
structure Resumed (im : Image) (h h' : Hart) : Prop where
  regs : h'.regs = h.regs
  pc : h'.pc = h.csr .sepc
  sscratch : h'.csr .sscratch = im.place .save

/-- The arrays of the event log. -/
def eventArrays : List Obj := [.evScause, .evLand, .evIdx]

/-- Between `m` and `m'` the event `(cause, vec n, n)` has been logged at index
`c`, and nothing else in the arrays has changed. -/
structure Logged (im : Image) (c n : Nat) (cause : Word) (m m' : Mem) : Prop where
  scause : m' (im.word .evScause c) = cause
  land : m' (im.word .evLand c) = im.vec n
  idx : m' (im.word .evIdx c) = BitVec.ofNat 64 n
  count : m' (im.word .evCount 0) = BitVec.ofNat 64 (c + 1)
  others : ∀ o ∈ eventArrays, ∀ i < 4, i ≠ c → m' (im.word o i) = m (im.word o i)

/-- The handler up to the comparison with the bound of the log. -/
theorem counted_effect (im : Image) (n : Nat) (h : Hart)
    (hscratch : h.csr .sscratch = im.place .save) :
    let counted := run (parkTemps ++ loadCount im) (run (stub im n) h)
    Parked im n h.regs counted ∧
      counted.regs .t1 = h.mem (im.word .evCount 0) ∧
      counted.regs .t2 = h.csr .scause ∧
      counted.regs .t3 = 4 ∧
      (∀ c, c ≠ .sscratch → c ≠ .stimecmp → counted.csr c = h.csr c) ∧
      ∀ o i, o ≠ .save → i < o.words → counted.mem (im.word o i) = h.mem (im.word o i) := by
  obtain ⟨hparked, hcause, hcsr, hmem⟩ := stub_parkTemps_effect im n h hscratch
  rw [run_append]
  generalize run parkTemps (run (stub im n) h) = parked at hparked hcause hcsr hmem
  obtain ⟨hcount, hbound, hmem'⟩ := loadCount_effect im parked
  have hkeeps : Keeps parked (run (loadCount im) parked) := keeps_run rfl parked
  have ht2 : (run (loadCount im) parked).regs .t2 = parked.regs .t2 :=
    run_keeps_reg (by simp [loadCount, Instr.dst]) parked
  refine ⟨?_, ?_, ht2.trans hcause, hbound, fun c hc htime => ?_, fun o i ho hi => ?_⟩
  · apply hparked.of_keeps hkeeps.regs (hkeeps.csr .sscratch (by decide))
    intro i _
    rw [hmem']
  · rw [hcount, hmem .evCount 0 (by decide) (by decide)]
  · rw [hkeeps.csr c htime, hcsr c hc]
  · rw [hmem', hmem o i ho hi]

/-- Memory `m` after the four stores of the log. -/
def appended (im : Image) (c n : Nat) (cause count : Word) (m : Mem) : Mem :=
  Function.update (Function.update (Function.update (Function.update m
    (im.word .evScause c) cause)
    (im.word .evLand c) (im.vec n))
    (im.word .evIdx c) (BitVec.ofNat 64 n))
    (im.word .evCount 0) count

/-- The stores of the log hit the arrays at the index, and the count. -/
theorem appended_word (im : Image) {c n : Nat} (hc : c < 4) (cause count : Word) (m : Mem)
    {o : Obj} {i : Nat} (hi : i < o.words) :
    appended im c n cause count m (im.word o i) =
      if o = .evCount then count
      else if o = .evIdx ∧ i = c then BitVec.ofNat 64 n
      else if o = .evLand ∧ i = c then im.vec n
      else if o = .evScause ∧ i = c then cause
      else m (im.word o i) := by
  have hzero : o = .evCount → i = 0 := by
    rintro rfl
    exact Nat.lt_one_iff.mp hi
  have hiff : (o = .evCount ∧ i = 0) ↔ o = .evCount :=
    ⟨fun h => h.1, fun h => ⟨h, hzero h⟩⟩
  rw [appended, im.update_word _ _ (by decide) hi, im.update_word _ _ hc hi,
    im.update_word _ _ hc hi, im.update_word _ _ hc hi]
  simp only [hiff]

/-- Memory that agrees with the stores of the log outside the served objects
has the event logged. -/
theorem logged_of_appended (im : Image) {c n : Nat} (hc : c < 4) (cause : Word) {m m₀ m' : Mem}
    (hstart : ∀ o i, o ≠ .save → i < o.words → m₀ (im.word o i) = m (im.word o i))
    (hfinal : ∀ o i, o.served = false → i < o.words →
      m' (im.word o i) = appended im c n cause (BitVec.ofNat 64 (c + 1)) m₀ (im.word o i)) :
    Logged im c n cause m m' where
  scause := by
    rw [hfinal .evScause c rfl hc, appended_word im hc _ _ _ hc]
    simp
  land := by
    rw [hfinal .evLand c rfl hc, appended_word im hc _ _ _ hc]
    simp
  idx := by
    rw [hfinal .evIdx c rfl hc, appended_word im hc _ _ _ hc]
    simp
  count := by
    rw [hfinal .evCount 0 rfl (by decide), appended_word im hc _ _ _ (by decide), if_pos rfl]
  others := by
    intro o ho i hi hne
    simp only [eventArrays, List.mem_cons, List.not_mem_nil, or_false] at ho
    rcases ho with rfl | rfl | rfl
    · rw [hfinal .evScause i rfl hi, appended_word im hc _ _ _ hi]
      simpa [hne] using hstart .evScause i (by decide) hi
    · rw [hfinal .evLand i rfl hi, appended_word im hc _ _ _ hi]
      simpa [hne] using hstart .evLand i (by decide) hi
    · rw [hfinal .evIdx i rfl hi, appended_word im hc _ _ _ hi]
      simpa [hne] using hstart .evIdx i (by decide) hi

/-- At `stvv_vec<n>` the handler is stub `n` and the common part. -/
theorem handle_eq (im : Image) (d : Answers) {n : Nat} (hn : n < 16) (h : Hart)
    (hpc : h.pc = im.vec n) : handle im d h = some (common im d (run (stub im n) h)) := by
  have hentry : entryAt im h.pc = some n := by
    rw [hpc]
    exact find?_entry im.table hn (by decide)
  rw [handle, hentry, Option.map_some]

/-- A trap that finds room in the log. -/
theorem handle_room (im : Image) (d : Answers) {n : Nat} (hn : n < 16) (h : Hart)
    (hpc : h.pc = im.vec n) (hscratch : h.csr .sscratch = im.place .save)
    (hroom : (h.mem (im.word .evCount 0)).toNat < 4) :
    ∃ h' bus, handle im d h = some (.resumed h' bus) ∧ Resumed im h h' ∧
      Logged im (h.mem (im.word .evCount 0)).toNat n (h.csr .scause) h.mem h'.mem ∧
      h'.csr .stvec = h.csr .stvec := by
  obtain ⟨hparked, ht1, ht2, ht3, hcsr, hmem⟩ := counted_effect im n h hscratch
  rw [handle_eq im d hn h hpc, common]
  generalize run (parkTemps ++ loadCount im) (run (stub im n) h) = counted at *
  have hless : ¬ counted.regs .t3 ≤ counted.regs .t1 := by
    rw [ht1, ht3, BitVec.le_def, not_le]
    exact hroom
  have hroom' : (counted.regs .t1).toNat < 4 := by rw [ht1]; exact hroom
  have happend := appendEvent_mem im counted hparked.base hroom'
  have hkeeps : Keeps counted (run (appendEvent im) counted) := keeps_run rfl counted
  rw [hparked.land, hparked.idx, ht1, ht2, hmem .evCount 0 (by decide) (by decide)] at happend
  dsimp only
  rw [if_neg hless]
  generalize run (appendEvent im) counted = logged at *
  have hnext : h.mem (im.word .evCount 0) + 1 =
      BitVec.ofNat 64 ((h.mem (im.word .evCount 0)).toNat + 1) := by
    rw [BitVec.ofNat_add, BitVec.ofNat_toNat, BitVec.setWidth_eq]
    rfl
  rw [hnext] at happend
  generalize (h.mem (im.word .evCount 0)).toNat = c at *
  obtain ⟨hserved, hservedMem⟩ := dispatch_effect im d logged
  generalize dispatch im d logged = out at *
  -- the log does not overlap `stvv_save`
  have hsave : ∀ i < 32, logged.mem (im.word .save i) = counted.mem (im.word .save i) := by
    intro i hi
    exact (congrFun happend _).trans (appended_word im hroom _ _ _ hi)
  have hparked' : Parked im n h.regs out.1 := by
    apply (hparked.of_keeps hkeeps.regs (hkeeps.csr .sscratch (by decide)) hsave).of_keeps
      hserved.regs (hserved.csr .sscratch (by decide))
    intro i hi
    exact hservedMem .save i rfl hi
  obtain ⟨hregs, hscratch', hepc, hfinal⟩ := resume_effect im n h.regs out.1 hparked'
  have hkept : ∀ c, c ≠ .sscratch → c ≠ .stimecmp → out.1.csr c = h.csr c := by
    intro c hc htime
    rw [hserved.csr c htime, hkeeps.csr c htime, hcsr c hc htime]
  refine ⟨_, _, rfl, ⟨hregs, hepc.trans (hkept .sepc (by decide) (by decide)), ?_⟩, ?_, ?_⟩
  · rw [Hart.sret_csr_of_ne _ (by decide), hscratch']
  · apply logged_of_appended im hroom _ hmem
    intro o i ho hi
    rw [Hart.sret_mem, hfinal, hservedMem o i ho hi, happend]
    rfl
  · rw [Hart.sret_csr_of_ne _ (by decide), run_keeps_csr (by decide),
      hkept .stvec (by decide) (by decide)]

/-- A trap that finds the log full. -/
theorem handle_full (im : Image) (d : Answers) {n : Nat} (hn : n < 16) (h : Hart)
    (hpc : h.pc = im.vec n) (hscratch : h.csr .sscratch = im.place .save)
    (hfull : 4 ≤ (h.mem (im.word .evCount 0)).toNat) :
    ∃ h', handle im d h = some (.parked h') ∧
      ∀ o i, o ≠ .save → i < o.words → h'.mem (im.word o i) = h.mem (im.word o i) := by
  obtain ⟨-, ht1, -, ht3, -, hmem⟩ := counted_effect im n h hscratch
  rw [handle_eq im d hn h hpc, common]
  generalize run (parkTemps ++ loadCount im) (run (stub im n) h) = counted at *
  have hle : counted.regs .t3 ≤ counted.regs .t1 := by
    rw [ht1, ht3, BitVec.le_def]
    exact hfull
  exact ⟨counted, congrArg some (if_pos hle), hmem⟩

/-- A trap entered at `stvv_vec<n>`: with room in the log the interrupted code
resumes and the event is logged at the count; with a full log the hart parks
and the arrays stay as they are. -/
theorem trap_logged (im : Image) (d : Answers) {n : Nat} (hn : n < 16) (h : Hart)
    (hpc : h.pc = im.vec n) (hscratch : h.csr .sscratch = im.place .save) :
    let c := (h.mem (im.word .evCount 0)).toNat
    (c < 4 → ∃ h' bus, handle im d h = some (.resumed h' bus) ∧ Resumed im h h' ∧
      Logged im c n (h.csr .scause) h.mem h'.mem) ∧
    (4 ≤ c → ∃ h', handle im d h = some (.parked h') ∧
      ∀ o ∈ eventArrays, ∀ i < 4, h'.mem (im.word o i) = h.mem (im.word o i)) := by
  constructor
  · intro hroom
    obtain ⟨h', bus, hrun, hresumed, hlogged, -⟩ := handle_room im d hn h hpc hscratch hroom
    exact ⟨h', bus, hrun, hresumed, hlogged⟩
  · intro hfull
    obtain ⟨h', hparked, hmem⟩ := handle_full im d hn h hpc hscratch hfull
    refine ⟨h', hparked, fun o ho i hi => ?_⟩
    have hobj : o ≠ .save ∧ o.words = 4 := by
      revert o
      decide
    exact hmem o i hobj.1 (by rw [hobj.2]; exact hi)

/-- A linked image of the module. -/
def sampleImage : Image where
  place
    | .save => 0x80002000
    | .evCount => 0x80002100
    | .evScause => 0x80002108
    | .evLand => 0x80002128
    | .evIdx => 0x80002148
    | .unexpected => 0x80002168
    | .timerDone => 0x80002170
    | .extDone => 0x80002178
    | .claimed => 0x80002180
  words_le := by decide
  disjoint := by decide +kernel
  table := 0x80000400
  table_aligned := by decide

/-- A hart that has just taken the supervisor timer interrupt through entry 5,
with the given number of events in the log. -/
def sampleHart (count : Word) : Hart where
  regs := fun _ => 7
  csr := Function.update (Function.update (Function.update (fun _ => 0)
    .sscratch (sampleImage.place .save)) .scause SCAUSE_S_TIMER) .sepc 0x80000900
  mem := fun a => if a = sampleImage.word .evCount 0 then count else 0
  time := 0
  cycle := 0
  pc := sampleImage.vec 5
  priv := .supervisor

/-- The timer interrupt is logged while there is room, and parks the hart when
there is none. -/
theorem timer_logged_or_parked :
    (∃ h' bus, handle sampleImage ⟨10, 0⟩ (sampleHart 1) = some (.resumed h' bus) ∧
      Resumed sampleImage (sampleHart 1) h' ∧
      Logged sampleImage 1 5 SCAUSE_S_TIMER (sampleHart 1).mem h'.mem) ∧
    ∃ h', handle sampleImage ⟨10, 0⟩ (sampleHart 4) = some (.parked h') ∧
      ∀ o ∈ eventArrays, ∀ i < 4,
        h'.mem (sampleImage.word o i) = (sampleHart 4).mem (sampleImage.word o i) :=
  ⟨(trap_logged sampleImage ⟨10, 0⟩ (by decide) (sampleHart 1) rfl rfl).1 (by decide),
    (trap_logged sampleImage ⟨10, 0⟩ (by decide) (sampleHart 4) rfl rfl).2 (by decide)⟩

end StvecVectored
end BareMetal
