import Mathlib.Data.BitVec
import Mathlib.Logic.Function.Basic
import Mathlib.Tactic

/-!
# A hart as the trap assembly sees it

The state and the straight-line instructions used by RV64 trap entry and exit
code.  The register file ranges over the 31 writable registers, so that "all
of `x1`-`x31`" is equality of two functions; `x0` is never an operand of the
fragments executed here.

Memory is a map from byte addresses to naturally aligned doublewords: every
load and store of the fragments is an aligned `ld` or `sd`.  The two free
running counters are fields of the state and are advanced by whoever embeds a
fragment in a larger run; a fragment reads each of them at most once between
two such points.
-/

namespace BareMetal
namespace Machine

/-- A 64-bit machine word. -/
abbrev Word := BitVec 64

/-- Doubleword memory, indexed by byte address. -/
abbrev Mem := Word → Word

/-- The writable integer registers `x1`-`x31` under their ABI names. -/
inductive Reg
  | ra | sp | gp | tp | t0 | t1 | t2 | s0 | s1
  | a0 | a1 | a2 | a3 | a4 | a5 | a6 | a7
  | s2 | s3 | s4 | s5 | s6 | s7 | s8 | s9 | s10 | s11
  | t3 | t4 | t5 | t6
  deriving DecidableEq, Repr

/-- The register number: `r.num = k` for `xk`. -/
def Reg.num : Reg → Nat
  | .ra => 1 | .sp => 2 | .gp => 3 | .tp => 4 | .t0 => 5 | .t1 => 6 | .t2 => 7
  | .s0 => 8 | .s1 => 9
  | .a0 => 10 | .a1 => 11 | .a2 => 12 | .a3 => 13 | .a4 => 14 | .a5 => 15
  | .a6 => 16 | .a7 => 17
  | .s2 => 18 | .s3 => 19 | .s4 => 20 | .s5 => 21 | .s6 => 22 | .s7 => 23
  | .s8 => 24 | .s9 => 25 | .s10 => 26 | .s11 => 27
  | .t3 => 28 | .t4 => 29 | .t5 => 30 | .t6 => 31

instance : Fintype Reg :=
  Fintype.ofList
    [.ra, .sp, .gp, .tp, .t0, .t1, .t2, .s0, .s1, .a0, .a1, .a2, .a3, .a4, .a5, .a6, .a7,
     .s2, .s3, .s4, .s5, .s6, .s7, .s8, .s9, .s10, .s11, .t3, .t4, .t5, .t6]
    fun r => by cases r <;> simp

theorem Reg.num_injective : Function.Injective Reg.num := by
  decide +kernel

theorem Reg.num_pos (r : Reg) : 0 < r.num := by
  cases r <;> decide

theorem Reg.num_lt (r : Reg) : r.num < 32 := by
  cases r <;> decide

/-- The registers a C callee hands back unchanged.  `gp` and `tp` are fixed
for the whole program by the ABI and are counted here. -/
def Reg.calleeSaved : Reg → Bool
  | .sp | .gp | .tp | .s0 | .s1 | .s2 | .s3 | .s4 | .s5 | .s6 | .s7 | .s8
  | .s9 | .s10 | .s11 => true
  | _ => false

/-- The control and status registers the fragments touch. -/
inductive Csr
  | mstatus | mtvec | mscratch | mepc | mcause | mtval | mie | mip | mideleg | medeleg
  | menvcfg | mcounteren
  | stvec | sscratch | sepc | scause | sip | stimecmp
  deriving DecidableEq, Repr

/-- Privilege modes. -/
inductive Priv
  | user | supervisor | machine
  deriving DecidableEq, Repr

/-- The architectural state of one hart together with its memory. -/
structure Hart where
  regs : Reg → Word
  csr : Csr → Word
  mem : Mem
  time : Word
  cycle : Word
  pc : Word
  priv : Priv

namespace Hart

/-- Write one register. -/
def setReg (h : Hart) (r : Reg) (v : Word) : Hart :=
  { h with regs := Function.update h.regs r v }

/-- Write one control and status register. -/
def setCsr (h : Hart) (c : Csr) (v : Word) : Hart :=
  { h with csr := Function.update h.csr c v }

/-- Store one doubleword. -/
def store (h : Hart) (a v : Word) : Hart :=
  { h with mem := Function.update h.mem a v }

/-- Let both counters move to the given readings. -/
def stamp (h : Hart) (time cycle : Word) : Hart :=
  { h with time := time, cycle := cycle }

section Projections

variable (h : Hart) (r : Reg) (c : Csr) (a v t k : Word)

@[simp] theorem setReg_regs : (h.setReg r v).regs = Function.update h.regs r v := rfl
@[simp] theorem setReg_csr : (h.setReg r v).csr = h.csr := rfl
@[simp] theorem setReg_mem : (h.setReg r v).mem = h.mem := rfl
@[simp] theorem setReg_time : (h.setReg r v).time = h.time := rfl
@[simp] theorem setReg_cycle : (h.setReg r v).cycle = h.cycle := rfl
@[simp] theorem setReg_priv : (h.setReg r v).priv = h.priv := rfl
@[simp] theorem setReg_pc : (h.setReg r v).pc = h.pc := rfl

@[simp] theorem setCsr_regs : (h.setCsr c v).regs = h.regs := rfl
@[simp] theorem setCsr_csr : (h.setCsr c v).csr = Function.update h.csr c v := rfl
@[simp] theorem setCsr_mem : (h.setCsr c v).mem = h.mem := rfl
@[simp] theorem setCsr_time : (h.setCsr c v).time = h.time := rfl
@[simp] theorem setCsr_cycle : (h.setCsr c v).cycle = h.cycle := rfl
@[simp] theorem setCsr_priv : (h.setCsr c v).priv = h.priv := rfl
@[simp] theorem setCsr_pc : (h.setCsr c v).pc = h.pc := rfl

@[simp] theorem store_regs : (h.store a v).regs = h.regs := rfl
@[simp] theorem store_csr : (h.store a v).csr = h.csr := rfl
@[simp] theorem store_mem : (h.store a v).mem = Function.update h.mem a v := rfl
@[simp] theorem store_time : (h.store a v).time = h.time := rfl
@[simp] theorem store_cycle : (h.store a v).cycle = h.cycle := rfl
@[simp] theorem store_priv : (h.store a v).priv = h.priv := rfl
@[simp] theorem store_pc : (h.store a v).pc = h.pc := rfl

@[simp] theorem stamp_regs : (h.stamp t k).regs = h.regs := rfl
@[simp] theorem stamp_csr : (h.stamp t k).csr = h.csr := rfl
@[simp] theorem stamp_mem : (h.stamp t k).mem = h.mem := rfl
@[simp] theorem stamp_time : (h.stamp t k).time = t := rfl
@[simp] theorem stamp_cycle : (h.stamp t k).cycle = k := rfl
@[simp] theorem stamp_priv : (h.stamp t k).priv = h.priv := rfl
@[simp] theorem stamp_pc : (h.stamp t k).pc = h.pc := rfl

end Projections

end Hart

/-- The straight-line instructions of the trap fragments.  Byte offsets are
the literal offsets of the assembly. -/
inductive Instr
  | sd (src : Reg) (off : Nat) (base : Reg)
  | ld (dst : Reg) (off : Nat) (base : Reg)
  | mv (dst src : Reg)
  | li (dst : Reg) (imm : Word)
  | la (dst : Reg) (sym : Word)
  | addi (dst src : Reg) (imm : Word)
  | add (dst src src' : Reg)
  | slli (dst src : Reg) (sh : Nat)
  | srli (dst src : Reg) (sh : Nat)
  | csrr (dst : Reg) (c : Csr)
  | csrw (c : Csr) (src : Reg)
  | csrs (c : Csr) (src : Reg)
  | csrc (c : Csr) (src : Reg)
  | csrrw (dst : Reg) (c : Csr) (src : Reg)
  | rdtime (dst : Reg)
  | rdcycle (dst : Reg)
  deriving Repr

/-- The byte address `off(base)`. -/
def addr (base : Word) (off : Nat) : Word :=
  base + BitVec.ofNat 64 off

/-- Execute one instruction. -/
def Instr.exec : Instr → Hart → Hart
  | .sd src off base, h => h.store (addr (h.regs base) off) (h.regs src)
  | .ld dst off base, h => h.setReg dst (h.mem (addr (h.regs base) off))
  | .mv dst src, h => h.setReg dst (h.regs src)
  | .li dst imm, h => h.setReg dst imm
  | .la dst sym, h => h.setReg dst sym
  | .addi dst src imm, h => h.setReg dst (h.regs src + imm)
  | .add dst src src', h => h.setReg dst (h.regs src + h.regs src')
  | .slli dst src sh, h => h.setReg dst (h.regs src <<< sh)
  | .srli dst src sh, h => h.setReg dst (h.regs src >>> sh)
  | .csrr dst c, h => h.setReg dst (h.csr c)
  | .csrw c src, h => h.setCsr c (h.regs src)
  | .csrs c src, h => h.setCsr c (h.csr c ||| h.regs src)
  | .csrc c src, h => h.setCsr c (h.csr c &&& ~~~ h.regs src)
  | .csrrw dst c src, h => (h.setCsr c (h.regs src)).setReg dst (h.csr c)
  | .rdtime dst, h => h.setReg dst h.time
  | .rdcycle dst, h => h.setReg dst h.cycle

/-- Execute a straight-line fragment. -/
def run : List Instr → Hart → Hart
  | [], h => h
  | i :: is, h => run is (i.exec h)

@[simp] theorem run_nil (h : Hart) : run [] h = h := rfl

@[simp] theorem run_cons (i : Instr) (is : List Instr) (h : Hart) :
    run (i :: is) h = run is (i.exec h) := rfl

theorem run_append (is js : List Instr) (h : Hart) :
    run (is ++ js) h = run js (run is h) := by
  induction is generalizing h with
  | nil => rfl
  | cons i is ih => exact ih (i.exec h)

section Untouched

variable (is : List Instr) (h : Hart)

/-- Straight-line code moves neither the counters nor the privilege mode. -/
@[simp] theorem run_time : (run is h).time = h.time := by
  induction is generalizing h with
  | nil => rfl
  | cons i is ih =>
      rw [run_cons, ih]
      cases i <;> rfl

@[simp] theorem run_priv : (run is h).priv = h.priv := by
  induction is generalizing h with
  | nil => rfl
  | cons i is ih =>
      rw [run_cons, ih]
      cases i <;> rfl

end Untouched

/-- Two offsets below the address-space size name the same doubleword of a
base exactly when they are equal. -/
theorem addr_inj {base : Word} {i j : Nat} (hi : i < 2 ^ 64) (hj : j < 2 ^ 64) :
    addr base i = addr base j ↔ i = j := by
  constructor
  · intro h
    have hoff : BitVec.ofNat 64 i = BitVec.ofNat 64 j := by
      unfold addr at h
      exact add_left_cancel h
    have hnat := congrArg BitVec.toNat hoff
    simp only [BitVec.toNat_ofNat] at hnat
    rwa [Nat.mod_eq_of_lt hi, Nat.mod_eq_of_lt hj] at hnat
  · rintro rfl
    rfl

/-- Reading a slot of the base that was just stored to: the stored value at
the same offset, the old contents at any other. -/
theorem update_addr (m : Mem) (base v : Word) {i j : Nat}
    (hi : i < 2 ^ 64) (hj : j < 2 ^ 64) :
    Function.update m (addr base i) v (addr base j) =
      if j = i then v else m (addr base j) := by
  by_cases h : j = i
  · subst h
    simp
  · have hne : addr base j ≠ addr base i := fun heq => h ((addr_inj hj hi).mp heq)
    rw [Function.update_of_ne hne, if_neg h]

theorem addr_zero (base : Word) : addr base 0 = base := by
  simp [addr]

theorem addr_addr (base : Word) (i j : Nat) : addr (addr base i) j = addr base (i + j) := by
  simp only [addr, BitVec.ofNat_add]
  rw [BitVec.add_assoc]

end Machine
end BareMetal
