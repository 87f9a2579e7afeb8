import BareMetal.Machine.Blocks
import BareMetal.Machine.Privilege

/-!
# Frames of trap handlers that call C

A trap handler that calls a C function has to save, for the code it
interrupted, everything the function may change.  The handlers of this shape
hold the frame's base in `t0` and use `t1` as scratch: the remaining
caller-saved registers go to slots of their own, `t1` to another, and the
address to resume at is read from one more slot, which the C function may
write.

`CallFrame.Holds` says that a memory holds the frame of a register file.  It
is established by the save block (`holds_storeAll`), survives the call of a C
function that writes the resume slot at most (`Holds.callC`), and is what the
restore block needs (`restore_regs`).
-/

namespace BareMetal
namespace Machine

/-- The caller-saved registers without `t0` and `t1`. -/
def callerSaved : List Reg :=
  [.ra, .t2, .t3, .t4, .t5, .t6, .a0, .a1, .a2, .a3, .a4, .a5, .a6, .a7]

/-- Every register is `t0`, `t1`, one that the frame saves, or one that a C
function keeps. -/
theorem callerSaved_cases (r : Reg) :
    r = .t0 ∨ r = .t1 ∨ (r ∈ callerSaved ∧ r ≠ .t0 ∧ r ≠ .t1) ∨
      (r.calleeSaved = true ∧ r ∉ callerSaved ∧ r ≠ .t0 ∧ r ≠ .t1) := by
  cases r <;> decide

/-- The layout of a frame: where each register, `t1` and the resume address
are.  All of them are different words of the frame. -/
structure CallFrame where
  words : Nat
  slot : Reg → Nat
  t1Off : Nat
  resumeOff : Nat
  words_le : words ≤ 2 ^ 32
  slot_inside : ∀ r ∈ callerSaved, slot r % 8 = 0 ∧ slot r < 8 * words
  slot_inj : ∀ q ∈ callerSaved, ∀ r ∈ callerSaved, slot q = slot r → q = r
  slot_ne : ∀ r ∈ callerSaved, slot r ≠ t1Off ∧ slot r ≠ resumeOff
  t1Off_inside : t1Off % 8 = 0 ∧ t1Off < 8 * words
  resumeOff_inside : resumeOff % 8 = 0 ∧ resumeOff < 8 * words
  t1Off_ne : t1Off ≠ resumeOff

namespace CallFrame

variable (f : CallFrame)

/-- The registers with their slots, in saving order. -/
def pairs : List (Reg × Nat) :=
  table f.slot callerSaved

/-- The restore block, without the return: the frame's base is in `t0`, and
whatever is in `mscratch` goes to `t0` in exchange for it. -/
def restore : List Instr :=
  ldAll .t0 f.pairs ++
  [.ld .t1 f.resumeOff .t0,
   .csrw .mepc .t1,
   .ld .t1 f.t1Off .t0,
   .csrrw .t0 .mscratch .t0]

/-- The frame at `base` holds the register file `v`. -/
structure Holds (m : Mem) (base : Word) (v : Reg → Word) : Prop where
  caller : ∀ r ∈ callerSaved, m (addr base (f.slot r)) = v r
  t1 : m (addr base f.t1Off) = v .t1

variable {f}

/-- A store to the resume slot, or outside the frame, leaves the file alone. -/
theorem Holds.of_agree {m m' : Mem} {base : Word} {v : Reg → Word} (hm : f.Holds m base v)
    (hagree : ∀ a, InArea base f.words a → a ≠ addr base f.resumeOff → m' a = m a) :
    f.Holds m' base v := by
  have hwords := f.words_le
  have hresume := f.resumeOff_inside
  have hkeep : ∀ off, off % 8 = 0 ∧ off < 8 * f.words → off ≠ f.resumeOff →
      m' (addr base off) = m (addr base off) := by
    intro off hoff hne
    apply hagree
    · exact inArea_addr (i := off / 8) (by omega) (by omega)
    · intro haddr
      exact hne ((addr_inj (by omega) (by omega)).mp haddr)
  constructor
  · intro r hr
    rw [hkeep _ (f.slot_inside r hr) (f.slot_ne r hr).2, hm.caller r hr]
  · rw [hkeep _ f.t1Off_inside f.t1Off_ne, hm.t1]

/-- The file survives a C function that writes `m` and leaves the rest of the
frame alone. -/
theorem Holds.callC {h : Hart} {base : Word} {v : Reg → Word} (hframe : f.Holds h.mem base v)
    {m : Mem} (hm : ∀ a, InArea base f.words a → a ≠ addr base f.resumeOff → m a = h.mem a)
    (keep : Word → Prop) [DecidablePred keep] (hkeep : ∀ a, InArea base f.words a → keep a)
    (other : Mem) (clobber : Reg → Word) (result : Word) :
    f.Holds (({ h with mem := m }.clobberMem keep other).callC clobber result).mem base v := by
  apply hframe.of_agree
  intro a ha hresume
  rw [Hart.callC_mem, Hart.clobberMem_keep _ _ _ (hkeep a ha)]
  exact hm a ha hresume

variable (f)

/-- The save block reaches no other word of the frame. -/
theorem storeAll_pairs_of_ne (regs : Reg → Word) (base : Word) (m : Mem) {off : Nat}
    (hoff : off < 2 ^ 64) (hne : ∀ r ∈ callerSaved, off ≠ f.slot r) :
    storeAll regs base f.pairs m (addr base off) = m (addr base off) := by
  apply storeAll_table_of_ne
  intro r hr haddr
  have hslot := f.slot_inside r hr
  have hwords := f.words_le
  exact hne r hr ((addr_inj hoff (by omega)).mp haddr)

/-- The save block reaches nothing outside the frame. -/
theorem storeAll_pairs_outside (regs : Reg → Word) (base : Word) (m : Mem) {a : Word}
    (ha : ¬ InArea base f.words a) : storeAll regs base f.pairs m a = m a := by
  apply storeAll_table_of_ne
  intro r hr
  have hslot := f.slot_inside r hr
  exact ne_addr_of_not_inArea ha (i := f.slot r / 8) (by omega) (by omega)

/-- The save block establishes the frame once `t1` is in its slot. -/
theorem holds_storeAll (regs : Reg → Word) (base : Word) (m : Mem) (v : Reg → Word)
    (hregs : ∀ r ∈ callerSaved, regs r = v r) (ht1 : m (addr base f.t1Off) = v .t1) :
    f.Holds (storeAll regs base f.pairs m) base v := by
  have hwords := f.words_le
  constructor
  · intro r hr
    rw [pairs, storeAll_table _ _ _ hr (fun q hq heq => f.slot_inj q hq r hr heq), hregs r hr]
    intro q hq
    have hslot := f.slot_inside q hq
    omega
  · have hin := f.t1Off_inside
    rw [storeAll_pairs_of_ne f _ _ _ (by omega) fun r hr => (f.slot_ne r hr).1.symm, ht1]

theorem run_restore (h : Hart) :
    let base := h.regs .t0
    run f.restore h =
      { h with
        regs := Function.update (Function.update
          (loadAll h.mem base f.pairs h.regs) .t1 (h.mem (addr base f.t1Off)))
          .t0 (h.csr .mscratch)
        csr := Function.update (Function.update h.csr .mepc (h.mem (addr base f.resumeOff)))
          .mscratch base } := by
  have hpairs : ∀ p ∈ f.pairs, p.1 ≠ Reg.t0 := by
    intro p hp
    obtain ⟨hmem, -⟩ := mem_table.mp hp
    rintro heq
    rw [heq] at hmem
    exact absurd hmem (by decide)
  have hbase : loadAll h.mem (h.regs .t0) f.pairs h.regs .t0 = h.regs .t0 := by
    rw [pairs, loadAll_table, if_neg (by decide)]
  simp [restore, run_append, run_ldAll _ _ _ hpairs, hbase, Instr.exec, Hart.setReg, Hart.setCsr]

/-- The restore block puts the file of the frame back, except that `t0` takes
whatever is in `mscratch`. -/
theorem restore_regs (h : Hart) (v : Reg → Word) (hframe : f.Holds h.mem (h.regs .t0) v)
    (hcallee : ∀ r, r.calleeSaved = true → h.regs r = v r) :
    (run f.restore h).regs = Function.update v .t0 (h.csr .mscratch) := by
  rw [run_restore]
  dsimp only
  funext r
  -- `t0` from `mscratch`, `t1` and the caller-saved registers from the frame,
  -- the rest untouched
  obtain rfl | rfl | ⟨hr, hr0, hr1⟩ | ⟨hr, hnot, hr0, hr1⟩ := callerSaved_cases r
  · rw [Function.update_self, Function.update_self]
  · rw [Function.update_of_ne (by decide), Function.update_self, hframe.t1,
      Function.update_of_ne (by decide)]
  · rw [Function.update_of_ne hr0, Function.update_of_ne hr1, pairs, loadAll_table, if_pos hr,
      hframe.caller r hr, Function.update_of_ne hr0]
  · rw [Function.update_of_ne hr0, Function.update_of_ne hr1, pairs, loadAll_table, if_neg hnot,
      hcallee r hr, Function.update_of_ne hr0]

end CallFrame

end Machine
end BareMetal
