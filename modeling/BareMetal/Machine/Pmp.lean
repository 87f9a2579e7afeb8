import BareMetal.Machine.Privilege

/-!
# Physical memory protection

The PMP check of the privileged architecture on RV64.  An entry is a byte of a
`pmpcfg` register and an address register of 54 bits, which holds bits 55:2 of an
address.  An access to a byte is decided by the lowest-numbered entry that
matches it; without a match M-mode is allowed and every other mode denied.

A naturally aligned power-of-two region is encoded by ones below the address: `k`
trailing ones stand for a region of `2 ^ (k + 3)` bytes.  `napotMatches_iff` says
which bytes that is.
-/

namespace BareMetal
namespace Machine

/-- What a memory access wants to do. -/
inductive Access
  | load | store | fetch
  deriving DecidableEq, Repr

namespace Pmp

/-- The address-matching mode of an entry. -/
inductive Mode
  | off | tor | na4 | napot
  deriving DecidableEq, Repr

/-- The registers: eight entries share a `pmpcfg` register, and `cfg k` is the one
of entries `8 * k` to `8 * k + 7`. -/
structure Regs where
  cfg : Nat → Word
  addr : Nat → BitVec 54

namespace Regs

variable (p : Regs)

/-- The configuration byte of entry `i`. -/
def entry (i : Nat) : BitVec 8 :=
  (p.cfg (i / 8)).extractLsb' (8 * (i % 8)) 8

/-- `csrw pmpaddr<i>`, for an entry that is not locked. -/
def setAddr (i : Nat) (v : Word) : Regs :=
  { p with addr := Function.update p.addr i (v.setWidth 54) }

/-- `csrw` to the configuration register number `k`. -/
def setCfg (k : Nat) (v : Word) : Regs :=
  { p with cfg := Function.update p.cfg k v }

end Regs

/-! ## Configuration bytes -/

section Entry

variable (c : BitVec 8)

/-- The `A` field (bits 4:3). -/
def mode : Mode :=
  if c.getLsbD 4 then if c.getLsbD 3 then .napot else .na4
  else if c.getLsbD 3 then .tor else .off

/-- The `R`, `W` and `X` bits. -/
def permits : Access → Bool
  | .load => c.getLsbD 0
  | .store => c.getLsbD 1
  | .fetch => c.getLsbD 2

/-- The `L` bit, which makes an entry hold for M-mode, too. -/
def locked : Bool :=
  c.getLsbD 7

end Entry

/-! ## Address matching -/

/-- The number of trailing ones of an address register of `w` bits. -/
def trailingOnes : Nat → Nat → Nat
  | 0, _ => 0
  | w + 1, x => if x % 2 = 1 then trailingOnes w (x / 2) + 1 else 0

/-- The byte `a` is in the region an address register encodes in `NAPOT` mode. -/
def napotMatches (x : BitVec 54) (a : Nat) : Bool :=
  let k := trailingOnes 54 x.toNat
  a / 2 ^ (k + 3) = x.toNat / 2 ^ (k + 1)

/-- Entry `i` matches the byte `a`. -/
def Regs.covers (p : Regs) (a : Nat) (i : Nat) : Bool :=
  match mode (p.entry i) with
  | .off => false
  | .tor =>
      -- the lower bound of entry 0 is 0
      decide ((if i = 0 then 0 else (p.addr (i - 1)).toNat) ≤ a / 4) &&
        decide (a / 4 < (p.addr i).toNat)
  | .na4 => a / 4 = (p.addr i).toNat
  | .napot => napotMatches (p.addr i) a

/-- The entry that decides about the byte `a`, of `n` entries. -/
def Regs.deciding (p : Regs) (n a : Nat) : Option Nat :=
  (List.range n).find? (p.covers a)

/-- The decision about an access to the byte `a`. -/
def Regs.allows (p : Regs) (n : Nat) (priv : Priv) (access : Access) (a : Nat) : Bool :=
  match p.deciding n a with
  | none => priv = .machine
  | some i => (priv = .machine && !locked (p.entry i)) || permits (p.entry i) access

/-! ## Rules -/

/-- `k` ones above a zero are counted. -/
theorem trailingOnes_eq {w k : Nat} (hk : k < w) (q : Nat) :
    trailingOnes w (2 ^ (k + 1) * q + (2 ^ k - 1)) = k := by
  induction k generalizing w with
  | zero =>
      obtain ⟨w, rfl⟩ : ∃ v, w = v + 1 := ⟨w - 1, by omega⟩
      have heven : (2 ^ (0 + 1) * q + (2 ^ 0 - 1)) % 2 ≠ 1 := by omega
      rw [trailingOnes, if_neg heven]
  | succ k ih =>
      obtain ⟨w, rfl⟩ : ∃ v, w = v + 1 := ⟨w - 1, by omega⟩
      have hsplit : 2 ^ (k + 1 + 1) * q + (2 ^ (k + 1) - 1) =
          2 * (2 ^ (k + 1) * q + (2 ^ k - 1)) + 1 := by
        have hpos : 0 < 2 ^ k := Nat.two_pow_pos k
        rw [pow_succ' 2 (k + 1), pow_succ' 2 k, Nat.mul_add, Nat.mul_assoc]
        omega
      have hodd : (2 * (2 ^ (k + 1) * q + (2 ^ k - 1)) + 1) % 2 = 1 := by omega
      have hhalf : (2 * (2 ^ (k + 1) * q + (2 ^ k - 1)) + 1) / 2 =
          2 ^ (k + 1) * q + (2 ^ k - 1) := by omega
      rw [hsplit, trailingOnes, if_pos hodd, hhalf, ih (by omega)]

/-- The region of an address register with `k` trailing ones: `2 ^ (k + 3)` bytes
from a multiple of that size on. -/
theorem napotMatches_iff {x : BitVec 54} {k q : Nat} (hk : k < 54)
    (hx : x.toNat = 2 ^ (k + 1) * q + (2 ^ k - 1)) (a : Nat) :
    napotMatches x a = true ↔ 2 ^ (k + 3) * q ≤ a ∧ a < 2 ^ (k + 3) * q + 2 ^ (k + 3) := by
  have hones : trailingOnes 54 x.toNat = k := by
    rw [hx, trailingOnes_eq hk]
  have hbase : x.toNat / 2 ^ (k + 1) = q := by
    have hsmall : 2 ^ k - 1 < 2 ^ (k + 1) := by
      have hpos : 0 < 2 ^ k := Nat.two_pow_pos k
      rw [pow_succ]
      omega
    rw [hx, Nat.mul_add_div (Nat.two_pow_pos _), Nat.div_eq_of_lt hsmall, Nat.add_zero]
  simp only [napotMatches, hones, hbase, decide_eq_true_eq]
  rw [Nat.div_eq_iff (Nat.two_pow_pos _)]
  have hpos : 0 < 2 ^ (k + 3) := Nat.two_pow_pos _
  rw [Nat.mul_comm q]
  omega

section Deciding

variable {p : Regs} {n a : Nat}

theorem Regs.allows_of_deciding {priv : Priv} {access : Access} {i : Nat}
    (hpriv : priv ≠ .machine) (hi : i < n) (hmatch : p.covers a i = true)
    (hbelow : ∀ j < i, p.covers a j = false) :
    p.allows n priv access a = permits (p.entry i) access := by
  have hdeciding : p.deciding n a = some i := by
    rw [Regs.deciding, List.find?_range_eq_some]
    refine ⟨hmatch, List.mem_range.mpr hi, fun j hj => ?_⟩
    rw [hbelow j hj]
    rfl
  simp only [Regs.allows, hdeciding, hpriv, decide_false, Bool.false_and, Bool.false_or]

theorem Regs.allows_of_no_match {priv : Priv} {access : Access} (hpriv : priv ≠ .machine)
    (hnone : ∀ i < n, p.covers a i = false) : p.allows n priv access a = false := by
  have hdeciding : p.deciding n a = none := by
    rw [Regs.deciding, List.find?_range_eq_none]
    intro i hi
    rw [hnone i hi]
    rfl
  simp only [Regs.allows, hdeciding, hpriv, decide_false]

theorem Regs.covers_of_napot {i : Nat} (h : mode (p.entry i) = .napot) :
    p.covers a i = napotMatches (p.addr i) a := by
  simp only [Regs.covers, h]

theorem Regs.covers_of_off {i : Nat} (h : mode (p.entry i) = .off) : p.covers a i = false := by
  simp only [Regs.covers, h]

end Deciding

end Pmp

end Machine
end BareMetal
