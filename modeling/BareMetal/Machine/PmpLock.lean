import BareMetal.Machine.Pmp

/-!
# Locked PMP entries

The `L` bit of an entry makes its configuration byte and its address register
read-only until reset, and in `TOR` mode the address register below as well, which
is the lower bound of its region.

`Regs.writes` is any sequence of writes to the PMP registers.  A locked entry is
the same behind every such sequence (`covers_writes_of_locked`), so what it denies is
denied for good as long as no lower-numbered entry can match first.  An entry 0 has none
below it; below a locked `TOR` entry 1 the entry 0 is free but for its address.
-/

namespace BareMetal
namespace Machine
namespace Pmp

/-- `R = 0` with `W = 1` is reserved, and so are bits 6:5. -/
def Legal (c : BitVec 8) : Prop :=
  (c.getLsbD 1 = true → c.getLsbD 0 = true) ∧ c.getLsbD 5 = false ∧ c.getLsbD 6 = false

instance (c : BitVec 8) : Decidable (Legal c) :=
  inferInstanceAs (Decidable (_ ∧ _ ∧ _))

/-- What the hart stores for a configuration byte that is written over another. -/
structure Warl where
  legal : BitVec 8 → BitVec 8 → BitVec 8
  legal_eq : ∀ old c, Legal c → legal old c = c

/-- A write to `pmpaddr<i>`, or to the configuration register number `k`. -/
inductive Write
  | addr (i : Nat) (v : Word)
  | cfg (k : Nat) (v : Word)

/-- A register of the bytes `f 0`, …, `f 7`. -/
def ofBytes (f : Nat → BitVec 8) : Word :=
  BitVec.ofNat 64 ((f 0).toNat + (f 1).toNat * 2 ^ 8 + (f 2).toNat * 2 ^ 16 + (f 3).toNat * 2 ^ 24 +
    (f 4).toNat * 2 ^ 32 + (f 5).toNat * 2 ^ 40 + (f 6).toNat * 2 ^ 48 + (f 7).toNat * 2 ^ 56)

namespace Regs

variable (W : Warl) (p : Regs)

/-- `pmpaddr<i>` is read-only. -/
def pinned (i : Nat) : Bool :=
  locked (p.entry i) || (locked (p.entry (i + 1)) && mode (p.entry (i + 1)) = .tor)

/-- The byte that entry `i` has behind a write of `v` to its register. -/
def written (v : Word) (i : Nat) : BitVec 8 :=
  if locked (p.entry i) then p.entry i else W.legal (p.entry i) (v.extractLsb' (8 * (i % 8)) 8)

/-- `csrw`. -/
def write : Write → Regs
  | .addr i v => if p.pinned i then p else p.setAddr i v
  | .cfg k v => p.setCfg k (ofBytes fun j => p.written W v (8 * k + j))

def writes (ws : List Write) : Regs :=
  ws.foldl (write W) p

end Regs

/-! ## One write -/

theorem ofBytes_extract (f : Nat → BitVec 8) {j : Nat} (hj : j < 8) :
    (ofBytes f).extractLsb' (8 * j) 8 = f j := by
  have hbound : ∀ i, (f i).toNat < 256 := fun i => (f i).isLt
  have h0 := hbound 0
  have h1 := hbound 1
  have h2 := hbound 2
  have h3 := hbound 3
  have h4 := hbound 4
  have h5 := hbound 5
  have h6 := hbound 6
  have h7 := hbound 7
  apply BitVec.eq_of_toNat_eq
  rw [BitVec.extractLsb'_toNat, ofBytes, BitVec.toNat_ofNat, Nat.shiftRight_eq_div_pow]
  interval_cases j <;> omega

section Write

variable {W : Warl} {p : Regs}

theorem entry_setCfg (k : Nat) (v : Word) (i : Nat) :
    (p.setCfg k v).entry i =
      if i / 8 = k then v.extractLsb' (8 * (i % 8)) 8 else p.entry i := by
  change (Function.update p.cfg k v (i / 8)).extractLsb' (8 * (i % 8)) 8 = _
  by_cases hk : i / 8 = k
  · rw [if_pos hk, ← hk, Function.update_self]
  · rw [if_neg hk, Function.update_of_ne hk]
    rfl

/-- A write of a configuration register, entry by entry. -/
theorem entry_write_cfg (k : Nat) (v : Word) (i : Nat) :
    (p.write W (.cfg k v)).entry i = if i / 8 = k then p.written W v i else p.entry i := by
  rw [Regs.write, entry_setCfg]
  split
  next hk =>
    rw [ofBytes_extract _ (Nat.mod_lt i (by decide)), ← hk, Nat.div_add_mod]
  next => rfl

theorem entry_write_addr (j : Nat) (v : Word) (i : Nat) :
    (p.write W (.addr j v)).entry i = p.entry i := by
  rw [Regs.write]
  split <;> rfl

theorem addr_write_cfg (k : Nat) (v : Word) : (p.write W (.cfg k v)).addr = p.addr :=
  rfl

theorem addr_write_addr (j : Nat) (v : Word) (i : Nat) :
    (p.write W (.addr j v)).addr i =
      if j = i ∧ p.pinned i = false then v.setWidth 54 else p.addr i := by
  rw [Regs.write]
  cases hpinned : p.pinned j with
  | true =>
      rw [if_pos rfl, if_neg]
      rintro ⟨rfl, hfree⟩
      rw [hpinned] at hfree
      cases hfree
  | false =>
      rw [if_neg (by simp), Regs.setAddr]
      by_cases hi : j = i
      · rw [← hi, if_pos ⟨rfl, hpinned⟩]
        exact Function.update_self _ _ _
      · rw [if_neg fun h => hi h.1]
        exact Function.update_of_ne (Ne.symm hi) _ _

/-- An entry that is locked keeps its byte. -/
theorem entry_write_of_locked {i : Nat} (h : locked (p.entry i) = true) (w : Write) :
    (p.write W w).entry i = p.entry i := by
  cases w with
  | addr j v => exact entry_write_addr j v i
  | cfg k v =>
      rw [entry_write_cfg, Regs.written, if_pos h]
      split <;> rfl

/-- A register that is pinned keeps its value, and stays pinned. -/
theorem addr_write_of_pinned {i : Nat} (h : p.pinned i = true) (w : Write) :
    (p.write W w).addr i = p.addr i ∧ (p.write W w).pinned i = true := by
  constructor
  · cases w with
    | addr j v => rw [addr_write_addr, if_neg fun hfree => by simp [h] at hfree]
    | cfg k v => rfl
  · rw [Regs.pinned, Bool.or_eq_true, Bool.and_eq_true] at h ⊢
    rcases h with hown | ⟨habove, htor⟩
    · exact Or.inl (by rw [entry_write_of_locked hown]; exact hown)
    · refine Or.inr ⟨?_, ?_⟩ <;> rw [entry_write_of_locked habove]
      exacts [habove, htor]

/-! ## Any sequence of writes -/

theorem writes_append (ws ws' : List Write) :
    p.writes W (ws ++ ws') = (p.writes W ws).writes W ws' :=
  List.foldl_append

theorem entry_writes_of_locked {i : Nat} (h : locked (p.entry i) = true) (ws : List Write) :
    (p.writes W ws).entry i = p.entry i := by
  induction ws generalizing p with
  | nil => rfl
  | cons w ws ih =>
      have hstep := entry_write_of_locked (W := W) h w
      exact (ih (by rw [hstep]; exact h)).trans hstep

theorem addr_writes_of_pinned {i : Nat} (h : p.pinned i = true) (ws : List Write) :
    (p.writes W ws).addr i = p.addr i := by
  induction ws generalizing p with
  | nil => rfl
  | cons w ws ih =>
      obtain ⟨hstep, hpinned⟩ := addr_write_of_pinned (W := W) h w
      exact (ih hpinned).trans hstep

/-- A locked entry matches the same bytes for good. -/
theorem covers_writes_of_locked {i : Nat} (h : locked (p.entry i) = true) (ws : List Write)
    (a : Nat) : (p.writes W ws).covers a i = p.covers a i := by
  have hentry := entry_writes_of_locked (W := W) h ws
  have haddr := addr_writes_of_pinned (W := W) (p := p) (i := i) (by simp [Regs.pinned, h]) ws
  unfold Regs.covers
  rw [hentry, haddr]
  cases hmode : mode (p.entry i) with
  | tor =>
      cases i with
      | zero => rfl
      | succ i =>
          have hbelow : p.pinned i = true := by simp [Regs.pinned, h, hmode]
          simp [addr_writes_of_pinned hbelow ws]
  | off | na4 | napot => rfl

end Write

/-! ## Encodings -/

/-- The address register of a naturally aligned region of `2 ^ (k + 3)` bytes. -/
theorem napot_encode {base mask : Word} {k : Nat} (hk : k < 54) (hmask : mask.toNat = 2 ^ k - 1)
    (haligned : base.toNat % 2 ^ (k + 3) = 0) (hbound : base.toNat < 2 ^ 56) :
    (((base >>> 2) ||| mask).setWidth 54).toNat =
      2 ^ (k + 1) * (base.toNat / 2 ^ (k + 3)) + (2 ^ k - 1) := by
  have hsize : 2 ^ (k + 3) = 4 * 2 ^ (k + 1) := by
    rw [show k + 3 = 2 + (k + 1) by omega, pow_add]
    rfl
  have hbase : base.toNat = 2 ^ (k + 3) * (base.toNat / 2 ^ (k + 3)) :=
    (Nat.mul_div_cancel' (Nat.dvd_of_mod_eq_zero haligned)).symm
  have hshift : base.toNat / 4 = 2 ^ (k + 1) * (base.toNat / 2 ^ (k + 3)) := by
    rw [hsize, Nat.mul_assoc] at hbase
    rw [hsize]
    omega
  have hsmall : 2 ^ k - 1 < 2 ^ (k + 1) := by
    have hpos : 0 < 2 ^ k := Nat.two_pow_pos k
    rw [pow_succ]
    omega
  have hwidth : 2 ^ (k + 1) * (base.toNat / 2 ^ (k + 3)) + (2 ^ k - 1) < 2 ^ 54 := by
    have hnumber : base.toNat / 2 ^ (k + 3) * 2 ^ (k + 1) < 2 ^ 54 := by
      rw [Nat.mul_comm, ← hshift]
      omega
    have hmultiple : 2 ^ 54 = 2 ^ (54 - (k + 1)) * 2 ^ (k + 1) := by
      rw [← pow_add, Nat.sub_add_cancel hk]
    rw [hmultiple] at hnumber ⊢
    have hlt := Nat.lt_of_mul_lt_mul_right hnumber
    calc 2 ^ (k + 1) * (base.toNat / 2 ^ (k + 3)) + (2 ^ k - 1)
        < 2 ^ (k + 1) * (base.toNat / 2 ^ (k + 3)) + 2 ^ (k + 1) := by omega
      _ = (base.toNat / 2 ^ (k + 3) + 1) * 2 ^ (k + 1) := by ring
      _ ≤ 2 ^ (54 - (k + 1)) * 2 ^ (k + 1) := Nat.mul_le_mul_right _ hlt
  rw [BitVec.toNat_setWidth, BitVec.toNat_or, BitVec.toNat_ushiftRight,
    Nat.shiftRight_eq_div_pow, hmask, show 2 ^ 2 = 4 by rfl, hshift,
    ← Nat.two_pow_add_eq_or_of_lt hsmall, Nat.mod_eq_of_lt hwidth]

/-! ## What is denied for good -/

/-- No sequence of writes makes the byte `a` accessible in any mode. -/
def Regs.Sealed (W : Warl) (p : Regs) (n a : Nat) : Prop :=
  ∀ ws priv access, (p.writes W ws).allows n priv access a = false

section Sealed

variable {W : Warl} {p : Regs} {n a : Nat}

/-- The lowest-numbered match decides, in any mode. -/
theorem allows_of_first {i : Nat} (hi : i < n) (hmatch : p.covers a i = true)
    (hbelow : ∀ j < i, p.covers a j = false) (priv : Priv) (access : Access) :
    p.allows n priv access a =
      ((priv = .machine && !locked (p.entry i)) || permits (p.entry i) access) := by
  have hdeciding : p.deciding n a = some i := by
    rw [Regs.deciding, List.find?_range_eq_some]
    refine ⟨hmatch, List.mem_range.mpr hi, fun j hj => ?_⟩
    rw [hbelow j hj]
    rfl
  simp only [Regs.allows, hdeciding]

/-- Without a match M-mode is allowed. -/
theorem allows_machine_of_no_match (hnone : ∀ i < n, p.covers a i = false) (access : Access) :
    p.allows n .machine access a = true := by
  have hdeciding : p.deciding n a = none := by
    rw [Regs.deciding, List.find?_range_eq_none]
    intro i hi
    rw [hnone i hi]
    rfl
  simp only [Regs.allows, hdeciding, decide_true]

/-- A locked entry without permissions denies for good what it matches and no entry
below it can. -/
theorem sealed_of_locked {i : Nat} (hi : i < n) (hlock : locked (p.entry i) = true)
    (hnone : ∀ access, permits (p.entry i) access = false) (hmatch : p.covers a i = true)
    (hbelow : ∀ ws, ∀ j < i, (p.writes W ws).covers a j = false) : p.Sealed W n a := by
  intro ws priv access
  have hcovers := covers_writes_of_locked (W := W) hlock ws a
  rw [allows_of_first hi (hcovers.trans hmatch) (hbelow ws),
    entry_writes_of_locked hlock, hlock, hnone]
  simp

theorem not_sealed_of_no_match (hnone : ∀ i < n, p.covers a i = false) : ¬ p.Sealed W n a := by
  intro h
  have hdenied := h [] .machine .load
  rw [Regs.writes, List.foldl_nil, allows_machine_of_no_match hnone] at hdenied
  cases hdenied

/-- With locked entries below `k` and no others: what is denied for good is what they
match. -/
theorem sealed_iff_of_initial {k : Nat} (hk : k ≤ n) (hlock : ∀ i < k, locked (p.entry i) = true)
    (hnone : ∀ i < k, ∀ access, permits (p.entry i) access = false)
    (hothers : ∀ i, k ≤ i → mode (p.entry i) = .off) :
    p.Sealed W n a ↔ ∃ i < k, p.covers a i = true := by
  constructor
  · intro h
    by_contra hmiss
    refine not_sealed_of_no_match (fun i _ => ?_) h
    rcases Nat.lt_or_ge i k with hi | hi
    · exact Bool.eq_false_iff.mpr fun hmatch => hmiss ⟨i, hi, hmatch⟩
    · exact Regs.covers_of_off (hothers i hi)
  · rintro ⟨i, hi, hmatch⟩
    -- the first of the entries that match
    let hexists : ∃ i, p.covers a i = true := ⟨i, hmatch⟩
    have hfirst := Nat.find_spec hexists
    have hfirst_lt : Nat.find hexists < k := lt_of_le_of_lt (Nat.find_min' hexists hmatch) hi
    refine sealed_of_locked (lt_of_lt_of_le hfirst_lt hk) (hlock _ hfirst_lt) (hnone _ hfirst_lt)
      hfirst fun ws j hj => ?_
    rw [covers_writes_of_locked (hlock j (lt_trans hj hfirst_lt))]
    exact Bool.eq_false_iff.mpr (Nat.find_min hexists hj)

/-- What an entry 0 can match whose address register is even and does not move. -/
theorem covers_of_even {x : Nat} (haddr : (p.addr 0).toNat = x) (heven : x % 2 = 0)
    (h : p.covers a 0 = true) : a < 4 * x + 8 := by
  have hones : trailingOnes 54 x = 0 := by rw [trailingOnes, if_neg (by omega)]
  unfold Regs.covers at h
  split at h
  · cases h
  · simp only [haddr, if_pos, Bool.and_eq_true, decide_eq_true_eq] at h
    omega
  · simp only [haddr, decide_eq_true_eq] at h
    omega
  · simp only [napotMatches, haddr, hones, decide_eq_true_eq] at h
    omega

/-- The region of a `TOR` entry 1. -/
theorem covers_of_tor {x y : Nat} (htor : mode (p.entry 1) = .tor) (hlo : (p.addr 0).toNat = x)
    (hhi : (p.addr 1).toNat = y) : p.covers a 1 = true ↔ 4 * x ≤ a ∧ a < 4 * y := by
  simp only [Regs.covers, htor, Nat.sub_self, hlo, hhi, if_neg, one_ne_zero, not_false_eq_true,
    Bool.and_eq_true, decide_eq_true_eq]
  omega

/-- An entry 0 that is free but for its address, an even one, can open eight bytes to
everyone. -/
theorem allows_of_opened {x : Nat} (hn : 0 < n) (hoff : p.entry 0 = 0)
    (hlo : (p.addr 0).toNat = x) (heven : x % 2 = 0) (hlow : 4 * x ≤ a) (hhigh : a < 4 * x + 8)
    (priv : Priv) (access : Access) :
    (p.write W (.cfg 0 0x1f)).allows n priv access a = true := by
  have hfree : locked (p.entry 0) = false := by rw [hoff]; rfl
  have hopened : (p.write W (.cfg 0 0x1f)).entry 0 = 0x1f := by
    rw [entry_write_cfg, if_pos (by decide), Regs.written, hfree]
    exact W.legal_eq _ _ (by decide)
  have hnapot : mode ((p.write W (.cfg 0 0x1f)).entry 0) = .napot := by rw [hopened]; rfl
  have hones : trailingOnes 54 x = 0 := by rw [trailingOnes, if_neg (by omega)]
  have hfirst : (p.write W (.cfg 0 0x1f)).covers a 0 = true := by
    rw [Regs.covers_of_napot hnapot]
    simp only [napotMatches, addr_write_cfg, hlo, hones, decide_eq_true_eq]
    omega
  have hpermits : permits 0x1f access = true := by cases access <;> rfl
  rw [allows_of_first hn hfirst (fun j hj => absurd hj (Nat.not_lt_zero j)), hopened, hpermits,
    Bool.or_true]

/-- With a locked `TOR` entry 1 above an entry 0 that is off: the first two words of
its region can be opened through entry 0, whose address is the lower bound.  The rest
is denied for good. -/
theorem sealed_iff_of_tor {x y : Nat} (hn : 1 < n) (hoff : p.entry 0 = 0)
    (hlock : locked (p.entry 1) = true) (htor : mode (p.entry 1) = .tor)
    (hnone : ∀ access, permits (p.entry 1) access = false)
    (hothers : ∀ i, 1 < i → mode (p.entry i) = .off)
    (hlo : (p.addr 0).toNat = x) (hhi : (p.addr 1).toNat = y) (heven : x % 2 = 0) :
    p.Sealed W n a ↔ 4 * x + 8 ≤ a ∧ a < 4 * y := by
  have hcovers : p.covers a 1 = true ↔ 4 * x ≤ a ∧ a < 4 * y := covers_of_tor htor hlo hhi
  have hpinned : p.pinned 0 = true := by simp [Regs.pinned, hlock, htor]
  constructor
  · intro h
    by_cases hmatch : p.covers a 1 = true
    · refine ⟨?_, (hcovers.mp hmatch).2⟩
      by_contra hlow
      have hbase := (hcovers.mp hmatch).1
      have hdenied := h [.cfg 0 0x1f] .user .load
      rw [show p.writes W [.cfg 0 0x1f] = p.write W (.cfg 0 0x1f) from rfl,
        allows_of_opened (by omega) hoff hlo heven hbase (by omega)] at hdenied
      cases hdenied
    · exfalso
      refine not_sealed_of_no_match (fun i _ => ?_) h
      rcases Nat.lt_or_ge 1 i with hi | hi
      · exact Regs.covers_of_off (hothers i hi)
      · interval_cases i
        · exact Regs.covers_of_off (by rw [hoff]; rfl)
        · exact Bool.eq_false_iff.mpr hmatch
  · rintro ⟨hlow, hhigh⟩
    refine sealed_of_locked hn hlock hnone (hcovers.mpr ⟨by omega, hhigh⟩) fun ws j hj => ?_
    obtain rfl : j = 0 := by omega
    rw [Bool.eq_false_iff]
    intro hmatch
    have haddr : ((p.writes W ws).addr 0).toNat = x := by
      rw [addr_writes_of_pinned hpinned, hlo]
    have hbound := covers_of_even haddr heven hmatch
    omega

end Sealed

end Pmp
end Machine
end BareMetal
