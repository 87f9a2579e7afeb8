import BareMetal.Machine.PmpLock

/-!
# The locked regions of the PMP labs

Eight labs lock a region without permissions: `src/pmp` and `src/pmp-lock-bit` a page
in `NAPOT` mode, `src/pmp-na4-match` and `src/pmp-na4-low-edge` a word,
`src/pmp-napot-size` a page and then 64 KiB around it, and `src/pmp-tor`,
`src/pmp-tor-bottom` and `src/pmp-tor-top` a page in `TOR` mode on entry 1.

Behind the programming, the labs and whatever runs after them may write the PMP
registers as they like.  `entry0_locks` says that the regions on the first entries are
denied in every mode for good, and nothing else is.  For the `TOR` labs that fails for
the first eight bytes: their entry 0 stays free, its address register is pinned to the
lower bound, and a write to `pmpcfg0` makes it a region of its own (`tor_locks`).
-/

namespace BareMetal
namespace PmpLocks

open Machine Pmp

/-- Reset turns every entry off and clears its lock. -/
def Booted (p : Regs) : Prop :=
  ∀ i, mode (p.entry i) = .off ∧ locked (p.entry i) = false

/-! ## The programs -/

/-- `PLB_ENTRY0`, `PMPCFG0_ENTRY0` and `PMP_L_NAPOT_DENY`. -/
def L_NAPOT_DENY : Word := 0x98

/-- `PMPCFG0_VAL` of the `NA4` labs. -/
def L_NA4_DENY : Word := 0x90

def NAPOT_SIZE_4K : Word := 0x1FF
def NAPOT_SIZE_64K : Word := 0x1FFF
def PMPCFG0_TOR_LAYOUT : Word := 0x880F

/-- A locked region on entry 0. -/
def lockFirst (pmpaddr0 cfg0 : Word) : List Write :=
  [.addr 0 pmpaddr0, .cfg 0 cfg0]

namespace PmpLockBit

/-- `main` of `plb_main.c` and of `pmp_main.c`, up to the lock. -/
def program (scratch : Word) : List Write :=
  lockFirst ((scratch >>> 2) ||| NAPOT_SIZE_4K) L_NAPOT_DENY

end PmpLockBit

namespace PmpNa4Match

def CANARY_ADDR : Word := 0x80002000

def program : List Write :=
  lockFirst (CANARY_ADDR >>> 2) L_NA4_DENY

end PmpNa4Match

namespace PmpNa4LowEdge

def CANARY_ADDR : Word := 0x80002400

def program : List Write :=
  lockFirst (CANARY_ADDR >>> 2) L_NA4_DENY

end PmpNa4LowEdge

namespace PmpNapotSize

def phaseA (base : Word) : List Write :=
  lockFirst ((base >>> 2) ||| NAPOT_SIZE_4K) L_NAPOT_DENY

/-- Phase B on top of phase A; byte 0 is written again. -/
def phaseB (base : Word) : List Write :=
  phaseA base ++
    [.addr 1 ((base >>> 2) ||| NAPOT_SIZE_64K), .cfg 0 (L_NAPOT_DENY ||| (L_NAPOT_DENY <<< 8))]

end PmpNapotSize

namespace PmpTor

/-- `main` of `pmt_main.c`, `tor_bot_main.c` and `tor_top_main.c`, up to the clearing of
entry 0. -/
def program (start stop : Word) : List Write :=
  [.addr 0 (start >>> 2), .addr 1 (stop >>> 2), .cfg 0 PMPCFG0_TOR_LAYOUT, .cfg 0 0]

end PmpTor

/-- The registers are locked as the lab says: `entries` and `addrs` read back the same
behind all writes that follow, and exactly the bytes of `region` are denied in every
mode whatever these are. -/
structure Locks (W : Warl) (n : Nat) (p : Regs) (entries addrs : List Nat)
    (region : Nat → Prop) : Prop where
  entries : ∀ ws, ∀ i ∈ entries, (p.writes W ws).entry i = p.entry i
  addrs : ∀ ws, ∀ i ∈ addrs, (p.writes W ws).addr i = p.addr i
  denied : ∀ a, p.Sealed W n a ↔ region a

/-! ## Behind the programs -/

section Program

variable {W : Warl} {p : Regs}

/-- A first write to `pmpcfg0`. -/
theorem entry_first_cfg (hboot : Booted p) {v : Word}
    (hlegal : ∀ i < 8, Legal (v.extractLsb' (8 * i) 8)) (i : Nat) : (p.write W (.cfg 0 v)).entry i =
      if i < 8 then v.extractLsb' (8 * i) 8 else p.entry i := by
  rw [entry_write_cfg]
  by_cases hi : i < 8
  · rw [if_pos (by omega), if_pos hi, Regs.written, (hboot i).2, Nat.mod_eq_of_lt hi]
    exact W.legal_eq _ _ (hlegal i hi)
  · rw [if_neg (by omega), if_neg hi]

theorem pinned_of_booted (hboot : Booted p) (i : Nat) : p.pinned i = false := by
  simp [Regs.pinned, (hboot i).2, (hboot (i + 1)).2]

theorem Booted.write_addr (hboot : Booted p) (i : Nat) (v : Word) :
    Booted (p.write W (.addr i v)) := by
  intro j
  rw [entry_write_addr]
  exact hboot j

/-- Entry 0 is as programmed, and every other entry is off. -/
theorem lockFirst_spec (hboot : Booted p) {a c : Word} {d : BitVec 8}
    (hlegal : ∀ i < 8, Legal (c.extractLsb' (8 * i) 8))
    (hbytes : ∀ i < 8, c.extractLsb' (8 * i) 8 = if i = 0 then d else 0) :
    let q := p.writes W (lockFirst a c)
    q.entry 0 = d ∧ q.addr 0 = a.setWidth 54 ∧
      ∀ i, 0 < i → mode (q.entry i) = .off ∧ locked (q.entry i) = false := by
  intro q
  have hq : q = (p.write W (.addr 0 a)).write W (.cfg 0 c) := rfl
  have hboot' : Booted (p.write W (.addr 0 a)) := hboot.write_addr 0 a
  have hentry : ∀ i, q.entry i =
      if i < 8 then c.extractLsb' (8 * i) 8 else (p.write W (.addr 0 a)).entry i :=
    fun i => by rw [hq, entry_first_cfg hboot' hlegal]
  refine ⟨?_, ?_, fun i hi => ?_⟩
  · rw [hentry, if_pos (by decide), hbytes 0 (by decide), if_pos rfl]
  · rw [hq, addr_write_cfg, addr_write_addr, if_pos ⟨rfl, pinned_of_booted hboot 0⟩]
  · rw [hentry]
    split
    next hlt =>
      rw [hbytes i hlt, if_neg (by omega)]
      exact ⟨rfl, rfl⟩
    next => exact hboot' i

/-- Entries below `k` are locked without permissions, and the others are off. -/
theorem locks_of_prefix {q : Regs} {n k : Nat} (hk : k ≤ n)
    (hlock : ∀ i < k, locked (q.entry i) = true)
    (hnone : ∀ i < k, ∀ access, permits (q.entry i) access = false)
    (hothers : ∀ i, k ≤ i → mode (q.entry i) = .off) {region : Nat → Prop}
    (hregion : ∀ a, (∃ i < k, q.covers a i = true) ↔ region a) :
    Locks W n q (List.range k) (List.range k) region := by
  constructor
  · intro ws i hi
    exact entry_writes_of_locked (hlock i (List.mem_range.mp hi)) ws
  · intro ws i hi
    refine addr_writes_of_pinned ?_ ws
    rw [Regs.pinned, hlock i (List.mem_range.mp hi), Bool.true_or]
  · intro a
    rw [sealed_iff_of_initial hk hlock hnone hothers]
    exact hregion a

/-- A locked entry 0 without permissions. -/
theorem lockFirst_locks (hboot : Booted p) {a c : Word} {d : BitVec 8} {n : Nat} (hn : 0 < n)
    (hlegal : ∀ i < 8, Legal (c.extractLsb' (8 * i) 8))
    (hbytes : ∀ i < 8, c.extractLsb' (8 * i) 8 = if i = 0 then d else 0)
    (hlock : locked d = true) (hnone : ∀ access, permits d access = false)
    {region : Nat → Prop}
    (hregion : ∀ q : Regs, q.entry 0 = d → q.addr 0 = a.setWidth 54 →
      ∀ x, q.covers x 0 = true ↔ region x) :
    Locks W n (p.writes W (lockFirst a c)) [0] [0] region := by
  obtain ⟨hentry, haddr, hothers⟩ := lockFirst_spec (W := W) (a := a) hboot hlegal hbytes
  refine locks_of_prefix (k := 1) hn ?_ ?_ (fun i hi => (hothers i hi).1) fun x => ?_
  · intro i hi
    rw [Nat.lt_one_iff.mp hi, hentry, hlock]
  · intro i hi
    rw [Nat.lt_one_iff.mp hi, hentry]
    exact hnone
  · simpa using hregion _ hentry haddr x

end Program

/-! ## Entry 0 -/

/-- `base` is the address of a region of `size` bytes that an address register holds. -/
def AlignedAt (size : Nat) (base : Word) : Prop :=
  base.toNat % size = 0 ∧ base.toNat < 2 ^ 56

instance (size : Nat) (base : Word) : Decidable (AlignedAt size base) :=
  inferInstanceAs (Decidable (_ ∧ _))

/-- The bytes from `base` on. -/
def Region (base size a : Nat) : Prop :=
  base ≤ a ∧ a < base + size

/-- The bytes that a `NAPOT` entry with `k` ones below the base matches. -/
theorem napotMatches_region {base mask : Word} {k : Nat} (hk : k < 54)
    (hmask : mask.toNat = 2 ^ k - 1) (hbase : AlignedAt (2 ^ (k + 3)) base) (a : Nat) :
    napotMatches (((base >>> 2) ||| mask).setWidth 54) a = true ↔
      Region base.toNat (2 ^ (k + 3)) a := by
  obtain ⟨haligned, hbound⟩ := hbase
  rw [napotMatches_iff hk (napot_encode hk hmask haligned hbound),
    Nat.mul_div_cancel' (Nat.dvd_of_mod_eq_zero haligned)]
  rfl

section Entry0

variable (W : Warl) {p : Regs} (hboot : Booted p) {n : Nat} (hn : 2 ≤ n)

include hboot hn

/-- A page on entry 0. -/
theorem page_locks {base : Word} (hbase : AlignedAt 4096 base) :
    Locks W n (p.writes W (lockFirst ((base >>> 2) ||| NAPOT_SIZE_4K) L_NAPOT_DENY)) [0] [0]
      (Region base.toNat 4096) := by
  refine lockFirst_locks (d := 0x98) hboot (by omega) (by decide) (by decide) rfl
    (by rintro (_ | _ | _) <;> rfl) fun q hentry haddr x => ?_
  have hnapot : mode (q.entry 0) = .napot := by rw [hentry]; rfl
  rw [Regs.covers_of_napot hnapot, haddr]
  exact napotMatches_region (k := 9) (by decide) (by decide) hbase x

/-- A word on entry 0. -/
theorem word_locks {canary : Word} (hbase : AlignedAt 4 canary) :
    Locks W n (p.writes W (lockFirst (canary >>> 2) L_NA4_DENY)) [0] [0]
      (Region canary.toNat 4) := by
  refine lockFirst_locks (d := 0x90) hboot (by omega) (by decide) (by decide) rfl
    (by rintro (_ | _ | _) <;> rfl) fun q hentry haddr x => ?_
  obtain ⟨haligned, hbound⟩ := hbase
  have hna4 : mode (q.entry 0) = .na4 := by rw [hentry]; rfl
  have hvalue : ((canary >>> 2).setWidth 54).toNat = canary.toNat / 4 := by
    rw [BitVec.toNat_setWidth, BitVec.toNat_ushiftRight, Nat.shiftRight_eq_div_pow]
    omega
  simp only [Regs.covers, hna4, haddr, hvalue, decide_eq_true_eq, Region]
  omega

omit hn in
/-- The registers behind phase B. -/
theorem phaseB_spec (base : Word) :
    let q := p.writes W (PmpNapotSize.phaseB base)
    (∀ i < 2, q.entry i = 0x98) ∧ q.addr 0 = ((base >>> 2) ||| NAPOT_SIZE_4K).setWidth 54 ∧
      q.addr 1 = ((base >>> 2) ||| NAPOT_SIZE_64K).setWidth 54 ∧
      ∀ i, 2 ≤ i → mode (q.entry i) = .off := by
  intro q
  obtain ⟨hentry, haddr, hothers⟩ := lockFirst_spec (W := W) (d := 0x98)
    (a := (base >>> 2) ||| NAPOT_SIZE_4K) (c := L_NAPOT_DENY) hboot (by decide) (by decide)
  let r := (p.writes W (PmpNapotSize.phaseA base)).write W
    (.addr 1 ((base >>> 2) ||| NAPOT_SIZE_64K))
  let cfg := L_NAPOT_DENY ||| (L_NAPOT_DENY <<< 8)
  have hq : q = r.write W (.cfg 0 cfg) := writes_append _ _
  have hr : ∀ i, r.entry i = (p.writes W (PmpNapotSize.phaseA base)).entry i :=
    entry_write_addr _ _
  have hfree : (p.writes W (PmpNapotSize.phaseA base)).pinned 1 = false := by
    have h1 := (hothers 1 (by decide)).2
    have h2 := (hothers 2 (by decide)).2
    rw [Regs.pinned, PmpNapotSize.phaseA, h1, h2]
    rfl
  have hbytes : ∀ i < 8, 0 < i →
      cfg.extractLsb' (8 * i) 8 = (if i = 1 then 0x98 else 0 : BitVec 8) ∧
        Legal (cfg.extractLsb' (8 * i) 8) := by
    decide
  have hpos : ∀ i, 0 < i → i < 8 → q.entry i = if i = 1 then 0x98 else 0 := by
    intro i hi hlt
    obtain ⟨hbyte, hlegal⟩ := hbytes i hlt hi
    have hunlocked : locked (r.entry i) = false := (hr i).symm ▸ (hothers i hi).2
    rw [hq, entry_write_cfg, if_pos (by omega), Regs.written, hunlocked, Nat.mod_eq_of_lt hlt]
    change W.legal _ _ = _
    rw [W.legal_eq _ _ hlegal, hbyte]
  refine ⟨fun i hi => ?_, ?_, ?_, fun i hi => ?_⟩
  · rcases Nat.eq_zero_or_pos i with rfl | hi'
    · -- byte 0 is locked already
      have hlocked : locked (r.entry 0) = true := by rw [hr]; exact hentry ▸ rfl
      rw [hq, entry_write_of_locked hlocked, hr]
      exact hentry
    · obtain rfl : i = 1 := by omega
      exact hpos 1 hi' (by decide)
  · rw [hq, addr_write_cfg, addr_write_addr, if_neg (by simp)]
    exact haddr
  · rw [hq, addr_write_cfg, addr_write_addr, if_pos ⟨rfl, hfree⟩]
  · rcases Nat.lt_or_ge i 8 with hlt | hge
    · rw [hpos i (by omega) hlt, if_neg (by omega)]
      rfl
    · rw [hq, entry_write_cfg, if_neg (by omega), hr]
      exact (hothers i (by omega)).1

/-- A page on entry 0, and 64 KiB around it on entry 1. -/
theorem phaseB_locks {base : Word} (hbase : AlignedAt 65536 base) :
    Locks W n (p.writes W (PmpNapotSize.phaseB base)) [0, 1] [0, 1]
      (Region base.toNat 65536) := by
  obtain ⟨hentry, haddr0, haddr1, hothers⟩ := phaseB_spec W hboot base
  have hpage : AlignedAt 4096 base := by
    obtain ⟨haligned, hbound⟩ := hbase
    exact ⟨by omega, hbound⟩
  refine locks_of_prefix (k := 2) hn ?_ ?_ hothers fun a => ?_
  · intro i hi
    rw [hentry i hi]
    rfl
  · intro i hi access
    rw [hentry i hi]
    cases access <;> rfl
  · have hnapot : ∀ i < 2, mode ((p.writes W (PmpNapotSize.phaseB base)).entry i) = .napot := by
      intro i hi
      rw [hentry i hi]
      rfl
    have hsmall := napotMatches_region (k := 9) (by decide)
      (show NAPOT_SIZE_4K.toNat = 2 ^ 9 - 1 by decide) hpage a
    have hlarge := napotMatches_region (k := 13) (by decide)
      (show NAPOT_SIZE_64K.toNat = 2 ^ 13 - 1 by decide) hbase a
    rw [← haddr0, ← Regs.covers_of_napot (hnapot 0 (by decide))] at hsmall
    rw [← haddr1, ← Regs.covers_of_napot (hnapot 1 (by decide))] at hlarge
    constructor
    · rintro ⟨i, hi, hmatch⟩
      interval_cases i
      · have hin := hsmall.mp hmatch
        unfold Region at hin ⊢
        omega
      · exact hlarge.mp hmatch
    · exact fun hin => ⟨1, by decide, hlarge.mpr hin⟩

end Entry0

/-- The labs that lock entry 0, and entry 1 above it.  `scratch` is the page of `src/pmp`
and `src/pmp-lock-bit`, `base` the window of `src/pmp-napot-size`. -/
theorem entry0_locks (W : Warl) (p : Regs) (hboot : Booted p) (n : Nat) (hn : 2 ≤ n)
    (scratch base : Word) (hscratch : AlignedAt 4096 scratch) (hbase : AlignedAt 65536 base) :
    Locks W n (p.writes W (PmpLockBit.program scratch)) [0] [0] (Region scratch.toNat 4096) ∧
    Locks W n (p.writes W PmpNa4Match.program) [0] [0] (Region PmpNa4Match.CANARY_ADDR.toNat 4) ∧
    Locks W n (p.writes W PmpNa4LowEdge.program) [0] [0]
      (Region PmpNa4LowEdge.CANARY_ADDR.toNat 4) ∧
    Locks W n (p.writes W (PmpNapotSize.phaseA base)) [0] [0] (Region base.toNat 4096) ∧
    Locks W n (p.writes W (PmpNapotSize.phaseB base)) [0, 1] [0, 1]
      (Region base.toNat 65536) := by
  have hpage : AlignedAt 4096 base := by
    obtain ⟨haligned, hbound⟩ := hbase
    exact ⟨by omega, hbound⟩
  exact ⟨page_locks W hboot hn hscratch, word_locks W hboot hn (by decide),
    word_locks W hboot hn (by decide), page_locks W hboot hn hpage,
    phaseB_locks W hboot hn hbase⟩

/-- Registers that reset left off, and a hart that keeps the old byte where a new one is
reserved. -/
def sampleBoot : Regs :=
  ⟨fun _ => 0, fun _ => 0⟩

@[inherit_doc sampleBoot] def sampleWarl : Warl where
  legal old c := if Legal c then c else old
  legal_eq _ _ h := if_pos h

theorem sampleBoot_booted : Booted sampleBoot := by
  intro i
  have hzero : sampleBoot.entry i = 0 := by
    apply BitVec.eq_of_toNat_eq
    simp [Regs.entry, sampleBoot]
  rw [hzero]
  exact ⟨rfl, rfl⟩

theorem sample_entry0_locks :
    Locks sampleWarl 16 (sampleBoot.writes sampleWarl (PmpLockBit.program 0x80010000)) [0] [0]
      (Region 0x80010000 4096) ∧
    Locks sampleWarl 16 (sampleBoot.writes sampleWarl PmpNa4Match.program) [0] [0]
      (Region 0x80002000 4) ∧
    Locks sampleWarl 16 (sampleBoot.writes sampleWarl PmpNa4LowEdge.program) [0] [0]
      (Region 0x80002400 4) ∧
    Locks sampleWarl 16 (sampleBoot.writes sampleWarl (PmpNapotSize.phaseA 0x80020000)) [0] [0]
      (Region 0x80020000 4096) ∧
    Locks sampleWarl 16 (sampleBoot.writes sampleWarl (PmpNapotSize.phaseB 0x80020000)) [0, 1]
      [0, 1] (Region 0x80020000 65536) :=
  entry0_locks sampleWarl sampleBoot sampleBoot_booted 16 (by decide) 0x80010000 0x80020000
    (by decide) (by decide)

/-! ## Entry 1 -/

section Tor

variable (W : Warl) {p : Regs} (hboot : Booted p)

include hboot

/-- The registers behind the program: entry 1 is locked, and entry 0 is off again. -/
theorem tor_spec (start stop : Word) :
    let q := p.writes W (PmpTor.program start stop)
    q.entry 0 = 0 ∧ q.entry 1 = 0x88 ∧ (∀ i, 1 < i → mode (q.entry i) = .off) ∧
      q.addr 0 = (start >>> 2).setWidth 54 ∧ q.addr 1 = (stop >>> 2).setWidth 54 := by
  intro q
  let r := (p.write W (.addr 0 (start >>> 2))).write W (.addr 1 (stop >>> 2))
  have hbooted : Booted r := (hboot.write_addr 0 _).write_addr 1 _
  have hq : q = (r.write W (.cfg 0 PMPCFG0_TOR_LAYOUT)).write W (.cfg 0 0) := rfl
  have hbytes : ∀ i < 8, PMPCFG0_TOR_LAYOUT.extractLsb' (8 * i) 8 =
      (if i = 0 then 0x0F else if i = 1 then 0x88 else 0 : BitVec 8) ∧
        Legal (PMPCFG0_TOR_LAYOUT.extractLsb' (8 * i) 8) := by
    decide
  have hlayout : ∀ i, (r.write W (.cfg 0 PMPCFG0_TOR_LAYOUT)).entry i =
      if i < 8 then (if i = 0 then 0x0F else if i = 1 then 0x88 else 0) else r.entry i := by
    intro i
    rw [entry_first_cfg hbooted fun i hi => (hbytes i hi).2]
    split
    next hi => exact (hbytes i hi).1
    next => rfl
  have hcleared : ∀ i, locked ((r.write W (.cfg 0 PMPCFG0_TOR_LAYOUT)).entry i) = false → i < 8 →
      q.entry i = 0 := by
    intro i hfree hi
    have hzero : (0 : Word).extractLsb' (8 * (i % 8)) 8 = 0 := by simp
    rw [hq, entry_write_cfg, if_pos (by omega), Regs.written, hfree, hzero]
    exact W.legal_eq _ _ (by decide)
  have hallow : (r.write W (.cfg 0 PMPCFG0_TOR_LAYOUT)).entry 0 = 0x0F := by simp [hlayout]
  have hdeny : (r.write W (.cfg 0 PMPCFG0_TOR_LAYOUT)).entry 1 = 0x88 := by simp [hlayout]
  refine ⟨hcleared 0 (by rw [hallow]; rfl) (by decide), ?_, fun i hi => ?_, ?_, ?_⟩
  · rw [hq, entry_write_of_locked (by rw [hdeny]; rfl), hdeny]
  · rcases Nat.lt_or_ge i 8 with hlt | hge
    · rw [hcleared i ?_ hlt]
      · rfl
      · rw [hlayout, if_pos hlt, if_neg (by omega), if_neg (by omega)]
        rfl
    · rw [hq, entry_write_cfg, if_neg (by omega), hlayout, if_neg (by omega)]
      exact (hbooted i).1
  · have hfirst := pinned_of_booted hboot 0
    have haddr : r.addr 0 = (p.write W (.addr 0 (start >>> 2))).addr 0 := by
      rw [addr_write_addr, if_neg (by simp)]
    rw [hq, addr_write_cfg, addr_write_cfg, haddr, addr_write_addr, if_pos ⟨rfl, hfirst⟩]
  · have hsecond := pinned_of_booted (hboot.write_addr (W := W) 0 (start >>> 2)) 1
    rw [hq, addr_write_cfg, addr_write_cfg, addr_write_addr, if_pos ⟨rfl, hsecond⟩]

end Tor

/-- The `TOR` labs: behind the program every mode is denied the whole page, and the lock
keeps entry 1 and both bounds.  What it keeps denied is the page without its first
eight bytes, which one write of `pmpcfg0` opens to every mode. -/
theorem tor_locks (W : Warl) (p : Regs) (hboot : Booted p) (n : Nat) (hn : 2 ≤ n)
    (start stop : Word) (hstart : AlignedAt 4096 start) (hstop : stop.toNat = start.toNat + 4096)
    (hbound : stop.toNat < 2 ^ 56) :
    (∀ a, Region start.toNat 4096 a → ∀ priv access,
      (p.writes W (PmpTor.program start stop)).allows n priv access a = false) ∧
    Locks W n (p.writes W (PmpTor.program start stop)) [1] [0, 1]
      (Region (start.toNat + 8) 4088) ∧
    ∀ a, Region start.toNat 8 a → ∀ priv access,
      ((p.writes W (PmpTor.program start stop)).write W (.cfg 0 0x1f)).allows n priv access a
        = true := by
  obtain ⟨hoff, hdeny, hothers, hlo, hhi⟩ := tor_spec W hboot start stop
  set q := p.writes W (PmpTor.program start stop) with hq
  obtain ⟨haligned, -⟩ := hstart
  have hlo' : (q.addr 0).toNat = start.toNat / 4 := by
    rw [hlo, BitVec.toNat_setWidth, BitVec.toNat_ushiftRight, Nat.shiftRight_eq_div_pow]
    omega
  have hhi' : (q.addr 1).toNat = stop.toNat / 4 := by
    rw [hhi, BitVec.toNat_setWidth, BitVec.toNat_ushiftRight, Nat.shiftRight_eq_div_pow]
    omega
  have hlock : locked (q.entry 1) = true := by rw [hdeny]; rfl
  have htor : mode (q.entry 1) = .tor := by rw [hdeny]; rfl
  have hnone : ∀ access, permits (q.entry 1) access = false := by
    rw [hdeny]
    rintro (_ | _ | _) <;> rfl
  refine ⟨fun a ha priv access => ?_, ⟨?_, ?_, fun a => ?_⟩, fun a ha priv access => ?_⟩
  · have hmatch : q.covers a 1 = true := by
      rw [covers_of_tor htor hlo' hhi']
      unfold Region at ha
      omega
    have hbelow : ∀ j < 1, q.covers a j = false := by
      intro j hj
      rw [Nat.lt_one_iff.mp hj]
      exact Regs.covers_of_off (by rw [hoff]; rfl)
    rw [allows_of_first (by omega) hmatch hbelow, hlock, hnone]
    simp
  · intro ws i hi
    rw [List.mem_singleton.mp hi]
    exact entry_writes_of_locked hlock ws
  · intro ws i hi
    have hpinned : q.pinned i = true := by
      simp only [List.mem_cons, List.not_mem_nil, or_false] at hi
      rcases hi with rfl | rfl <;> simp [Regs.pinned, hlock, htor]
    exact addr_writes_of_pinned hpinned ws
  · rw [sealed_iff_of_tor hn hoff hlock htor hnone hothers hlo' hhi' (by omega)]
    unfold Region
    omega
  · unfold Region at ha
    exact allows_of_opened (by omega) hoff hlo' (by omega) (by omega) (by omega) priv access

theorem sample_tor_locks :
    (∀ a, Region 0x80003000 4096 a → ∀ priv access,
      (sampleBoot.writes sampleWarl (PmpTor.program 0x80003000 0x80004000)).allows 16 priv access a
        = false) ∧
    Locks sampleWarl 16 (sampleBoot.writes sampleWarl (PmpTor.program 0x80003000 0x80004000))
      [1] [0, 1] (Region (0x80003000 + 8) 4088) ∧
    ∀ a, Region 0x80003000 8 a → ∀ priv access,
      ((sampleBoot.writes sampleWarl (PmpTor.program 0x80003000 0x80004000)).write sampleWarl
        (.cfg 0 0x1f)).allows 16 priv access a = true :=
  tor_locks sampleWarl sampleBoot sampleBoot_booted 16 (by decide) 0x80003000 0x80004000
    (by decide) (by decide) (by decide)

end PmpLocks
end BareMetal
