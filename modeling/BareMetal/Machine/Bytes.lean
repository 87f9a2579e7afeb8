import Mathlib.Data.Nat.ModEq
import Mathlib.Tactic

/-!
# Byte memory

Memory as a map from addresses to bytes, with little-endian loads and stores of
any width.  Two agents that share a memory need little more than this: a store
is read back where nothing else has been written since.
-/

namespace BareMetal
namespace Machine

abbrev ByteMem := Nat → UInt8

/-- The little-endian number in the `n` bytes at `a`. -/
def loadLE (m : ByteMem) (a : Nat) : Nat → Nat
  | 0 => 0
  | n + 1 => (m a).toNat + 256 * loadLE m (a + 1) n

/-- Write the `n` bytes `f 0`, `f 1`, … at `a`. -/
def writeBytes (m : ByteMem) (a n : Nat) (f : Nat → UInt8) : ByteMem :=
  fun x => if a ≤ x ∧ x < a + n then f (x - a) else m x

/-- Write `v` to the `n` bytes at `a`, little-endian. -/
def storeLE (m : ByteMem) (a n v : Nat) : ByteMem :=
  writeBytes m a n fun i => UInt8.ofNat (v / 256 ^ i)

/-- The bytes `a`, …, `a + n - 1` and `b`, …, `b + k - 1` have none in common. -/
def Apart (a n b k : Nat) : Prop :=
  a + n ≤ b ∨ b + k ≤ a

theorem Apart.symm {a n b k : Nat} (h : Apart a n b k) : Apart b k a n :=
  Or.symm h

theorem Apart.sub {a n b k a' n' b' k' : Nat} (h : Apart a n b k) (ha : a ≤ a')
    (han : a' + n' ≤ a + n) (hb : b ≤ b') (hbk : b' + k' ≤ b + k) : Apart a' n' b' k' := by
  unfold Apart at h ⊢
  omega

section Lemmas

variable {m m' : ByteMem} {a b n k v : Nat} {f : Nat → UInt8}

theorem writeBytes_of_lt {i : Nat} (hi : i < n) : writeBytes m a n f (a + i) = f i := by
  rw [writeBytes, if_pos (by omega), Nat.add_sub_cancel_left]

theorem writeBytes_of_apart {x : Nat} (h : Apart x 1 a n) : writeBytes m a n f x = m x := by
  unfold Apart at h
  rw [writeBytes, if_neg (by omega)]

theorem loadLE_congr (h : ∀ i < n, m' (a + i) = m (a + i)) : loadLE m' a n = loadLE m a n := by
  induction n generalizing a with
  | zero => rfl
  | succ n ih =>
      have hhead : m' a = m a := h 0 (Nat.succ_pos n)
      have htail : loadLE m' (a + 1) n = loadLE m (a + 1) n := by
        apply ih
        intro i hi
        rw [Nat.add_assoc, Nat.add_comm 1 i]
        exact h (i + 1) (by omega)
      rw [loadLE, loadLE, hhead, htail]

theorem loadLE_writeBytes_of_apart (h : Apart a n b k) :
    loadLE (writeBytes m b k f) a n = loadLE m a n := by
  apply loadLE_congr
  intro i hi
  exact writeBytes_of_apart (h.sub (by omega) (by omega) le_rfl le_rfl)

theorem loadLE_storeLE_of_apart (h : Apart a n b k) :
    loadLE (storeLE m b k v) a n = loadLE m a n :=
  loadLE_writeBytes_of_apart h

/-- A load of bytes that are the digits of `v`. -/
theorem loadLE_of_digits (h : ∀ i < n, (m (a + i)).toNat = v / 256 ^ i % 256) :
    loadLE m a n = v % 256 ^ n := by
  induction n generalizing a v with
  | zero => rw [loadLE, pow_zero, Nat.mod_one]
  | succ n ih =>
      have hhead : (m a).toNat = v % 256 := by
        have hzero := h 0 (Nat.succ_pos n)
        rw [pow_zero, Nat.div_one] at hzero
        exact hzero
      have htail : loadLE m (a + 1) n = v / 256 % 256 ^ n := by
        apply ih
        intro i hi
        rw [Nat.add_assoc, Nat.add_comm 1 i, h (i + 1) (by omega), pow_succ', Nat.div_div_eq_div_mul]
      rw [loadLE, hhead, htail, pow_succ', Nat.mod_mul]

/-- A store is read back. -/
theorem loadLE_storeLE_self (hv : v < 256 ^ n) : loadLE (storeLE m a n v) a n = v := by
  rw [← Nat.mod_eq_of_lt hv]
  apply loadLE_of_digits
  intro i hi
  rw [storeLE, writeBytes_of_lt hi, UInt8.toNat_ofNat', Nat.mod_eq_of_lt hv]

/-- A load is 0 exactly when all its bytes are. -/
theorem loadLE_eq_zero_iff : loadLE m a n = 0 ↔ ∀ i < n, m (a + i) = 0 := by
  constructor
  · induction n generalizing a with
    | zero => exact fun _ i hi => absurd hi (Nat.not_lt_zero i)
    | succ n ih =>
        intro hload i hi
        rw [loadLE, Nat.add_eq_zero_iff] at hload
        obtain ⟨hhead, htail⟩ := hload
        cases i with
        | zero => exact UInt8.toNat_inj.mp hhead
        | succ i =>
            have hbyte := ih (a := a + 1) (by omega) i (by omega)
            rwa [Nat.add_assoc, Nat.add_comm 1 i] at hbyte
  · intro hbytes
    rw [← Nat.zero_mod (256 ^ n)]
    apply loadLE_of_digits
    intro i hi
    rw [hbytes i hi, Nat.zero_div]
    rfl

end Lemmas

/-! ## Stores as data -/

/-- A store that is still to be made. -/
structure Store where
  addr : Nat
  width : Nat
  value : Nat
  deriving DecidableEq, Repr

namespace Store

def run (st : Store) (m : ByteMem) : ByteMem :=
  storeLE m st.addr st.width st.value

/-- The store has been made and its bytes are still there. -/
def Holds (st : Store) (m : ByteMem) : Prop :=
  loadLE m st.addr st.width = st.value

/-- The value fits. -/
def Fits (st : Store) : Prop :=
  st.value < 256 ^ st.width

theorem run_of_apart {st : Store} {m : ByteMem} {x : Nat} (h : Apart x 1 st.addr st.width) :
    st.run m x = m x := by
  rw [run, storeLE, writeBytes_of_apart h]

theorem holds_run_self {st : Store} (hfits : st.Fits) (m : ByteMem) : st.Holds (st.run m) :=
  loadLE_storeLE_self hfits

theorem Holds.of_apart {st : Store} {m m' : ByteMem} (h : st.Holds m)
    (hsame : loadLE m' st.addr st.width = loadLE m st.addr st.width) : st.Holds m' :=
  hsame.trans h

theorem Holds.run {st st' : Store} {m : ByteMem} (h : st.Holds m)
    (hapart : Apart st.addr st.width st'.addr st'.width) : st.Holds (st'.run m) :=
  (loadLE_storeLE_of_apart hapart).trans h

end Store

end Machine
end BareMetal
