import BareMetal.Uart
import Mathlib.Data.Nat.Digits.Lemmas

/-!
# Printing numbers

`uart_put_uint` stores the digits of a number in reverse in a buffer of 24
bytes and sends the buffer backwards.  `uartPutUint` sends the digits from a
list; `uartPutUintBuf` below works on the buffer itself and has no result when
it stores outside of it.  `uartPutUintBuf_eq` relates the two, and the digits
are those of `Nat.digits`, so that reading the numeral back is a fact about
`Nat.ofDigits`.
-/

namespace BareMetal
namespace Uart

open Machine

/-! ## The digit buffer -/

/-- `char buf[24]`. -/
def BUF_SIZE : Nat := 24

/-- The first loop of `uart_put_uint`, from `i` on.  `none` when it stores
outside of the buffer. -/
def fillBuf (base : Nat) (hbase : 2 ≤ base) (digits : List UInt8) (v : Nat) (buf : Nat → UInt8)
    (i : Nat) : Option ((Nat → UInt8) × Nat) :=
  if _hv : v = 0 then some (buf, i)
  else if i < BUF_SIZE then
    fillBuf base hbase digits (v / base) (Function.update buf i (digits.getD (v % base) 0)) (i + 1)
  else none
termination_by v
decreasing_by exact Nat.div_lt_self (Nat.pos_of_ne_zero _hv) hbase

/-- The second loop: everything below `i`, from the top. -/
def emitBuf (buf : Nat → UInt8) : Nat → List Op
  | 0 => []
  | i + 1 => uartPutc (buf i) ++ emitBuf buf i

/-- `uart_put_uint` on its buffer, whose contents are arbitrary at the start. -/
def uartPutUintBuf (v : Word) (base : Nat) (hbase : 2 ≤ base) (digits : List UInt8)
    (stack : Nat → UInt8) : Option (List Op) :=
  if v = 0 then some (uartPutc 0x30)
  else (fillBuf base hbase digits v.toNat stack 0).map fun out => emitBuf out.1 out.2

/-! ## The digits -/

section Digits

variable {base : Nat} (hbase : 2 ≤ base) (digits : List UInt8)

/-- The digits of a number as text, the highest first. -/
def digitText (base : Nat) (digits : List UInt8) (v : Nat) : List UInt8 :=
  (Nat.digits base v).reverse.map fun d => digits.getD d 0

include hbase in
/-- The last digit is printed behind the others. -/
theorem digitText_of_ne_zero {v : Nat} (hv : v ≠ 0) :
    digitText base digits v =
      digitText base digits (v / base) ++ [digits.getD (v % base) 0] := by
  rw [digitText, digitText, Nat.digits_def' hbase (Nat.pos_of_ne_zero hv), List.reverse_cons,
    List.map_append, List.map_singleton]

theorem digitLoop_eq (v : Nat) (buf : List UInt8) :
    digitLoop base hbase digits v buf = digitText base digits v ++ buf := by
  induction v using Nat.strong_induction_on generalizing buf with
  | _ v ih =>
    rw [digitLoop]
    by_cases hv : v = 0
    · rw [dif_pos hv, hv, digitText, Nat.digits_zero]
      rfl
    · rw [dif_neg hv, ih _ (Nat.div_lt_self (Nat.pos_of_ne_zero hv) hbase),
        digitText_of_ne_zero hbase digits hv, List.append_assoc, List.singleton_append]

/-- What is sent below an index does not depend on the bytes from there on. -/
theorem emitBuf_update (buf : Nat → UInt8) (c : UInt8) {n i : Nat} (hn : n ≤ i) :
    emitBuf (Function.update buf i c) n = emitBuf buf n := by
  induction n with
  | zero => rfl
  | succ n ih =>
      rw [emitBuf, emitBuf, ih (by omega), Function.update_of_ne (by omega)]

/-- As long as the digits fit, the buffer ends up with them behind what was
there. -/
theorem fillBuf_eq (v : Nat) (buf : Nat → UInt8) (i : Nat)
    (hfits : i + (Nat.digits base v).length ≤ BUF_SIZE) :
    ∃ buf', fillBuf base hbase digits v buf i = some (buf', i + (Nat.digits base v).length) ∧
      emitBuf buf' (i + (Nat.digits base v).length) =
        (digitText base digits v).flatMap uartPutc ++ emitBuf buf i := by
  induction v using Nat.strong_induction_on generalizing buf i with
  | _ v ih =>
    rw [fillBuf]
    by_cases hv : v = 0
    · rw [dif_pos hv, hv]
      exact ⟨buf, by rw [Nat.digits_zero]; rfl, by rw [digitText, Nat.digits_zero]; rfl⟩
    · have hdigits := Nat.digits_def' hbase (Nat.pos_of_ne_zero hv)
      have hlength : i + (Nat.digits base v).length =
          i + 1 + (Nat.digits base (v / base)).length := by
        rw [hdigits, List.length_cons]
        omega
      rw [hlength] at hfits ⊢
      have hroom : i < BUF_SIZE := by omega
      obtain ⟨buf', hfill, hemit⟩ := ih (v / base)
        (Nat.div_lt_self (Nat.pos_of_ne_zero hv) hbase)
        (Function.update buf i (digits.getD (v % base) 0)) (i + 1) hfits
      refine ⟨buf', ?_, ?_⟩
      · rw [dif_neg hv, if_pos hroom]
        exact hfill
      · rw [hemit, emitBuf, Function.update_self, emitBuf_update buf _ (Nat.le_refl i),
          digitText_of_ne_zero hbase digits hv, List.flatMap_append, List.flatMap_singleton,
          List.append_assoc]

/-- A word has at most 24 digits in base 10 and above. -/
theorem length_digits_le (hten : 10 ≤ base) (v : Word) :
    (Nat.digits base v.toNat).length ≤ BUF_SIZE := by
  rw [Nat.digits_length_le_iff (by omega)]
  have hpow : 10 ^ BUF_SIZE ≤ base ^ BUF_SIZE := Nat.pow_le_pow_left hten _
  have hword : v.toNat < 2 ^ 64 := v.isLt
  have hbound : (2 : Nat) ^ 64 ≤ 10 ^ BUF_SIZE := by decide
  omega

/-- On every word the buffer is large enough, and what is sent from it is what
`uart_put_uint` sends. -/
theorem uartPutUintBuf_eq (hten : 10 ≤ base) (v : Word) (stack : Nat → UInt8) :
    uartPutUintBuf v base hbase digits stack = some (uartPutUint v base hbase digits) := by
  rw [uartPutUintBuf, uartPutUint]
  by_cases hv : v = 0
  · rw [if_pos hv, if_pos hv]
  · have hlength := length_digits_le hten v
    obtain ⟨buf, hfill, hemit⟩ := fillBuf_eq hbase digits v.toNat stack 0 (by omega)
    rw [if_neg hv, if_neg hv, hfill, Option.map_some, digitLoop_eq, List.append_nil]
    dsimp only
    rw [hemit, emitBuf, List.append_nil]

end Digits

/-! ## Reading a numeral -/

/-- The value of a digit of the numerals `uart_put_dec` and `uart_put_hex`
send. -/
def digitValue (c : UInt8) : Option Nat :=
  if 0x30 ≤ c ∧ c ≤ 0x39 then some (c.toNat - 0x30)
  else if 0x61 ≤ c ∧ c ≤ 0x66 then some (c.toNat - 0x61 + 10)
  else none

theorem digitValue_zero : digitValue 0x30 = some 0 := by decide

/-- Read digits behind a number that was read already. -/
def readDigits (base : Nat) (acc : Nat) : List UInt8 → Option Nat
  | [] => some acc
  | c :: rest =>
      (digitValue c).bind fun d =>
        if d < base then readDigits base (acc * base + d) rest else none

/-- Read a numeral: at least one digit, each of them below the base. -/
def readNumeral (base : Nat) : List UInt8 → Option Nat
  | [] => none
  | c :: rest => readDigits base 0 (c :: rest)

/-- The text is the numeral of the value: it reads as the value, and a leading
zero is the whole of it. -/
structure Numeral (base : Nat) (text : List UInt8) (value : Nat) : Prop where
  reads : readNumeral base text = some value
  noLeadingZero : text.head? = some 0x30 → text = [0x30]

/-- The digit string has the digits of the base in order. -/
def Spells (base : Nat) (digits : List UInt8) : Prop :=
  ∀ d, d < base → digitValue (digits.getD d 0) = some d

theorem spells_dec : Spells 10 (ascii "0123456789") := by
  unfold Spells
  decide +kernel

theorem spells_hex : Spells 16 (ascii "0123456789abcdef") := by
  unfold Spells
  decide +kernel

section Spelled

variable {base : Nat} {digits : List UInt8}

/-- A digit goes out as it is: it is no newline. -/
theorem sent_uartPutc {c : UInt8} {d : Nat} (hc : digitValue c = some d) :
    sent (uartPutc c) = [c] := by
  have hne : c ≠ 0x0a := by
    rintro rfl
    cases hc
  rw [uartPutc, if_neg hne, putRaw, sent_waitThre, sent_thr, sent_nil]

theorem sent_append (ops ops' : List Op) : sent (ops ++ ops') = sent ops ++ sent ops' :=
  List.filterMap_append

/-- A text of digits goes out as it is. -/
theorem sent_flatMap_uartPutc (hs : Spells base digits) {ds : List Nat}
    (hds : ∀ d ∈ ds, d < base) :
    sent ((ds.map fun d => digits.getD d 0).flatMap uartPutc) =
      ds.map fun d => digits.getD d 0 := by
  induction ds with
  | nil => rfl
  | cons d ds ih =>
      rw [List.map_cons, List.flatMap_cons, sent_append,
        sent_uartPutc (hs d (hds d List.mem_cons_self)),
        ih fun d' hd' => hds d' (List.mem_cons_of_mem d hd'), List.singleton_append]

/-- Reading a text of digits accumulates their value, the highest first. -/
theorem readDigits_map (hs : Spells base digits) {ds : List Nat} (hds : ∀ d ∈ ds, d < base)
    (acc : Nat) :
    readDigits base acc (ds.map fun d => digits.getD d 0) =
      some (ds.foldl (fun a d => a * base + d) acc) := by
  induction ds generalizing acc with
  | nil => rfl
  | cons d ds ih =>
      have hd := hds d List.mem_cons_self
      rw [List.map_cons, readDigits, hs d hd, Option.bind_some, if_pos hd,
        ih fun d' hd' => hds d' (List.mem_cons_of_mem d hd'), List.foldl_cons]

/-- The value of the digits of a number, the highest first, is the number. -/
theorem foldl_reverse_digits (b v : Nat) :
    (Nat.digits b v).reverse.foldl (fun a d => a * b + d) 0 = v := by
  have hfold : (fun (d a : Nat) => a * b + d) = fun d a => d + b * a := by
    funext d a
    ring
  rw [List.foldl_reverse, hfold]
  have hvalue := Nat.ofDigits_eq_foldr b (Nat.digits b v)
  simp only [Nat.cast_id] at hvalue
  rw [← hvalue, Nat.ofDigits_digits]

/-- A number that is not zero is sent as its digits. -/
theorem sent_uartPutUint (hbase : 2 ≤ base) (hs : Spells base digits) {v : Word} (hv : v ≠ 0) :
    sent (uartPutUint v base hbase digits) = digitText base digits v.toNat := by
  rw [uartPutUint, if_neg hv, digitLoop_eq, List.append_nil]
  exact sent_flatMap_uartPutc hs fun d hd =>
    Nat.digits_lt_base hbase (List.mem_reverse.mp hd)

/-- `uart_put_uint` sends the numeral of its argument. -/
theorem uartPutUint_numeral (hbase : 2 ≤ base) (hs : Spells base digits) (v : Word) :
    Numeral base (sent (uartPutUint v base hbase digits)) v.toNat := by
  by_cases hv : v = 0
  · subst hv
    have hzero : sent (uartPutUint 0 base hbase digits) = [0x30] := by
      rw [uartPutUint, if_pos rfl]
      rfl
    rw [hzero]
    refine ⟨?_, fun _ => rfl⟩
    rw [readNumeral, readDigits, digitValue_zero, Option.bind_some, if_pos (by omega), readDigits,
      Nat.zero_mul]
    rfl
  · have hnat : v.toNat ≠ 0 := by
      intro h0
      exact hv (BitVec.eq_of_toNat_eq h0)
    have hlow : ∀ d ∈ (Nat.digits base v.toNat).reverse, d < base := fun d hd =>
      Nat.digits_lt_base hbase (List.mem_reverse.mp hd)
    rw [sent_uartPutUint hbase hs hv]
    -- the highest digit is there and is not zero
    obtain ⟨top, rest, hdigits⟩ : ∃ top rest, (Nat.digits base v.toNat).reverse = top :: rest :=
      List.exists_cons_of_ne_nil
        (List.reverse_ne_nil_iff.mpr (Nat.digits_ne_nil_iff_ne_zero.mpr hnat))
    have htop : top ≠ 0 := by
      have hlast := Nat.getLast_digit_ne_zero base hnat
      rw [List.getLast_eq_head_reverse] at hlast
      simp only [hdigits, List.head_cons] at hlast
      exact hlast
    have hvalue := foldl_reverse_digits base v.toNat
    rw [hdigits] at hvalue hlow
    rw [digitText, hdigits]
    constructor
    · rw [List.map_cons, readNumeral, ← List.map_cons (f := fun d => digits.getD d 0),
        readDigits_map hs hlow, hvalue]
    · intro hhead
      have hchar : digits.getD top 0 = 0x30 := Option.some.inj hhead
      have hdigit := hs top (hlow top List.mem_cons_self)
      rw [hchar, digitValue_zero] at hdigit
      exact absurd (Option.some.inj hdigit).symm htop

end Spelled

/-! ## The two printers -/

/-- The digits of a hexadecimal number come behind its mark. -/
theorem sent_uartPutHex (v : Word) :
    sent (uartPutHex v) = ascii "0x" ++
      sent (uartPutUint v 16 (by decide) (ascii "0123456789abcdef")) := by
  rw [uartPutHex, sent_append]
  rfl

/-- For every word, `uart_put_dec` and `uart_put_hex` send its numeral, the
latter behind `0x`; different words give different output; and the loop that
fills the digit buffer stays inside of it. -/
theorem printed_numbers_faithful :
    (∀ v, Numeral 10 (sent (uartPutDec v)) v.toNat) ∧
      (∀ v, ∃ text, sent (uartPutHex v) = ascii "0x" ++ text ∧ Numeral 16 text v.toNat) ∧
      Function.Injective (fun v => sent (uartPutDec v)) ∧
      Function.Injective (fun v => sent (uartPutHex v)) ∧
      (∀ v stack, uartPutUintBuf v 10 (by decide) (ascii "0123456789") stack =
        some (uartPutUint v 10 (by decide) (ascii "0123456789"))) ∧
      ∀ v stack, uartPutUintBuf v 16 (by decide) (ascii "0123456789abcdef") stack =
        some (uartPutUint v 16 (by decide) (ascii "0123456789abcdef")) := by
  have hdec : ∀ v, Numeral 10 (sent (uartPutDec v)) v.toNat := fun v =>
    uartPutUint_numeral (by decide) spells_dec v
  have hhex : ∀ v, Numeral 16
      (sent (uartPutUint v 16 (by decide) (ascii "0123456789abcdef"))) v.toNat := fun v =>
    uartPutUint_numeral (by decide) spells_hex v
  refine ⟨hdec, fun v => ⟨_, sent_uartPutHex v, hhex v⟩, ?_, ?_,
    fun v stack => uartPutUintBuf_eq (by decide) _ (by decide) v stack,
    fun v stack => uartPutUintBuf_eq (by decide) _ (by decide) v stack⟩
  · intro v w hsame
    have hread := (hdec v).reads
    rw [show sent (uartPutDec v) = sent (uartPutDec w) from hsame, (hdec w).reads] at hread
    exact BitVec.eq_of_toNat_eq (Option.some.inj hread).symm
  · intro v w hsame
    have htext : ascii "0x" ++ _ = ascii "0x" ++ _ :=
      (sent_uartPutHex v).symm.trans (hsame.trans (sent_uartPutHex w))
    have hread := (hhex v).reads
    rw [List.append_cancel_left htext, (hhex w).reads] at hread
    exact BitVec.eq_of_toNat_eq (Option.some.inj hread).symm

end Uart
end BareMetal
