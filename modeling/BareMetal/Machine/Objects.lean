import BareMetal.Machine.Hart

/-!
# Linked objects

Assembly that works on several static objects of a program reaches them
through their link-time addresses.  Which stores can hit which loads depends
only on the objects being separate: a `Layout` places every object, so that no
doubleword belongs to two of them, and `Layout.update_word` is the one rule
for reading a word of an object behind a store to a word of an object.
-/

namespace BareMetal
namespace Machine

/-- Where the objects `ι` of a program are; object `o` has `words o`
doublewords. -/
structure Layout (ι : Type*) (words : ι → Nat) where
  place : ι → Word
  words_le : ∀ o, words o ≤ 2 ^ 32
  disjoint : ∀ o o', ∀ i < words o, ∀ j < words o',
    addr (place o) (i * 8) = addr (place o') (j * 8) → o = o'

namespace Layout

variable {ι : Type*} {words : ι → Nat} (l : Layout ι words)

/-- The address of word `i` of an object. -/
def word (o : ι) (i : Nat) : Word :=
  addr (l.place o) (i * 8)

/-- An object starts with its word 0. -/
theorem place_eq_word (o : ι) : addr (l.place o) 0 = l.word o 0 := rfl

/-- Indexing as the assembly computes it, by a shift of the index. -/
theorem place_add_shift (o : ι) (i : Word) : addr (l.place o + i <<< 3) 0 = l.word o i.toNat := by
  have hshift : i <<< 3 = BitVec.ofNat 64 (i.toNat * 8) := by
    apply BitVec.eq_of_toNat_eq
    rw [BitVec.toNat_shiftLeft, BitVec.toNat_ofNat, Nat.shiftLeft_eq]
  rw [addr_zero, hshift]
  rfl

/-- Words of objects have one address each. -/
theorem word_inj {o o' : ι} {i j : Nat} (hi : i < words o) (hj : j < words o') :
    l.word o i = l.word o' j ↔ o = o' ∧ i = j := by
  constructor
  · intro heq
    obtain rfl := l.disjoint o o' i hi j hj heq
    have hle := l.words_le o
    have hoff : i * 8 = j * 8 := (addr_inj (by omega) (by omega)).mp heq
    exact ⟨rfl, by omega⟩
  · rintro ⟨rfl, rfl⟩
    rfl

/-- Reading a word behind a store to a word. -/
theorem update_word [DecidableEq ι] (m : Mem) (v : Word) {o o' : ι} {i j : Nat} (hi : i < words o)
    (hj : j < words o') :
    Function.update m (l.word o i) v (l.word o' j) =
      if o' = o ∧ j = i then v else m (l.word o' j) := by
  by_cases h : o' = o ∧ j = i
  · obtain ⟨rfl, rfl⟩ := h
    simp
  · rw [if_neg h, Function.update_of_ne]
    exact fun heq => h ((l.word_inj hj hi).mp heq)

/-- A store to one object is not seen in another. -/
theorem update_word_of_ne (m : Mem) (v : Word) {o o' : ι} {i j : Nat} (ho : o' ≠ o)
    (hi : i < words o) (hj : j < words o') :
    Function.update m (l.word o i) v (l.word o' j) = m (l.word o' j) :=
  Function.update_of_ne (fun heq => ho ((l.word_inj hj hi).mp heq).1) _ _

end Layout

end Machine
end BareMetal
