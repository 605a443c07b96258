import Calculator.Word

namespace Calculator.Numeral

def value (digits : List Char) : Nat :=
  Nat.ofDigitChars 10 digits 0

def extend? (w : Word) (digit : Char) : Option Word :=
  Word.ofInt? (10 * w.toInt + (digit.toNat - '0'.toNat : Nat))

-- Reads the digits from the left and stops where the number no longer fits.
def read? (digits : List Char) : Option Word :=
  digits.foldlM extend? 0

theorem value_toString (n : Nat) : value (toString n).toList = n := by
  rw [Nat.toString_eq_repr, Nat.toList_repr]
  exact Nat.ofDigitChars_toDigits (by decide) (by decide)

theorem isDigit_toString (n : Nat) : ∀ c ∈ (toString n).toList, c.isDigit := by
  rw [Nat.toString_eq_repr, Nat.toList_repr]
  exact fun c => Nat.isDigit_of_mem_toDigits (by decide) (by decide)

theorem toString_ne_nil (n : Nat) : (toString n).toList ≠ [] := by
  rw [Nat.toString_eq_repr, Nat.toList_repr]
  exact Nat.toDigits_ne_nil

theorem value_zeros (n : Nat) (digits : List Char) :
    value (.replicate n '0' ++ digits) = value digits := by
  induction n with
  | zero => rfl
  | succ n ih => exact ih

theorem le_ofDigitChars (digits : List Char) (n : Nat) : n ≤ Nat.ofDigitChars 10 digits n := by
  rw [Nat.ofDigitChars_eq_ofDigitChars_zero]
  have : 1 * n ≤ 10 ^ digits.length * n := Nat.mul_le_mul_right n (Nat.pow_pos (by decide))
  omega

theorem foldlM_extend?_eq {digits : List Char} {w : Word} {n : Nat} (h : w.toInt = n) :
    digits.foldlM extend? w = Word.ofInt? (Nat.ofDigitChars 10 digits n) := by
  induction digits generalizing w n with
  | nil => simp [← h]
  | cons d digits ih =>
    rw [List.foldlM_cons, Nat.ofDigitChars_cons]
    cases he : extend? w d with
    | none =>
      have hw := Word.ofInt?_eq_none_iff.1 he
      have := le_ofDigitChars digits (10 * n + (d.toNat - '0'.toNat))
      refine (Word.ofInt?_eq_none_iff.2 ?_).symm
      rw [Word.fits_iff] at hw ⊢
      omega
    | some v =>
      have := Word.ofInt?_eq_some_iff.1 he
      exact ih (by omega)

theorem read?_eq (digits : List Char) : read? digits = Word.ofInt? (value digits) :=
  foldlM_extend?_eq (by decide)

theorem toInt_of_read? {digits : List Char} {w : Word} (h : read? digits = some w) :
    w.toInt = value digits := by
  rwa [read?_eq, Word.ofInt?_eq_some_iff] at h

end Calculator.Numeral
