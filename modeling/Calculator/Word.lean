namespace Calculator

abbrev Word := Int64

namespace Word

def Fits (i : Int) : Prop :=
  Int64.minValue.toInt ≤ i ∧ i ≤ Int64.maxValue.toInt

instance : DecidablePred Fits :=
  fun i => inferInstanceAs (Decidable (Int64.minValue.toInt ≤ i ∧ i ≤ Int64.maxValue.toInt))

theorem fits_iff {i : Int} : Fits i ↔ -9223372036854775808 ≤ i ∧ i ≤ 9223372036854775807 :=
  Iff.rfl

theorem fits_toInt (w : Word) : Fits w.toInt :=
  ⟨w.minValue_le_toInt, w.toInt_le⟩

theorem Fits.exists_word {i : Int} (h : Fits i) : ∃ w : Word, w.toInt = i :=
  ⟨.ofInt i, Int64.toInt_ofInt_of_le h.1 (Int.lt_add_one_of_le h.2)⟩

def ofInt? (i : Int) : Option Word :=
  if Fits i then some (.ofInt i) else none

theorem ofInt?_eq_some_iff {i : Int} {w : Word} : ofInt? i = some w ↔ w.toInt = i := by
  unfold ofInt?
  split
  case isTrue h =>
    rw [Option.some.injEq, ← Int64.toInt_inj,
      Int64.toInt_ofInt_of_le h.1 (Int.lt_add_one_of_le h.2)]
    exact eq_comm
  case isFalse h =>
    simp only [reduceCtorEq, false_iff]
    rintro rfl
    exact h w.fits_toInt

theorem ofInt?_eq_none_iff {i : Int} : ofInt? i = none ↔ ¬ Fits i := by
  simp [ofInt?]

@[simp] theorem ofInt?_toInt (w : Word) : ofInt? w.toInt = some w :=
  ofInt?_eq_some_iff.2 rfl

theorem toInt_neg {w : Word} (h : 0 ≤ w.toInt) : (-w).toInt = -w.toInt := by
  rw [Int64.toInt_neg]
  have := w.toInt_lt
  apply Int.bmod_eq_of_le <;> omega

def text (w : Word) : String :=
  toString w.toInt

theorem text_of_toInt {w : Word} {n : Nat} (h : w.toInt = n) : w.text = toString n := by
  rw [text, h]
  rfl

theorem text_of_toInt_negSucc {w : Word} {n : Nat} (h : w.toInt = .negSucc n) :
    w.text = "-" ++ toString (n + 1) := by
  rw [text, h]
  rfl

end Word
end Calculator
