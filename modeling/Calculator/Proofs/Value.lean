import Calculator.Proofs.Outcome

namespace Calculator

variable {text : String} {ts : List Token} {v : Operand} {w : Word}

theorem evaluate_of_reads (h : Reads 0 text.toList ts)
    (hv : v.IsValueOf (IsExpression Word.Fits) ts) : evaluate text = .ok v.value := by
  have ⟨m, hm, hf⟩ := (Machine.reachesSum hv).finish ⟨.finish, 0, 0⟩
  exact evaluate_eq_ok_iff_finish.mpr ⟨ts, m, v, h, hm, Machine.finish_eq_ok hf, rfl⟩

theorem reads_of_evaluate (h : evaluate text = .ok w) :
    ∃ ts, ∃ v : Operand,
      Reads 0 text.toList ts ∧ v.IsValueOf (IsExpression Word.Fits) ts ∧ v.value = w := by
  have ⟨ts, m, v, hr, hm, hf, hv⟩ := evaluate_eq_ok_iff_finish.mp h
  exact ⟨ts, v, hr, (hr.has hm).isExpression (hf ⟨.finish, 0, 0⟩), hv⟩

-- A text has a value exactly if it consists of blanks, digits and operators, all its numerals are
-- words, and it spells an expression of which no result leaves the words. The value is then the one
-- that whole-number arithmetic gives.
theorem evaluate_eq_ok_iff (text : String) (v : Word) :
    evaluate text = .ok v ↔
      (∀ c ∈ text.toList, Text.isBlank c ∨ c.isDigit ∨ c ∈ ['+', '-', '*', '/']) ∧
      (∀ front run back, MaximalRun text.toList front run back →
        (Numeral.value run : Int) ≤ Int64.maxValue.toInt) ∧
      ∃ row, Spells text.toList row ∧ IsExpression Word.Fits row v.toInt := by
  constructor
  case mp =>
    intro h
    obtain ⟨ts, v, hr, hv, rfl⟩ := reads_of_evaluate h
    have ⟨row, hs, hm⟩ := hr.spells
    have ⟨row', hm', hi⟩ := hv.sentence
    refine ⟨hr.legal, ?_, row, hs, hm.eq hm' ▸ hi⟩
    intro front run back hx
    have ⟨n, hn⟩ := hr.exists_word hx
    exact Numeral.toInt_of_read? hn ▸ n.fits_toInt.2
  case mpr =>
    rintro ⟨-, hn, row, hs, hi⟩
    -- The numerals in the row are runs of digits of the text, and therefore words.
    have hw : ∀ n : Nat, Lexeme.number n ∈ row → ∃ w, Word.ofInt? n = some w := by
      intro n hx
      have ⟨front, run, back, hr, he⟩ := hs.exists_run hx
      have hf : Word.Fits n := Word.fits_iff.mpr ⟨by omega, he ▸ hn front run back hr⟩
      have ⟨w, hw⟩ := hf.exists_word
      exact ⟨w, Word.ofInt?_eq_some_iff.mpr hw⟩
    have ⟨ts, hr, hm⟩ := hs.reads (p := 0) hw
    have ⟨w, he, hv⟩ := Machine.exists_isValueOf hi hm v.fits_toInt hi.ne_nil
    rw [evaluate_of_reads hr hv, Int64.toInt_inj.mp he]

end Calculator
