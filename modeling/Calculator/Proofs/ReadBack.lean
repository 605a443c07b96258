import Calculator.CommandLine.Report
import Calculator.Proofs.FirstFault
import Calculator.Proofs.Value

namespace Calculator

open Text (isBlank size)

def padZeros (n : Nat) (text : String) : String :=
  .ofList (text.toList.takeWhile (!·.isDigit) ++
    (.replicate n '0' ++ text.toList.dropWhile (!·.isDigit)))

variable {n k p : Nat} {v w : Word} {text : String} {sign digits body before after : List Char}
variable {row : List Lexeme}

theorem toList_padZeros (ht : text.toList = sign ++ digits) (hs : ∀ c ∈ sign, c.isDigit = false)
    (hd : ∀ c ∈ digits, c.isDigit) :
    (padZeros n text).toList = sign ++ (.replicate n '0' ++ digits) := by
  have hs : ∀ c ∈ sign, !c.isDigit := by simpa using hs
  have h₁ : digits.takeWhile (!·.isDigit) = [] := by
    cases digits <;> simp_all
  have h₂ : digits.dropWhile (!·.isDigit) = digits := by
    cases digits <;> simp_all
  rw [padZeros, String.toList_ofList, ht, List.takeWhile_append_of_pos hs,
    List.dropWhile_append_of_pos hs, h₁, h₂, List.append_nil]

theorem spelled_zeros (h : w.toInt = k) (n : Nat) :
    Symbol.Spelled (.number w) (.replicate n '0' ++ (toString k).toList) := by
  refine .number ?_ ?_ ?_
  · exact fun h => Numeral.toString_ne_nil k (List.append_eq_nil_iff.mp h).2
  · refine List.forall_mem_append.mpr ⟨fun c hc => ?_, Numeral.isDigit_toString k⟩
    rw [List.eq_of_mem_replicate hc]
    rfl
  · rw [Numeral.read?_eq, Numeral.value_zeros, Numeral.value_toString, Word.ofInt?_eq_some_iff, h]

theorem reads_zeros (h : w.toInt = k) (n p : Nat) :
    ∃ ts, Reads p (.replicate n '0' ++ (toString k).toList) ts ∧ Matches ts [.number k] := by
  have hr := Reads.token (p := p) (spelled_zeros h n) .nil_right .nil
  rw [List.append_nil] at hr
  refine ⟨_, hr, Matches.cons_iff.mpr ⟨?_, rfl⟩⟩
  rw [Lexeme.symbol?, Word.ofInt?_eq_some_iff.mpr h]
  rfl

theorem reads_minus (h : ∃ ts, Reads (p + 1) body ts ∧ Matches ts row) :
    ∃ ts, Reads p (['-'] ++ body) ts ∧ Matches ts (.minus :: row) := by
  have ⟨ts, hr, hm⟩ := h
  exact ⟨_, .token (.sign rfl) (.of_last (by simp)) hr, Matches.cons_iff.mpr ⟨rfl, hm⟩⟩

theorem evaluate_of_isFactor (ht : text.toList = before ++ body ++ after)
    (hb : ∀ c ∈ before, isBlank c) (ha : ∀ c ∈ after, isBlank c)
    (hr : ∃ ts, Reads (0 + size before) body ts ∧ Matches ts row) (hv : IsFactor row v.toInt) :
    evaluate text = .ok v := by
  have ⟨ts, hr, hm⟩ := hr
  have hr := ((Reads.of_blanks hb).append hr (.of_blanks_left hb)).append_blanks ha
  have ⟨w, hw, hi⟩ := Machine.exists_isValueOf hv hm v.fits_toInt hv.ne_nil
  rw [evaluate_of_reads (ht ▸ hr) (hi.mono fun _ _ h => .term (.factor h)), Int64.toInt_inj.mp hw]

theorem Word.exists_abs (hv : v ≠ Int64.minValue) (h : v.toInt = .negSucc k) :
    ∃ w : Word, w.toInt = (k + 1 : Nat) := by
  rw [Ne, ← Int64.toInt_inj] at hv
  have := fits_iff.mp v.fits_toInt
  have : Int64.minValue.toInt = -9223372036854775808 := rfl
  exact Fits.exists_word (fits_iff.mpr ⟨by omega, by omega⟩)

theorem evaluate_padded {before after : String} (hv : v ≠ Int64.minValue) (n : Nat)
    (hb : ∀ c ∈ before.toList, isBlank c) (ha : ∀ c ∈ after.toList, isBlank c) :
    evaluate (before ++ padZeros n v.text ++ after) = .ok v := by
  cases hk : v.toInt
  case ofNat k =>
    have ht : v.text.toList = [] ++ (toString k).toList := by
      rw [Word.text_of_toInt hk, List.nil_append]
    have hp := toList_padZeros (n := n) ht (by simp) (Numeral.isDigit_toString k)
    refine evaluate_of_isFactor ?_ hb ha (reads_zeros hk n _) (hk ▸ .number k)
    simp only [String.toList_append, hp, List.nil_append]
  case negSucc k =>
    have ⟨w, hw⟩ := Word.exists_abs hv hk
    have ht : v.text.toList = ['-'] ++ (toString (k + 1)).toList := by
      rw [Word.text_of_toInt_negSucc hk, String.toList_append]
      rfl
    have hp := toList_padZeros (n := n) ht (by simp) (Numeral.isDigit_toString (k + 1))
    refine evaluate_of_isFactor ?_ hb ha (reads_minus (reads_zeros hw n _))
      (hk ▸ .minus (.number (k + 1)))
    simp only [String.toList_append, hp]

theorem padZeros_zero (text : String) : padZeros 0 text = text := by
  rw [padZeros, List.replicate_zero, List.nil_append, List.takeWhile_append_dropWhile,
    String.ofList_toList]

structure ReadsBack (v : Word) : Prop where
  same   : v ≠ Int64.minValue → evaluate v.text = .ok v
  padded : v ≠ Int64.minValue → ∀ (n : Nat) (before after : String),
    (∀ c ∈ before.toList, isBlank c) → (∀ c ∈ after.toList, isBlank c) →
    evaluate (before ++ padZeros n v.text ++ after) = .ok v
  least  : v = Int64.minValue → evaluate v.text = .error (.overflow ⟨1, 20⟩)

theorem readsBack (v : Word) : ReadsBack v where
  same hv := by
    have h : evaluate ("" ++ padZeros 0 v.text ++ "") = .ok v :=
      evaluate_padded hv 0 (by simp) (by simp)
    simpa [padZeros_zero] using h
  padded hv n _ _ hb ha := evaluate_padded hv n hb ha
  least hv := by
    rw [hv]
    decide +kernel

-- The value that `eval` prints can be read back, unless it is the least word.
theorem readsBack_of_evaluate (h : evaluate text = .ok v) :
    CommandLine.Command.eval.report text = .success (v.text ++ "\n") ∧ ReadsBack v ∧
      ∃ other, evaluate other = .ok Int64.minValue := by
  refine ⟨?_, readsBack v, "-9223372036854775807 - 1", by decide +kernel⟩
  rw [CommandLine.Command.report, h]

theorem readsBack_of_two_values :
    CommandLine.Command.eval.report "2 * -21" = .success "-42\n" ∧
      evaluate ("\t" ++ padZeros 3 "-42" ++ " ") = .ok (-42) ∧
      evaluate "-9223372036854775808" = .error (.overflow ⟨1, 20⟩) := by
  have h₁ : evaluate "2 * -21" = .ok (-42) := by decide +kernel
  have h₂ : evaluate "-9223372036854775807 - 1" = .ok Int64.minValue := by decide +kernel
  have ⟨ho, hr, _⟩ := readsBack_of_evaluate h₁
  have ⟨_, hm, _⟩ := readsBack_of_evaluate h₂
  exact ⟨ho, hr.padded (by decide) 3 "\t" " " (by simp [isBlank]) (by simp [isBlank]), hm.least rfl⟩

end Calculator
