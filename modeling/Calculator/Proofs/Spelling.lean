import Calculator.Proofs.Derivation
import Calculator.Proofs.Reading

namespace Calculator

open Text (isBlank size)

variable {p : Nat} {c : Char} {text front run back digits : List Char} {ts : List Token}
variable {row : List Lexeme}

def Legal (c : Char) : Prop :=
  isBlank c ∨ c.isDigit ∨ c ∈ ['+', '-', '*', '/']

theorem Symbol.mem_of_ofChar? {s : Symbol} (h : ofChar? c = some s) : c ∈ ['+', '-', '*', '/'] := by
  unfold ofChar? at h
  split at h <;> cases h <;> simp

theorem Symbol.Spelled.legal {s : Symbol} (h : s.Spelled text) : ∀ c ∈ text, Legal c := by
  intro c hc
  cases h
  case sign hs =>
    obtain rfl := List.mem_singleton.mp hc
    exact .inr (.inr (Symbol.mem_of_ofChar? hs))
  case number hd _ => exact .inr (.inl (hd c hc))

theorem Reads.legal (h : Reads p text ts) : ∀ c ∈ text, Legal c := by
  induction h
  case nil => simp
  case blank hc _ ih => exact List.forall_mem_cons.mpr ⟨.inl hc, ih⟩
  case token hb _ _ ih => exact List.forall_mem_append.mpr ⟨hb.legal, ih⟩

namespace MaximalRun

theorem of_cons (h : MaximalRun (c :: text) front run back) (hc : c.isDigit = false) :
    ∃ rest, MaximalRun text rest run back := by
  cases front
  case nil =>
    obtain ⟨d, run, rfl⟩ := List.exists_cons_of_ne_nil h.ne_nil
    obtain ⟨rfl, -⟩ := List.cons.inj h.text_eq
    simp [h.digits c (by simp)] at hc
  case cons d front =>
    obtain ⟨rfl, ht⟩ := List.cons.inj h.text_eq
    refine ⟨front, ht, h.ne_nil, h.digits, ?_, h.after⟩
    intro d hd
    apply h.before
    simp_all [List.getLast?_cons]

theorem of_digits (h : MaximalRun (digits ++ text) front run back) (hd : ∀ d ∈ digits, d.isDigit)
    (hn : digits ≠ []) (hs : Seam digits text) :
    run = digits ∨ ∃ rest, MaximalRun text rest run back := by
  have ht := h.text_eq
  rw [List.append_assoc] at ht
  obtain ⟨rest, hf, ht⟩ | ⟨rest, hb, -⟩ := List.append_eq_append_iff.mp ht
  case inl =>
    refine .inr ⟨rest, by simp [ht], h.ne_nil, h.digits, ?_, h.after⟩
    intro c hc
    apply h.before
    simp_all [List.getLast?_append]
  case inr =>
    rcases front.eq_nil_or_concat with rfl | ⟨front, c, rfl⟩
    · have h₁ := Cursor.digits_eq (p := 0) h.digits h.ne_nil (.of_head h.after)
      have h₂ := Cursor.digits_eq (p := 0) hd hn hs
      rw [← List.nil_append (run ++ back), ← ht] at h₁
      exact .inl (h₁.1.symm.trans h₂.1)
    · have := h.before c (by simp)
      simp [hd c (by simp [hb])] at this

theorem cons (h : MaximalRun text front run back) (hc : c.isDigit = false) :
    MaximalRun (c :: text) (c :: front) run back := by
  refine ⟨by simp [h.text_eq], h.ne_nil, h.digits, ?_, h.after⟩
  intro d hd
  cases front <;> simp_all [h.before]

theorem append (h : MaximalRun text front run back) (ht : ∀ c ∈ text.head?, c.isDigit = false) :
    MaximalRun (digits ++ text) (digits ++ front) run back := by
  refine ⟨by simp [h.text_eq], h.ne_nil, h.digits, ?_, h.after⟩
  intro d hd
  cases front
  case nil =>
    obtain ⟨c, run, rfl⟩ := List.exists_cons_of_ne_nil h.ne_nil
    have := ht c (by simp [h.text_eq])
    simp [h.digits c (by simp)] at this
  case cons => exact h.before d (by simpa [List.getLast?_append] using hd)

end MaximalRun

theorem Reads.exists_word (h : Reads p text ts) (hr : MaximalRun text front run back) :
    ∃ n, Numeral.read? run = some n := by
  induction h generalizing front
  case nil =>
    have := List.append_eq_nil_iff.mp hr.text_eq.symm
    exact absurd (List.append_eq_nil_iff.mp this.1).2 hr.ne_nil
  case blank hc _ ih =>
    have ⟨_, hr⟩ := hr.of_cons (Text.isDigit_eq_false_of_isBlank hc)
    exact ih hr
  case token hb hs _ ih =>
    rcases hb with hc | ⟨hn, hd, hw⟩
    case sign =>
      have ⟨_, hr⟩ := hr.of_cons (Symbol.isDigit_of_ofChar? hc)
      exact ih hr
    case number n =>
      obtain rfl | ⟨_, hr⟩ := hr.of_digits hd hn hs
      · exact ⟨n, hw⟩
      · exact ih hr

theorem Lexeme.ofSign?_ne_number {n : Nat} : ofSign? c ≠ some (number n) := by
  unfold ofSign?
  split <;> simp

theorem Symbol.exists_lexeme {s : Symbol} (h : ofChar? c = some s) :
    ∃ x, Lexeme.ofSign? c = some x ∧ x.symbol? = some s := by
  unfold ofChar? at h
  split at h <;> cases h
  all_goals exact ⟨_, rfl, rfl⟩

theorem Lexeme.exists_symbol {x : Lexeme} (h : ofSign? c = some x) :
    ∃ s, Symbol.ofChar? c = some s ∧ x.symbol? = some s := by
  unfold ofSign? at h
  split at h <;> cases h
  all_goals exact ⟨_, rfl, rfl⟩

theorem Reads.spells (h : Reads p text ts) : ∃ row, Spells text row ∧ Matches ts row := by
  induction h
  case nil => exact ⟨[], .nil, rfl⟩
  case blank hc _ ih =>
    have ⟨row, hr, hm⟩ := ih
    exact ⟨row, .blank hc hr, hm⟩
  case token body text ts hb hs _ ih =>
    have ⟨row, hr, hm⟩ := ih
    rcases hb with hc | ⟨hn, hd, hw⟩
    case sign =>
      have ⟨x, hx, hs⟩ := Symbol.exists_lexeme hc
      exact ⟨x :: row, .sign hx hr, Matches.cons_iff.mpr ⟨hs, hm⟩⟩
    case number =>
      refine ⟨.number (Numeral.value body) :: row, .number hn hd ?_ hr, ?_⟩
      · apply hs _ (List.getLast?_eq_some_getLast hn)
        exact hd _ (List.getLast_mem hn)
      · rw [Numeral.read?_eq] at hw
        exact Matches.cons_iff.mpr ⟨by simp [Lexeme.symbol?, hw], hm⟩

theorem Spells.reads (h : Spells text row)
    (hn : ∀ n : Nat, Lexeme.number n ∈ row → ∃ w, Word.ofInt? n = some w) :
    ∃ ts, Reads p text ts ∧ Matches ts row := by
  induction h generalizing p
  case nil => exact ⟨[], .nil, rfl⟩
  case blank hc _ ih =>
    obtain ⟨ts, hr, hm⟩ := ih hn
    exact ⟨ts, .blank hc hr, hm⟩
  case sign c x text row hx _ ih =>
    have ⟨s, hc, hs⟩ := Lexeme.exists_symbol hx
    obtain ⟨ts, hr, hm⟩ := ih fun n hm => hn n (List.mem_cons_of_mem _ hm)
    have hd : Seam [c] text := .of_last (by simpa using Symbol.isDigit_of_ofChar? hc)
    exact ⟨_, .token (.sign hc) hd hr, Matches.cons_iff.mpr ⟨hs, hm⟩⟩
  case number digits text row hd hds ht _ ih =>
    have ⟨w, hw⟩ := hn _ List.mem_cons_self
    obtain ⟨ts, hr, hm⟩ := ih fun n hm => hn n (List.mem_cons_of_mem _ hm)
    refine ⟨_, .token (.number hd hds (n := w) ?_) (.of_head ht) hr, ?_⟩
    · rw [Numeral.read?_eq, hw]
    · exact Matches.cons_iff.mpr ⟨by simp [Lexeme.symbol?, hw], hm⟩

theorem Spells.exists_run {n : Nat} (h : Spells text row) (hn : Lexeme.number n ∈ row) :
    ∃ front run back, MaximalRun text front run back ∧ Numeral.value run = n := by
  induction h
  case nil => cases hn
  case blank hc _ ih =>
    have ⟨front, run, back, hr, hv⟩ := ih hn
    exact ⟨_, run, back, hr.cons (Text.isDigit_eq_false_of_isBlank hc), hv⟩
  case sign hx _ ih =>
    have ⟨s, hc, hs⟩ := Lexeme.exists_symbol hx
    obtain rfl | hn := List.mem_cons.mp hn
    · exact absurd hx Lexeme.ofSign?_ne_number
    · have ⟨front, run, back, hr, hv⟩ := ih hn
      exact ⟨_, run, back, hr.cons (Symbol.isDigit_of_ofChar? hc), hv⟩
  case number digits text row hd hds ht _ ih =>
    obtain hn | hn := List.mem_cons.mp hn
    · cases hn
      exact ⟨[], digits, text, ⟨rfl, hd, hds, by simp, ht⟩, rfl⟩
    · have ⟨front, run, back, hr, hv⟩ := ih hn
      exact ⟨_, run, back, hr.append ht, hv⟩

end Calculator
