import Calculator.Proofs.ArithmeticFault
import Calculator.Proofs.Listing
import Calculator.Proofs.SyntaxFault
import Calculator.Reader

namespace Calculator

open Text (isBlank size)

variable {p : Nat} {text : String} {front back tail blanks : List Char} {s : Span} {f g : Fault}
variable {t : Token} {ts us : List Token} {m : Machine}

section

variable {strength : Precedence} {op : Operator}

theorem Seam.of_blanks_left (h : ∀ c ∈ blanks, isBlank c) : Seam blanks back :=
  .of_last fun c hc => Text.isDigit_eq_false_of_isBlank (h c (List.mem_of_getLast? hc))

theorem Seam.of_blanks_right (h : ∀ c ∈ blanks, isBlank c) : Seam front blanks :=
  .of_head fun c hc => Text.isDigit_eq_false_of_isBlank (h c (List.mem_of_head? hc))

theorem Reads.of_blanks (h : ∀ c ∈ blanks, isBlank c) : Reads p blanks [] := by
  induction blanks generalizing p
  case nil => exact .nil
  case cons c blanks ih =>
    have ⟨hc, h⟩ := List.forall_mem_cons.mp h
    exact .blank hc (ih h)

theorem Reads.append_blanks (h : Reads p front ts) (hb : ∀ c ∈ blanks, isBlank c) :
    Reads p (front ++ blanks) ts := by
  simpa using h.append (.of_blanks hb) (.of_blanks_right hb)

theorem Reads.exists_not_digit (h : Reads p front ts) (ht : t ∈ ts)
    (ho : strength.operator? t.symbol = some op) : ∃ c ∈ front, c.isDigit = false := by
  have ⟨_, _, _, _, _, hb, hc⟩ := h.cut_of_mem ht
  have hs := hc.spelled
  generalize t.symbol = symbol at ho hs
  cases hs
  case sign c hs => exact ⟨c, by simp [hb], Symbol.isDigit_of_ofChar? hs⟩
  case number => cases strength <;> cases ho

end

section

variable {x w y : String}

-- A fault at the end of the text goes away with the end, unless the token that follows brings it
-- about as well. All tokens put the factor at hand to use, and all but `*` and `/` the sum.
theorem Machine.Breaks.step_eq (h : m.Breaks f)
    (ht : Precedence.product.operator? t.symbol = none) : m.step t = .error f := by
  obtain ⟨sum, product, phase⟩ := m
  cases h
  case product hm hp =>
    cases hm
    rw [step_holds, hp]
    rfl
  case sum factor term hm hp hs =>
    cases hm
    rw [step_holds, hp]
    change step ⟨sum, none, .holds term⟩ t = _
    rw [step_holds_term ht, hs]
    rfl

theorem Ends.append (h : Ends ⟨p, back⟩ (.error f)) (hs : Seam back tail) :
    Ends ⟨p, back ++ tail⟩ (.error f) := by
  cases h
  case stray hb ho hd => exact .stray hb ho hd
  case numeral digits rest hn hd hm hr =>
    rw [List.append_assoc]
    refine .numeral hn hd (hm.append_right fun he => ?_) hr
    simpa [he] using hs

theorem Halts.append (h : Halts front back m f) (hb : back ≠ [])
    (ht : ∀ c ∈ tail.head?, c.isDigit = false) : Halts front (back ++ tail) m f := by
  cases h
  case lexical h => exact .lexical (h.append (.of_head ht))
  case finish h _ => exact absurd h hb
  case token body rest t h hw hs hx hf =>
    refine .token ?_ hw (hs.append_right fun _ => .of_head ht) hx hf
    rw [h, List.append_assoc]

theorem Halts.finish_eq (h : Halts front [] m f) :
    m.finish ⟨.finish, size front, size front⟩ = .error f := by
  cases h
  case lexical h =>
    generalize hc : Cursor.mk (size front) [] = c at h
    cases h <;> simp_all
  case finish h => exact h
  case token hb hw _ _ _ => exact absurd (List.append_eq_nil_iff.mp hb.symm).1 hw.ne_nil

-- The token that follows the end of `x` closes all that is open there.
theorem evaluate_append_of_breaks (hx : Reads 0 x.toList ts)
    (hm : ts.foldlM Machine.step .empty = .ok m) (h : m.Breaks f) (hw : w ≠ "")
    (hb : ∀ c ∈ w.toList, isBlank c) (hy : (Reader.ofText y).read.1 = .ok t)
    (ht : t.symbol ≠ .finish) (ho : Precedence.product.operator? t.symbol = none) :
    evaluate (x ++ w ++ y) = .error f := by
  have hscan : (Cursor.ofText y).scan = (.ok t, (Cursor.ofText y).scan.2) := Prod.ext hy rfl
  have ⟨blanks, body, hr, hb', _, _, hs⟩ := Cursor.scan_eq_ok hscan
  have ⟨hs, hseam⟩ := hs.resolve_left fun hs => ht hs.1
  have hb : ∀ c ∈ w.toList ++ blanks, isBlank c := List.forall_mem_append.mpr ⟨hb, hb'⟩
  let front := x.toList ++ (w.toList ++ blanks)
  let u : Token := ⟨t.symbol, size front, size front + size body⟩
  have hf : Seam front (body ++ (Cursor.ofText y).scan.2.rest) :=
    Seam.append_left (.of_blanks_left hb) (by simp [hw])
  have hs : u.symbol.Spelled body := hs
  have hu : m.step u = .error f := h.step_eq ho
  refine evaluate_eq_error_iff_halts.mpr
    ⟨front, _, ts, m, ?_, hx.append_blanks hb, hf, hm, .token rfl hs hseam rfl hu⟩
  have hr : y.toList = _ := hr
  simp [front, hr]

-- Text that follows a fault does not change it. Only a fault that is met at the end of the text
-- needs a token behind it that closes all that is open, which `*` and `/` do not.
theorem evaluate_append_eq_error (hw : w ≠ "") (hb : ∀ c ∈ w.toList, isBlank c)
    (hy : (Reader.ofText y).read.1 = .ok t)
    (ht : t.symbol = .plus ∨ t.symbol = .minus ∨ ∃ n, t.symbol = .number n)
    (hx : evaluate x = .error f)
    (hf : ∀ expected found, f = .unexpectedToken expected found → found.symbol ≠ .finish) :
    evaluate (x ++ w ++ y) = .error f := by
  have ⟨front, back, ts, m, hc, hr, hs, hm, hh⟩ := exists_halts hx
  by_cases hn : back = []
  case neg =>
    -- There is text behind the fault already, and more of it makes no difference.
    have hd : ∀ c ∈ (w ++ y).toList.head?, c.isDigit = false := by
      have ⟨c, cs, hcs⟩ := List.exists_cons_of_ne_nil (by simpa using hw : w.toList ≠ [])
      have hc : isBlank c := hb c (by simp [hcs])
      simp [hcs, Text.isDigit_eq_false_of_isBlank hc]
    refine evaluate_eq_error_iff_halts.mpr
      ⟨front, back ++ (w ++ y).toList, ts, m, ?_, hr, ?_, hm, hh.append hn hd⟩
    · simp [hc]
    · exact hs.append_right fun h => absurd h hn
  case pos =>
    -- The end of `x` brings about an operation that fails, and the token in its place does as well.
    rw [hn, List.append_nil] at hc
    cases Machine.finish_eq_error (hn ▸ hh).finish_eq
    case inl h => exact absurd rfl (hf _ _ h.2)
    case inr h =>
      have ht : t.symbol ≠ .finish ∧ Precedence.product.operator? t.symbol = none := by
        rcases ht with ht | ht | ⟨n, ht⟩ <;> simp [ht, Precedence.operator?]
      exact evaluate_append_of_breaks (hc ▸ hr) hm h hw hb hy ht.1 ht.2

-- The division fails before the sign that follows, and before what is wrong behind the sign.
theorem evaluate_append_eq_divisionByZero :
    evaluate ("1 + 7 / 0" ++ " \t" ++ " -$") = .error (.divisionByZero ⟨8, 9⟩) :=
  have hb : ∀ c ∈ " \t".toList, isBlank c := List.all_eq_true.mp rfl
  have hy : (Reader.ofText " -$").read.1 = .ok ⟨.minus, 1, 2⟩ := by decide +kernel
  evaluate_append_eq_error (by simp) hb hy (.inr (.inl rfl)) (by decide +kernel) (by simp)

end

theorem Machine.Has.covers_of_breaks (h : m.Has ts) (hb : m.Breaks f) :
    ∃ pre us, ts = pre ++ us ∧ f.span.Covers us := by
  cases hb.arithmetic
  case inl ha =>
    have ⟨s, hs⟩ := ha
    have ⟨pre, t, us, divisor, hts, _, hv, _, hd⟩ := h.division (hs ▸ hb)
    refine ⟨pre ++ [t], us, by simp [hts], ?_⟩
    rw [hs, hd]
    exact hv.covers
  case inr ha =>
    have ⟨s, hs⟩ := ha
    have ⟨pre, us, hts, hc, _⟩ := h.overflows (hs ▸ hb)
    rw [hs]
    exact ⟨pre, us, hts, hc⟩

-- A token that is refused is itself the last thing that the fault can point at, for what it puts to
-- use has been read before it.
theorem Reads.stop_le_of_step (h : Reads p front (ts ++ t :: us))
    (hm : ts.foldlM Machine.step .empty = .ok m) (hf : m.step t = .error f) :
    f.span.stop ≤ p + size front := by
  have hw : ∀ u ∈ ts ++ t :: us, u.span.stop ≤ p + size front := fun u hu => (h.within hu).2
  cases Machine.step_eq_error hf
  case operand => exact hw t (by simp)
  case trailing => exact hw t (by simp)
  case breaks hb =>
    have ⟨_, _, _, _, hc⟩ := h.cut
    have ⟨pre, us, hts, hc⟩ := (hc.before.has hm).covers_of_breaks hb
    have ⟨us, last, hu, hl⟩ := hc.split_last
    exact hl ▸ hw last (by simp [hts, hu])

theorem evaluate_of_foldlM_error (ht : text.toList = front ++ back) (hr : Reads 0 front ts)
    (hs : Seam front back) (h : ts.foldlM Machine.step .empty = .error f) :
    evaluate text = .error f := by
  rw [evaluate_eq_value, ht, hr.stream_append hs, TokenStream.value, Machine.run_append, h]
  rfl

theorem evaluate_of_tokenize_eq_error (h : tokenize text = .error f) :
    ∃ g, evaluate text = .error g ∧ (g = f ∨ g.span.stop ≤ f.span.start) := by
  have ⟨front, back, ts, ht, hr, hs, he⟩ := tokenize_eq_error_iff.mp h
  cases hm : ts.foldlM Machine.step .empty
  case ok m =>
    refine ⟨f, ?_, .inl rfl⟩
    exact evaluate_eq_error_iff_halts.mpr ⟨front, back, ts, m, ht, hr, hs, hm, .lexical he⟩
  case error g =>
    have ⟨pre, t, post, m, hts, hm', hg⟩ := Machine.foldlM_eq_error hm
    have hstop := (hts ▸ hr : Reads 0 front (pre ++ t :: post)).stop_le_of_step hm' hg
    rw [Nat.zero_add, ← he.start_eq] at hstop
    exact ⟨g, evaluate_of_foldlM_error ht hr hs hm, .inr hstop⟩

theorem tokenize_or_breaks (h : evaluate text = .error f)
    (hu : ∀ t, f ≠ .unexpectedToken .operand t) (ht : ∀ t, f ≠ .trailingInput t) :
    tokenize text = .error f ∨ ∃ front back ts, ∃ m : Machine, text.toList = front ++ back ∧
      Reads 0 front ts ∧ m.Has ts ∧ m.Breaks f := by
  have ⟨front, back, ts, m, hc, hr, hs, hm, hh⟩ := exists_halts h
  cases hh.lexical_or_breaks hu ht
  case inl he => exact .inl (tokenize_eq_error_iff.mpr ⟨front, back, ts, hc, hr, hs, he⟩)
  case inr hb => exact .inr ⟨front, back, ts, m, hc, hr, hr.has hm, hb⟩

theorem tokenize_of_invalidCharacter {c : Char} {offset : Nat}
    (h : evaluate text = .error (.invalidCharacter c offset)) :
    tokenize text = .error (.invalidCharacter c offset) := by
  cases tokenize_or_breaks h (by simp) (by simp)
  case inl h => exact h
  case inr h =>
    have ⟨_, _, _, _, _, _, _, hb⟩ := h
    simpa using hb.arithmetic

theorem not_digits_of_overflow (h : evaluate text = .error (.overflow s))
    (ht : tokenize text = .ok ts) :
    ∃ inside, s.slice? text = some inside ∧ ∃ c ∈ inside.toList, c.isDigit = false := by
  cases tokenize_or_breaks h (by simp) (by simp)
  case inl he => cases ht.symm.trans he
  case inr h =>
    have ⟨front, back, us, m, hc, hr, hm, hb⟩ := h
    have ⟨pre, us, hu, hs, ho⟩ := hm.overflows hb
    rw [hu, ← List.append_nil (pre ++ us)] at hr
    have ⟨e⟩ := hr.excerpt hc hs
    have ⟨hts, _, hop, _, _, _⟩ := (e.shift ▸ ho).of_shift
    exact ⟨e.inside, e.slice, e.reads.exists_not_digit (by simp [hts]) hop⟩

theorem tokenize_of_finish {expected : Demand}
    (h : evaluate text = .error (.unexpectedToken expected t)) (ht : t.symbol = .finish) :
    ∃ ts, tokenize text = .ok ts := by
  have ⟨front, back, ts, m, hc, hr, hs, hm, hh⟩ := exists_halts h
  have ⟨_, _, he⟩ := hh.unexpectedToken
  cases he
  case inl he =>
    rw [he.1, List.append_nil] at hc
    exact ⟨ts, tokenize_eq_ok_iff.mpr (hc ▸ hr)⟩
  case inr he =>
    have ⟨_, _, _, _, ho⟩ := he
    simp [ht] at ho

-- The two readings of a text have the same lexical faults. The evaluation can fail before it comes
-- to one, and it comes to the end only if there is none.
theorem evaluate_agrees_with_tokenize (text : String) :
    (∀ f, tokenize text = .error f →
      ∃ g, evaluate text = .error g ∧ (g = f ∨ g.span.stop ≤ f.span.start)) ∧
    (∀ ts, tokenize text = .ok ts →
      (∀ c offset, evaluate text ≠ .error (.invalidCharacter c offset)) ∧
      ∀ s, evaluate text = .error (.overflow s) →
        ∃ inside, s.slice? text = some inside ∧ ∃ c ∈ inside.toList, c.isDigit = false) ∧
    (∀ v, evaluate text = .ok v → ∃ ts, tokenize text = .ok ts) ∧
    (∀ expected t, evaluate text = .error (.unexpectedToken expected t) → t.symbol = .finish →
      ∃ ts, tokenize text = .ok ts) ∧
    ∀ c offset, evaluate text = .error (.invalidCharacter c offset) →
      tokenize text = .error (.invalidCharacter c offset) := by
  refine ⟨?_, ?_, ?_, ?_, ?_⟩
  · exact fun f => evaluate_of_tokenize_eq_error
  · intro ts ht
    refine ⟨fun c offset h => ?_, fun s h => not_digits_of_overflow h ht⟩
    cases ht.symm.trans (tokenize_of_invalidCharacter h)
  · intro v h
    have ⟨ts, _, _, hr, _⟩ := evaluate_eq_ok_iff_finish.mp h
    exact ⟨ts, tokenize_eq_ok_iff.mpr hr⟩
  · exact fun _ _ => tokenize_of_finish
  · exact fun _ _ => tokenize_of_invalidCharacter

theorem evaluate_agrees_with_tokenize_on_five_texts :
    (∃ g, evaluate "2 2 $" = .error g ∧ (g = .invalidCharacter '$' 4 ∨ g.span.stop ≤ 4)) ∧
    (∃ inside, Span.slice? ⟨0, 23⟩ "9223372036854775807 + 1" = some inside ∧
      ∃ c ∈ inside.toList, c.isDigit = false) ∧
    (∃ ts, tokenize "1 - 2" = .ok ts) ∧ (∃ ts, tokenize "1 -" = .ok ts) ∧
    tokenize "1 - $" = .error (.invalidCharacter '$' 4) :=
  have ht : tokenize "9223372036854775807 + 1" =
      .ok [⟨.number 9223372036854775807, 0, 19⟩, ⟨.plus, 20, 21⟩, ⟨.number 1, 22, 23⟩] := by
    decide +kernel
  ⟨(evaluate_agrees_with_tokenize "2 2 $").1 (.invalidCharacter '$' 4) (by decide +kernel),
    ((evaluate_agrees_with_tokenize _).2.1 _ ht).2 ⟨0, 23⟩ (by decide +kernel),
    (evaluate_agrees_with_tokenize "1 - 2").2.2.1 (-1) (by decide +kernel),
    (evaluate_agrees_with_tokenize "1 -").2.2.2.1 .operand ⟨.finish, 3, 3⟩ (by decide +kernel) rfl,
    (evaluate_agrees_with_tokenize "1 - $").2.2.2.2 '$' 4 (by decide +kernel)⟩

end Calculator
