import Calculator.Proofs.Derivation
import Calculator.Proofs.Flattening
import Calculator.Proofs.Spelling

namespace Calculator

open Text (size)

variable {p : Nat} {text : String} {front back : List Char} {ts us : List Token} {t : Token}
variable {m m' : Machine} {v factor term : Operand} {w : Word} {f : Fault}

namespace Machine

inductive Breaks (m : Machine) (f : Fault) : Prop where
  | product {factor : Operand} :
    m.phase = .holds factor → close m.product factor = .error f → Breaks m f
  | sum {factor term : Operand} :
    m.phase = .holds factor → close m.product factor = .ok term → close m.sum term = .error f →
    Breaks m f

inductive Refuses (m : Machine) (t : Token) : Fault → Prop where
  | operand {start : Option Nat} {negative : Bool} :
    m.phase = .expects start negative → t.symbol ≠ .plus → t.symbol ≠ .minus →
    (∀ n, t.symbol ≠ .number n) → Refuses m t (.unexpectedToken .operand t)
  | trailing {v : Operand} :
    m.finish t = .ok v → (∀ strength : Precedence, strength.operator? t.symbol = none) →
    Refuses m t (.trailingInput t)
  | breaks {f : Fault} : m.Breaks f → Refuses m t f

theorem step_eq_error (h : m.step t = .error f) : m.Refuses t f := by
  obtain ⟨sum, product, phase⟩ := m
  cases phase
  case expects start negative =>
    by_cases ht : t.symbol = .plus ∨ t.symbol = .minus ∨ ∃ n, t.symbol = .number n
    case pos =>
      rcases ht with ht | ht | ⟨n, ht⟩
      · cases (step_plus ht).symm.trans h
      · cases (step_minus ht).symm.trans h
      · cases (step_number ht).symm.trans h
    case neg =>
      have ⟨hp, ht⟩ := not_or.mp ht
      have ⟨hm, hn⟩ := not_or.mp ht
      have hn := not_exists.mp hn
      cases (step_expects_error hp hm hn).symm.trans h
      exact .operand rfl hp hm hn
  case holds factor =>
    rw [step] at h
    rcases bind_eq_error_iff.mp h with h | ⟨term, hp, h⟩
    · exact .breaks (.product rfl h)
    split at h
    case h_1 => cases h
    case h_2 ho =>
      rcases bind_eq_error_iff.mp h with h | ⟨v, hs, h⟩
      · exact .breaks (.sum rfl hp h)
      split at h <;> cases h
      refine .trailing (v := v) ?_ ?_
      · rw [finish_holds, hp]
        exact hs
      · rintro ⟨⟩
        · assumption
        · exact ho

theorem finish_eq_error (h : m.finish t = .error f) :
    (∃ start negative, m.phase = .expects start negative) ∧ f = .unexpectedToken .operand t ∨
      m.Breaks f := by
  obtain ⟨sum, product, phase⟩ := m
  cases phase
  case expects start negative =>
    cases h
    exact .inl ⟨⟨start, negative, rfl⟩, rfl⟩
  case holds factor =>
    rcases bind_eq_error_iff.mp h with h | ⟨term, hp, h⟩
    · exact .inr (.product rfl h)
    · exact .inr (.sum rfl hp h)

theorem ReachesSum.finish (h : ReachesSum ts v) (t : Token) :
    ∃ m, ts.foldlM step empty = .ok m ∧ m.finish t = .ok v :=
  have ⟨_, _, f, term, hr, hp, hs⟩ := h
  ⟨_, hr, finish_eq_ok_iff.mpr ⟨f, term, rfl, hp, hs⟩⟩

end Machine

theorem Reads.exists_lexeme (h : Reads p front ts) :
    ∀ t ∈ ts, ∃ x, Lexeme.symbol? x = some t.symbol := by
  have ⟨row, _, hm⟩ := h.spells
  exact fun t ht => hm.exists_lexeme ht

theorem Reads.ne_finish (h : Reads p front ts) : ∀ t ∈ ts, t.symbol ≠ .finish := by
  intro t ht hf
  have ⟨x, hx⟩ := h.exists_lexeme t ht
  cases x <;> simp [hf, Lexeme.symbol?] at hx

theorem Reads.has (h : Reads p front ts) (hm : ts.foldlM Machine.step .empty = .ok m) : m.Has ts :=
  Machine.empty_has.foldlM h.exists_lexeme hm

theorem evaluate_eq_value (text : String) :
    evaluate text = (Cursor.mk 0 text.toList).stream.value :=
  Cursor.evaluation_outcome _

-- The rules come to what the machine comes to over the stream of the text, which ends with `finish`
-- behind the last byte or with a fault. So the machine decides which of several faults comes first.
theorem evaluate_eq_value_stream (text : String) :
    let s := (Cursor.ofText text).stream
    evaluate text = s.value ∧ (∀ t ∈ s.tokens, t.symbol ≠ .finish) ∧
      ∀ t, s.ending = .ok t → t = ⟨.finish, text.utf8ByteSize, text.utf8ByteSize⟩ := by
  refine ⟨evaluate_eq_value text, ?_⟩
  have ⟨front, back, ts, ending, ht, hr, hs, he⟩ := exists_reads 0 text.toList
  rw [Cursor.ofText, ht, hr.stream_eq hs he]
  refine ⟨hr.ne_finish, ?_⟩
  rintro t rfl
  cases he
  rw [← Text.size_toList, ht]
  simp

theorem evaluate_of_foldlM (ht : text.toList = front ++ back) (hr : Reads 0 front ts)
    (hs : Seam front back) (hm : ts.foldlM Machine.step .empty = .ok m) :
    evaluate text = (m.run (Cursor.mk (size front) back).stream).map (·.value) := by
  rw [evaluate_eq_value, ht, hr.stream_append hs, TokenStream.value, Machine.run_append, hm]
  simp [bind, Except.bind]

theorem evaluate_eq_ok_iff_finish : evaluate text = .ok w ↔
    ∃ ts m v, Reads 0 text.toList ts ∧ ts.foldlM Machine.step .empty = .ok m ∧
      (∀ t, m.finish t = .ok v) ∧ v.value = w := by
  constructor
  case mp =>
    intro h
    have ⟨front, back, ts, ending, ht, hr, hs, he⟩ := exists_reads 0 text.toList
    rw [evaluate_eq_value, ht, hr.stream_eq hs he] at h
    have ⟨v, h, hv⟩ := Machine.map_eq_ok_iff.mp h
    have ⟨m, hm, h⟩ := Machine.bind_eq_ok_iff.mp h
    cases he
    case finish => exact ⟨ts, m, v, by simpa [ht] using hr, hm, Machine.finish_eq_ok h, hv⟩
    all_goals cases h
  case mpr =>
    rintro ⟨ts, m, v, hr, hm, hv, rfl⟩
    rw [evaluate_of_foldlM (List.append_nil _).symm hr .nil_right hm, Cursor.stream_of_ends .finish,
      Machine.run_nil, hv]
    rfl

inductive Halts (front back : List Char) (m : Machine) (f : Fault) : Prop where
  | lexical : Ends ⟨size front, back⟩ (.error f) → Halts front back m f
  | finish :
    back = [] → m.finish ⟨.finish, size front, size front⟩ = .error f → Halts front back m f
  | token {body rest : List Char} {t : Token} :
    back = body ++ rest → t.symbol.Spelled body → Seam body rest →
    t.span = ⟨size front, size front + size body⟩ → m.step t = .error f → Halts front back m f

theorem Halts.run_eq (h : Halts front back m f) :
    m.run (Cursor.mk (size front) back).stream = .error f := by
  cases h
  case lexical h =>
    rw [Cursor.stream_of_ends h]
    rfl
  case finish hb h =>
    rw [hb, Cursor.stream_of_ends .finish]
    exact h
  case token body rest t hb hw hs ht h =>
    have hc : (Cursor.mk (size front) back).scan = (.ok t, ⟨size front + size body, rest⟩) := by
      rw [hb, Cursor.scan_token hw hs, ← ht]
    rw [Cursor.stream_of_token hc (by simpa using hw.ne_finish), Machine.run_cons, h]
    rfl

theorem exists_halts (h : evaluate text = .error f) :
    ∃ front back ts m, text.toList = front ++ back ∧ Reads 0 front ts ∧ Seam front back ∧
      ts.foldlM Machine.step .empty = .ok m ∧ Halts front back m f := by
  have ⟨front, back, ts, ending, ht, hr, hs, he⟩ := exists_reads 0 text.toList
  rw [evaluate_eq_value, ht, hr.stream_eq hs he] at h
  rcases Machine.bind_eq_error_iff.mp (Machine.map_eq_error_iff.mp h) with h | ⟨m, hm, h⟩
  case inl =>
    -- The machine refuses a token, and the text is cut in front of it.
    have ⟨pre, t, post, m, hts, hm, hf⟩ := Machine.foldlM_eq_error h
    replace hts : ts = pre ++ t :: post := hts
    obtain ⟨front, body, rest, rfl, hc⟩ := Reads.cut (hts ▸ hr)
    refine ⟨front, body ++ (rest ++ back), pre, m, by simp [ht], hc.before, ?_, hm, ?_⟩
    · apply Seam.append_right hc.seam_left.left
      intro hb
      exact absurd hb hc.spelled.ne_nil
    · refine .token rfl hc.spelled ?_ (by simpa using hc.span_eq) hf
      apply Seam.append_right hc.seam_right
      rintro rfl
      rw [List.append_nil] at hs
      exact hs.right
  case inr =>
    -- All tokens are taken. What is at fault is the end, or what comes where no token can be read.
    refine ⟨front, back, ts, m, ht, hr, hs, hm, ?_⟩
    cases ending
    case error => exact .lexical (by cases h; simpa using he)
    case ok =>
      cases he
      rw [Nat.zero_add] at h
      exact .finish rfl h

theorem evaluate_eq_error_iff_halts : evaluate text = .error f ↔
    ∃ front back ts m, text.toList = front ++ back ∧ Reads 0 front ts ∧ Seam front back ∧
      ts.foldlM Machine.step .empty = .ok m ∧ Halts front back m f := by
  refine ⟨exists_halts, ?_⟩
  rintro ⟨front, back, ts, m, ht, hr, hs, hm, h⟩
  rw [evaluate_of_foldlM ht hr hs hm, h.run_eq]
  rfl

end Calculator
