import Calculator.Proofs.Outcome
import Calculator.Proofs.Slicing
import Calculator.Proofs.Unambiguous
import Calculator.Proofs.Value
import Mathlib.Control.Monad.Basic

namespace Calculator

open Text (size isBlank)

variable {n : Nat} {text : String} {row : List Lexeme} {i : Int} {s : Span} {f : Fault}
variable {t : Token} {ts us ws : List Token} {m : Machine} {v left right : Operand} {op : Operator}
variable {strength : Precedence}

namespace Precedence

def IsLeft : Precedence → List Lexeme → Int → Prop
  | sum => IsExpression Word.Fits
  | product => IsTerm Word.Fits

def IsRight : Precedence → List Lexeme → Int → Prop
  | sum => IsTerm Word.Fits
  | product => IsFactor

end Precedence

inductive Overflows (ts : List Token) : Prop where
  | intro {strength : Precedence} {us ws : List Token} {t : Token} {left right : Operand}
    {op : Operator} :
    ts = us ++ t :: ws → left.IsValueOf strength.IsLeft us →
    strength.operator? t.symbol = some op → right.IsValueOf strength.IsRight ws →
    ¬(op = .divide ∧ right.value = 0) → ¬Word.Fits (op.exact left.value.toInt right.value.toInt) →
    Overflows ts

namespace Machine

theorem Breaks.finish_eq (h : m.Breaks f) : m.finish t = .error f := by
  obtain ⟨sum, product, phase⟩ := m
  cases h
  case product hm hp =>
    cases hm
    rw [finish_holds, hp]
    rfl
  case sum hm hp hs =>
    cases hm
    rw [finish_holds, hp]
    exact hs

theorem Awaits.overflows (strength : Precedence) {waiting : Option (Operand × Operator)}
    (h : Awaits strength.IsLeft strength us waiting) (hr : right.IsValueOf strength.IsRight ws)
    (hc : close waiting right = .error (.overflow s)) :
    s.Covers (us ++ ws) ∧ Overflows (us ++ ws) := by
  rcases waiting with _ | ⟨left, op⟩
  case none => cases hc
  case some =>
    obtain ⟨us, t, rfl, hl, ho⟩ := h
    have ⟨hz, hs, hn⟩ := close_eq_overflow_iff.mp hc
    rw [List.append_assoc]
    exact ⟨hs ▸ hl.covers.join hr.covers, .intro rfl hl ho hr hz hn⟩

theorem Has.overflows (h : m.Has ts) (hb : m.Breaks (.overflow s)) :
    ∃ pre us, ts = pre ++ us ∧ s.Covers us ∧ Overflows us := by
  obtain ⟨sum, product, phase⟩ := m
  obtain ⟨a, b, c, rfl, ha, hb', hc⟩ := h
  cases hb
  case product hm hp =>
    cases hm
    exact ⟨a, b ++ c, List.append_assoc .., Awaits.overflows .product hb' hc hp⟩
  case sum hm hp hs =>
    cases hm
    exact ⟨[], a ++ (b ++ c), List.append_assoc .., Awaits.overflows .sum ha (hb'.isTerm hc hp) hs⟩

theorem Has.division (h : m.Has ts) (hb : m.Breaks (.divisionByZero s)) :
    ∃ pre t us, ∃ divisor : Operand, ts = pre ++ t :: us ∧ t.symbol = .slash ∧
      divisor.IsValueOf IsFactor us ∧ divisor.value = 0 ∧ s = divisor.span := by
  obtain ⟨sum, product, phase⟩ := m
  obtain ⟨a, b, c, rfl, ha, hb', hc⟩ := h
  cases hb
  case product factor hm hp =>
    cases hm
    rcases product with _ | ⟨left, op⟩
    case none => cases hp
    case some =>
      obtain ⟨us, t, rfl, hl, ho⟩ := hb'
      have ⟨⟨hd, hz⟩, hs⟩ := close_eq_divisionByZero_iff.mp hp
      refine ⟨a ++ us, t, c, factor, by simp, ?_, hc, hz, hs⟩
      cases ht : t.symbol <;> simp_all [Precedence.operator?]
  case sum term hm hp hs =>
    rcases sum with _ | ⟨left, op⟩
    case none => cases hs
    case some =>
      obtain ⟨us, t, rfl, hl, ho⟩ := ha
      exact absurd (close_eq_divisionByZero_iff.mp hs).1.1 (operator?_sum_ne_divide ho)

end Machine

namespace Overflows

theorem of_shift (h : Overflows (ts.map (·.shift n))) : Overflows ts := by
  obtain ⟨hts, hl, ho, hr, hz, hn⟩ := h
  obtain ⟨us, ws, rfl, rfl, hws⟩ := List.map_eq_append_iff.mp hts
  obtain ⟨t, ws, rfl, rfl, rfl⟩ := List.map_eq_cons_iff.mp hws
  have ⟨left, hl, hl'⟩ := hl.of_shift
  have ⟨right, hr, hr'⟩ := hr.of_shift
  exact .intro rfl hl' ho hr' (hr ▸ hz) (hl ▸ hr ▸ hn)

-- The machine comes to the operation, and then it fails, also if nothing else is around.
theorem breaks (h : Overflows ts) (hs : s.Covers ts) :
    ∃ m, ts.foldlM Machine.step .empty = .ok m ∧ m.Breaks (.overflow s) := by
  obtain @⟨strength, us, ws, t, left, right, op, rfl, hl, ho, hr, hz, hn⟩ := h
  have hc : Machine.close (some (left, op)) right = .error (.overflow s) :=
    Machine.close_eq_overflow_iff.mpr ⟨hz, hs.eq (hl.covers.join hr.covers), hn⟩
  cases strength
  case product =>
    have hm : (us ++ t :: ws).foldlM Machine.step .empty =
        .ok ⟨none, some (left, op), .holds right⟩ :=
      Machine.foldlM_product (Machine.reachesTerm hl) ho hr
    exact ⟨_, hm, .product rfl hc⟩
  case sum =>
    have ⟨product, f, hm, hp⟩ :=
      Machine.foldlM_sum (Machine.reachesSum hl) ho (Machine.reachesTerm hr)
    exact ⟨_, hm, .sum rfl hp hc⟩

theorem exact (h : Overflows ts) :
    ∃ row i, Matches ts row ∧ IsExpression (fun _ => True) row i ∧ ¬Word.Fits i := by
  obtain @⟨strength, us, ws, t, left, right, op, rfl, hl, ho, hr, hz, hn⟩ := h
  have ⟨row, hl, hi⟩ := hl.sentence
  have ⟨next, hr, hj⟩ := hr.sentence
  have ⟨x, hx⟩ := Machine.exists_lexeme ho
  refine ⟨_, _, hl.append (Matches.cons_iff.mpr ⟨hx, hr⟩), ?_, hn⟩
  cases strength
  case product =>
    rw [← Int64.toInt_inj, Int64.toInt_zero] at hz
    exact .term ((hi.mono fun _ _ => trivial).apply hj hx ho hz trivial)
  case sum =>
    exact (hi.mono fun _ _ => trivial).apply (hj.mono fun _ _ => trivial) hx ho trivial

end Overflows

theorem Halts.lexical_or_breaks {front back : List Char} (h : Halts front back m f)
    (hu : ∀ t, f ≠ .unexpectedToken .operand t) (ht : ∀ t, f ≠ .trailingInput t) :
    Ends ⟨size front, back⟩ (.error f) ∨ m.Breaks f := by
  cases h
  case lexical h => exact .inl h
  case finish h =>
    rcases Machine.finish_eq_error h with ⟨-, rfl⟩ | h
    · exact absurd rfl (hu _)
    · exact .inr h
  case token h =>
    cases Machine.step_eq_error h
    case operand => exact absurd rfl (hu _)
    case trailing => exact absurd rfl (ht _)
    case breaks h => exact .inr h

structure Overflowing (inside : String) : Prop where
  outcome : evaluate inside = .error (.overflow ⟨0, inside.utf8ByteSize⟩)
  defined : ∃ i, ExactValue inside i
  outside : ∀ i, ExactValue inside i → ¬Word.Fits i

structure ZeroDivisor (before inside : String) : Prop where
  head     : ∃ c ∈ inside.toList.head?, c = '+' ∨ c = '-' ∨ c.isDigit
  last     : ∃ c ∈ inside.toList.getLast?, c.isDigit
  factor   : ∃ row, Spells inside.toList row ∧ IsFactor row 0
  outcome  : evaluate inside = .ok 0
  division : ∃ dividend blanks, before = dividend ++ "/" ++ blanks ∧ ∀ c ∈ blanks.toList, isBlank c

theorem Overflowing.of_exactValue {inside : String}
    (h : evaluate inside = .error (.overflow ⟨0, inside.utf8ByteSize⟩)) (hv : ExactValue inside i)
    (hi : ¬Word.Fits i) : Overflowing inside where
  outcome := h
  defined := ⟨i, hv⟩
  outside := fun _ hw => hw.unique hv ▸ hi

theorem Overflows.overflowing (h : Overflows ts) (hr : Reads 0 text.toList ts)
    (hs : Span.Covers ⟨0, text.utf8ByteSize⟩ ts) : Overflowing text := by
  have ⟨m, hm, hb⟩ := h.breaks hs
  have ⟨row, hp, hm'⟩ := hr.spells
  have ⟨row', i, hx, hi, hn⟩ := h.exact
  refine .of_exactValue ?_ ⟨row, hp, hm'.eq hx ▸ hi⟩ hn
  exact evaluate_eq_error_iff_halts.mpr
    ⟨_, [], ts, m, (List.append_nil _).symm, hr, .nil_right, hm, .finish rfl hb.finish_eq⟩

theorem overflowing_numeral {digits : List Char} (hn : digits ≠ []) (hd : ∀ d ∈ digits, d.isDigit)
    (hr : Numeral.read? digits = none) : Overflowing (.ofList digits) := by
  have he := Ends.numeral (p := 0) hn hd .nil_right hr
  rw [Nat.zero_add] at he
  have hs := Spells.number hn hd (by simp) .nil
  rw [Numeral.read?_eq, Word.ofInt?_eq_none_iff] at hr
  refine .of_exactValue ?_ ⟨_, by simpa using hs, .term (.factor (.number _))⟩ hr
  rw [← Text.size_eq_utf8ByteSize]
  exact evaluate_eq_error_iff_halts.mpr
    ⟨[], digits ++ [], [], .empty, by simp, .nil, .nil_left, rfl, .lexical he⟩

theorem overflowing_of_evaluate (h : evaluate text = .error (.overflow s)) :
    ∃ inside, s.slice? text = some inside ∧ Overflowing inside := by
  have ⟨front, back, ts, m, ht, hr, hs, hm, hh⟩ := exists_halts h
  rcases hh.lexical_or_breaks (by simp) (by simp) with he | hb
  case inl =>
    generalize hc : Cursor.mk (size front) back = c at he
    cases he
    case numeral p digits rest hn hd _ hw =>
      obtain ⟨rfl, rfl⟩ := Cursor.mk.inj hc
      rw [← List.append_assoc] at ht
      exact ⟨.ofList digits, Span.slice?_append ht, overflowing_numeral hn hd hw⟩
  case inr =>
    obtain ⟨pre, us, rfl, hc, ho⟩ := (hr.has hm).overflows hb
    rw [← List.append_nil (pre ++ us)] at hr
    have ⟨e⟩ := hr.excerpt ht hc
    have ho := (e.shift ▸ ho).of_shift
    exact ⟨e.inside, e.slice, ho.overflowing e.reads e.covers⟩

namespace IsFactor

theorem head_of_spelled {body : List Char} (h : IsFactor row i) (hm : Matches (t :: ts) row)
    (hb : t.symbol.Spelled body) : ∃ c ∈ body.head?, c = '+' ∨ c = '-' ∨ c.isDigit := by
  have ⟨x, r, hr, hx, _⟩ := hm.of_cons_token
  have hx' : x ≠ .star ∧ x ≠ .slash := by
    rw [hr] at h
    cases h <;> simp
  generalize t.symbol = y at hb hx
  cases hb
  case sign c hc =>
    refine ⟨c, rfl, ?_⟩
    unfold Symbol.ofChar? at hc
    split at hc <;> cases hc
    · exact .inl rfl
    · exact .inr (.inl rfl)
    · exact absurd (Lexeme.eq_of_symbol? hx rfl) hx'.1
    · exact absurd (Lexeme.eq_of_symbol? hx rfl) hx'.2
  case number hn hd _ =>
    exact ⟨body.head hn, List.head?_eq_some_head hn, .inr (.inr (hd _ (List.head_mem hn)))⟩

end IsFactor

theorem Excerpt.ends_of_isFactor (e : Excerpt text s ts us) (hm : Matches e.tokens row)
    (h : IsFactor row i) :
    (∃ c ∈ e.inside.toList.head?, c = '+' ∨ c = '-' ∨ c.isDigit) ∧
      ∃ c ∈ e.inside.toList.getLast?, c.isDigit := by
  constructor
  case left =>
    have ⟨t, us, ht, hs⟩ := e.covers.split_head
    have ⟨body, rest, hb, hw⟩ := (ht ▸ e.reads).head hs
    have ⟨c, hc, hd⟩ := h.head_of_spelled (ht ▸ hm) hw
    exact ⟨c, by simp_all [List.head?_append], hd⟩
  case right =>
    have ⟨us, t, w, ht, hw⟩ := hm.exists_last h.endsInNumber
    have hs : t.span.stop = 0 + size e.inside.toList := by
      have := e.covers.stop
      simpa [ht] using this
    have ⟨front, body, hb, hd⟩ := (ht ▸ e.reads).last hs
    have ⟨hn, hd, _⟩ := Symbol.Spelled.number_iff.mp (hw ▸ hd)
    refine ⟨body.getLast hn, ?_, hd _ (List.getLast_mem hn)⟩
    simp [hb, List.getLast?_append, List.getLast?_eq_some_getLast hn]

theorem Excerpt.zeroDivisor (e : Excerpt text s (ts ++ [t]) us) (hd : t.symbol = .slash)
    (hv : v.IsValueOf IsFactor us) (hz : v.value = 0) : ZeroDivisor e.before e.inside := by
  have ⟨w, hw, hv⟩ := (e.shift ▸ hv).of_shift
  have ⟨row, hm, hi⟩ := hv.sentence
  have ⟨hh, hl⟩ := e.ends_of_isFactor hm hi
  constructor
  case head => exact hh
  case last => exact hl
  case factor =>
    have ⟨row', hp, hm'⟩ := e.reads.spells
    rw [hw, hz, ← hm'.eq hm] at hi
    exact ⟨row', hp, hi⟩
  case outcome =>
    rw [evaluate_of_reads e.reads (hv.mono fun _ _ hi => .term (.factor hi)), hw, hz]
  case division =>
    have ⟨before, body, blanks, hb, hc⟩ := e.reads_before.cut
    have hs : body = ['/'] := hc.spelled.eq_singleton (by rw [hd]; rfl)
    refine ⟨.ofList before, .ofList blanks, ?_, by simpa using hc.after.isBlank_of_nil⟩
    rw [← String.toList_inj, hb, hs]
    simp

theorem zeroDivisor_of_evaluate (h : evaluate text = .error (.divisionByZero s)) :
    ∃ before inside, Span.slice? ⟨0, s.start⟩ text = some before ∧ s.slice? text = some inside ∧
      ZeroDivisor before inside := by
  have ⟨front, back, ts, m, ht, hr, hs, hm, hh⟩ := exists_halts h
  rcases hh.lexical_or_breaks (by simp) (by simp) with he | hb
  case inl => cases he
  case inr =>
    obtain ⟨pre, t, us, divisor, rfl, hd, hv, hz, rfl⟩ := (hr.has hm).division hb
    rw [← List.append_nil us, ← List.cons_append, ← List.append_assoc, List.append_cons] at hr
    have ⟨e⟩ := hr.excerpt ht hv.covers
    exact ⟨e.before, e.inside, e.slice_before, e.slice, e.zeroDivisor hd hv hz⟩

-- What an arithmetic fault points at shows by itself why there is a fault.
theorem slice_of_arithmetic_fault (text : String) (s : Span) :
    (evaluate text = .error (.overflow s) →
      ∃ inside, s.slice? text = some inside ∧ Overflowing inside) ∧
    (evaluate text = .error (.divisionByZero s) →
      ∃ before inside, Span.slice? ⟨0, s.start⟩ text = some before ∧ s.slice? text = some inside ∧
        ZeroDivisor before inside) :=
  ⟨overflowing_of_evaluate, zeroDivisor_of_evaluate⟩

theorem slice_of_two_faults :
    (∃ inside, Span.slice? ⟨4, 25⟩ "1 - 9223372036854775807*2 + 1" = some inside ∧
      Overflowing inside) ∧
    ∃ before inside, Span.slice? ⟨0, 4⟩ "6 / -0" = some before ∧
      Span.slice? ⟨4, 6⟩ "6 / -0" = some inside ∧ ZeroDivisor before inside :=
  ⟨(slice_of_arithmetic_fault _ _).1 (by decide +kernel),
    (slice_of_arithmetic_fault _ ⟨4, 6⟩).2 (by decide +kernel)⟩

end Calculator
