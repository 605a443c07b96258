import Calculator.Proofs.Outcome
import Calculator.Proofs.Slicing
import Mathlib.Control.Monad.Basic

namespace Calculator

open Text (size)

variable {p : Nat} {text : String} {front back run body : List Char} {s : Span} {f : Fault}
variable {t u : Token} {ts us : List Token} {m : Machine} {v left right : Operand} {op : Operator}
variable {waiting sum product : Option (Operand × Operator)} {start : Option Nat} {negative : Bool}

namespace Machine

theorem Breaks.arithmetic (h : m.Breaks f) :
    (∃ s, f = .divisionByZero s) ∨ ∃ s, f = .overflow s := by
  cases h
  case product h => exact close_eq_error h
  case sum h => exact close_eq_error h

theorem step_of_finish (h : m.finish t = .ok v)
    (ho : ∀ strength : Precedence, strength.operator? u.symbol = none) :
    m.step u = .error (.trailingInput u) := by
  obtain ⟨sum, product, phase⟩ := m
  obtain ⟨factor, term, rfl, hp, hs⟩ := finish_eq_ok_iff.mp h
  rw [step_holds, hp]
  change step ⟨sum, none, .holds term⟩ u = _
  rw [step_holds_term (ho .product), hs]
  exact step_trailing ho

theorem eq_multiply {symbol : Symbol} (h : Precedence.product.operator? symbol = some op)
    (hd : op ≠ .divide) : op = .multiply := by
  cases symbol <;> cases h
  · rfl
  · exact absurd rfl hd

theorem exact_zero {symbol : Symbol} (h : Precedence.sum.operator? symbol = some op) (i : Int) :
    op.exact i 0 = i := by
  cases symbol <;> cases h <;> simp [Operator.exact]

theorem Awaits.close_zero (h : Awaits (IsExpression Word.Fits) .sum ts sum) (hr : right.value = 0) :
    ∃ v, close sum right = .ok v := by
  rcases sum with _ | ⟨left, op⟩
  case none => exact ⟨right, rfl⟩
  case some =>
    have ⟨_, _, _, _, ho⟩ := h
    refine ⟨⟨left.value, _, _⟩, close_eq_ok_iff.mpr ⟨?_, rfl, ?_⟩⟩
    · exact fun hd => operator?_sum_ne_divide ho hd.1
    · rw [hr, Int64.toInt_zero, exact_zero ho]

theorem Awaits.finish_zero (h : Awaits (IsExpression Word.Fits) .sum ts sum)
    (hp : ∀ left op, product = some (left, op) → op = .multiply) (hr : right.value = 0) :
    ∃ v, finish ⟨sum, product, .holds right⟩ t = .ok v := by
  have ⟨term, hc, hz⟩ : ∃ term, close product right = .ok term ∧ term.value = 0 := by
    rcases product with _ | ⟨left, op⟩
    case none => exact ⟨right, rfl, hr⟩
    case some =>
      obtain rfl := hp left op rfl
      refine ⟨⟨0, _, _⟩, close_eq_ok_iff.mpr ⟨by simp, rfl, ?_⟩, rfl⟩
      simp [hr, Operator.exact]
  have ⟨v, hv⟩ := h.close_zero hz
  exact ⟨v, finish_eq_ok_iff.mpr ⟨right, term, rfl, hc, hv⟩⟩

theorem close_half (h : right.value = 2 ∨ right.value = -2) :
    ∃ v, close (some (left, .divide)) right = .ok v := by
  have hf : Word.Fits (left.value.toInt.tdiv right.value.toInt) := by
    have hl := Word.fits_iff.mp left.value.fits_toInt
    have hr : right.value.toInt.natAbs = 2 := by rcases h with h | h <;> rw [h] <;> rfl
    have hd := Int.natAbs_tdiv left.value.toInt right.value.toInt
    replace hd : _ = left.value.toInt.natAbs / 2 := hr ▸ hd
    rw [Word.fits_iff]
    omega
  have ⟨w, hw⟩ := hf.exists_word
  refine ⟨⟨w, _, _⟩, close_eq_ok_iff.mpr ⟨?_, rfl, hw⟩⟩
  rintro ⟨-, hz⟩
  rcases h with h | h <;> rw [h] at hz <;> cases hz

theorem Awaits.exists_finish (h : Awaits (IsExpression Word.Fits) .sum ts sum)
    (hp : ∀ left op, product = some (left, op) → op = .multiply) (start : Option Nat)
    (negative : Bool) (ht : t.symbol = .number 0) :
    ∃ m v, step ⟨sum, product, .expects start negative⟩ t = .ok m ∧ ∀ u, m.finish u = .ok v := by
  have hz : (if negative then -0 else 0 : Word) = 0 := by cases negative <;> rfl
  let factor : Operand := ⟨if negative then -0 else 0, start.getD t.span.start, t.span.stop⟩
  have ⟨v, hv⟩ : ∃ v, finish ⟨sum, product, .holds factor⟩ t = .ok v := h.finish_zero hp hz
  exact ⟨_, v, step_number ht, finish_eq_ok hv⟩

theorem exists_half (sum : Option (Operand × Operator)) (left : Operand) (start : Option Nat)
    (negative : Bool) (ht : t.symbol = .number 2) (hu : u.symbol = .star) :
    ∃ half, [t, u].foldlM step ⟨sum, some (left, .divide), .expects start negative⟩ =
      .ok ⟨sum, some (half, .multiply), .expects none false⟩ := by
  let factor : Operand := ⟨if negative then -2 else 2, start.getD t.span.start, t.span.stop⟩
  have hf : factor.value = 2 ∨ factor.value = -2 := by cases negative <;> simp [factor]
  have ⟨half, hc⟩ : ∃ half, close (some (left, .divide)) factor = .ok half := close_half hf
  have hs : step ⟨sum, some (left, .divide), .holds factor⟩ u =
      .ok ⟨sum, some (half, .multiply), .expects none false⟩ := by
    rw [step_holds, hc]
    exact step_product (by rw [hu]; rfl)
  exact ⟨half, (foldlM_of_step (step_number ht)).trans (foldlM_of_step hs)⟩

end Machine

theorem Symbol.Spelled.operator_of_ne {symbol : Symbol} (h : symbol.Spelled body)
    (hp : symbol ≠ .plus) (hm : symbol ≠ .minus) (hn : ∀ n, symbol ≠ .number n) :
    symbol = .star ∧ body = ['*'] ∨ symbol = .slash ∧ body = ['/'] := by
  cases symbol
  case number n => exact absurd rfl (hn n)
  case plus => exact absurd rfl hp
  case minus => exact absurd rfl hm
  case star => exact .inl ⟨rfl, h.eq_singleton rfl⟩
  case slash => exact .inr ⟨rfl, h.eq_singleton rfl⟩
  case finish => exact absurd rfl h.ne_finish

theorem Spells.digit {c : Char} {chars : List Char} {row : List Lexeme} (h : Spells chars row)
    (hc : c.isDigit) (hs : ∀ d ∈ chars.head?, d.isDigit = false) :
    Spells ([c] ++ chars) (.number (Numeral.value [c]) :: row) :=
  .number (by simp) (by simpa using hc) hs h

theorem exists_reads_zero (p : Nat) : ∃ t, Reads p [' ', '0'] [t] ∧ t.symbol = .number 0 := by
  have h : Spells [' ', '0'] [.number 0] :=
    .blank (by decide) (Spells.nil.digit (by decide) (by simp))
  have ⟨us, hr, hm⟩ := h.reads (p := p) fun n hn => by
    obtain rfl : n = 0 := by simpa using hn
    exact ⟨_, rfl⟩
  obtain ⟨t, us, rfl, ht, hm⟩ := hm.of_cons
  obtain rfl := hm.eq_nil_iff.mpr rfl
  exact ⟨t, hr, (Option.some.inj ht).symm⟩

theorem exists_reads_half_zero (p : Nat) :
    ∃ t₁ t₂ t₃, Reads p [' ', '2', '*', '0'] [t₁, t₂, t₃] ∧ t₁.symbol = .number 2 ∧
      t₂.symbol = .star ∧ t₃.symbol = .number 0 := by
  have h₀ : Spells ['*', '0'] [.star, .number 0] :=
    .sign rfl (Spells.nil.digit (by decide) (by simp))
  have h : Spells [' ', '2', '*', '0'] [.number 2, .star, .number 0] :=
    .blank (by decide) (h₀.digit (by decide) (by simp))
  have ⟨us, hr, hm⟩ := h.reads (p := p) fun n hn => by
    have : n = 2 ∨ n = 0 := by simpa using hn
    rcases this with rfl | rfl <;> exact ⟨_, rfl⟩
  obtain ⟨t₁, us, rfl, h₁, hm⟩ := hm.of_cons
  obtain ⟨t₂, us, rfl, h₂, hm⟩ := hm.of_cons
  obtain ⟨t₃, us, rfl, h₃, hm⟩ := hm.of_cons
  obtain rfl := hm.eq_nil_iff.mpr rfl
  exact ⟨t₁, t₂, t₃, hr, (Option.some.inj h₁).symm, (Option.some.inj h₂).symm,
    (Option.some.inj h₃).symm⟩

-- Whatever is open, it can be closed: with a zero, and behind a `/` with a two before it.
theorem Machine.Has.exists_completion (h : m.Has ts) (hp : m.phase = .expects start negative)
    (p : Nat) :
    ∃ suffix us m' v, (∀ c ∈ suffix.head?, c.isDigit = false) ∧ Reads p suffix us ∧
      us.foldlM Machine.step m = .ok m' ∧ ∀ t, m'.finish t = .ok v := by
  obtain ⟨sum, product, phase⟩ := m
  cases hp
  obtain ⟨a, b, c, rfl, ha, hb, -⟩ := h
  by_cases hd : ∃ left, product = some (left, .divide)
  case pos =>
    -- Here a zero would be the divisor. Half of any word is a word, and times zero it is zero.
    obtain ⟨left, rfl⟩ := hd
    have ⟨t₁, t₂, t₃, hr, h₁, h₂, h₃⟩ := exists_reads_half_zero p
    have ⟨half, hs⟩ := exists_half sum left start negative h₁ h₂
    have hp : ∀ l op, some (half, Operator.multiply) = some (l, op) → op = .multiply := by simp
    have ⟨m, v, hs', hf⟩ := ha.exists_finish hp none false h₃
    refine ⟨_, [t₁, t₂] ++ [t₃], m, v, by simp, hr, ?_, hf⟩
    rw [foldlM_append_of_ok hs]
    exact foldlM_of_step hs'
  case neg =>
    have ⟨t, hr, ht⟩ := exists_reads_zero p
    have hp : ∀ left op, product = some (left, op) → op = .multiply := by
      rintro left op rfl
      have ⟨_, _, _, _, ho⟩ := hb
      exact eq_multiply ho fun h => hd ⟨left, by rw [h]⟩
    have ⟨m, v, hs, hf⟩ := ha.exists_finish hp start negative ht
    exact ⟨_, [t], m, v, by simp, hr, foldlM_of_step hs, hf⟩

theorem evaluate_numeral_behind (ht : text.toList = front ++ (run ++ back)) (hr : Reads 0 front ts)
    (hm : ts.foldlM Machine.step .empty = .ok m) (hf : m.finish t = .ok v) (hn : run ≠ [])
    (hd : ∀ d ∈ run, d.isDigit) (hs : Seam front run) (hb : Seam run back) :
    evaluate text = .error (match Numeral.read? run with
      | some n => .trailingInput ⟨.number n, size front, size front + size run⟩
      | none => .overflow ⟨size front, size front + size run⟩) := by
  have hs : Seam front (run ++ back) := hs.append_right fun h => absurd h hn
  refine evaluate_eq_error_iff_halts.mpr ⟨front, run ++ back, ts, m, ht, hr, hs, hm, ?_⟩
  cases hw : Numeral.read? run
  case none => exact .lexical (.numeral hn hd hb hw)
  case some n =>
    have ho : ∀ strength : Precedence, strength.operator? (.number n) = none := by rintro ⟨⟩ <;> rfl
    exact .token rfl (.number hn hd hw) hb rfl (Machine.step_of_finish hf ho)

theorem Symbol.Spelled.number_of_operator? {symbol : Symbol} (h : symbol.Spelled body)
    (ho : ∀ strength : Precedence, strength.operator? symbol = none) :
    ∃ n, symbol = .number n := by
  cases symbol
  case number n => exact ⟨n, rfl⟩
  case plus => cases ho .sum
  case minus => cases ho .sum
  case star => cases ho .product
  case slash => cases ho .product
  case finish => exact absurd rfl h.ne_finish

theorem Halts.unexpectedToken {expected : Demand}
    (h : Halts front back m (.unexpectedToken expected t)) :
    expected = .operand ∧ (∃ start negative, m.phase = .expects start negative) ∧
      (back = [] ∧ t = ⟨.finish, size front, size front⟩ ∨
        ∃ body rest, back = body ++ rest ∧ t.span = ⟨size front, size front + size body⟩ ∧
          (t.symbol = .star ∧ body = ['*'] ∨ t.symbol = .slash ∧ body = ['/'])) := by
  cases h
  case lexical h => cases h
  case finish hb h =>
    rcases Machine.finish_eq_error h with ⟨hp, h⟩ | h
    · cases h
      exact ⟨rfl, hp, .inl ⟨hb, rfl⟩⟩
    · simpa using h.arithmetic
  case token body rest _ hb hw _ hs h =>
    cases Machine.step_eq_error h
    case operand hp h₁ h₂ h₃ =>
      exact ⟨rfl, ⟨_, _, hp⟩, .inr ⟨body, rest, hb, hs, hw.operator_of_ne h₁ h₂ h₃⟩⟩
    case breaks h => simpa using h.arithmetic

theorem Halts.trailingInput (h : Halts front back m (.trailingInput t)) :
    (∃ v, ∀ u, m.finish u = .ok v) ∧ ∃ body rest n,
      back = body ++ rest ∧ t.span = ⟨size front, size front + size body⟩ ∧
        t.symbol = .number n ∧ t.symbol.Spelled body := by
  cases h
  case lexical h => cases h
  case finish h =>
    rcases Machine.finish_eq_error h with ⟨-, h⟩ | h
    · cases h
    · simpa using h.arithmetic
  case token body rest _ hb hw _ hs h =>
    cases Machine.step_eq_error h
    case trailing v hv ho =>
      have ⟨n, hn⟩ := hw.number_of_operator? ho
      exact ⟨⟨v, Machine.finish_eq_ok hv⟩, body, rest, n, hb, hs, hn, hw⟩
    case breaks h => simpa using h.arithmetic

def Completable (front : String) : Prop :=
  ∃ y v, evaluate (front ++ y) = .ok v

structure UnexpectedAt (text : String) (expected : Demand) (found : Token) : Prop where
  demand : expected = .operand
  token  : found.symbol = .star ∧ found.span.slice? text = some "*" ∨
    found.symbol = .slash ∧ found.span.slice? text = some "/" ∨
    found = ⟨.finish, text.utf8ByteSize, text.utf8ByteSize⟩
  before : ∃ before, Span.slice? ⟨0, found.span.start⟩ text = some before ∧ Completable before
  upTo   : found.symbol ≠ .finish →
    ∃ upTo, Span.slice? ⟨0, found.span.stop⟩ text = some upTo ∧ ¬Completable upTo

structure TrailingAt (text : String) (found : Token) : Prop where
  token  : ∃ n literal, found.symbol = .number n ∧ found.span.slice? text = some literal ∧
    literal ≠ "" ∧ (∀ c ∈ literal.toList, c.isDigit) ∧ n.toInt = Numeral.value literal.toList
  before : ∃ before v, Span.slice? ⟨0, found.span.start⟩ text = some before ∧
    evaluate before = .ok v
  upTo   : ∃ upTo, Span.slice? ⟨0, found.span.stop⟩ text = some upTo ∧ ¬Completable upTo

theorem completable_of_expects (hr : Reads 0 front ts) (hm : ts.foldlM Machine.step .empty = .ok m)
    (hp : m.phase = .expects start negative) : Completable (.ofList front) := by
  have ⟨suffix, us, m', v, hs, hu, hm', hf⟩ := (hr.has hm).exists_completion hp (0 + size front)
  refine ⟨.ofList suffix, v.value, evaluate_eq_ok_iff_finish.mpr ⟨ts ++ us, m', v, ?_, ?_, hf, rfl⟩⟩
  · simpa using hr.append hu (.of_head hs)
  · rw [Machine.foldlM_append_of_ok hm]
    exact hm'

theorem not_completable_operator (hr : Reads 0 front ts)
    (hm : ts.foldlM Machine.step .empty = .ok m) (hp : m.phase = .expects start negative)
    (ho : t.symbol = .star ∧ body = ['*'] ∨ t.symbol = .slash ∧ body = ['/'])
    (ht : t.span = ⟨size front, size front + size body⟩) :
    ¬Completable (.ofList (front ++ body)) := by
  rintro ⟨y, v, hv⟩
  have hw : t.symbol.Spelled body := by
    obtain ⟨hs, rfl⟩ | ⟨hs, rfl⟩ := ho <;> exact hs ▸ .sign rfl
  have hs : Seam front (body ++ y.toList) := by
    apply Seam.of_head
    obtain ⟨-, rfl⟩ | ⟨-, rfl⟩ := ho <;> simp
  have hs' : Seam body y.toList := by
    apply Seam.of_last
    obtain ⟨-, rfl⟩ | ⟨-, rfl⟩ := ho <;> simp
  have hf : m.step t = .error (.unexpectedToken .operand t) := by
    obtain ⟨sum, product, phase⟩ := m
    cases hp
    apply Machine.step_expects_error <;> obtain ⟨h, -⟩ | ⟨h, -⟩ := ho <;> simp [h]
  have he : evaluate (.ofList (front ++ body) ++ y) = _ :=
    evaluate_eq_error_iff_halts.mpr ⟨front, body ++ y.toList, ts, m, by simp, hr, hs, hm,
      .token rfl hw hs' ht hf⟩
  cases hv.symm.trans he

theorem not_completable_numeral (hr : Reads 0 front ts) (hm : ts.foldlM Machine.step .empty = .ok m)
    (hf : m.finish t = .ok v) (hs : Seam front body) (hn : body ≠ [])
    (hd : ∀ d ∈ body, d.isDigit) : ¬Completable (.ofList (front ++ body)) := by
  rintro ⟨y, w, hw⟩
  have ⟨digits, rest, hy, hd', hr'⟩ := exists_digits y.toList
  have hs : Seam front (body ++ digits) := hs.append_right fun h => absurd h hn
  have he : evaluate (.ofList (front ++ body) ++ y) = _ :=
    evaluate_numeral_behind (by simp [hy]) hr hm hf (by simp [hn])
      (List.forall_mem_append.mpr ⟨hd, hd'⟩) hs (.of_head hr')
  cases hw.symm.trans he

theorem unexpectedAt_of_evaluate {expected : Demand}
    (h : evaluate text = .error (.unexpectedToken expected t)) : UnexpectedAt text expected t := by
  have ⟨front, back, ts, m, ht, hr, hs, hm, hh⟩ := exists_halts h
  obtain ⟨rfl, ⟨start, negative, hp⟩, ⟨hb, rfl⟩ | ⟨body, rest, hb, hx, ho⟩⟩ := hh.unexpectedToken
  case inl =>
    constructor
    case demand => rfl
    case token => simp [← Text.size_toList, ht, hb]
    case before => exact ⟨_, Span.slice?_front ht, completable_of_expects hr hm hp⟩
    case upTo => simp
  case inr =>
    have hc : text.toList = front ++ body ++ rest := by rw [ht, hb, List.append_assoc]
    have hz : t.span.slice? text = some (.ofList body) := hx ▸ Span.slice?_append hc
    constructor
    case demand => rfl
    case token =>
      obtain ⟨hy, rfl⟩ | ⟨hy, rfl⟩ := ho
      · exact .inl ⟨hy, hz⟩
      · exact .inr (.inl ⟨hy, hz⟩)
    case before => exact ⟨_, hx ▸ Span.slice?_front ht, completable_of_expects hr hm hp⟩
    case upTo =>
      intro
      refine ⟨.ofList (front ++ body), ?_, not_completable_operator hr hm hp ho hx⟩
      simpa [hx] using Span.slice?_front hc

theorem trailingAt_of_evaluate (h : evaluate text = .error (.trailingInput t)) :
    TrailingAt text t := by
  have ⟨front, back, ts, m, ht, hr, hs, hm, hh⟩ := exists_halts h
  obtain ⟨⟨v, hf⟩, body, rest, n, rfl, hx, hn, hw⟩ := hh.trailingInput
  have ⟨hne, hd, hw⟩ := Symbol.Spelled.number_iff.mp (hn ▸ hw)
  have hc := ht
  rw [← List.append_assoc] at hc
  constructor
  case token =>
    exact ⟨n, .ofList body, hn, hx ▸ Span.slice?_append hc, by simpa using hne, by simpa using hd,
      by simpa using Numeral.toInt_of_read? hw⟩
  case before =>
    refine ⟨.ofList front, v.value, hx ▸ Span.slice?_front ht, ?_⟩
    exact evaluate_eq_ok_iff_finish.mpr ⟨ts, m, v, by simpa using hr, hm, hf, rfl⟩
  case upTo =>
    refine ⟨.ofList (front ++ body), by simpa [hx] using Span.slice?_front hc, ?_⟩
    exact not_completable_numeral hr hm (hf t) hs.left hne hd

theorem trailingInput_of_evaluate {run back : String} {v n : Word} (h : evaluate text = .ok v)
    (ht : ∀ c ∈ text.toList.getLast?, c.isDigit = false) (hr : run ≠ "")
    (hd : ∀ c ∈ run.toList, c.isDigit) (hb : ∀ c ∈ back.toList.head?, c.isDigit = false)
    (hn : n.toInt = Numeral.value run.toList) :
    evaluate (text ++ run ++ back) = .error (.trailingInput
      ⟨.number n, text.utf8ByteSize, text.utf8ByteSize + run.utf8ByteSize⟩) := by
  have ⟨ts, m, w, hts, hm, hf, _⟩ := evaluate_eq_ok_iff_finish.mp h
  have hw : Numeral.read? run.toList = some n := by
    rw [Numeral.read?_eq, Word.ofInt?_eq_some_iff, hn]
  have hne : run.toList ≠ [] := by simpa using hr
  have he : evaluate (text ++ run ++ back) = _ :=
    evaluate_numeral_behind (by simp) hts hm (hf ⟨.finish, 0, 0⟩) hne hd (.of_last ht) (.of_head hb)
  simpa [hw] using he

-- Syntactic faults are met at the first token with which the text can no longer be completed. And
-- every numeral that follows a whole expression is such a token.
theorem syntax_fault_at_first_token (text : String) :
    (∀ expected found, evaluate text = .error (.unexpectedToken expected found) →
      UnexpectedAt text expected found) ∧
    (∀ found, evaluate text = .error (.trailingInput found) → TrailingAt text found) ∧
    ∀ (run back : String) (v n : Word), evaluate text = .ok v →
      (∀ c ∈ text.toList.getLast?, c.isDigit = false) → run ≠ "" → (∀ c ∈ run.toList, c.isDigit) →
      (∀ c ∈ back.toList.head?, c.isDigit = false) → n.toInt = Numeral.value run.toList →
      evaluate (text ++ run ++ back) = .error (.trailingInput
        ⟨.number n, text.utf8ByteSize, text.utf8ByteSize + run.utf8ByteSize⟩) :=
  ⟨fun _ _ => unexpectedAt_of_evaluate, fun _ => trailingAt_of_evaluate,
    fun _ _ _ _ => trailingInput_of_evaluate⟩

theorem syntax_fault_at_three_tokens :
    UnexpectedAt "7 / + * 2" .operand ⟨.star, 6, 7⟩ ∧ TrailingAt "1 2" ⟨.number 2, 2, 3⟩ ∧
      evaluate ("1 " ++ "02" ++ "-") = .error (.trailingInput ⟨.number 2, 2, 4⟩) :=
  ⟨(syntax_fault_at_first_token "7 / + * 2").1 _ _ (by decide +kernel),
    (syntax_fault_at_first_token "1 2").2.1 _ (by decide +kernel),
    (syntax_fault_at_first_token "1 ").2.2 "02" "-" 1 2 (by decide +kernel) (by simp) (by decide)
      (by simp) (by simp) (by decide)⟩

end Calculator
