import Calculator.Machine
import Calculator.Language.Grammar

namespace Calculator

def Lexeme.symbol? : Lexeme → Option Symbol
  | number value => (Word.ofInt? value).map .number
  | plus => some .plus
  | minus => some .minus
  | star => some .star
  | slash => some .slash

theorem Lexeme.symbol?_number {n : Nat} {s : Symbol} (h : (number n).symbol? = some s) :
    ∃ w, s = .number w ∧ w.toInt = n := by
  have ⟨w, hw, hs⟩ := Option.map_eq_some_iff.mp h
  exact ⟨w, hs.symm, Word.ofInt?_eq_some_iff.mp hw⟩

theorem Lexeme.eq_number {x : Lexeme} {w : Word} (h : x.symbol? = some (.number w)) :
    ∃ n : Nat, x = number n ∧ w.toInt = n := by
  cases x <;> simp [symbol?] at h
  case number n => exact ⟨n, rfl, Word.ofInt?_eq_some_iff.mp h⟩

theorem Lexeme.eq_of_symbol? {x y : Lexeme} {s : Symbol} (hx : x.symbol? = some s)
    (hy : y.symbol? = some s) : x = y := by
  cases s
  case number w =>
    have ⟨n, hn, hw⟩ := eq_number hx
    have ⟨m, hm, hw'⟩ := eq_number hy
    rw [hn, hm, Int.ofNat_inj.mp (hw.symm.trans hw')]
  all_goals cases x <;> cases y <;> simp_all [symbol?]

def Matches (ts : List Token) (row : List Lexeme) : Prop :=
  row.map Lexeme.symbol? = ts.map (some ·.symbol)

namespace Matches

variable {ts us : List Token} {t : Token} {row next : List Lexeme} {x : Lexeme}

theorem append (h : Matches ts row) (h' : Matches us next) : Matches (ts ++ us) (row ++ next) := by
  rw [Matches] at *
  simp [h, h']

theorem cons_iff : Matches (t :: ts) (x :: row) ↔ x.symbol? = some t.symbol ∧ Matches ts row := by
  simp [Matches]

theorem of_append (h : Matches ts (row ++ next)) :
    ∃ us ws, ts = us ++ ws ∧ Matches us row ∧ Matches ws next := by
  rw [Matches, List.map_append] at h
  obtain ⟨us, ws, rfl, h₁, h₂⟩ := List.map_eq_append_iff.mp h.symm
  exact ⟨us, ws, rfl, h₁.symm, h₂.symm⟩

theorem of_cons (h : Matches ts (x :: row)) :
    ∃ t us, ts = t :: us ∧ x.symbol? = some t.symbol ∧ Matches us row := by
  obtain ⟨t, us, rfl, h₁, h₂⟩ := List.map_eq_cons_iff.mp h.symm
  exact ⟨t, us, rfl, h₁.symm, h₂.symm⟩

theorem of_cons_token (h : Matches (t :: ts) row) :
    ∃ x r, row = x :: r ∧ x.symbol? = some t.symbol ∧ Matches ts r :=
  List.map_eq_cons_iff.mp h

theorem eq_nil_iff (h : Matches ts row) : ts = [] ↔ row = [] := by
  rw [← List.map_eq_nil_iff (f := Lexeme.symbol?), h, List.map_eq_nil_iff]

theorem exists_lexeme (h : Matches ts row) (ht : t ∈ ts) :
    ∃ x, Lexeme.symbol? x = some t.symbol := by
  have hm : some t.symbol ∈ row.map Lexeme.symbol? := h ▸ List.mem_map_of_mem ht
  have ⟨x, _, hx⟩ := List.mem_map.mp hm
  exact ⟨x, hx⟩

theorem eq (h : Matches ts row) (h' : Matches ts next) : row = next := by
  induction ts generalizing row next
  case nil => rw [h.eq_nil_iff.mp rfl, h'.eq_nil_iff.mp rfl]
  case cons t ts ih =>
    have ⟨x, r, hr, hx, hm⟩ := h.of_cons_token
    have ⟨y, r', hr', hy, hm'⟩ := h'.of_cons_token
    rw [hr, hr', Lexeme.eq_of_symbol? hx hy, ih hm hm']

end Matches

structure Span.Covers (s : Span) (ts : List Token) : Prop where
  start : ts.head?.map (·.span.start) = some s.start
  stop  : ts.getLast?.map (·.span.stop) = some s.stop

namespace Span.Covers

variable {s s' : Span} {ts us : List Token} {t : Token}

theorem ne_nil (h : s.Covers ts) : ts ≠ [] := by
  rintro rfl
  simpa using h.start

theorem eq (h : s.Covers ts) (h' : s'.Covers ts) : s = s' := by
  obtain ⟨start, stop⟩ := s
  obtain ⟨start', stop'⟩ := s'
  have h₁ := h.start.symm.trans h'.start
  have h₂ := h.stop.symm.trans h'.stop
  simp_all

theorem append (h : s.Covers ts) (h' : s'.Covers us) : Covers ⟨s.start, s'.stop⟩ (ts ++ us) := by
  have ⟨_, h₁, hs⟩ := Option.map_eq_some_iff.mp h.start
  have ⟨_, h₂, hs'⟩ := Option.map_eq_some_iff.mp h'.stop
  constructor <;> simp [List.head?_append, List.getLast?_append, h₁, h₂, hs, hs']

theorem join (h : s.Covers ts) (h' : s'.Covers us) : Covers ⟨s.start, s'.stop⟩ (ts ++ t :: us) := by
  have ht : t.span.Covers [t] := ⟨rfl, rfl⟩
  simpa using (h.append ht).append h'

theorem exists_of_ne_nil (h : ts ≠ []) : ∃ s : Span, s.Covers ts := by
  refine ⟨⟨(ts.head h).span.start, (ts.getLast h).span.stop⟩, ?_, ?_⟩
  · simp [List.head?_eq_some_head h]
  · simp [List.getLast?_eq_some_getLast h]

end Span.Covers

namespace IsFactor

variable {row : List Lexeme} {i : Int} {ts : List Token}

theorem ne_nil (h : IsFactor row i) : row ≠ [] := by
  cases h <;> simp

-- Signs never take a numeral out of the range.
theorem natAbs_le (h : IsFactor row i) (hm : Matches ts row) :
    (i.natAbs : Int) ≤ Int64.maxValue.toInt := by
  induction h generalizing ts
  case number n =>
    obtain ⟨t, us, rfl, hx, -⟩ := hm.of_cons
    obtain ⟨w, -, hw⟩ := Lexeme.symbol?_number hx
    have := w.fits_toInt.2
    omega
  case plus ih =>
    obtain ⟨t, us, rfl, -, hm⟩ := hm.of_cons
    exact ih hm
  case minus ih =>
    obtain ⟨t, us, rfl, -, hm⟩ := hm.of_cons
    simpa using ih hm

theorem fits (h : IsFactor row i) (hm : Matches ts row) : Word.Fits i := by
  have := h.natAbs_le hm
  rw [Word.fits_iff]
  change (i.natAbs : Int) ≤ 9223372036854775807 at this
  omega

end IsFactor

namespace IsTerm

variable {p q : Int → Prop} {row next : List Lexeme} {x : Lexeme} {s : Symbol} {op : Operator}
variable {v w : Int} {ts : List Token}

theorem apply (h : IsTerm p row v) (h' : IsFactor next w) (hx : x.symbol? = some s)
    (ho : Precedence.product.operator? s = some op) (hz : ¬(op = .divide ∧ w = 0))
    (hp : p (op.exact v w)) : IsTerm p (row ++ x :: next) (op.exact v w) := by
  cases s <;> cases ho <;> cases x <;> simp [Lexeme.symbol?] at hx
  case star => exact h.times h' hp
  case slash => exact h.divided h' (by simpa using hz) hp

theorem ne_nil (h : IsTerm p row v) : row ≠ [] := by
  cases h <;> simp
  case factor h => exact h.ne_nil

theorem fits (h : IsTerm Word.Fits row v) (hm : Matches ts row) : Word.Fits v := by
  cases h
  case factor h => exact h.fits hm
  all_goals assumption

theorem mono (hpq : ∀ i, p i → q i) (h : IsTerm p row v) : IsTerm q row v := by
  induction h
  case factor h => exact .factor h
  case times h hp ih => exact ih.times h (hpq _ hp)
  case divided h hz hp ih => exact ih.divided h hz (hpq _ hp)

end IsTerm

namespace IsExpression

variable {p q : Int → Prop} {row next : List Lexeme} {x : Lexeme} {s : Symbol} {op : Operator}
variable {v w : Int} {ts : List Token}

theorem apply (h : IsExpression p row v) (h' : IsTerm p next w) (hx : x.symbol? = some s)
    (ho : Precedence.sum.operator? s = some op) (hp : p (op.exact v w)) :
    IsExpression p (row ++ x :: next) (op.exact v w) := by
  cases s <;> cases ho <;> cases x <;> simp [Lexeme.symbol?] at hx
  case plus => exact h.plus h' hp
  case minus => exact h.minus h' hp

theorem ne_nil (h : IsExpression p row v) : row ≠ [] := by
  cases h <;> simp
  case term h => exact h.ne_nil

theorem fits (h : IsExpression Word.Fits row v) (hm : Matches ts row) : Word.Fits v := by
  cases h
  case term h => exact h.fits hm
  all_goals assumption

theorem mono (hpq : ∀ i, p i → q i) (h : IsExpression p row v) : IsExpression q row v := by
  induction h
  case term h => exact .term (h.mono hpq)
  case plus h hp ih => exact ih.plus (h.mono hpq) (hpq _ hp)
  case minus h hp ih => exact ih.minus (h.mono hpq) (hpq _ hp)

end IsExpression

structure Operand.IsValueOf (Is : List Lexeme → Int → Prop) (v : Operand) (ts : List Token) :
    Prop where
  sentence : ∃ row, Matches ts row ∧ Is row v.value.toInt
  covers   : v.span.Covers ts

theorem Operand.IsValueOf.mono {Is Is' : List Lexeme → Int → Prop} {v : Operand} {ts : List Token}
    (h : v.IsValueOf Is ts) (hi : ∀ row i, Is row i → Is' row i) : v.IsValueOf Is' ts where
  sentence := have ⟨row, hm, hs⟩ := h.sentence; ⟨row, hm, hi _ _ hs⟩
  covers := h.covers

inductive Signs : List Token → Bool → Prop where
  | nil : Signs [] false
  | plus {ts : List Token} {t : Token} {negative : Bool} :
    t.symbol = .plus → Signs ts negative → Signs (ts ++ [t]) negative
  | minus {ts : List Token} {t : Token} {negative : Bool} :
    t.symbol = .minus → Signs ts negative → Signs (ts ++ [t]) (!negative)

theorem Signs.isFactor {ts us : List Token} {negative : Bool} {row : List Lexeme} {i : Int}
    (h : Signs ts negative) (hf : IsFactor row i) (hm : Matches us row) :
    ∃ r, Matches (ts ++ us) r ∧ IsFactor r (if negative then -i else i) := by
  induction h generalizing us row i
  case nil => exact ⟨row, hm, hf⟩
  case plus t _ ht _ ih =>
    have hm : Matches (t :: us) (.plus :: row) :=
      Matches.cons_iff.mpr ⟨by simp [Lexeme.symbol?, ht], hm⟩
    simpa using ih hf.plus hm
  case minus t negative ht _ ih =>
    have hm : Matches (t :: us) (.minus :: row) :=
      Matches.cons_iff.mpr ⟨by simp [Lexeme.symbol?, ht], hm⟩
    cases negative <;> simpa using ih hf.minus hm

namespace Machine

-- The tokens are what waits for its right operand: nothing, or a sentence and an operator.
def Awaits (Is : List Lexeme → Int → Prop) (strength : Precedence) (ts : List Token) :
    Option (Operand × Operator) → Prop
  | none => ts = []
  | some (left, op) => ∃ us t, ts = us ++ [t] ∧ left.IsValueOf Is us ∧
    strength.operator? t.symbol = some op

def Phase.Has (ts : List Token) : Phase → Prop
  | expects start negative => Signs ts negative ∧ start = ts.head?.map (·.span.start)
  | holds factor => factor.IsValueOf IsFactor ts

-- The invariant of a run. All tokens that the machine has taken are accounted for: they are a
-- sum that waits, a product that waits, and a factor or its first signs.
def Has (m : Machine) (ts : List Token) : Prop :=
  ∃ a b c, ts = a ++ b ++ c ∧ Awaits (IsExpression Word.Fits) .sum a m.sum ∧
    Awaits (IsTerm Word.Fits) .product b m.product ∧ m.phase.Has c

variable {m m' : Machine} {waiting sum product : Option (Operand × Operator)}
variable {v w f : Operand} {op : Operator} {t : Token} {ts us : List Token}

theorem exists_lexeme {strength : Precedence} {s : Symbol} (h : strength.operator? s = some op) :
    ∃ x, Lexeme.symbol? x = some s := by
  cases strength <;> cases s <;> cases h
  · exact ⟨.plus, rfl⟩
  · exact ⟨.minus, rfl⟩
  · exact ⟨.star, rfl⟩
  · exact ⟨.slash, rfl⟩

theorem Awaits.isValueOf {Is Next : List Lexeme → Int → Prop} {strength : Precedence}
    (base : ∀ {row i}, Next row i → Is row i)
    (apply : ∀ {row next i j x s op}, Is row i → Next next j → Lexeme.symbol? x = some s →
      strength.operator? s = some op → ¬(op = .divide ∧ j = 0) → Word.Fits (op.exact i j) →
      Is (row ++ x :: next) (op.exact i j))
    (h : Awaits Is strength ts waiting) (hw : w.IsValueOf Next us)
    (hc : close waiting w = .ok v) : v.IsValueOf Is (ts ++ us) := by
  rcases waiting with _ | ⟨left, op⟩
  case none =>
    cases hc
    cases h
    exact hw.mono fun _ _ => base
  case some =>
    obtain ⟨ts, t, rfl, hl, ho⟩ := h
    have ⟨row, hr, hi⟩ := hl.sentence
    have ⟨next, hn, hj⟩ := hw.sentence
    have ⟨x, hx⟩ := exists_lexeme ho
    have ⟨hz, hs, hv⟩ := close_eq_ok_iff.mp hc
    rw [← Int64.toInt_inj, Int64.toInt_zero] at hz
    rw [List.append_assoc]
    constructor
    case sentence =>
      refine ⟨row ++ x :: next, hr.append (Matches.cons_iff.mpr ⟨hx, hn⟩), ?_⟩
      rw [hv]
      exact apply hi hj hx ho hz (hv ▸ v.value.fits_toInt)
    case covers => exact hs ▸ hl.covers.join hw.covers

theorem Awaits.isTerm (h : Awaits (IsTerm Word.Fits) .product ts waiting)
    (hw : w.IsValueOf IsFactor us) (hc : close waiting w = .ok v) :
    v.IsValueOf (IsTerm Word.Fits) (ts ++ us) :=
  h.isValueOf .factor (fun hi hj hx ho hz hf => hi.apply hj hx ho hz hf) hw hc

theorem Awaits.isExpression (h : Awaits (IsExpression Word.Fits) .sum ts waiting)
    (hw : w.IsValueOf (IsTerm Word.Fits) us) (hc : close waiting w = .ok v) :
    v.IsValueOf (IsExpression Word.Fits) (ts ++ us) :=
  h.isValueOf .term (fun hi hj hx ho _ hf => hi.apply hj hx ho hf) hw hc

theorem head?_start : (ts ++ [t]).head?.map (·.span.start) =
    some ((ts.head?.map (·.span.start)).getD t.span.start) := by
  cases ts <;> rfl

theorem Phase.Has.number {n : Word} {start : Option Nat} {negative : Bool}
    (h : Phase.Has ts (.expects start negative)) (ht : t.symbol = .number n)
    (hx : ∃ x, Lexeme.symbol? x = some t.symbol) :
    Phase.Has (ts ++ [t])
      (.holds ⟨if negative then -n else n, start.getD t.span.start, t.span.stop⟩) := by
  have ⟨hs, hn⟩ := h
  have ⟨x, hx⟩ := hx
  have ⟨k, hk, hv⟩ := Lexeme.eq_number (ht ▸ hx)
  have hm : Matches [t] [x] := Matches.cons_iff.mpr ⟨hx, rfl⟩
  have ⟨row, hr, hf⟩ := hs.isFactor (hk ▸ IsFactor.number k) hm
  constructor
  case sentence =>
    refine ⟨row, hr, ?_⟩
    cases negative
    case false => simpa [hv] using hf
    case true => simpa [Word.toInt_neg (w := n) (by omega), hv] using hf
  case covers => exact ⟨by rw [head?_start, hn], by simp⟩

theorem Has.step (h : m.Has ts) (hx : ∃ x, Lexeme.symbol? x = some t.symbol)
    (hs : m.step t = .ok m') : m'.Has (ts ++ [t]) := by
  obtain ⟨sum, product, phase⟩ := m
  obtain ⟨a, b, c, rfl, ha, hb, hc⟩ := h
  rcases phase with ⟨start, negative⟩ | ⟨factor⟩
  case expects =>
    -- A sign or a numeral adds to the factor that has begun.
    refine ⟨a, b, c ++ [t], by simp, ?_⟩
    have ⟨hg, hn⟩ := hc
    cases ht : t.symbol
    case plus =>
      rw [step_plus ht] at hs
      cases hs
      exact ⟨ha, hb, .plus ht hg, by rw [head?_start, hn]⟩
    case minus =>
      rw [step_minus ht] at hs
      cases hs
      exact ⟨ha, hb, .minus ht hg, by rw [head?_start, hn]⟩
    case number n =>
      rw [step_number ht] at hs
      cases hs
      exact ⟨ha, hb, hc.number ht hx⟩
    all_goals
      rw [step_expects_error (by simp [ht]) (by simp [ht]) (by simp [ht])] at hs
      cases hs
  case holds =>
    -- Any other token closes the product, and all but `*` and `/` close the sum as well.
    rw [Machine.step] at hs
    obtain ⟨term, hp, hs⟩ := bind_eq_ok_iff.mp hs
    have hp := hb.isTerm hc hp
    split at hs
    case h_1 op ho =>
      cases hs
      exact ⟨a, b ++ c ++ [t], [], by simp, ha, ⟨_, t, rfl, hp, ho⟩, .nil, rfl⟩
    case h_2 =>
      obtain ⟨total, hq, hs⟩ := bind_eq_ok_iff.mp hs
      have hq := ha.isExpression hp hq
      split at hs <;> cases hs
      exact ⟨a ++ (b ++ c) ++ [t], [], [], by simp, ⟨_, t, rfl, hq, ‹_›⟩, rfl, .nil, rfl⟩

theorem empty_has : empty.Has [] :=
  ⟨[], [], [], rfl, rfl, rfl, .nil, rfl⟩

theorem Has.foldlM (h : m.Has us) (hx : ∀ t ∈ ts, ∃ x, Lexeme.symbol? x = some t.symbol)
    (hr : ts.foldlM Machine.step m = .ok m') : m'.Has (us ++ ts) := by
  induction ts generalizing m us
  case nil =>
    cases hr
    simpa using h
  case cons t ts ih =>
    rw [List.foldlM_cons] at hr
    have ⟨_, hs, hr⟩ := bind_eq_ok_iff.mp hr
    have ht := hx t List.mem_cons_self
    simpa using ih (h.step ht hs) (fun t ht => hx t (List.mem_cons_of_mem _ ht)) hr

theorem Has.isExpression (h : m.Has ts) (hf : m.finish t = .ok v) :
    v.IsValueOf (IsExpression Word.Fits) ts := by
  obtain ⟨sum, product, phase⟩ := m
  obtain ⟨a, b, c, rfl, ha, hb, hc⟩ := h
  cases phase
  case expects => cases hf
  case holds =>
    have ⟨term, hp, hs⟩ := bind_eq_ok_iff.mp hf
    simpa using ha.isExpression (hb.isTerm hc hp) hs

-- From here on, sentences are given, and the machine is run over their tokens.

theorem foldlM_of_step (h : m.step t = .ok m') :
    (t :: ts).foldlM Machine.step m = ts.foldlM Machine.step m' := by
  rw [List.foldlM_cons, h]
  rfl

theorem foldlM_append_of_ok (h : ts.foldlM Machine.step m = .ok m') :
    (ts ++ us).foldlM Machine.step m = us.foldlM Machine.step m' := by
  rw [List.foldlM_append, h]
  rfl

theorem start_of_cons {start : Option Nat} {p : Nat} (hu : us ≠ [])
    (h : ((t :: us).head?.map (·.span.start)).map start.getD = some p) :
    (us.head?.map (·.span.start)).map (some (start.getD t.span.start)).getD = some p := by
  cases us
  case nil => exact absurd rfl hu
  case cons => simpa using h

theorem foldlM_of_isFactor {row : List Lexeme} {i : Int} {start : Option Nat} {negative : Bool}
    (h : IsFactor row i) (hm : Matches ts row) (hv : v.value.toInt = if negative then -i else i)
    (hs : (ts.head?.map (·.span.start)).map start.getD = some v.span.start)
    (ht : ts.getLast?.map (·.span.stop) = some v.span.stop) :
    ts.foldlM Machine.step ⟨sum, product, .expects start negative⟩ =
      .ok ⟨sum, product, .holds v⟩ := by
  -- The signs that have come before the factor have set `negative`, and the first of them `start`.
  induction h generalizing ts start negative
  case number n =>
    obtain ⟨t, us, rfl, hx, hu⟩ := hm.of_cons
    have ⟨w, hw, hn⟩ := Lexeme.symbol?_number hx
    obtain rfl := hu.eq_nil_iff.mpr rfl
    have he : v = ⟨if negative then -w else w, start.getD t.span.start, t.span.stop⟩ := by
      obtain ⟨value, first, last⟩ := v
      simp only [List.head?_cons, List.getLast?_singleton, Option.map_some, Option.some.injEq]
        at hs ht hv
      have := Word.toInt_neg (w := w) (by omega)
      cases negative <;> simp_all [← Int64.toInt_inj]
    rw [foldlM_of_step (step_number hw), he]
    rfl
  case plus row i h ih =>
    obtain ⟨t, us, rfl, hx, hu⟩ := hm.of_cons
    have hn : us ≠ [] := mt hu.eq_nil_iff.mp h.ne_nil
    rw [foldlM_of_step (step_plus (by simpa [Lexeme.symbol?] using hx.symm))]
    apply ih hu hv (start_of_cons hn hs)
    rwa [List.getLast?_cons_of_ne_nil hn] at ht
  case minus row i h ih =>
    obtain ⟨t, us, rfl, hx, hu⟩ := hm.of_cons
    have hn : us ≠ [] := mt hu.eq_nil_iff.mp h.ne_nil
    rw [foldlM_of_step (step_minus (by simpa [Lexeme.symbol?] using hx.symm))]
    refine ih hu ?_ (start_of_cons hn hs) ?_
    · cases negative <;> simpa using hv
    · rwa [List.getLast?_cons_of_ne_nil hn] at ht

theorem foldlM_factor (h : v.IsValueOf IsFactor ts) :
    ts.foldlM Machine.step ⟨sum, product, .expects none false⟩ = .ok ⟨sum, product, .holds v⟩ := by
  have ⟨row, hm, hf⟩ := h.sentence
  refine foldlM_of_isFactor hf hm rfl ?_ h.covers.stop
  rw [h.covers.start]
  rfl

-- Over the tokens, the machine comes to a term of this value, whatever sum waits for it.
def ReachesTerm (ts : List Token) (v : Operand) : Prop :=
  ∀ sum, ∃ product f,
    ts.foldlM Machine.step ⟨sum, none, .expects none false⟩ = .ok ⟨sum, product, .holds f⟩ ∧
      close product f = .ok v

def ReachesSum (ts : List Token) (v : Operand) : Prop :=
  ∃ sum product f term, ts.foldlM Machine.step empty = .ok ⟨sum, product, .holds f⟩ ∧
    close product f = .ok term ∧ close sum term = .ok v

theorem foldlM_product (h : ReachesTerm ts v) (ho : Precedence.product.operator? t.symbol = some op)
    (hw : w.IsValueOf IsFactor us) :
    (ts ++ t :: us).foldlM Machine.step ⟨sum, none, .expects none false⟩ =
      .ok ⟨sum, some (v, op), .holds w⟩ := by
  have ⟨product, f, hr, hc⟩ := h sum
  have hs : Machine.step ⟨sum, product, .holds f⟩ t =
      .ok ⟨sum, some (v, op), .expects none false⟩ := by
    rw [step_holds, hc]
    exact step_product ho
  rw [foldlM_append_of_ok hr, foldlM_of_step hs]
  exact foldlM_factor hw

theorem foldlM_sum (h : ReachesSum ts v) (ho : Precedence.sum.operator? t.symbol = some op)
    (hw : ReachesTerm us w) :
    ∃ product f, (ts ++ t :: us).foldlM Machine.step empty =
      .ok ⟨some (v, op), product, .holds f⟩ ∧ close product f = .ok w := by
  have ⟨sum, product, f, term, hr, hp, hc⟩ := h
  have hs : Machine.step ⟨sum, product, .holds f⟩ t =
      .ok ⟨some (v, op), none, .expects none false⟩ := by
    rw [step_holds, hp]
    change Machine.step ⟨sum, none, .holds term⟩ t = _
    rw [step_holds_term (operator?_product_of_sum ho), hc]
    exact step_sum ho
  have ⟨product, f, hr', hp'⟩ := hw (some (v, op))
  refine ⟨product, f, ?_, hp'⟩
  rw [foldlM_append_of_ok hr, foldlM_of_step hs]
  exact hr'

theorem exists_isValueOf {Is : List Lexeme → Int → Prop} {row : List Lexeme} {i : Int}
    (h : Is row i) (hm : Matches ts row) (hi : Word.Fits i) (hn : row ≠ []) :
    ∃ v : Operand, v.value.toInt = i ∧ v.IsValueOf Is ts := by
  have ⟨s, hs⟩ := Span.Covers.exists_of_ne_nil (mt hm.eq_nil_iff.mp hn)
  have ⟨w, hw⟩ := hi.exists_word
  exact ⟨⟨w, s⟩, hw, ⟨row, hm, hw ▸ h⟩, hs⟩

theorem close_of_covers (h : v.span.Covers ts) (h' : w.span.Covers us)
    (hf : f.span.Covers (ts ++ t :: us))
    (hz : ¬(op = .divide ∧ w.value.toInt = 0))
    (hv : f.value.toInt = op.exact v.value.toInt w.value.toInt) :
    close (some (v, op)) w = .ok f := by
  rw [← Int64.toInt_zero, Int64.toInt_inj] at hz
  exact close_eq_ok_iff.mpr ⟨hz, hf.eq (h.join h'), hv⟩

theorem ReachesTerm.apply (op : Operator) {row next : List Lexeme} {x : Lexeme} {i j : Int}
    (ih : ∀ {ts v}, v.value.toInt = i → Matches ts row → v.span.Covers ts → ReachesTerm ts v)
    (hi : IsTerm Word.Fits row i) (hj : IsFactor next j) (hm : Matches ts (row ++ x :: next))
    (ho : ∀ {s}, x.symbol? = some s → Precedence.product.operator? s = some op)
    (hz : ¬(op = .divide ∧ j = 0)) (hv : v.value.toInt = op.exact i j) (hs : v.span.Covers ts) :
    ReachesTerm ts v := by
  obtain ⟨us, _, rfl, hl, hm⟩ := hm.of_append
  obtain ⟨t, ws, rfl, hx, hr⟩ := hm.of_cons
  obtain ⟨left, rfl, hl'⟩ := exists_isValueOf hi hl (hi.fits hl) hi.ne_nil
  obtain ⟨right, rfl, hr'⟩ := exists_isValueOf hj hr (hj.fits hr) hj.ne_nil
  intro sum
  refine ⟨some (left, op), right, ?_, close_of_covers hl'.covers hr'.covers hs hz hv⟩
  exact foldlM_product (ih rfl hl hl'.covers) (ho hx) hr'

theorem reachesTerm_of_isTerm {row : List Lexeme} {i : Int} (h : IsTerm Word.Fits row i)
    (hv : v.value.toInt = i) (hm : Matches ts row) (hs : v.span.Covers ts) : ReachesTerm ts v := by
  induction h generalizing ts v
  case factor h => exact fun sum => ⟨none, v, foldlM_factor ⟨⟨_, hm, hv ▸ h⟩, hs⟩, rfl⟩
  case times hi hj _ ih =>
    refine ReachesTerm.apply .multiply ih hi hj hm ?_ (by simp) hv hs
    rintro _ ⟨⟩
    rfl
  case divided hi hj hz _ ih =>
    refine ReachesTerm.apply .divide ih hi hj hm ?_ (by simpa using hz) hv hs
    rintro _ ⟨⟩
    rfl

theorem reachesTerm (h : v.IsValueOf (IsTerm Word.Fits) ts) : ReachesTerm ts v :=
  have ⟨_, hm, ht⟩ := h.sentence
  reachesTerm_of_isTerm ht rfl hm h.covers

theorem ReachesSum.apply (op : Operator) {row next : List Lexeme} {x : Lexeme} {i j : Int}
    (ih : ∀ {ts v}, v.value.toInt = i → Matches ts row → v.span.Covers ts → ReachesSum ts v)
    (hi : IsExpression Word.Fits row i) (hj : IsTerm Word.Fits next j)
    (hm : Matches ts (row ++ x :: next))
    (ho : ∀ {s}, x.symbol? = some s → Precedence.sum.operator? s = some op)
    (hv : v.value.toInt = op.exact i j) (hs : v.span.Covers ts) : ReachesSum ts v := by
  obtain ⟨us, _, rfl, hl, hm⟩ := hm.of_append
  obtain ⟨t, ws, rfl, hx, hr⟩ := hm.of_cons
  obtain ⟨left, rfl, hl'⟩ := exists_isValueOf hi hl (hi.fits hl) hi.ne_nil
  obtain ⟨right, rfl, hr'⟩ := exists_isValueOf hj hr (hj.fits hr) hj.ne_nil
  have ⟨product, f, hf, hp⟩ := foldlM_sum (ih rfl hl hl'.covers) (ho hx) (reachesTerm hr')
  have hz : ¬(op = .divide ∧ right.value.toInt = 0) := fun h => operator?_sum_ne_divide (ho hx) h.1
  exact ⟨_, product, f, right, hf, hp, close_of_covers hl'.covers hr'.covers hs hz hv⟩

theorem reachesSum_of_isExpression {row : List Lexeme} {i : Int} (h : IsExpression Word.Fits row i)
    (hv : v.value.toInt = i) (hm : Matches ts row) (hs : v.span.Covers ts) : ReachesSum ts v := by
  induction h generalizing ts v
  case term h =>
    have ⟨product, f, hr, hc⟩ := reachesTerm_of_isTerm h hv hm hs none
    exact ⟨none, product, f, v, hr, hc, rfl⟩
  case plus hi hj _ ih =>
    refine ReachesSum.apply .add ih hi hj hm ?_ hv hs
    rintro _ ⟨⟩
    rfl
  case minus hi hj _ ih =>
    refine ReachesSum.apply .subtract ih hi hj hm ?_ hv hs
    rintro _ ⟨⟩
    rfl

theorem reachesSum (h : v.IsValueOf (IsExpression Word.Fits) ts) : ReachesSum ts v :=
  have ⟨_, hm, ht⟩ := h.sentence
  reachesSum_of_isExpression ht rfl hm h.covers

end Machine
end Calculator
