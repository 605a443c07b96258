import Calculator.Proofs.Listing
import Calculator.Proofs.Log
import Calculator.Proofs.Insertion
import Calculator.Proofs.Unambiguous

namespace Calculator

open Machine (Awaits)
open Text (size)

-- The invariant of a parse. All tokens that have been used up are accounted for: they are the
-- sum and the product that wait, and the operand at hand or its first signs.
inductive Moment.Has : Moment → List Token → Prop where
  | signs {sum product : Option (Operand × Operator)} {a b c : List Token} {start : Span} {n : Nat}
    {l : Lookahead} :
    Awaits (IsExpression Word.Fits) .sum a sum → Awaits (IsTerm Word.Fits) .product b product →
    Signs c (n % 2 = 1) → (c ++ [l.current]).head?.map (·.span) = some start →
    Has ⟨sum, product, .signs start n l⟩ (a ++ (b ++ c))
  | factor {sum product : Option (Operand × Operator)} {a b c : List Token} {v : Operand}
    {l : Lookahead} :
    Awaits (IsExpression Word.Fits) .sum a sum → Awaits (IsTerm Word.Fits) .product b product →
    v.IsValueOf IsFactor c → Has ⟨sum, product, .factor v l⟩ (a ++ (b ++ c))
  | products {sum product : Option (Operand × Operator)} {a b : List Token} {v : Operand}
    {l : Lookahead} :
    Awaits (IsExpression Word.Fits) .sum a sum → v.IsValueOf (IsTerm Word.Fits) b →
    Has ⟨sum, product, .products v l⟩ (a ++ b)
  | term {sum product : Option (Operand × Operator)} {a b : List Token} {v : Operand}
    {l : Lookahead} :
    Awaits (IsExpression Word.Fits) .sum a sum → v.IsValueOf (IsTerm Word.Fits) b →
    Has ⟨sum, product, .term v l⟩ (a ++ b)
  | sums {sum product : Option (Operand × Operator)} {ts : List Token} {v : Operand}
    {l : Lookahead} :
    v.IsValueOf (IsExpression Word.Fits) ts → Has ⟨sum, product, .sums v l⟩ ts
  | expression {sum product : Option (Operand × Operator)} {ts : List Token} {v : Operand}
    {l : Lookahead} :
    v.IsValueOf (IsExpression Word.Fits) ts → Has ⟨sum, product, .expression v l⟩ ts

variable {text : String} {chars : List Char} {p : Nat} {s s' : Span} {t : Token}
variable {us ws pre mid post : List Token} {m m' : Moment} {l last : Lookahead}

theorem Token.covers_singleton (t : Token) : t.span.Covers [t] :=
  ⟨rfl, rfl⟩

theorem Span.Covers.le (h : s.Covers us) (h' : s'.Covers ws)
    (hr : Reads p chars (pre ++ (us ++ (mid ++ (ws ++ post))))) :
    s.start ≤ s'.start ∧ s.stop ≤ s'.stop := by
  have hb : ∀ u ∈ us, ∀ w ∈ ws, u.Before w := by
    intro u hu w hw
    have ⟨_, ho, _⟩ := List.pairwise_append.mp hr.ordered
    exact (List.pairwise_append.mp ho).2.2 u hu w (by simp [hw])
  have ⟨u, _, hu, hs⟩ := h.split_head
  have ⟨w, _, hw, hs'⟩ := h'.split_head
  have ⟨_, u', hu', he⟩ := h.split_last
  have ⟨_, w', hw', he'⟩ := h'.split_last
  have := hb u (by simp [hu]) w (by simp [hw])
  have := hb u' (by simp [hu']) w' (by simp [hw'])
  have := hr.start_lt_stop (t := w') (by simp [hw'])
  unfold Token.Before at *
  omega

-- On two operands in the order of the text, an operation comes to what the machine makes of it.
theorem Machine.Awaits.close_of_close {Is Next : List Lexeme → Int → Prop} {strength : Precedence}
    {waiting : Option (Operand × Operator)} {v : Operand} (h : Awaits Is strength us waiting)
    (hv : v.IsValueOf Next ws) (hr : Reads p chars (pre ++ (us ++ ws ++ post))) :
    (∀ w, Moment.close waiting v l = .ok w last → Machine.close waiting v = .ok w) ∧
      ∀ f, Moment.close waiting v l = .error f last → Machine.close waiting v = .error f := by
  rcases waiting with _ | ⟨left, op⟩
  case none =>
    constructor <;> intro _ hc <;> cases hc
    rfl
  case some =>
    obtain ⟨us, t, rfl, hl, -⟩ := h
    have hr : Reads p chars (pre ++ (us ++ ([t] ++ (ws ++ post)))) := by simpa using hr
    have ⟨h₁, h₂⟩ := hl.covers.le hv.covers hr
    rw [← Operator.apply_eq_close h₁ h₂, Moment.close]
    cases op.apply left v <;> simp

theorem Operand.IsValueOf.exists_last {Is : List Lexeme → Int → Prop} {v : Operand}
    (h : v.IsValueOf Is us) (he : ∀ {row i}, Is row i → EndsInNumber row) :
    ∃ ts t, us = ts ++ [t] ∧ t.symbol.category = .number ∧ t.span.stop = v.span.stop := by
  have ⟨row, hm, hi⟩ := h.sentence
  obtain ⟨ts, t, w, rfl, hw⟩ := hm.exists_last (he hi)
  exact ⟨ts, t, rfl, by rw [hw]; rfl, by simpa using h.covers.stop⟩

theorem Machine.Awaits.exists_last {Is Next : List Lexeme → Int → Prop} {strength : Precedence}
    {waiting : Option (Operand × Operator)} {v : Operand} {f : Fault}
    (h : Awaits Is strength us waiting) (hv : v.IsValueOf Next ws)
    (he : ∀ {row i}, Next row i → EndsInNumber row)
    (hr : Reads p chars (pre ++ (us ++ ws ++ post)))
    (hc : Moment.close waiting v l = .error f last) :
    ∃ ts t, us ++ ws = ts ++ [t] ∧ t.symbol.category = .number ∧ t.span.stop = f.span.stop := by
  have ⟨ts, t, hw, hn, hs⟩ := hv.exists_last he
  refine ⟨us ++ ts, t, by rw [hw, List.append_assoc], hn, hs.trans ?_⟩
  exact (Machine.stop_of_close ((h.close_of_close hv hr).2 f hc)).symm

namespace Lookahead

structure Uses (us : List Token) (l last : Lookahead) : Prop where
  consumed : Log.consumed last.log = Log.consumed l.log ++ us
  tokens   : l.stream.tokens = us ++ last.stream.tokens

namespace Uses

variable {next : Lookahead} {wanted : Category}

theorem refl : l.Uses [] l :=
  ⟨by simp, by simp⟩

theorem trans (h : l.Uses us next) (h' : next.Uses ws last) : l.Uses (us ++ ws) last where
  consumed := by rw [h'.consumed, h.consumed, List.append_assoc]
  tokens := by rw [h.tokens, h'.tokens, List.append_assoc]

theorem enter (h : l.Uses us last) (rule : Rule) :
    l.Uses us (last.note (.entered rule last.current.span)) where
  consumed := by rw [consumed_enter, h.consumed]
  tokens := h.tokens

theorem of_consume (h : l.consume wanted = .ok t next) (hw : wanted ≠ .finish) :
    l.Uses [l.current] next where
  consumed := consumed_of_consume h
  tokens := by rw [stream_of_consume h hw, List.singleton_append]

end Uses
end Lookahead

namespace Moment

def used (m : Moment) : List Token :=
  Log.consumed m.place.lookahead.log

variable {sum product : Option (Operand × Operator)} {start : Span} {n : Nat} {v w : Operand}
variable {next : Lookahead} {op : Operator} {value : Word} {ts a b : List Token}

namespace Has

theorem beginFactor (ha : Awaits (IsExpression Word.Fits) .sum a sum)
    (hb : Awaits (IsTerm Word.Fits) .product b product) :
    Has ⟨sum, product, .beginFactor l⟩ (a ++ b) := by
  have h : Has ⟨sum, product, .beginFactor l⟩ (a ++ (b ++ [])) := .signs ha hb .nil rfl
  simpa using h

theorem of_start (l : Lookahead) : Has (Moment.start l) [] :=
  beginFactor (a := []) (b := []) rfl rfl

theorem step_plus (h : Has ⟨sum, product, .signs start n l⟩ ts) (hs : l.current.symbol = .plus) :
    Has ⟨sum, product, .signs start n next⟩ (ts ++ [l.current]) := by
  cases h
  case signs ha hb hc hf =>
    rw [List.append_assoc, List.append_assoc]
    refine .signs ha hb (.plus hs hc) ?_
    rwa [List.head?_append_of_ne_nil _ (by simp)]

theorem step_minus (h : Has ⟨sum, product, .signs start n l⟩ ts) (hs : l.current.symbol = .minus) :
    Has ⟨sum, product, .signs start (n + 1) next⟩ (ts ++ [l.current]) := by
  cases h
  case signs ha hb hc hf =>
    have hp : (!decide (n % 2 = 1)) = decide ((n + 1) % 2 = 1) := by
      rw [← decide_not, decide_eq_decide]
      omega
    rw [List.append_assoc, List.append_assoc]
    refine .signs ha hb (hp ▸ .minus hs hc) ?_
    rwa [List.head?_append_of_ne_nil _ (by simp)]

theorem step_number (h : Has ⟨sum, product, .signs start n l⟩ ts)
    (hs : l.current.symbol = .number value) (hr : Reads p chars (ts ++ [l.current] ++ post)) :
    Has ⟨sum, product,
        .factor ⟨if n % 2 = 1 then -value else value, start.hull l.current.span⟩ next⟩
      (ts ++ [l.current]) := by
  cases h
  case signs a b c ha hb hc hf =>
    rw [List.append_assoc, List.append_assoc] at hr ⊢
    refine .factor ha hb ?_
    have hx := hr.exists_lexeme l.current (by simp)
    have hv := Machine.Phase.Has.number ⟨hc, rfl⟩ hs hx
    -- The span begins at the first sign, or at the numeral if there is no sign.
    have he : start.hull l.current.span =
        ⟨(c.head?.map (·.span.start)).getD l.current.span.start, l.current.span.stop⟩ := by
      cases c
      case nil =>
        obtain rfl : l.current.span = start := by simpa using hf
        simp [Span.hull]
      case cons t c =>
        obtain rfl : t.span = start := by simpa using hf
        have hr : Reads p chars (a ++ b ++ ([t] ++ (c ++ ([l.current] ++ post)))) := by
          simpa using hr
        have hb := t.covers_singleton.le l.current.covers_singleton hr
        exact Span.hull_eq hb.1 hb.2
    simp only [decide_eq_true_eq] at hv
    rw [he]
    exact hv

theorem step_product (h : Has ⟨sum, product, .factor v l⟩ ts) (hc : close product v l = .ok w last)
    (hr : Reads p chars (ts ++ post)) : Has ⟨sum, none, .products w last⟩ ts := by
  cases h
  case factor ha hb hv =>
    rw [List.append_assoc] at hr
    exact .products ha (hb.isTerm hv ((hb.close_of_close hv hr).1 w hc))

theorem step_term (h : Has ⟨sum, product, .products v l⟩ ts) :
    Has ⟨sum, product, .term v l⟩ ts := by
  cases h
  case products ha hv => exact .term ha hv

theorem step_times (h : Has ⟨sum, product, .products v l⟩ ts)
    (ho : Precedence.product.operator? l.current.symbol = some op) :
    Has ⟨sum, some (v, op), .beginFactor next⟩ (ts ++ [l.current]) := by
  cases h
  case products ha hv =>
    rw [List.append_assoc]
    exact beginFactor ha ⟨_, _, rfl, hv, ho⟩

theorem step_sum (h : Has ⟨sum, product, .term v l⟩ ts) (hc : close sum v l = .ok w last)
    (hr : Reads p chars (ts ++ post)) : Has ⟨none, none, .sums w last⟩ ts := by
  cases h
  case term ha hv =>
    have hr : Reads p chars ([] ++ (_ ++ post)) := hr
    exact .sums (ha.isExpression hv ((ha.close_of_close hv hr).1 w hc))

theorem step_expression (h : Has ⟨sum, product, .sums v l⟩ ts) :
    Has ⟨sum, product, .expression v l⟩ ts := by
  cases h
  case sums hv => exact .expression hv

theorem step_adds (h : Has ⟨sum, product, .sums v l⟩ ts)
    (ho : Precedence.sum.operator? l.current.symbol = some op) :
    Has ⟨some (v, op), none, .beginTerm next⟩ (ts ++ [l.current]) := by
  cases h
  case sums hv =>
    rw [← List.append_nil (ts ++ [l.current])]
    exact beginFactor ⟨_, _, rfl, hv, ho⟩ rfl

-- Where an operation fails, its right operand has just come, and ends in a numeral.
theorem exists_last_of_product {f : Fault} (h : Has ⟨sum, product, .factor v l⟩ ts)
    (hc : close product v l = .error f last) (hr : Reads p chars (ts ++ post)) :
    ∃ us t, ts = us ++ [t] ∧ t.symbol.category = .number ∧ t.span.stop = f.span.stop := by
  cases h
  case factor a _ _ _ hb hv =>
    rw [List.append_assoc] at hr
    have ⟨us, t, hu, ht⟩ := hb.exists_last hv IsFactor.endsInNumber hr hc
    exact ⟨a ++ us, t, by rw [hu, List.append_assoc], ht⟩

theorem exists_last_of_sum {f : Fault} (h : Has ⟨sum, product, .term v l⟩ ts)
    (hc : close sum v l = .error f last) (hr : Reads p chars (ts ++ post)) :
    ∃ us t, ts = us ++ [t] ∧ t.symbol.category = .number ∧ t.span.stop = f.span.stop := by
  cases h
  case term ha hv =>
    have hr : Reads p chars ([] ++ (_ ++ post)) := hr
    exact ha.exists_last hv IsTerm.endsInNumber hr hc

end Has

theorem used_beginFactor : used ⟨sum, product, .beginFactor l⟩ = Log.consumed l.log :=
  Lookahead.consumed_enter

theorem used_beginTerm : used ⟨sum, product, .beginTerm l⟩ = Log.consumed l.log :=
  used_beginFactor.trans Lookahead.consumed_enter

theorem Transition.uses (h : m.Transition m') (hm : m.Has ts)
    (hr : Reads p chars (ts ++ m.place.lookahead.stream.tokens)) :
    ∃ us, m.place.lookahead.Uses us m'.place.lookahead ∧ m'.Has (ts ++ us) := by
  cases h
  case plus hs hc => exact ⟨_, .of_consume hc (by simp), hm.step_plus hs⟩
  case minus hs hc => exact ⟨_, .of_consume hc (by simp), hm.step_minus hs⟩
  case number hs hc =>
    obtain ⟨rfl, -⟩ := Lookahead.consume_eq_ok hc
    have hu := Lookahead.Uses.of_consume hc (by simp)
    rw [Place.lookahead, hu.tokens, ← List.append_assoc] at hr
    exact ⟨_, hu, hm.step_number hs hr⟩
  case product hc => exact ⟨[], .refl, by simpa using hm.step_product hc hr⟩
  case term => exact ⟨[], .refl, by simpa using hm.step_term⟩
  case times op _ _ _ ho hc =>
    exact ⟨_, (Lookahead.Uses.of_consume hc op.category_ne_finish).enter .factor, hm.step_times ho⟩
  case sum hc => exact ⟨[], .refl, by simpa using hm.step_sum hc hr⟩
  case expression => exact ⟨[], .refl, by simpa using hm.step_expression⟩
  case adds op _ _ _ ho hc =>
    exact ⟨_, ((Lookahead.Uses.of_consume hc op.category_ne_finish).enter .term).enter .factor,
      hm.step_adds ho⟩

theorem Reaches.uses (h : m.Reaches m') (hm : m.Has ts)
    (hr : Reads p chars (ts ++ m.place.lookahead.stream.tokens)) :
    ∃ us, m.place.lookahead.Uses us m'.place.lookahead ∧ m'.Has (ts ++ us) := by
  induction h
  case refl => exact ⟨[], .refl, by simpa using hm⟩
  case tail hs ih =>
    have ⟨us, hu, hm⟩ := ih
    rw [hu.tokens, ← List.append_assoc] at hr
    have ⟨ws, hw, hm⟩ := hs.transition.uses hm hr
    exact ⟨us ++ ws, hu.trans hw, by rwa [← List.append_assoc]⟩

theorem reads_used (ht : m.place.lookahead.Tracks text) :
    ∃ front back, text.toList = front ++ back ∧
      Reads 0 front (m.used ++ m.place.lookahead.stream.tokens) := by
  have ⟨front, back, hc, hr, _, _⟩ := reads_ofText text
  exact ⟨front, back, hc, ht.tokens ▸ hr⟩

theorem used_start (h : Lookahead.ofCursor (.ofText text) = .ok l) :
    (Moment.start l).used = [] := by
  rw [Moment.start, used_beginTerm, Lookahead.consumed_enter, Lookahead.log_of_ofCursor h]
  rfl

theorem Reaches.has (hc : Lookahead.ofCursor (.ofText text) = .ok l)
    (h : (Moment.start l).Reaches m) : m.Has m.used := by
  have hu := used_start hc
  have ⟨_, _, _, hr⟩ := reads_used (start_tracks (.of_ofCursor hc))
  have ⟨us, hs, hm⟩ := h.uses (.of_start l) (hu ▸ hr)
  rw [used, hs.consumed, ← used, hu]
  exact hm

end Moment
end Calculator
