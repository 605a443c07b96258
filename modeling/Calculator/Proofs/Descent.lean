import Calculator.Grammar
import Mathlib.Logic.Relation

namespace Calculator

namespace Lookahead.Outcome

variable {α β : Type}

def andThen (out : Outcome α) (k : α → Lookahead → Outcome β) : Outcome β :=
  match out with
  | .error f l => .error f l
  | .ok a l => k a l

def left : Outcome α → Lookahead
  | .error _ l | .ok _ l => l

@[simp] theorem error_andThen {f : Fault} {l : Lookahead} {k : α → Lookahead → Outcome β} :
    andThen (.error f l) k = .error f l := rfl

@[simp] theorem ok_andThen {a : α} {l : Lookahead} {k : α → Lookahead → Outcome β} :
    andThen (.ok a l) k = k a l := rfl

theorem andThen_assoc {γ : Type} (out : Outcome α) (k : α → Lookahead → Outcome β)
    (k' : β → Lookahead → Outcome γ) :
    (out.andThen k).andThen k' = out.andThen fun a l => (k a l).andThen k' := by
  cases out <;> rfl

theorem eq_ok_of_andThen {out : Outcome α} {k : α → Lookahead → Outcome β} {b : β}
    {last : Lookahead} (h : out.andThen k = .ok b last) :
    ∃ a l, out = .ok a l ∧ k a l = .ok b last := by
  cases out
  case error => cases h
  case ok a l => exact ⟨a, l, rfl, h⟩

end Lookahead.Outcome

structure Request where
  wanted    : Category
  lookahead : Lookahead

def Request.token (r : Request) : Token :=
  r.lookahead.current

def Request.answer (r : Request) : Lookahead.Outcome Token :=
  r.lookahead.consume r.wanted

inductive Place where
  -- A factor has begun at `start` and has had so many minus signs.
  | signs (start : Span) (minuses : Nat) (l : Lookahead)
  | factor (v : Operand) (l : Lookahead)
  | products (left : Operand) (l : Lookahead)
  | term (v : Operand) (l : Lookahead)
  | sums (left : Operand) (l : Lookahead)
  | expression (v : Operand) (l : Lookahead)

-- The rules at work. None of them calls itself, and so all that they keep while others are at work
-- is a sum that waits, a product that waits and the place where they are.
structure Moment where
  -- What the expression has on the left of the term that is under way.
  sum : Option (Operand × Operator)
  -- What the term has on the left of the factor that is under way.
  product : Option (Operand × Operator)
  place : Place

namespace Place

def lookahead : Place → Lookahead
  | signs _ _ l | factor _ l | products _ l | term _ l | sums _ l | expression _ l => l

def beginFactor (l : Lookahead) : Place :=
  .signs l.current.span 0 (l.note (.entered .factor l.current.span))

def beginTerm (l : Lookahead) : Place :=
  beginFactor (l.note (.entered .term l.current.span))

-- Bounds the number of steps from here to the next token that is consumed.
def rank : Place → Nat
  | signs .. => 5
  | factor .. => 4
  | products .. => 3
  | term .. => 2
  | sums .. => 1
  | expression .. => 0

end Place

namespace Moment

open Lookahead

def start (l : Lookahead) : Moment where
  sum := none
  product := none
  place := .beginTerm (l.note (.entered .expression l.current.span))

def close (waiting : Option (Operand × Operator)) (right : Operand) (l : Lookahead) :
    Outcome Operand :=
  match waiting with
  | none => .ok right l
  | some (left, op) =>
    match op.apply left right with
    | .error f => .error f l
    | .ok v => .ok v l

def conclude (v : Operand) (l : Lookahead) : Outcome Operand :=
  if l.current.isFinish then .ok v (l.note (.completed v))
  else .error (.trailingInput l.current) (l.note (.trailing l.current))

inductive Next where
  | go (m : Moment)
  | stop (out : Outcome Operand)

def Next.ofOutcome {α : Type} (out : Outcome α) (go : α → Lookahead → Moment) : Next :=
  match out with
  | .error f l => .stop (.error f l)
  | .ok a l => .go (go a l)

inductive Action where
  -- A token is asked for, and the rules go on with the answer.
  | ask (r : Request) (go : Token → Lookahead → Moment)
  | idle (next : Next)

namespace Action

def next : Action → Next
  | ask r go => .ofOutcome r.answer go
  | idle next => next

def request? : Action → Option Request
  | ask r _ => some r
  | idle _ => none

end Action

def action (m : Moment) : Action :=
  match m.place with
  | .signs start minuses l =>
    match l.current.symbol with
    | .plus => .ask ⟨.plus, l⟩ fun _ l => { m with place := .signs start minuses l }
    | .minus => .ask ⟨.minus, l⟩ fun _ l => { m with place := .signs start (minuses + 1) l }
    | .number value =>
      .ask ⟨.number, l⟩ fun t l =>
        { m with place :=
          .factor ⟨if minuses % 2 = 1 then -value else value, start.hull t.span⟩ l }
    | _ => .idle (.stop (.error (.unexpectedToken .operand l.current) l))
  | .factor v l =>
    .idle (.ofOutcome (close m.product v l) fun left l => ⟨m.sum, none, .products left l⟩)
  | .products left l =>
    match Precedence.product.operator? l.current.symbol with
    | none => .idle (.go { m with place := .term left l })
    | some op => .ask ⟨op.category, l⟩ fun _ l => ⟨m.sum, some (left, op), .beginFactor l⟩
  | .term v l =>
    .idle (.ofOutcome (close m.sum v l) fun left l => ⟨none, none, .sums left l⟩)
  | .sums left l =>
    match Precedence.sum.operator? l.current.symbol with
    | none => .idle (.go { m with place := .expression left l })
    | some op => .ask ⟨op.category, l⟩ fun _ l => ⟨some (left, op), none, .beginTerm l⟩
  | .expression v l => .idle (.stop (conclude v l))

def step (m : Moment) : Next :=
  m.action.next

def request? (m : Moment) : Option Request :=
  m.action.request?

-- How the rules go on behind a term, and behind a factor, to the end of the parse.
def afterTerm (sum : Option (Operand × Operator)) (v : Operand) (l : Lookahead) : Outcome Operand :=
  ((close sum v l).andThen fun left l => l.chain .sum Lookahead.term size_le_of_term left).andThen
    conclude

def afterFactor (sum product : Option (Operand × Operator)) (v : Operand) (l : Lookahead) :
    Outcome Operand :=
  ((close product v l).andThen fun left l =>
    l.chain .product Lookahead.factor size_le_of_factor left).andThen (afterTerm sum)

-- What the rules make of a moment: each finishes its own work, and gives its result to the rule
-- that has called it.
def outcome (m : Moment) : Outcome Operand :=
  match m.place with
  | .signs start minuses l => (l.signed start minuses).andThen (afterFactor m.sum m.product)
  | .factor v l => afterFactor m.sum m.product v l
  | .products left l =>
    (l.chain .product Lookahead.factor size_le_of_factor left).andThen (afterTerm m.sum)
  | .term v l => afterTerm m.sum v l
  | .sums left l => (l.chain .sum Lookahead.term size_le_of_term left).andThen conclude
  | .expression v l => conclude v l

def Next.outcome : Next → Outcome Operand
  | go m => m.outcome
  | stop out => out

def Leads (m m' : Moment) : Prop :=
  m.step = .go m'

def Reaches : Moment → Moment → Prop :=
  Relation.ReflTransGen Leads

end Moment

namespace Lookahead

variable {l : Lookahead} {start : Span} {n : Nat} {value : Word} {strength : Precedence}
variable {op : Operator} {left : Operand} {operand : Lookahead → Outcome Operand}
variable {shrinks : ∀ {l next v}, operand l = .ok v next → next.size ≤ l.size}

theorem signed_plus (h : l.current.symbol = .plus) :
    l.signed start n = (l.consume .plus).andThen fun _ l => l.signed start n := by
  rw [signed]
  simp only [h]
  split <;> simp_all

theorem signed_minus (h : l.current.symbol = .minus) :
    l.signed start n = (l.consume .minus).andThen fun _ l => l.signed start (n + 1) := by
  rw [signed]
  simp only [h]
  split <;> simp_all

theorem signed_number (h : l.current.symbol = .number value) :
    l.signed start n = (l.consume .number).andThen fun t l =>
      .ok ⟨if n % 2 = 1 then -value else value, start.hull t.span⟩ l := by
  rw [signed]
  simp only [h]
  split <;> simp_all

theorem signed_error (hp : l.current.symbol ≠ .plus) (hm : l.current.symbol ≠ .minus)
    (hn : ∀ value, l.current.symbol ≠ .number value) :
    l.signed start n = .error (.unexpectedToken .operand l.current) l := by
  rw [signed]
  split <;> simp_all

theorem chain_none (h : strength.operator? l.current.symbol = none) :
    l.chain strength operand shrinks left = .ok left l := by
  rw [chain]
  split <;> simp_all

theorem chain_some (h : strength.operator? l.current.symbol = some op) :
    l.chain strength operand shrinks left =
      (l.consume op.category).andThen fun _ l =>
        ((operand l).andThen (Moment.close (some (left, op)))).andThen fun left l =>
          l.chain strength operand shrinks left := by
  rw [chain]
  split
  case h_1 hn => simp [h] at hn
  case h_2 op' ho =>
    obtain rfl : op = op' := by simpa [h] using ho
    cases l.consume op.category
    case error => rfl
    case ok t next =>
      simp only [Outcome.ok_andThen]
      cases operand next
      case error => rfl
      case ok right last =>
        simp only [Outcome.ok_andThen, Moment.close]
        cases op.apply left right <;> rfl

theorem term_eq (l : Lookahead) : l.term =
    (l.note (.entered .term l.current.span)).factor.andThen fun left l =>
      l.chain .product factor size_le_of_factor left := by
  rw [term]
  split <;> simp_all

theorem expression_eq (l : Lookahead) : l.expression =
    (l.note (.entered .expression l.current.span)).term.andThen fun left l =>
      l.chain .sum term size_le_of_term left := by
  rw [expression]
  split <;> simp_all

theorem parse_eq (l : Lookahead) : l.parse = l.expression.andThen Moment.conclude := by
  rw [parse]
  split <;> simp_all [Moment.conclude]

end Lookahead

namespace Moment

open Lookahead

variable {m m' : Moment} {l : Lookahead}

theorem Next.outcome_ofOutcome {α : Type} (out : Outcome α) (go : α → Lookahead → Moment) :
    (Next.ofOutcome out go).outcome = out.andThen fun a l => (go a l).outcome := by
  cases out <;> rfl

theorem Action.outcome_ask (wanted : Category) (l : Lookahead)
    (go : Token → Lookahead → Moment) :
    (ask ⟨wanted, l⟩ go).next.outcome = (l.consume wanted).andThen fun t l => (go t l).outcome :=
  Next.outcome_ofOutcome ..

theorem afterTerm_eq (sum : Option (Operand × Operator)) :
    afterTerm sum = fun v l => (close sum v l).andThen fun left l =>
      (l.chain .sum term size_le_of_term left).andThen conclude :=
  funext₂ fun _ _ => Outcome.andThen_assoc ..

theorem afterFactor_eq (sum product : Option (Operand × Operator)) :
    afterFactor sum product = fun v l => (close product v l).andThen fun left l =>
      (l.chain .product factor size_le_of_factor left).andThen (afterTerm sum) :=
  funext₂ fun _ _ => Outcome.andThen_assoc ..

theorem outcome_beginFactor (sum product : Option (Operand × Operator)) (l : Lookahead) :
    outcome ⟨sum, product, .beginFactor l⟩ = l.factor.andThen (afterFactor sum product) := rfl

theorem outcome_beginTerm (sum : Option (Operand × Operator)) (l : Lookahead) :
    outcome ⟨sum, none, .beginTerm l⟩ = l.term.andThen (afterTerm sum) := by
  rw [term_eq, Outcome.andThen_assoc]
  rfl

-- What the rules make of a moment is what they make of the next.
theorem outcome_step (m : Moment) : m.step.outcome = m.outcome := by
  obtain ⟨sum, product, place⟩ := m
  unfold step
  cases place
  case signs start n l =>
    cases hs : l.current.symbol
    case plus =>
      simp only [action, outcome, hs, Action.outcome_ask, signed_plus hs, Outcome.andThen_assoc]
    case minus =>
      simp only [action, outcome, hs, Action.outcome_ask, signed_minus hs, Outcome.andThen_assoc]
    case number value =>
      simp only [action, outcome, hs, Action.outcome_ask, signed_number hs, Outcome.andThen_assoc,
        Outcome.ok_andThen]
    all_goals simp [action, outcome, hs, Action.next, Next.outcome, signed_error]
  case factor v l =>
    simp only [action, outcome, Action.next, Next.outcome_ofOutcome, afterFactor_eq]
  case products left l =>
    cases ho : Precedence.product.operator? l.current.symbol
    case none =>
      simp only [action, outcome, ho, Action.next, Next.outcome, chain_none ho, Outcome.ok_andThen]
    case some op =>
      simp only [action, ho, Action.outcome_ask, outcome_beginFactor, afterFactor_eq]
      simp only [outcome, chain_some ho, Outcome.andThen_assoc]
  case term v l =>
    simp only [action, outcome, Action.next, Next.outcome_ofOutcome, afterTerm_eq]
  case sums left l =>
    cases ho : Precedence.sum.operator? l.current.symbol
    case none =>
      simp only [action, outcome, ho, Action.next, Next.outcome, chain_none ho, Outcome.ok_andThen]
    case some op =>
      simp only [action, ho, Action.outcome_ask, outcome_beginTerm, afterTerm_eq]
      simp only [outcome, chain_some ho, Outcome.andThen_assoc]
  case expression v l => rfl

theorem outcome_start (l : Lookahead) : (start l).outcome = l.parse := by
  rw [parse_eq, expression_eq, Outcome.andThen_assoc]
  exact outcome_beginTerm none _

-- All the steps that there are. Only an expression with nothing to its right is at the end.
inductive Transition : Moment → Moment → Prop where
  | plus {sum product : Option (Operand × Operator)} {start : Span} {n : Nat} {t : Token}
    {l next : Lookahead} :
    l.current.symbol = .plus → l.consume .plus = .ok t next →
    Transition ⟨sum, product, .signs start n l⟩ ⟨sum, product, .signs start n next⟩
  | minus {sum product : Option (Operand × Operator)} {start : Span} {n : Nat} {t : Token}
    {l next : Lookahead} :
    l.current.symbol = .minus → l.consume .minus = .ok t next →
    Transition ⟨sum, product, .signs start n l⟩ ⟨sum, product, .signs start (n + 1) next⟩
  | number {sum product : Option (Operand × Operator)} {start : Span} {n : Nat} {t : Token}
    {value : Word} {l next : Lookahead} :
    l.current.symbol = .number value → l.consume .number = .ok t next →
    Transition ⟨sum, product, .signs start n l⟩
      ⟨sum, product, .factor ⟨if n % 2 = 1 then -value else value, start.hull t.span⟩ next⟩
  | product {sum product : Option (Operand × Operator)} {v left : Operand} {l : Lookahead} :
    close product v l = .ok left l →
    Transition ⟨sum, product, .factor v l⟩ ⟨sum, none, .products left l⟩
  | term {sum product : Option (Operand × Operator)} {left : Operand} {l : Lookahead} :
    Precedence.product.operator? l.current.symbol = none →
    Transition ⟨sum, product, .products left l⟩ ⟨sum, product, .term left l⟩
  | times {sum product : Option (Operand × Operator)} {left : Operand} {op : Operator} {t : Token}
    {l next : Lookahead} :
    Precedence.product.operator? l.current.symbol = some op →
    l.consume op.category = .ok t next →
    Transition ⟨sum, product, .products left l⟩ ⟨sum, some (left, op), .beginFactor next⟩
  | sum {sum product : Option (Operand × Operator)} {v left : Operand} {l : Lookahead} :
    close sum v l = .ok left l →
    Transition ⟨sum, product, .term v l⟩ ⟨none, none, .sums left l⟩
  | expression {sum product : Option (Operand × Operator)} {left : Operand} {l : Lookahead} :
    Precedence.sum.operator? l.current.symbol = none →
    Transition ⟨sum, product, .sums left l⟩ ⟨sum, product, .expression left l⟩
  | adds {sum product : Option (Operand × Operator)} {left : Operand} {op : Operator} {t : Token}
    {l next : Lookahead} :
    Precedence.sum.operator? l.current.symbol = some op →
    l.consume op.category = .ok t next →
    Transition ⟨sum, product, .sums left l⟩ ⟨some (left, op), none, .beginTerm next⟩

theorem Next.ofOutcome_eq_go {α : Type} {out : Outcome α} {go : α → Lookahead → Moment}
    (h : Next.ofOutcome out go = .go m) : ∃ a l, out = .ok a l ∧ go a l = m := by
  cases out <;> cases h
  exact ⟨_, _, rfl, rfl⟩

theorem close_eq_ok {waiting : Option (Operand × Operator)} {v left : Operand} {last : Lookahead}
    (h : close waiting v l = .ok left last) : last = l := by
  unfold close at h
  split at h
  case h_1 => cases h; rfl
  case h_2 => split at h <;> cases h; rfl

theorem Leads.transition (h : m.Leads m') : m.Transition m' := by
  obtain ⟨sum, product, place⟩ := m
  cases place
  case signs start n l =>
    simp only [Leads, step, action] at h
    split at h
    case h_1 hs =>
      obtain ⟨t, next, hc, rfl⟩ := Next.ofOutcome_eq_go h
      exact .plus hs hc
    case h_2 hs =>
      obtain ⟨t, next, hc, rfl⟩ := Next.ofOutcome_eq_go h
      exact .minus hs hc
    case h_3 hs =>
      obtain ⟨t, next, hc, rfl⟩ := Next.ofOutcome_eq_go h
      exact .number hs hc
    case h_4 => cases h
  case factor v l =>
    obtain ⟨left, last, hc, rfl⟩ := Next.ofOutcome_eq_go h
    obtain rfl := close_eq_ok hc
    exact .product hc
  case products left l =>
    simp only [Leads, step, action] at h
    split at h
    case h_1 ho => cases h; exact .term ho
    case h_2 ho =>
      obtain ⟨t, next, hc, rfl⟩ := Next.ofOutcome_eq_go h
      exact .times ho hc
  case term v l =>
    obtain ⟨left, last, hc, rfl⟩ := Next.ofOutcome_eq_go h
    obtain rfl := close_eq_ok hc
    exact .sum hc
  case sums left l =>
    simp only [Leads, step, action] at h
    split at h
    case h_1 ho => cases h; exact .expression ho
    case h_2 ho =>
      obtain ⟨t, next, hc, rfl⟩ := Next.ofOutcome_eq_go h
      exact .adds ho hc
  case expression => cases h

inductive Stops : Moment → Outcome Operand → Prop where
  | consume {m : Moment} {wanted : Category} {f : Fault} {last : Lookahead} :
    m.place.lookahead.current.symbol.category = wanted → wanted ≠ .finish →
    m.place.lookahead.consume wanted = .error f last → Stops m (.error f last)
  | operand {sum product : Option (Operand × Operator)} {start : Span} {n : Nat} {l : Lookahead} :
    l.current.symbol ≠ .plus → l.current.symbol ≠ .minus →
    (∀ value, l.current.symbol ≠ .number value) →
    Stops ⟨sum, product, .signs start n l⟩ (.error (.unexpectedToken .operand l.current) l)
  | product {sum product : Option (Operand × Operator)} {v : Operand} {f : Fault}
    {l : Lookahead} :
    close product v l = .error f l → Stops ⟨sum, product, .factor v l⟩ (.error f l)
  | sum {sum product : Option (Operand × Operator)} {v : Operand} {f : Fault} {l : Lookahead} :
    close sum v l = .error f l → Stops ⟨sum, product, .term v l⟩ (.error f l)
  | trailing {sum product : Option (Operand × Operator)} {v : Operand} {l : Lookahead} :
    l.current.symbol ≠ .finish →
    Stops ⟨sum, product, .expression v l⟩
      (.error (.trailingInput l.current) (l.note (.trailing l.current)))
  | completed {sum product : Option (Operand × Operator)} {v : Operand} {l : Lookahead} :
    l.current.symbol = .finish →
    Stops ⟨sum, product, .expression v l⟩ (.ok v (l.note (.completed v)))

theorem Next.ofOutcome_eq_stop {α : Type} {out : Outcome α} {go : α → Lookahead → Moment}
    {result : Outcome Operand} (h : Next.ofOutcome out go = .stop result) :
    ∃ f last, out = .error f last ∧ result = .error f last := by
  cases out <;> cases h
  exact ⟨_, _, rfl, rfl⟩

theorem close_eq_error {waiting : Option (Operand × Operator)} {v : Operand} {f : Fault}
    {last : Lookahead} (h : close waiting v l = .error f last) : last = l := by
  unfold close at h
  split at h
  case h_1 => cases h
  case h_2 => split at h <;> cases h; rfl

theorem stops_of_step {out : Outcome Operand} (h : m.step = .stop out) : m.Stops out := by
  obtain ⟨sum, product, place⟩ := m
  cases place
  case signs start n l =>
    simp only [step, action] at h
    split at h
    case h_1 hs =>
      obtain ⟨f, last, hc, rfl⟩ := Next.ofOutcome_eq_stop h
      have hk : l.current.symbol.category = .plus := congrArg Symbol.category hs
      exact .consume hk (by simp) hc
    case h_2 hs =>
      obtain ⟨f, last, hc, rfl⟩ := Next.ofOutcome_eq_stop h
      have hk : l.current.symbol.category = .minus := congrArg Symbol.category hs
      exact .consume hk (by simp) hc
    case h_3 hs =>
      obtain ⟨f, last, hc, rfl⟩ := Next.ofOutcome_eq_stop h
      have hk : l.current.symbol.category = .number := congrArg Symbol.category hs
      exact .consume hk (by simp) hc
    case h_4 hp hm hn =>
      cases h
      exact .operand hp hm fun value hv => hn value hv
  case factor v l =>
    obtain ⟨f, last, hc, rfl⟩ := Next.ofOutcome_eq_stop h
    obtain rfl := close_eq_error hc
    exact .product hc
  case products left l =>
    simp only [step, action] at h
    split at h
    case h_1 => cases h
    case h_2 op ho =>
      obtain ⟨f, last, hc, rfl⟩ := Next.ofOutcome_eq_stop h
      exact .consume (Operator.category_of_operator? ho) op.category_ne_finish hc
  case term v l =>
    obtain ⟨f, last, hc, rfl⟩ := Next.ofOutcome_eq_stop h
    obtain rfl := close_eq_error hc
    exact .sum hc
  case sums left l =>
    simp only [step, action] at h
    split at h
    case h_1 => cases h
    case h_2 op ho =>
      obtain ⟨f, last, hc, rfl⟩ := Next.ofOutcome_eq_stop h
      exact .consume (Operator.category_of_operator? ho) op.category_ne_finish hc
  case expression v l =>
    simp only [step, action, Action.next, conclude] at h
    split at h
    case isTrue hf =>
      cases h
      exact .completed (Token.isFinish_iff.mp hf)
    case isFalse hf =>
      cases h
      exact .trailing (mt Token.isFinish_iff.mpr hf)

-- Falls with every step: either a token is consumed, or a rule comes closer to its end.
def weight (m : Moment) : Nat :=
  6 * m.place.lookahead.size + m.place.rank

theorem Transition.weight_lt (h : m.Transition m') : m'.weight < m.weight := by
  cases h <;> simp only [weight, Place.lookahead, Place.rank, Place.beginTerm, Place.beginFactor,
    size_note]
  case plus hc => have := size_lt_of_consume hc (by decide); omega
  case minus hc => have := size_lt_of_consume hc (by decide); omega
  case number hc => have := size_lt_of_consume hc (by decide); omega
  case times op _ _ _ _ hc => have := size_lt_of_consume hc op.category_ne_finish; omega
  case adds op _ _ _ _ hc => have := size_lt_of_consume hc op.category_ne_finish; omega
  all_goals omega

-- What every step keeps, every run keeps.
theorem Reaches.keeps {P : Moment → Prop} (step : ∀ {m m'}, Transition m m' → P m → P m')
    (h : m.Reaches m') (hm : P m) : P m' := by
  induction h
  case refl => exact hm
  case tail hs ih => exact step hs.transition ih

-- The lookahead changes in two ways only: a token is consumed, and a rule is entered.
theorem Reaches.keeps_lookahead {P : Lookahead → Prop}
    (consume : ∀ {l next wanted t}, wanted ≠ .finish → Lookahead.consume wanted l = .ok t next →
      P l → P next)
    (enter : ∀ {l : Lookahead} (rule : Rule), P l → P (l.note (.entered rule l.current.span)))
    (h : m.Reaches m') (hm : P m.place.lookahead) : P m'.place.lookahead := by
  refine h.keeps (P := fun m => P m.place.lookahead) (fun ht hm => ?_) hm
  cases ht
  case plus hc => exact consume (by simp) hc hm
  case minus hc => exact consume (by simp) hc hm
  case number hc => exact consume (by simp) hc hm
  case times op _ _ _ _ hc => exact enter .factor (consume op.category_ne_finish hc hm)
  case adds op _ _ _ _ hc =>
    exact enter .factor (enter .term (consume op.category_ne_finish hc hm))
  all_goals exact hm

theorem Leads.outcome_eq (h : m.Leads m') : m'.outcome = m.outcome := by
  rw [← m.outcome_step, h]
  rfl

theorem Reaches.outcome_eq (h : m.Reaches m') : m'.outcome = m.outcome := by
  induction h
  case refl => rfl
  case tail hs ih => rw [hs.outcome_eq, ih]

-- Whatever the moment, the steps from it come to an end, which is what the rules make of it.
theorem reaches_stop (m : Moment) : ∃ last, m.Reaches last ∧ last.step = .stop m.outcome := by
  -- Every step lowers the weight.
  induction hn : m.weight using Nat.strongRecOn generalizing m
  case ind n ih =>
    cases h : m.step
    case stop out =>
      refine ⟨m, .refl, ?_⟩
      rw [← m.outcome_step, h]
      rfl
    case go next =>
      have hl : m.Leads next := h
      have ⟨last, hr, hs⟩ := ih next.weight (hn ▸ hl.transition.weight_lt) next rfl
      exact ⟨last, .head hl hr, by rw [hs, hl.outcome_eq]⟩

theorem reaches_parse (l : Lookahead) :
    ∃ last, (start l).Reaches last ∧ last.step = .stop l.parse :=
  outcome_start l ▸ reaches_stop (start l)

end Moment
end Calculator
