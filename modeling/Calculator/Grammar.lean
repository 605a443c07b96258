import Calculator.Lookahead

namespace Calculator.Lookahead

-- The rules of the grammar. Each reads the longest part of the text that fits it, and gives its
-- value:
--
--   expression := term   (('+' | '-') term)*
--   term       := factor (('*' | '/') factor)*
--   factor     := ('+' | '-')* number
--
-- Every rule looks at one token at most before it decides, and stops at the first fault. Here, a
-- factor has begun at `start` and has had so many minus signs.
def signed (start : Span) (minuses : Nat) (l : Lookahead) : Outcome Operand :=
  match l.current.symbol with
  | .plus =>
    match _h : l.consume .plus with
    | .error f l => .error f l
    | .ok _ next => next.signed start minuses
  | .minus =>
    match _h : l.consume .minus with
    | .error f l => .error f l
    | .ok _ next => next.signed start (minuses + 1)
  | .number value =>
    match l.consume .number with
    | .error f l => .error f l
    | .ok t l => .ok ⟨if minuses % 2 = 1 then -value else value, start.hull t.span⟩ l
  | _ => .error (.unexpectedToken .operand l.current) l
termination_by l.size
decreasing_by all_goals exact size_lt_of_consume _h (by decide)

def factor (l : Lookahead) : Outcome Operand :=
  (l.note (.entered .factor l.current.span)).signed l.current.span 0

-- Goes on from `left` with the operators of one strength, from left to right.
def chain (strength : Precedence) (operand : Lookahead → Outcome Operand)
    (shrinks : ∀ {l next v}, operand l = .ok v next → next.size ≤ l.size)
    (left : Operand) (l : Lookahead) : Outcome Operand :=
  match strength.operator? l.current.symbol with
  | none => .ok left l
  | some op =>
    match _hc : l.consume op.category with
    | .error f l => .error f l
    | .ok _ next =>
      match _ho : operand next with
      | .error f l => .error f l
      | .ok right last =>
        match op.apply left right with
        | .error f => .error f last
        | .ok left => last.chain strength operand shrinks left
termination_by l.size
decreasing_by
  exact Nat.lt_of_le_of_lt (shrinks _ho) (size_lt_of_consume _hc op.category_ne_finish)

theorem size_le_of_signed {start : Span} {minuses : Nat} {l next : Lookahead} {v : Operand}
    (h : l.signed start minuses = .ok v next) : next.size ≤ l.size := by
  fun_induction signed start minuses l with
  | case1 => cases h
  | case2 minuses l hs t l' hc ih =>
    exact Nat.le_trans (ih h) (Nat.le_of_lt (size_lt_of_consume hc (by decide)))
  | case3 => cases h
  | case4 minuses l hs t l' hc ih =>
    exact Nat.le_trans (ih h) (Nat.le_of_lt (size_lt_of_consume hc (by decide)))
  | case5 => cases h
  | case6 minuses l value hs t l' hc =>
    cases h
    exact Nat.le_of_lt (size_lt_of_consume hc (by decide))
  | case7 => cases h

theorem size_le_of_factor {l next : Lookahead} {v : Operand} (h : l.factor = .ok v next) :
    next.size ≤ l.size := by
  unfold factor at h
  simpa using size_le_of_signed h

theorem size_le_of_chain {strength : Precedence} {operand : Lookahead → Outcome Operand}
    {shrinks : ∀ {l next v}, operand l = .ok v next → next.size ≤ l.size}
    {left v : Operand} {l next : Lookahead}
    (h : l.chain strength operand shrinks left = .ok v next) : next.size ≤ l.size := by
  fun_induction chain strength operand shrinks left l with
  | case1 =>
    cases h
    exact Nat.le_refl _
  | case2 => cases h
  | case3 => cases h
  | case4 => cases h
  | case5 left l op hp t l₁ hc right l₂ ho left' ha ih =>
    have := size_lt_of_consume hc op.category_ne_finish
    have := shrinks ho
    have := ih h
    omega

def term (l : Lookahead) : Outcome Operand :=
  match (l.note (.entered .term l.current.span)).factor with
  | .error f l => .error f l
  | .ok left l => l.chain .product factor size_le_of_factor left

theorem size_le_of_term {l next : Lookahead} {v : Operand} (h : l.term = .ok v next) :
    next.size ≤ l.size := by
  unfold term at h
  split at h
  case h_1 => cases h
  case h_2 left l' hf => simpa using Nat.le_trans (size_le_of_chain h) (size_le_of_factor hf)

def expression (l : Lookahead) : Outcome Operand :=
  match (l.note (.entered .expression l.current.span)).term with
  | .error f l => .error f l
  | .ok left l => l.chain .sum term size_le_of_term left

def parse (l : Lookahead) : Outcome Operand :=
  match l.expression with
  | .error f l => .error f l
  | .ok result l =>
    if l.current.isFinish then .ok result (l.note (.completed result))
    else .error (.trailingInput l.current) (l.note (.trailing l.current))

end Calculator.Lookahead
