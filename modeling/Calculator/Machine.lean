import Calculator.Cursor
import Calculator.Operator

namespace Calculator

namespace Machine

inductive Phase where
  -- Wants an operand. Its signs so far begin at `start`, and negate it or not.
  | expects (start : Option Nat) (negative : Bool)
  | holds (factor : Operand)
deriving DecidableEq, Repr

end Machine

structure Machine where
  -- The terms so far, and the operator behind them.
  sum : Option (Operand × Operator)
  -- The factors of the term so far, and the operator behind them.
  product : Option (Operand × Operator)
  phase : Machine.Phase
deriving DecidableEq, Repr

namespace Machine

def empty : Machine where
  sum := none
  product := none
  phase := .expects none false

-- Applies the operator that waits for its right operand, if one does. The result covers all from
-- the first operand of the row to the last.
def close (waiting : Option (Operand × Operator)) (right : Operand) : Except Fault Operand :=
  match waiting with
  | none => .ok right
  | some (left, op) =>
    if op = .divide ∧ right.value = 0 then .error (.divisionByZero right.span)
    else
      match Word.ofInt? (op.exact left.value.toInt right.value.toInt) with
      | none => .error (.overflow ⟨left.span.start, right.span.stop⟩)
      | some value => .ok ⟨value, left.span.start, right.span.stop⟩

def step (m : Machine) (t : Token) : Except Fault Machine :=
  match m.phase with
  | .expects start negative =>
    let start := start.getD t.span.start
    match t.symbol with
    | .plus => .ok { m with phase := .expects start negative }
    | .minus => .ok { m with phase := .expects start (!negative) }
    | .number n =>
      .ok { m with phase := .holds ⟨if negative then -n else n, start, t.span.stop⟩ }
    | _ => .error (.unexpectedToken .operand t)
  | .holds factor => do
    let term ← close m.product factor
    match Precedence.product.operator? t.symbol with
    | some op => return ⟨m.sum, some (term, op), .expects none false⟩
    | none =>
      let total ← close m.sum term
      match Precedence.sum.operator? t.symbol with
      | some op => return ⟨some (total, op), none, .expects none false⟩
      | none => throw (.trailingInput t)

def finish (m : Machine) (t : Token) : Except Fault Operand :=
  match m.phase with
  | .expects .. => .error (.unexpectedToken .operand t)
  | .holds factor => do
    let term ← close m.product factor
    close m.sum term

def run (m : Machine) (s : TokenStream) : Except Fault Operand := do
  let last ← s.tokens.foldlM step m
  last.finish (← s.ending)

section

variable {α β : Type} {x : Except Fault α} {f : α → Except Fault β} {e : Fault}

theorem bind_eq_ok_iff {b : β} : x >>= f = .ok b ↔ ∃ a, x = .ok a ∧ f a = .ok b := by
  cases x <;> simp [bind, Except.bind]

theorem bind_eq_error_iff :
    x >>= f = .error e ↔ x = .error e ∨ ∃ a, x = .ok a ∧ f a = .error e := by
  cases x <;> simp [bind, Except.bind]

theorem map_eq_ok_iff {g : α → β} {b : β} : x.map g = .ok b ↔ ∃ a, x = .ok a ∧ g a = b := by
  cases x <;> simp [Except.map]

theorem map_eq_error_iff {g : α → β} : x.map g = .error e ↔ x = .error e := by
  cases x <;> simp [Except.map]

-- A run that fails does so at one item, after a run over all items before it.
theorem foldlM_eq_error {g : β → α → Except Fault β} {row : List α} {b : β}
    (h : row.foldlM g b = .error e) :
    ∃ front a back c, row = front ++ a :: back ∧ front.foldlM g b = .ok c ∧ g c a = .error e := by
  induction row generalizing b
  case nil => cases h
  case cons a row ih =>
    rw [List.foldlM_cons] at h
    rcases bind_eq_error_iff.mp h with h | ⟨c, hc, h⟩
    · exact ⟨[], a, row, b, rfl, rfl, h⟩
    · have ⟨front, a', back, d, hr, hd, he⟩ := ih h
      refine ⟨a :: front, a', back, d, by rw [hr, List.cons_append], ?_, he⟩
      rw [List.foldlM_cons, hc]
      exact hd

end

variable {sum product : Option (Operand × Operator)} {factor : Operand} {t : Token}

theorem step_plus {start : Option Nat} {negative : Bool} (h : t.symbol = .plus) :
    step ⟨sum, product, .expects start negative⟩ t =
      .ok ⟨sum, product, .expects (some (start.getD t.span.start)) negative⟩ := by
  simp [step, h]

theorem step_minus {start : Option Nat} {negative : Bool} (h : t.symbol = .minus) :
    step ⟨sum, product, .expects start negative⟩ t =
      .ok ⟨sum, product, .expects (some (start.getD t.span.start)) (!negative)⟩ := by
  simp [step, h]

theorem step_number {start : Option Nat} {negative : Bool} {n : Word} (h : t.symbol = .number n) :
    step ⟨sum, product, .expects start negative⟩ t =
      .ok ⟨sum, product,
        .holds ⟨if negative then -n else n, start.getD t.span.start, t.span.stop⟩⟩ := by
  simp [step, h]

theorem step_expects_error {start : Option Nat} {negative : Bool} (hp : t.symbol ≠ .plus)
    (hm : t.symbol ≠ .minus) (hn : ∀ n, t.symbol ≠ .number n) :
    step ⟨sum, product, .expects start negative⟩ t = .error (.unexpectedToken .operand t) := by
  unfold step
  split <;> simp_all

theorem step_expects_none {negative : Bool} :
    step ⟨sum, product, .expects none negative⟩ t =
      step ⟨sum, product, .expects (some t.span.start) negative⟩ t := by
  simp [step]

theorem operator?_product_of_sum {s : Symbol} {op : Operator}
    (h : Precedence.sum.operator? s = some op) : Precedence.product.operator? s = none := by
  cases s <;> cases h <;> rfl

theorem operator?_sum_of_product {s : Symbol} {op : Operator}
    (h : Precedence.product.operator? s = some op) : Precedence.sum.operator? s = none := by
  cases s <;> cases h <;> rfl

theorem operator?_sum_ne_divide {s : Symbol} {op : Operator}
    (h : Precedence.sum.operator? s = some op) : op ≠ .divide := by
  cases s <;> cases h <;> simp

theorem step_product {op : Operator} (h : Precedence.product.operator? t.symbol = some op) :
    step ⟨sum, none, .holds factor⟩ t = .ok ⟨sum, some (factor, op), .expects none false⟩ := by
  simp only [step, h]
  rfl

theorem step_sum {op : Operator} (h : Precedence.sum.operator? t.symbol = some op) :
    step ⟨none, none, .holds factor⟩ t = .ok ⟨some (factor, op), none, .expects none false⟩ := by
  simp only [step, h, operator?_product_of_sum h]
  rfl

theorem step_trailing (h : ∀ strength : Precedence, strength.operator? t.symbol = none) :
    step ⟨none, none, .holds factor⟩ t = .error (.trailingInput t) := by
  simp only [step, h]
  rfl

@[simp] theorem close_none : close none factor = pure factor := rfl

theorem close_eq_ok_iff {left right v : Operand} {op : Operator} :
    close (some (left, op)) right = .ok v ↔
      ¬(op = .divide ∧ right.value = 0) ∧ v.span = ⟨left.span.start, right.span.stop⟩ ∧
        v.value.toInt = op.exact left.value.toInt right.value.toInt := by
  obtain ⟨value, span⟩ := v
  by_cases h : op = .divide ∧ right.value = 0
  case pos => simp [close, h]
  case neg =>
    rw [close, if_neg h, ← Word.ofInt?_eq_some_iff]
    cases Word.ofInt? (op.exact left.value.toInt right.value.toInt) <;> simp [h, eq_comm, and_comm]

theorem close_eq_overflow_iff {left right : Operand} {op : Operator} {s : Span} :
    close (some (left, op)) right = .error (.overflow s) ↔
      ¬(op = .divide ∧ right.value = 0) ∧ s = ⟨left.span.start, right.span.stop⟩ ∧
        ¬Word.Fits (op.exact left.value.toInt right.value.toInt) := by
  by_cases h : op = .divide ∧ right.value = 0
  case pos => simp [close, h]
  case neg =>
    rw [close, if_neg h, ← Word.ofInt?_eq_none_iff]
    cases Word.ofInt? (op.exact left.value.toInt right.value.toInt) <;> simp [h, eq_comm]

theorem close_eq_divisionByZero_iff {left right : Operand} {op : Operator} {s : Span} :
    close (some (left, op)) right = .error (.divisionByZero s) ↔
      (op = .divide ∧ right.value = 0) ∧ s = right.span := by
  by_cases h : op = .divide ∧ right.value = 0
  case pos => simp [close, h, eq_comm]
  case neg =>
    rw [close, if_neg h]
    cases Word.ofInt? (op.exact left.value.toInt right.value.toInt) <;> simp [h]

theorem close_eq_error {waiting : Option (Operand × Operator)} {right : Operand} {f : Fault}
    (h : close waiting right = .error f) : (∃ s, f = .divisionByZero s) ∨ ∃ s, f = .overflow s := by
  rcases waiting with _ | ⟨left, op⟩
  case none => cases h
  case some =>
    rw [close] at h
    split at h
    case isTrue =>
      cases h
      exact .inl ⟨_, rfl⟩
    case isFalse =>
      split at h <;> cases h
      exact .inr ⟨_, rfl⟩

theorem stop_of_close {waiting : Option (Operand × Operator)} {right : Operand} {f : Fault}
    (h : close waiting right = .error f) : f.span.stop = right.span.stop := by
  rcases waiting with _ | ⟨left, op⟩
  case none => cases h
  case some =>
    rcases close_eq_error h with ⟨s, rfl⟩ | ⟨s, rfl⟩
    · rw [Fault.span, (close_eq_divisionByZero_iff.mp h).2]
    · rw [Fault.span, (close_eq_overflow_iff.mp h).2.1]

theorem step_holds :
    step ⟨sum, product, .holds factor⟩ t =
      close product factor >>= fun term => step ⟨sum, none, .holds term⟩ t :=
  rfl

theorem finish_holds :
    finish ⟨sum, product, .holds factor⟩ t =
      close product factor >>= fun term => finish ⟨sum, none, .holds term⟩ t :=
  rfl

theorem step_holds_term (h : Precedence.product.operator? t.symbol = none) :
    step ⟨sum, none, .holds factor⟩ t =
      close sum factor >>= fun total => step ⟨none, none, .holds total⟩ t := by
  simp [step, h]

theorem finish_holds_term :
    finish ⟨sum, none, .holds factor⟩ t =
      close sum factor >>= fun total => finish ⟨none, none, .holds total⟩ t := by
  simp [finish]

theorem finish_eq_ok_iff {m : Machine} {v : Operand} : m.finish t = .ok v ↔
    ∃ factor term, m.phase = .holds factor ∧ close m.product factor = .ok term ∧
      close m.sum term = .ok v := by
  obtain ⟨sum, product, phase⟩ := m
  cases phase
  case expects => simp [finish]
  case holds => simp [finish, bind_eq_ok_iff]

-- A value does not depend on where the text ends.
theorem finish_eq_ok {m : Machine} {v : Operand} (h : m.finish t = .ok v) (u : Token) :
    m.finish u = .ok v :=
  finish_eq_ok_iff.mpr (finish_eq_ok_iff.mp h)

theorem run_nil {m : Machine} {stop : Cursor} : m.run ⟨[], .ok t, stop⟩ = m.finish t := rfl

theorem run_cons {m : Machine} {ts : List Token} {ending : Except Fault Token} {stop : Cursor} :
    m.run ⟨t :: ts, ending, stop⟩ = m.step t >>= fun m => m.run ⟨ts, ending, stop⟩ := by
  simp [run]

theorem run_of_step {m m' : Machine} {ts : List Token} {ending : Except Fault Token}
    {stop : Cursor} (h : m.step t = .ok m') :
    m.run ⟨t :: ts, ending, stop⟩ = m'.run ⟨ts, ending, stop⟩ := by
  rw [run_cons, h]
  rfl

theorem run_append {m : Machine} {ts us : List Token} {ending : Except Fault Token}
    {stop : Cursor} :
    m.run ⟨ts ++ us, ending, stop⟩ = ts.foldlM step m >>= fun m => m.run ⟨us, ending, stop⟩ := by
  simp [run]

end Machine

def TokenStream.value (s : TokenStream) : Except Fault Word :=
  (Machine.empty.run s).map (·.value)

end Calculator
