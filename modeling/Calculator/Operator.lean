import Calculator.Fault

namespace Calculator

structure Operand where
  value : Word
  span : Span
deriving DecidableEq, Repr

inductive Operator where
  | add
  | subtract
  | multiply
  | divide
deriving DecidableEq, Repr

inductive Precedence where
  | sum
  | product
deriving DecidableEq, Repr

def Precedence.operator? : Precedence → Symbol → Option Operator
  | sum, .plus => some .add
  | sum, .minus => some .subtract
  | product, .star => some .multiply
  | product, .slash => some .divide
  | _, _ => none

namespace Operator

def category : Operator → Category
  | add => .plus
  | subtract => .minus
  | multiply => .star
  | divide => .slash

theorem category_of_operator? {p : Precedence} {s : Symbol} {op : Operator}
    (h : p.operator? s = some op) : s.category = op.category := by
  cases p <;> cases s <;> cases h <;> rfl

theorem category_ne_finish (op : Operator) : op.category ≠ .finish := by
  cases op <;> simp [category]

-- The result over all whole numbers. A quotient is cut off towards zero.
def exact : Operator → Int → Int → Int
  | add, a, b => a + b
  | subtract, a, b => a - b
  | multiply, a, b => a * b
  | divide, a, b => a.tdiv b

def apply (op : Operator) (left right : Operand) : Except Fault Operand :=
  if op = divide ∧ right.value = 0 then .error (.divisionByZero right.span)
  else
    let span := left.span.hull right.span
    match Word.ofInt? (op.exact left.value.toInt right.value.toInt) with
    | none => .error (.overflow span)
    | some value => .ok ⟨value, span⟩

theorem apply_eq_ok_iff {op : Operator} {left right result : Operand} :
    op.apply left right = .ok result ↔
      ¬ (op = divide ∧ right.value = 0) ∧ result.span = left.span.hull right.span ∧
        result.value.toInt = op.exact left.value.toInt right.value.toInt := by
  unfold apply
  split
  case isTrue h => simp [h]
  case isFalse h =>
    obtain ⟨value, span⟩ := result
    simp only [h, not_false_eq_true, true_and, ← Word.ofInt?_eq_some_iff]
    split
    case h_1 hv => simp [hv]
    case h_2 v hv =>
      simp only [hv, Except.ok.injEq, Operand.mk.injEq, Option.some.injEq]
      exact ⟨fun ⟨hv, hs⟩ => ⟨hs.symm, hv⟩, fun ⟨hs, hv⟩ => ⟨hv, hs.symm⟩⟩

end Operator
end Calculator
