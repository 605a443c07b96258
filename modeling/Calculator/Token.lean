import Calculator.Span
import Calculator.Word

namespace Calculator

inductive Category where
  | number
  | plus
  | minus
  | star
  | slash
  | finish
deriving DecidableEq, Repr

def Category.text : Category → String
  | number => "integer"
  | plus => "'+'"
  | minus => "'-'"
  | star => "'*'"
  | slash => "'/'"
  | finish => "end of input"

inductive Symbol where
  | number (value : Word)
  | plus
  | minus
  | star
  | slash
  | finish
deriving DecidableEq, Repr

namespace Symbol

def category : Symbol → Category
  | number _ => .number
  | plus => .plus
  | minus => .minus
  | star => .star
  | slash => .slash
  | finish => .finish

def ofChar? : Char → Option Symbol
  | '+' => some plus
  | '-' => some minus
  | '*' => some star
  | '/' => some slash
  | _ => none

theorem utf8Size_of_ofChar? {c : Char} {s : Symbol} (h : ofChar? c = some s) : c.utf8Size = 1 := by
  unfold ofChar? at h
  split at h <;> cases h <;> rfl

def text : Symbol → String
  | number value => "integer " ++ value.text
  | s => s.category.text

end Symbol

structure Token where
  symbol : Symbol
  span : Span
deriving DecidableEq, Repr

namespace Token

def isFinish (t : Token) : Bool :=
  t.symbol = .finish

@[simp] theorem isFinish_iff {t : Token} : t.isFinish ↔ t.symbol = .finish := by
  simp [isFinish]

def shift (n : Nat) (t : Token) : Token :=
  { t with span := t.span.shift n }

end Token
end Calculator
