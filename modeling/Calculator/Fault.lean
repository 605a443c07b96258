import Calculator.Text.Quoted
import Calculator.Token

namespace Calculator

inductive Demand where
  | category (wanted : Category)
  | operand
deriving DecidableEq, Repr

def Demand.text : Demand → String
  | category wanted => wanted.text
  | operand => "integer or unary operator"

inductive Fault where
  | invalidCharacter (char : Char) (offset : Nat)
  | unexpectedToken (expected : Demand) (found : Token)
  | trailingInput (found : Token)
  | divisionByZero (span : Span)
  -- The numeral or the operation at `span` is no word.
  | overflow (span : Span)
deriving DecidableEq, Repr

namespace Fault

def span : Fault → Span
  | invalidCharacter char offset => ⟨offset, offset + char.utf8Size⟩
  | unexpectedToken _ found => found.span
  | trailingInput found => found.span
  | divisionByZero span => span
  | overflow span => span

def shift (n : Nat) : Fault → Fault
  | invalidCharacter char offset => invalidCharacter char (offset + n)
  | unexpectedToken expected found => unexpectedToken expected (found.shift n)
  | trailingInput found => trailingInput (found.shift n)
  | divisionByZero span => divisionByZero (span.shift n)
  | overflow span => overflow (span.shift n)

theorem span_shift (n : Nat) (f : Fault) : (f.shift n).span = f.span.shift n := by
  cases f <;> simp [shift, span, Token.shift, Span.shift]
  omega

-- The message of a fault, where `hidden` says which characters are shown by their code points.
def messageHiding (hidden : Char → Bool) : Fault → String
  | invalidCharacter char offset =>
    "invalid character " ++ Text.quoteChar hidden char ++ " at offset " ++ toString offset
  | unexpectedToken expected found =>
    "unexpected token: expected " ++ expected.text ++ ", found " ++ found.symbol.text ++
      " at " ++ found.span.text
  | trailingInput found =>
    "unexpected token after expression: " ++ found.symbol.text ++ " at " ++ found.span.text
  | divisionByZero span => "division by zero at " ++ span.text
  | overflow span => "integer overflow at " ++ span.text

def message : Fault → String :=
  messageHiding Text.isHidden

end Fault
end Calculator
