import Calculator.Numeral
import Calculator.Text.Blank

namespace Calculator

inductive Lexeme where
  | number (value : Nat)
  | plus
  | minus
  | star
  | slash
deriving DecidableEq, Repr

def Lexeme.ofSign? : Char → Option Lexeme
  | '+' => some plus
  | '-' => some minus
  | '*' => some star
  | '/' => some slash
  | _ => none

structure MaximalRun (text front run back : List Char) : Prop where
  text_eq : text = front ++ run ++ back
  ne_nil : run ≠ []
  digits : ∀ c ∈ run, c.isDigit
  before : ∀ c ∈ front.getLast?, c.isDigit = false
  after : ∀ c ∈ back.head?, c.isDigit = false

-- The text is a row of lexemes with any blanks around them. A run of digits is one numeral, and
-- so no digit follows it. The numeral may have any value: which values a word can hold is not a
-- matter of spelling.
inductive Spells : List Char → List Lexeme → Prop where
  | nil : Spells [] []
  | blank {c : Char} {text : List Char} {row : List Lexeme} :
    Text.isBlank c → Spells text row → Spells (c :: text) row
  | sign {c : Char} {x : Lexeme} {text : List Char} {row : List Lexeme} :
    Lexeme.ofSign? c = some x → Spells text row → Spells (c :: text) (x :: row)
  | number {digits text : List Char} {row : List Lexeme} :
    digits ≠ [] → (∀ d ∈ digits, d.isDigit) → (∀ c ∈ text.head?, c.isDigit = false) →
    Spells text row → Spells (digits ++ text) (.number (Numeral.value digits) :: row)

end Calculator
