import Calculator.Event

namespace Calculator

def recordText (name : String) (fields : List (String × String)) : String :=
  let body := fields.map fun (field, value) => field ++ ": " ++ value
  name ++ " \x7b " ++ ", ".intercalate body ++ " \x7d"

def Span.detail (s : Span) : String :=
  recordText "Span" [("start", toString s.start), ("end", toString s.stop)]

def Category.name : Category → String
  | number => "Integer"
  | plus => "Plus"
  | minus => "Minus"
  | star => "Star"
  | slash => "Slash"
  | finish => "End"

def Symbol.detail : Symbol → String
  | number value => Category.number.name ++ "(" ++ value.text ++ ")"
  | s => s.category.name

def Token.detail (t : Token) : String :=
  recordText "Token" [("kind", t.symbol.detail), ("span", t.span.detail)]

def Demand.detail : Demand → String
  | category wanted => "Token(" ++ wanted.name ++ ")"
  | operand => "Operand"

def Fault.name : Fault → String
  | invalidCharacter .. => "InvalidCharacter"
  | unexpectedToken .. => "UnexpectedToken"
  | trailingInput .. => "TrailingInput"
  | divisionByZero .. => "DivisionByZero"
  | overflow .. => "Overflow"

def Fault.fields : Fault → List (String × String)
  | invalidCharacter char offset =>
    [("ch", Text.quoteChar Text.isHidden char), ("offset", toString offset)]
  | unexpectedToken expected found =>
    [("expected", expected.detail), ("found", found.symbol.detail), ("span", found.span.detail)]
  | trailingInput found => [("found", found.symbol.detail), ("span", found.span.detail)]
  | divisionByZero span => [("span", span.detail)]
  | overflow span => [("span", span.detail)]

def Fault.detail (f : Fault) : String :=
  recordText f.name f.fields

def Event.message (text : String) : Event → String
  | scanned token => "token " ++ token.detail
  | refused char offset => (Fault.invalidCharacter char offset).message
  | entered rule span => rule.name ++ " at " ++ span.text
  | consumed token => "consumed " ++ token.detail
  | trailing token => "trailing " ++ token.detail
  | completed result =>
    "parsed " ++ Text.quote Text.isHidden text ++ " = " ++ result.value.text ++
      " (" ++ result.span.text ++ ")"

end Calculator
