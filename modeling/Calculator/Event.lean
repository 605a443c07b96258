import Calculator.Operator

namespace Calculator

inductive Rule where
  | expression
  | term
  | factor
deriving DecidableEq, Repr

def Rule.name : Rule → String
  | expression => "expression"
  | term => "term"
  | factor => "factor"

inductive Event where
  | scanned (token : Token)
  | refused (char : Char) (offset : Nat)
  | entered (rule : Rule) (span : Span)
  -- A rule has used up a token, and the token after it has been read.
  | consumed (token : Token)
  | trailing (token : Token)
  | completed (result : Operand)
deriving DecidableEq, Repr

inductive Event.Level where
  | trace
  | debug
deriving DecidableEq, Repr

def Event.Level.name : Level → String
  | trace => "trace"
  | debug => "debug"

def Event.level : Event → Level
  | completed _ => .debug
  | _ => .trace

-- What is noted of a fault in reading a token: only a character out of place.
def Event.ofFault? : Fault → Option Event
  | .invalidCharacter char offset => some (.refused char offset)
  | _ => none

end Calculator
