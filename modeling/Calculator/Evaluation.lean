import Calculator.Grammar

namespace Calculator

structure Evaluation where
  outcome : Except Fault Word
  -- The earliest event first.
  log : List Event

def Lookahead.evaluation (l : Lookahead) : Evaluation :=
  match l.parse with
  | .error f l => ⟨.error f, l.history.reverse⟩
  | .ok result l => ⟨.ok result.value, l.history.reverse⟩

def Cursor.evaluation (c : Cursor) : Evaluation :=
  match Lookahead.ofCursor c with
  | .error f => ⟨.error f, (Event.ofFault? f).toList⟩
  | .ok l => l.evaluation

def trace (text : String) : Evaluation :=
  (Cursor.ofText text).evaluation

def evaluate (text : String) : Except Fault Word :=
  (trace text).outcome

def validate (text : String) : Except Fault Unit :=
  (evaluate text).map fun _ => ()

end Calculator
