import Calculator.Evaluation
import Calculator.Reader

namespace Calculator

inductive Call where
  | read
  | next
  | drain
  | text
  | save (name : String)
  | load (name : String)
  -- Evaluates what is ahead of the reader, which stays where it is.
  | evaluate

inductive Answer where
  | read (item : Except Fault Token)
  | next (item : Option (Except Fault Token))
  | drained (items : List (Except Fault Token))
  | text (text : String)
  | saved
  | loaded
  | unknownName
  | unreadable (fault : Fault)
  | evaluated (first : Token) (outcome : Except Fault Word)

structure Session where
  text : String
  reader : Reader
  copies : List (String × Reader)

namespace Session

def ofText (text : String) : Session where
  text := text
  reader := .ofText text
  copies := []

def answer (s : Session) : Call → Answer × Session
  | .read =>
    let (item, reader) := s.reader.read
    (.read item, { s with reader })
  | .next =>
    let (item, reader) := s.reader.next?
    (.next item, { s with reader })
  | .drain =>
    let (items, reader) := s.reader.drain
    (.drained items, { s with reader })
  | .text => (.text s.text, s)
  | .save name => (.saved, { s with copies := (name, s.reader) :: s.copies })
  | .load name =>
    match s.copies.lookup name with
    | none => (.unknownName, s)
    | some reader => (.loaded, { s with reader })
  | .evaluate =>
    match Lookahead.ofCursor s.reader.cursor with
    | .error f => (.unreadable f, s)
    | .ok l => (.evaluated l.current l.evaluation.outcome, s)

def run (s : Session) : List Call → List (Answer × Nat)
  | [] => []
  | call :: calls =>
    let (answer, s) := s.answer call
    (answer, s.reader.cursor.position) :: s.run calls

end Session
end Calculator
