import Calculator.Cursor
import Calculator.Event

namespace Calculator

structure Lookahead where
  cursor : Cursor
  current : Token
  -- The log, with the latest event first.
  history : List Event
deriving DecidableEq, Repr

namespace Lookahead

-- A result, or the fault that prevents it; in both cases with the lookahead that is left.
abbrev Outcome := EStateM.Result Fault Lookahead

def ofCursor (c : Cursor) : Except Fault Lookahead :=
  match c.scan with
  | (.error f, _) => .error f
  | (.ok t, cursor) => .ok ⟨cursor, t, [.scanned t]⟩

def note (e : Event) (l : Lookahead) : Lookahead :=
  { l with history := e :: l.history }

def advance (l : Lookahead) : Outcome Token :=
  match l.cursor.scan with
  | (.error f, cursor) =>
    .error f { l with cursor, history := (Event.ofFault? f).toList ++ l.history }
  | (.ok next, cursor) => .ok l.current ⟨cursor, next, .scanned next :: l.history⟩

def consume (wanted : Category) (l : Lookahead) : Outcome Token :=
  if l.current.symbol.category = wanted then
    match l.advance with
    | .error f l => .error f l
    | .ok t l => .ok t (l.note (.consumed t))
  else .error (.unexpectedToken (.category wanted) l.current) l

-- Bounds the number of tokens that can still be consumed.
def size (l : Lookahead) : Nat :=
  l.cursor.rest.length + if l.current.isFinish then 0 else 1

@[simp] theorem size_note (e : Event) (l : Lookahead) : (l.note e).size = l.size := rfl

@[simp] theorem current_note (e : Event) (l : Lookahead) : (l.note e).current = l.current := rfl

theorem consume_eq_ok {wanted : Category} {l next : Lookahead} {t : Token}
    (h : l.consume wanted = .ok t next) :
    t = l.current ∧ l.current.symbol.category = wanted ∧
      l.cursor.scan = (.ok next.current, next.cursor) ∧
      next.history = .consumed t :: .scanned next.current :: l.history := by
  unfold consume advance at h
  split at h
  case isFalse => cases h
  case isTrue hc =>
    split at h
    case h_1 => cases h
    case h_2 t' l' ha =>
      cases h
      split at ha <;> cases ha
      simp_all [note]

-- Where the kind is right, only the token after it can be at fault.
theorem consume_eq_error {wanted : Category} {l last : Lookahead} {f : Fault}
    (h : l.consume wanted = .error f last) (hc : l.current.symbol.category = wanted) :
    l.cursor.scan = (.error f, last.cursor) ∧ last.current = l.current ∧
      last.history = (Event.ofFault? f).toList ++ l.history := by
  rw [consume, if_pos hc, advance] at h
  split at h
  case h_1 ha =>
    split at ha <;> cases ha
    cases h
    exact ⟨‹_›, rfl, rfl⟩
  case h_2 => cases h

theorem size_lt_of_consume {wanted : Category} {l next : Lookahead} {t : Token}
    (h : l.consume wanted = .ok t next) (hw : wanted ≠ .finish) : next.size < l.size := by
  obtain ⟨-, hc, hs, -⟩ := consume_eq_ok h
  have hl := Cursor.length_of_scan hs
  have hf : l.current.isFinish = false := by
    rw [← Bool.not_eq_true, Token.isFinish_iff]
    intro hf
    rw [hf] at hc
    exact hw hc.symm
  simp only [size, hf, Bool.false_eq_true, if_false]
  omega

end Lookahead
end Calculator
