import Calculator.Text.Size

namespace Calculator

structure Span where
  start : Nat
  stop : Nat
deriving DecidableEq, Repr

namespace Span

def hull (a b : Span) : Span where
  start := min a.start b.start
  stop := max a.stop b.stop

theorem hull_eq {a b : Span} (h₁ : a.start ≤ b.start) (h₂ : a.stop ≤ b.stop) :
    a.hull b = ⟨a.start, b.stop⟩ := by
  simp [hull, Nat.min_eq_left h₁, Nat.max_eq_right h₂]

def shift (n : Nat) (s : Span) : Span where
  start := s.start + n
  stop := s.stop + n

-- The part of a text under a span: none if the span is out of order, runs past the end or cuts a
-- character.
def slice? (s : Span) (text : String) : Option String :=
  (Text.slice? s.start s.stop text.toList).map .ofList

theorem slice?_eq_some_iff {s : Span} {text inside : String} :
    s.slice? text = some inside ↔
      ∃ front back, text.toList = front ++ inside.toList ++ back ∧
        Text.size front = s.start ∧ s.start + Text.size inside.toList = s.stop := by
  simp only [slice?, Option.map_eq_some_iff, Text.slice?_eq_some_iff]
  constructor
  · rintro ⟨_, h, rfl⟩
    simpa using h
  · intro h
    exact ⟨inside.toList, h, by simp⟩

instance : Ord Span where
  compare a b := (compare a.start b.start).then (compare a.stop b.stop)

def text (s : Span) : String :=
  toString s.start ++ ".." ++ toString s.stop

end Span
end Calculator
