import Calculator.Fault
import Calculator.Numeral

namespace Calculator

-- A place in a text: the number of bytes behind it and the characters ahead of it. The cursor
-- reads one token at a time, and `stream` runs it to the end of the text or to the first fault.
structure Cursor where
  position : Nat
  rest : List Char
deriving DecidableEq, Repr

namespace Cursor

def ofText (text : String) : Cursor where
  position := 0
  rest := text.toList

def shift (n : Nat) (c : Cursor) : Cursor :=
  { c with position := c.position + n }

def skipBlanks (c : Cursor) : Cursor where
  position := c.position + Text.size (c.rest.takeWhile Text.isBlank)
  rest := c.rest.dropWhile Text.isBlank

def digits (c : Cursor) : List Char :=
  c.rest.takeWhile Char.isDigit

def digitsSpan (c : Cursor) : Span where
  start := c.position
  stop := c.position + Text.size c.digits

-- Reads the run of digits ahead as one numeral. Where its value is no word the cursor stays, and
-- the fault covers the whole run.
def scanNumeral (c : Cursor) : Except Fault Token × Cursor :=
  match Numeral.read? c.digits with
  | none => (.error (.overflow c.digitsSpan), c)
  | some value =>
    (.ok ⟨.number value, c.digitsSpan⟩, ⟨c.digitsSpan.stop, c.rest.dropWhile Char.isDigit⟩)

def scanHere (c : Cursor) : Except Fault Token × Cursor :=
  match c.rest with
  | [] => (.ok ⟨.finish, c.position, c.position⟩, c)
  | char :: rest =>
    match Symbol.ofChar? char with
    | some symbol =>
      let stop := c.position + char.utf8Size
      (.ok ⟨symbol, c.position, stop⟩, ⟨stop, rest⟩)
    | none =>
      if char.isDigit then c.scanNumeral
      else (.error (.invalidCharacter char c.position), c)

-- Reads the next token, after any blanks. At the end of the text that is `finish`, as often as it
-- is read; a fault leaves the cursor in front of the text at fault.
def scan (c : Cursor) : Except Fault Token × Cursor :=
  c.skipBlanks.scanHere

theorem length_of_scanHere {c next : Cursor} {t : Token} (h : c.scanHere = (.ok t, next)) :
    next.rest.length + (if t.isFinish then 0 else 1) ≤ c.rest.length := by
  unfold scanHere at h
  split at h
  case h_1 =>
    cases h
    simp [Token.isFinish]
  case h_2 char rest hr =>
    split at h
    case h_1 symbol hs =>
      cases h
      simp only [hr, List.length_cons]
      split <;> omega
    case h_2 hs =>
      split at h
      case isFalse => cases h
      case isTrue hd =>
        unfold scanNumeral at h
        split at h
        case h_1 => cases h
        case h_2 =>
          cases h
          have := (List.dropWhile_sublist (l := rest) Char.isDigit).length_le
          simp only [hr, List.dropWhile_cons, hd, if_true, List.length_cons]
          split <;> omega

theorem length_of_scan {c next : Cursor} {t : Token} (h : c.scan = (.ok t, next)) :
    next.rest.length + (if t.isFinish then 0 else 1) ≤ c.rest.length :=
  Nat.le_trans (length_of_scanHere h) (List.dropWhile_sublist _).length_le

end Cursor

structure TokenStream where
  tokens : List Token
  ending : Except Fault Token
  stop : Cursor

namespace Cursor

def streamAfter (passed : List Token) (c : Cursor) : TokenStream :=
  match _h : c.scan with
  | (.error f, stop) => ⟨passed.reverse, .error f, stop⟩
  | (.ok t, next) =>
    if _ht : t.isFinish then ⟨passed.reverse, .ok t, next⟩
    else next.streamAfter (t :: passed)
termination_by c.rest.length
decreasing_by
  have := length_of_scan _h
  simp [_ht] at this
  omega

def stream (c : Cursor) : TokenStream :=
  c.streamAfter []

theorem streamAfter_eq (passed : List Token) (c : Cursor) :
    c.streamAfter passed = { c.stream with tokens := passed.reverse ++ c.stream.tokens } := by
  -- The tokens that have been passed are the same on both sides, and come off together.
  induction hn : c.rest.length using Nat.strongRecOn generalizing c passed with
  | ind n ih =>
    unfold stream
    rw [streamAfter, streamAfter.eq_def []]
    split
    case h_1 => simp
    case h_2 t next h =>
      split
      case isTrue => simp
      case isFalse ht =>
        have := length_of_scan h
        simp only [ht] at this
        rw [ih _ (by simp at this; omega) (t :: passed) next rfl,
          ih _ (by simp at this; omega) [t] next rfl]
        simp

theorem stream_of_error {c stop : Cursor} {f : Fault} (h : c.scan = (.error f, stop)) :
    c.stream = ⟨[], .error f, stop⟩ := by
  unfold stream streamAfter
  split <;> simp_all

theorem stream_of_finish {c stop : Cursor} {t : Token} (h : c.scan = (.ok t, stop))
    (ht : t.isFinish) : c.stream = ⟨[], .ok t, stop⟩ := by
  unfold stream streamAfter
  split <;> simp_all

theorem stream_of_token {c next : Cursor} {t : Token} (h : c.scan = (.ok t, next))
    (ht : ¬ t.isFinish) :
    c.stream = { next.stream with tokens := t :: next.stream.tokens } := by
  conv => lhs; unfold stream streamAfter
  split <;> simp_all [streamAfter_eq [t] next]

end Cursor

def tokenize (text : String) : Except Fault (List Token) :=
  let stream := (Cursor.ofText text).stream
  stream.ending.map fun _ => stream.tokens

end Calculator
