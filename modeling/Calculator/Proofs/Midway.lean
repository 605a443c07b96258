import Calculator.Proofs.Relocation
import Calculator.Proofs.Replay

namespace Calculator

open Text (size)

variable {text : String} {c : Cursor} {s : Session} {n : Nat}

namespace Cursor

structure Within (text : String) (c : Cursor) : Prop where
  split : ∃ front, Text.split? c.position text.toList = some (front, c.rest)

theorem within_iff :
    c.Within text ↔ ∃ front, text.toList = front ++ c.rest ∧ size front = c.position where
  mp h :=
    have ⟨front, h⟩ := h.split
    ⟨front, Text.split?_eq_some_iff.mp h⟩
  mpr h :=
    have ⟨front, h⟩ := h
    ⟨front, Text.split?_eq_some_iff.mpr h⟩

theorem within_ofText : (ofText text).Within text :=
  within_iff.mpr ⟨[], rfl, rfl⟩

theorem Within.pass {passed rest : List Char} (h : c.Within text) (hr : c.rest = passed ++ rest) :
    Within text ⟨c.position + size passed, rest⟩ := by
  have ⟨front, ht, hp⟩ := within_iff.mp h
  exact within_iff.mpr ⟨front ++ passed, by simp [ht, hr], by simp [hp]⟩

theorem Within.skipBlanks (h : c.Within text) : c.skipBlanks.Within text :=
  h.pass List.takeWhile_append_dropWhile.symm

theorem Within.scanHere (h : c.Within text) : c.scanHere.2.Within text := by
  unfold Cursor.scanHere
  split
  case h_1 => exact h
  case h_2 char rest hr =>
    split
    case h_1 =>
      have hr' : c.rest = [char] ++ rest := hr
      simpa using h.pass hr'
    case h_2 =>
      split
      case isFalse => exact h
      case isTrue =>
        unfold scanNumeral
        split
        case h_1 => exact h
        case h_2 => exact h.pass List.takeWhile_append_dropWhile.symm

theorem Within.scan (h : c.Within text) : c.scan.2.Within text :=
  h.skipBlanks.scanHere

theorem Within.slice (h : c.Within text) :
    Span.slice? ⟨c.position, text.utf8ByteSize⟩ text = some (.ofList c.rest) := by
  have ⟨front, ht, hp⟩ := within_iff.mp h
  have hs : text.utf8ByteSize = size front + size c.rest := by
    rw [← Text.size_toList, ht, Text.size_append]
  rw [← hp, hs]
  have ht' : text.toList = front ++ c.rest ++ [] := by simp [ht]
  exact Span.slice?_append ht'

theorem shift_ofText_rest : (ofText (.ofList c.rest)).shift c.position = c := by
  simp [ofText, shift]

theorem scan_fst (c : Cursor) :
    c.scan.1 = (c.stream.tokens.head?.map Except.ok).getD c.stream.ending := by
  match h : c.scan with
  | (.error f, _) => simp [stream_of_error h]
  | (.ok t, _) =>
    by_cases ht : t.isFinish
    case pos => simp [stream_of_finish h ht]
    case neg => simp [stream_of_token h ht]

theorem scan_shift (n : Nat) (c : Cursor) :
    (c.shift n).scan.1 = (c.scan.1.map (·.shift n)).mapError (·.shift n) := by
  have h := c.relocates_shift n
  rw [scan_fst, scan_fst, h.tokens, h.ending]
  cases c.stream.tokens
  case cons => simp [Except.map, Except.mapError]
  case nil => cases c.stream.ending <;> simp [Except.map, Except.mapError]

end Cursor

structure Session.Within (text : String) (s : Session) : Prop where
  reader : s.reader.cursor.Within text
  copies : ∀ copy ∈ s.copies, copy.2.cursor.Within text

namespace Session.Within

theorem ofText : (Session.ofText text).Within text where
  reader := Cursor.within_ofText
  copies := by simp [Session.ofText]

theorem next? {r : Reader} (h : r.cursor.Within text) : r.next?.2.cursor.Within text := by
  have hs := h.scan
  unfold Reader.next?
  split
  case isTrue => exact h
  case isFalse =>
    generalize r.cursor.scan = x at hs
    match x with
    | (.error f, cursor) => exact hs
    | (.ok t, cursor) => cases ht : t.isFinish <;> simpa [ht] using hs

theorem answer (h : s.Within text) (move : Move) : (s.answer move.call).2.Within text := by
  cases move
  case read => exact ⟨h.reader.scan, h.copies⟩
  case next => exact ⟨next? h.reader, h.copies⟩
  case save => exact ⟨h.reader, List.forall_mem_cons.mpr ⟨h.reader, h.copies⟩⟩
  case load name =>
    simp only [Session.answer, Move.call]
    split
    case h_1 => exact h
    case h_2 reader hl =>
      obtain ⟨_, _, hc, _⟩ := List.lookup_eq_some_iff.mp hl
      exact ⟨h.copies (name, reader) (by simp [hc]), h.copies⟩

theorem after (h : s.Within text) (moves : List Move) : (s.after moves).Within text := by
  induction moves generalizing s
  case nil => exact h
  case cons move moves ih => exact ih (h.answer move)

end Session.Within

-- Whatever a reader of the text has been through, it stands in the text.
theorem within_after (text : String) (moves : List Move) :
    ((Session.ofText text).after moves).reader.cursor.Within text :=
  (Session.Within.ofText.after moves).reader

theorem Cursor.evaluation_midway (c : Cursor) :
    c.evaluation.outcome = (evaluate (.ofList c.rest)).mapError (·.shift c.position) := by
  have h := (ofText (.ofList c.rest)).relocates_shift c.position
  rw [c.evaluation_outcome, evaluate, trace, Cursor.evaluation_outcome]
  rw [shift_ofText_rest] at h
  rw [h.value]
  congr
  exact funext fun _ => Fault.relocate_shift

theorem Session.answer_evaluate (s : Session) :
    (s.answer .evaluate).1 =
      match s.reader.cursor.scan.1 with
      | .error f => .unreadable f
      | .ok t => .evaluated t s.reader.cursor.evaluation.outcome := by
  simp only [answer, Cursor.evaluation, Lookahead.ofCursor]
  generalize s.reader.cursor.scan = x
  obtain ⟨item, _⟩ := x
  cases item <;> rfl

-- An evaluation that begins where a reader stands gives what the rest of the text gives by itself,
-- behind the bytes that the reader has passed. So does the lookahead that it begins with.
theorem evaluate_midway (text : String) (moves : List Move) :
    let session := (Session.ofText text).after moves
    let c := session.reader.cursor
    ∃ rest, Span.slice? ⟨c.position, text.utf8ByteSize⟩ text = some rest ∧
      c.evaluation.outcome = (evaluate rest).mapError (·.shift c.position) ∧
      (session.answer .evaluate).1 =
        match (Reader.ofText rest).read.1 with
        | .error f => .unreadable (f.shift c.position)
        | .ok t =>
          .evaluated (t.shift c.position) ((evaluate rest).mapError (·.shift c.position)) := by
  intro session c
  have he := c.evaluation_midway
  refine ⟨.ofList c.rest, (within_after text moves).slice, he, ?_⟩
  have hs := (Cursor.ofText (.ofList c.rest)).scan_shift c.position
  rw [Cursor.shift_ofText_rest] at hs
  rw [session.answer_evaluate, hs, he]
  simp only [Reader.read, Reader.ofText]
  cases (Cursor.ofText (.ofList c.rest)).scan.1 <;> rfl

end Calculator
