import Calculator.Proofs.Reading
import Calculator.Session
import Mathlib.Data.List.Forall2

namespace Calculator

inductive Move where
  | read
  | next
  | save (name : String)
  | load (name : String)
deriving DecidableEq

def Move.call : Move → Call
  | read => .read
  | next => .next
  | save name => .save name
  | load name => .load name

structure Bookmark where
  count : Nat
  position : Nat
  halted : Bool

namespace Bookmark

-- What follows the first `count` tokens of a text: one more token, the end of the text or a fault.
def item (text : String) (count : Nat) : Except Fault Token :=
  let stream := (Cursor.ofText text).stream
  match stream.tokens[count]? with
  | some t => .ok t
  | none => stream.ending.map fun _ => ⟨.finish, text.utf8ByteSize, text.utf8ByteSize⟩

-- Where an item leaves the reader: behind a token, and in front of a fault.
def place : Except Fault Token → Nat
  | .ok t => t.span.stop
  | .error f => f.span.start

def read (text : String) (b : Bookmark) : Except Fault Token × Bookmark :=
  let count := min (b.count + 1) (Cursor.ofText text).stream.tokens.length
  (item text b.count, { b with count, position := place (item text b.count) })

def next? (text : String) (b : Bookmark) : Option (Except Fault Token) × Bookmark :=
  if b.halted then (none, b)
  else match b.read text with
    | (.error f, b) => (some (.error f), { b with halted := true })
    | (.ok t, b) => (if t.isFinish then none else some (.ok t), b)

end Bookmark

structure Replay where
  text : String
  bookmark : Bookmark
  copies : List (String × Bookmark)

namespace Replay

def ofText (text : String) : Replay where
  text := text
  bookmark := ⟨0, 0, false⟩
  copies := []

def answer (r : Replay) : Move → Answer × Replay
  | .read =>
    let (item, bookmark) := r.bookmark.read r.text
    (.read item, { r with bookmark })
  | .next =>
    let (item, bookmark) := r.bookmark.next? r.text
    (.next item, { r with bookmark })
  | .save name => (.saved, { r with copies := (name, r.bookmark) :: r.copies })
  | .load name =>
    match r.copies.lookup name with
    | none => (.unknownName, r)
    | some bookmark => (.loaded, { r with bookmark })

def run (r : Replay) : List Move → List (Answer × Nat)
  | [] => []
  | move :: moves =>
    let (answer, r) := r.answer move
    (answer, r.bookmark.position) :: r.run moves

def after (r : Replay) (moves : List Move) : Replay :=
  moves.foldl (fun r move => (r.answer move).2) r

end Replay

def Session.after (s : Session) (moves : List Move) : Session :=
  moves.foldl (fun s move => (s.answer move.call).2) s

def Answer.token? : Answer → Option Token
  | read (.ok t) | next (some (.ok t)) => if t.isFinish then none else some t
  | _ => none

namespace Cursor

variable {c next : Cursor} {t : Token} {ts : List Token} {ending : Except Fault Token}
variable {stop : Cursor}

theorem ends_stop (c : Cursor) : Ends c.stream.stop c.stream.ending := by
  have ⟨front, back, ts, ending, ht, hr, hs, he⟩ := exists_reads c.position c.rest
  have hc : c = ⟨c.position, front ++ back⟩ := by rw [← ht]
  rw [hc, hr.stream_eq hs he]
  exact he

theorem ending_ofText (text : String) : (ofText text).stream.ending =
    (ofText text).stream.ending.map fun _ => ⟨.finish, text.utf8ByteSize, text.utf8ByteSize⟩ := by
  have ⟨front, back, ts, ending, ht, hr, hs, he⟩ := exists_reads 0 text.toList
  rw [ofText, ht, hr.stream_eq hs he]
  cases he
  case finish => simp [← Text.size_toList, ht, Except.map]
  all_goals rfl

theorem scan_of_stream_nil (h : c.stream = ⟨[], ending, stop⟩) :
    c.scan = (ending, stop) ∧ stop.stream = ⟨[], ending, stop⟩ := by
  have he := c.ends_stop
  rw [h] at he
  refine ⟨?_, stream_of_ends he⟩
  match hs : c.scan with
  | (.error f, _) =>
    rw [stream_of_error hs] at h
    cases h
    rfl
  | (.ok t, next) =>
    by_cases ht : t.isFinish
    case pos =>
      rw [stream_of_finish hs ht] at h
      cases h
      rfl
    case neg =>
      rw [stream_of_token hs ht] at h
      cases h

theorem scan_of_stream_cons (h : c.stream = ⟨t :: ts, ending, stop⟩) :
    ∃ next, c.scan = (.ok t, next) ∧ next.stream = ⟨ts, ending, stop⟩ ∧
      next.position = t.span.stop ∧ ¬t.isFinish := by
  match hs : c.scan with
  | (.error f, _) =>
    rw [stream_of_error hs] at h
    cases h
  | (.ok u, next) =>
    by_cases hu : u.isFinish
    case pos =>
      rw [stream_of_finish hs hu] at h
      cases h
    case neg =>
      rw [stream_of_token hs hu] at h
      have ⟨_, _, _, _, _, hp, _⟩ := scan_eq_ok hs
      cases h
      exact ⟨next, rfl, rfl, hp, hu⟩

theorem position_le_scan (c : Cursor) : c.position ≤ c.scan.2.position := by
  have ⟨front, back, ts, ending, ht, hr, hs, he⟩ := exists_reads c.position c.rest
  have hc : c = ⟨c.position, front ++ back⟩ := by rw [← ht]
  match hx : c.scan with
  | (.error f, stop) =>
    have hp := congrArg (·.stop.position) (stream_of_error hx)
    rw [hc, hr.stream_eq hs he] at hp
    exact hp ▸ Nat.le_add_right ..
  | (.ok t, next) =>
    have ⟨_, _, _, _, hp, hn, _⟩ := scan_eq_ok hx
    simp only [hn, hp]
    omega

end Cursor

namespace Bookmark

variable {text : String} {b : Bookmark} {r : Reader}

theorem place_of_ends {c : Cursor} {ending : Except Fault Token} (h : Ends c ending) :
    place ending = c.position := by
  cases h <;> rfl

-- What is in front of the reader is what has not been handed out.
structure Marks (text : String) (b : Bookmark) (r : Reader) : Prop where
  stream_eq   : r.cursor.stream =
    let s := (Cursor.ofText text).stream
    { s with tokens := s.tokens.drop b.count }
  count_le    : b.count ≤ (Cursor.ofText text).stream.tokens.length
  position_eq : r.cursor.position = b.position
  halted_eq   : r.halted = b.halted

theorem Marks.ofText : Marks text ⟨0, 0, false⟩ (.ofText text) :=
  ⟨rfl, Nat.zero_le _, rfl, rfl⟩

theorem read_of_nil (h : (Cursor.ofText text).stream.tokens.drop b.count = [])
    (hc : b.count ≤ (Cursor.ofText text).stream.tokens.length) :
    b.read text =
      let ending := (Cursor.ofText text).stream.ending
      (ending, { b with position := place ending }) := by
  have hi : item text b.count = (Cursor.ofText text).stream.ending := by
    simp only [item, ← List.head?_drop, h, List.head?_nil]
    exact (Cursor.ending_ofText text).symm
  have hm : min (b.count + 1) (Cursor.ofText text).stream.tokens.length = b.count := by
    have := List.drop_eq_nil_iff.mp h
    omega
  simp only [read, hi, hm]

theorem read_of_cons {t : Token} {ts : List Token}
    (h : (Cursor.ofText text).stream.tokens.drop b.count = t :: ts) :
    b.read text = (.ok t, { b with count := b.count + 1, position := t.span.stop }) := by
  have hi : item text b.count = .ok t := by
    simp only [item, ← List.head?_drop, h, List.head?_cons]
  have hl := congrArg List.length h
  have hm : min (b.count + 1) (Cursor.ofText text).stream.tokens.length = b.count + 1 := by
    simp only [List.length_drop, List.length_cons] at hl
    omega
  simp only [read, hi, hm, place]

theorem drop_of_cons {α : Type} {xs ys : List α} {x : α} {k : Nat} (h : xs.drop k = x :: ys) :
    xs.drop (k + 1) = ys := by
  rw [← List.tail_drop, h, List.tail_cons]

theorem Marks.read (h : b.Marks text r) :
    (b.read text).1 = r.read.1 ∧ (b.read text).2.Marks text r.read.2 := by
  have hs := h.stream_eq
  have hl := h.count_le
  cases hd : (Cursor.ofText text).stream.tokens.drop b.count
  case nil =>
    simp only [hd] at hs
    have ⟨hc, hs⟩ := Cursor.scan_of_stream_nil hs
    have hp := place_of_ends (Cursor.ofText text).ends_stop
    rw [read_of_nil hd hl, Reader.read, hc]
    exact ⟨rfl, by simpa [hd] using hs, hl, hp.symm, h.halted_eq⟩
  case cons t ts =>
    have ht := drop_of_cons hd
    have hl := congrArg List.length hd
    simp only [List.length_drop, List.length_cons] at hl
    simp only [hd] at hs
    have ⟨next, hc, hs, hp, _⟩ := Cursor.scan_of_stream_cons hs
    rw [read_of_cons hd, Reader.read, hc]
    exact ⟨rfl, by simpa [ht] using hs, by simp only; omega, hp, h.halted_eq⟩

theorem next?_of_read (h : r.halted = false) : r.next? =
    match r.read with
    | (.error f, r) => (some (.error f), { r with halted := true })
    | (.ok t, r) => (if t.isFinish then none else some (.ok t), r) := by
  simp only [Reader.next?, Reader.read, h]
  cases r.cursor.scan with | mk item cursor =>
  cases item
  case error => rfl
  case ok t => cases ht : t.isFinish <;> simp [ht]

theorem Marks.next? (h : b.Marks text r) :
    (b.next? text).1 = r.next?.1 ∧ (b.next? text).2.Marks text r.next?.2 := by
  cases hh : r.halted
  case true =>
    have hb := h.halted_eq.symm.trans hh
    simpa [Bookmark.next?, Reader.next?, hh, hb] using h
  case false =>
    have hb := h.halted_eq.symm.trans hh
    have ⟨hi, hm⟩ := h.read
    rw [next?_of_read hh]
    simp only [Bookmark.next?, hb]
    generalize b.read text = x at hi hm
    generalize r.read = y at hi hm
    obtain ⟨item, b'⟩ := x
    obtain ⟨item', r'⟩ := y
    cases hi
    cases item
    case error => exact ⟨rfl, hm.stream_eq, hm.count_le, hm.position_eq, rfl⟩
    case ok => exact ⟨rfl, hm⟩

theorem token?_of_ends {c : Cursor} {ending : Except Fault Token} (h : Ends c ending) :
    (Answer.read ending).token? = none := by
  cases h <;> rfl

theorem Marks.token?_read (h : b.Marks text r) :
    let tokens := (Cursor.ofText text).stream.tokens
    (Answer.read (b.read text).1).token?.toList ++ tokens.drop (b.read text).2.count =
      tokens.drop b.count := by
  have hs := h.stream_eq
  cases hd : (Cursor.ofText text).stream.tokens.drop b.count
  case nil =>
    have ht := token?_of_ends (Cursor.ofText text).ends_stop
    simp [read_of_nil hd h.count_le, ht, hd]
  case cons t ts =>
    simp only [hd] at hs
    have ⟨_, _, _, _, hf⟩ := Cursor.scan_of_stream_cons hs
    simp [read_of_cons hd, drop_of_cons hd, Answer.token?, hf, hd]

theorem token?_next? (text : String) (h : b.halted = false) :
    (Answer.next (b.next? text).1).token? = (Answer.read (b.read text).1).token? ∧
      (b.next? text).2.count = (b.read text).2.count := by
  simp only [Bookmark.next?, h]
  generalize b.read text = x
  have ⟨item, b'⟩ := x
  cases item
  case error => exact ⟨rfl, rfl⟩
  case ok t => cases ht : t.isFinish <;> simp [Answer.token?, ht]

theorem Marks.token?_next? (h : b.Marks text r) :
    let tokens := (Cursor.ofText text).stream.tokens
    (Answer.next (b.next? text).1).token?.toList ++ tokens.drop (b.next? text).2.count =
      tokens.drop b.count := by
  cases hb : b.halted
  case true => simp [Bookmark.next?, hb, Answer.token?]
  case false =>
    have ⟨ht, hc⟩ := Bookmark.token?_next? text hb
    exact ht ▸ hc ▸ h.token?_read

end Bookmark

namespace Replay

structure Follows (r : Replay) (s : Session) : Prop where
  reader : r.bookmark.Marks r.text s.reader
  copies : r.copies.Forall₂ (fun a b => a.1 = b.1 ∧ a.2.Marks r.text b.2) s.copies

variable {r : Replay} {s : Session}

theorem Follows.ofText (text : String) : (ofText text).Follows (.ofText text) :=
  ⟨.ofText, .nil⟩

theorem rel_lookup {text : String} {kept : List (String × Bookmark)}
    {copies : List (String × Reader)}
    (h : kept.Forall₂ (fun a b => a.1 = b.1 ∧ a.2.Marks text b.2) copies) (name : String) :
    Option.Rel (·.Marks text ·) (kept.lookup name) (copies.lookup name) := by
  induction h
  case nil => exact .none
  case cons a b _ _ hab _ ih =>
    match a, b, hab with
    | (n, bookmark), (_, reader), ⟨rfl, hm⟩ =>
      cases he : name == n
      case true => simpa [List.lookup_cons, he] using hm
      case false => simpa [List.lookup_cons, he] using ih

-- A move leaves the reader and its copies where the bookmarks are.
theorem Follows.answer (h : r.Follows s) (move : Move) :
    (r.answer move).1 = (s.answer move.call).1 ∧
      (r.answer move).2.Follows (s.answer move.call).2 := by
  cases move
  case read =>
    have ⟨hi, hm⟩ := h.reader.read
    exact ⟨congrArg Answer.read hi, hm, h.copies⟩
  case next =>
    have ⟨hi, hm⟩ := h.reader.next?
    exact ⟨congrArg Answer.next hi, hm, h.copies⟩
  case save => exact ⟨rfl, h.reader, .cons ⟨rfl, h.reader⟩ h.copies⟩
  case load name =>
    have hl := rel_lookup h.copies name
    simp only [Replay.answer, Session.answer, Move.call]
    generalize r.copies.lookup name = x at hl
    generalize s.copies.lookup name = y at hl
    cases hl
    case none => exact ⟨rfl, h⟩
    case some hm => exact ⟨rfl, hm, h.copies⟩

theorem Follows.run (h : r.Follows s) (moves : List Move) :
    s.run (moves.map Move.call) = r.run moves := by
  induction moves generalizing r s
  case nil => rfl
  case cons move moves ih =>
    have ⟨ha, hf⟩ := h.answer move
    simp only [List.map_cons, Session.run, Replay.run, ha, hf.reader.position_eq, ih hf]

theorem Follows.after (h : r.Follows s) (moves : List Move) :
    (r.after moves).Follows (s.after moves) := by
  induction moves generalizing r s
  case nil => exact h
  case cons move moves ih => exact ih (h.answer move).2

theorem text_answer (r : Replay) (move : Move) : (r.answer move).2.text = r.text := by
  cases move
  case load =>
    simp only [Replay.answer]
    split <;> rfl
  all_goals rfl

theorem text_after (r : Replay) (moves : List Move) : (r.after moves).text = r.text := by
  induction moves generalizing r
  case nil => rfl
  case cons move moves ih => exact (ih _).trans (r.text_answer move)

theorem position_le_answer (s : Session) {move : Move} (hm : ∀ name, move ≠ .load name) :
    s.reader.cursor.position ≤ (s.answer move.call).2.reader.cursor.position := by
  cases move
  case read => exact s.reader.cursor.position_le_scan
  case next =>
    have hp := s.reader.cursor.position_le_scan
    simp only [Session.answer, Move.call, Reader.next?]
    split
    case isTrue => exact Nat.le_refl _
    case isFalse =>
      generalize s.reader.cursor.scan = x at hp
      have ⟨item, cursor⟩ := x
      cases item
      case error => exact hp
      case ok t => cases ht : t.isFinish <;> simpa [ht] using hp
  case save => exact Nat.le_refl _
  case load name => exact absurd rfl (hm name)

theorem pairwise_positions (s : Session) {moves : List Move}
    (hm : ∀ name, .load name ∉ moves) :
    (s.reader.cursor.position :: (s.run (moves.map Move.call)).map (·.2)).Pairwise (· ≤ ·) := by
  induction moves generalizing s
  case nil => simp [Session.run]
  case cons move moves ih =>
    have hp := position_le_answer s fun name he => hm name (he ▸ .head _)
    have ih := ih (s.answer move.call).2 fun name he => hm name (.tail _ he)
    refine .cons (fun p hp' => ?_) ih
    cases hp'
    case head => exact hp
    case tail hp' => exact Nat.le_trans hp (List.rel_of_pairwise_cons ih hp')

theorem Follows.token?_answer (h : r.Follows s) {move : Move} (hm : ∀ name, move ≠ .load name) :
    let tokens := (Cursor.ofText r.text).stream.tokens
    (r.answer move).1.token?.toList ++ tokens.drop (r.answer move).2.bookmark.count =
      tokens.drop r.bookmark.count := by
  cases move
  case read => exact h.reader.token?_read
  case next => exact h.reader.token?_next?
  case save => rfl
  case load name => exact absurd rfl (hm name)

theorem Follows.tokens_run (h : r.Follows s) {moves : List Move} (hm : ∀ name, .load name ∉ moves) :
    let tokens := (Cursor.ofText r.text).stream.tokens
    (r.run moves).filterMap (·.1.token?) ++ tokens.drop (r.after moves).bookmark.count =
      tokens.drop r.bookmark.count := by
  induction moves generalizing r s
  case nil => rfl
  case cons move moves ih =>
    have ⟨_, hf⟩ := h.answer move
    have hr := h.token?_answer fun name he => hm name (he ▸ .head _)
    have ih := ih hf fun name he => hm name (.tail _ he)
    have hc : (r.run (move :: moves)).filterMap (·.1.token?) = (r.answer move).1.token?.toList ++
        ((r.answer move).2.run moves).filterMap (·.1.token?) := by
      simp only [Replay.run, List.filterMap_cons]
      cases (r.answer move).1.token? <;> rfl
    simp only [text_answer] at hr ih ⊢
    rw [hc, List.append_assoc, ← hr, ← ih]
    rfl

end Replay

theorem run_eq_replay (text : String) (moves more : List Move) :
    let session := (Session.ofText text).after moves
    let replay := (Replay.ofText text).after moves
    (Session.ofText text).run (moves.map Move.call) = (Replay.ofText text).run moves ∧
    session.reader.halted = replay.bookmark.halted ∧
    session.reader.read.2.halted = session.reader.halted ∧
    ((∀ name, Move.load name ∉ more) →
      let answers := session.run (more.map Move.call)
      let tokens := (Cursor.ofText text).stream.tokens
      (session.reader.cursor.position :: answers.map (·.2)).Pairwise (· ≤ ·) ∧
      answers.filterMap (·.1.token?) ++ tokens.drop (replay.after more).bookmark.count =
        tokens.drop replay.bookmark.count) := by
  intro session replay
  have hf := (Replay.Follows.ofText text).after moves
  have ht : replay.text = text := Replay.text_after _ moves
  refine ⟨(Replay.Follows.ofText text).run moves, hf.reader.halted_eq, rfl, fun hm => ?_⟩
  have htokens := hf.tokens_run hm
  rw [← hf.run more, ht] at htokens
  exact ⟨Replay.pairwise_positions session hm, htokens⟩

-- A copy is put back, and the three that was handed out before is handed out again.
theorem run_eq_replay_after_load :
    let session := (Session.ofText "12 3 $").after
      [.next, .save "twelve", .read, .next, .load "twelve"]
    let answers := session.run ([.save "again", .read, .next, .next].map Move.call)
    (2 :: answers.map (·.2)).Pairwise (· ≤ ·) ∧
      answers.filterMap (·.1.token?) = [⟨.number 3, 3, 4⟩] := by
  have ⟨_, _, _, h⟩ := run_eq_replay "12 3 $"
    [.next, .save "twelve", .read, .next, .load "twelve"] [.save "again", .read, .next, .next]
  have ⟨hp, ht⟩ := h (by simp)
  have hs : (Cursor.ofText "12 3 $").stream.tokens =
      [⟨.number 12, 0, 2⟩, ⟨.number 3, 3, 4⟩] := by
    decide +kernel
  have he : (Cursor.ofText "12 3 $").stream.ending = .error (.invalidCharacter '$' 5) := by
    decide +kernel
  refine ⟨hp, ?_⟩
  simpa [Replay.after, Replay.answer, Replay.ofText, Bookmark.read, Bookmark.next?, Bookmark.item,
    hs, he, Token.isFinish, Except.map, Bookmark.place] using ht

end Calculator
