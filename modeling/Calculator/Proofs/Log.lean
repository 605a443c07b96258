import Calculator.Proofs.Descent
import Calculator.Proofs.Flattening

namespace Calculator

def Event.scanned? : Event → Option Token
  | scanned t => some t
  | _ => none

def Event.consumed? : Event → Option Token
  | consumed t => some t
  | _ => none

structure Event.Idle (e : Event) : Prop where
  scanned  : e.scanned? = none
  consumed : e.consumed? = none

section

variable {α : Type} {row front back : List α} {a b : α}

theorem append_of_concat (h : row ++ [a] = front ++ back) :
    back = [] ∧ front = row ++ [a] ∨ ∃ rest, back = rest ++ [a] ∧ row = front ++ rest := by
  rcases back.eq_nil_or_concat with rfl | ⟨rest, x, rfl⟩
  case inl => exact .inl ⟨rfl, by simpa using h.symm⟩
  case inr =>
    rw [List.concat_eq_append, ← List.append_assoc] at h
    obtain ⟨hr, ha⟩ := List.append_inj' h rfl
    exact .inr ⟨rest, by simp [List.singleton_inj.mp ha], hr⟩

theorem cons_of_concat (h : row ++ [a] = front ++ b :: back) :
    back = [] ∧ front = row ∧ b = a ∨ ∃ rest, back = rest ++ [a] ∧ row = front ++ b :: rest := by
  rcases append_of_concat h with ⟨hb, -⟩ | ⟨rest, hb, hr⟩
  case inl => cases hb
  cases rest
  case nil =>
    obtain ⟨rfl, rfl⟩ := List.cons.inj hb
    exact .inl ⟨rfl, by simpa using hr.symm, rfl⟩
  case cons =>
    obtain ⟨rfl, rfl⟩ := List.cons.inj hb
    exact .inr ⟨_, rfl, hr⟩

theorem cons_of_toList {a? : Option α} (h : row ++ a?.toList = front ++ b :: back) :
    a? = some b ∧ front = row ∧ back = [] ∨ ∃ rest, row = front ++ b :: rest := by
  cases a?
  case none => exact .inr ⟨back, by simpa using h⟩
  case some a =>
    rcases cons_of_concat h with ⟨hb, hf, rfl⟩ | ⟨rest, -, hr⟩
    · exact .inl ⟨rfl, hf, hb⟩
    · exact .inr ⟨rest, hr⟩

end

namespace Log

def scanned (log : List Event) : List Token :=
  log.filterMap Event.scanned?

def consumed (log : List Event) : List Token :=
  log.filterMap Event.consumed?

-- Of the tokens that have been read, `t` is the only one that has not been used up.
def AtHand (log : List Event) (t : Token) : Prop :=
  scanned log = consumed log ++ [t]

inductive Running : List Event → Token → Prop where
  | first {t : Token} : Running [.scanned t] t
  | enter {log : List Event} {t : Token} (rule : Rule) :
    Running log t → Running (log ++ [.entered rule t.span]) t
  | advance {log : List Event} {t u : Token} :
    Running log t → t.symbol ≠ .finish → Running (log ++ [.scanned u] ++ [.consumed t]) u

variable {log front back : List Event} {e : Event} {t u : Token}

@[simp] theorem scanned_append : scanned (front ++ back) = scanned front ++ scanned back :=
  List.filterMap_append

@[simp] theorem consumed_append : consumed (front ++ back) = consumed front ++ consumed back :=
  List.filterMap_append

@[simp] theorem scanned_cons : scanned (e :: log) = e.scanned?.toList ++ scanned log := by
  cases h : e.scanned? <;> simp [scanned, h]

@[simp] theorem consumed_cons : consumed (e :: log) = e.consumed?.toList ++ consumed log := by
  cases h : e.consumed? <;> simp [consumed, h]

@[simp] theorem scanned_nil : scanned [] = [] := rfl

@[simp] theorem consumed_nil : consumed [] = [] := rfl

theorem scanned_idle {e? : Option Event} (h : ∀ e ∈ e?, e.Idle) : scanned e?.toList = [] := by
  cases e?
  case none => rfl
  case some e => simp [(h e rfl).scanned]

theorem consumed_idle {e? : Option Event} (h : ∀ e ∈ e?, e.Idle) : consumed e?.toList = [] := by
  cases e?
  case none => rfl
  case some e => simp [(h e rfl).consumed]

theorem AtHand.idle (h : AtHand log t) (he : e.Idle) : AtHand (log ++ [e]) t := by
  rw [AtHand] at *
  simp [h, he.scanned, he.consumed]

theorem Running.atHand (h : Running log t) : AtHand log t := by
  induction h
  case first => rfl
  case enter ih => exact ih.idle ⟨rfl, rfl⟩
  case advance ih =>
    rw [AtHand] at *
    simp [ih, Event.scanned?, Event.consumed?]

end Log

namespace Lookahead

def log (l : Lookahead) : List Event :=
  l.history.reverse

-- The log is that of a parse under way, and together with what is still to be read, the tokens that
-- have been used up are those of the text.
structure Tracks (text : String) (l : Lookahead) : Prop where
  running : Log.Running l.log l.current
  tokens  : (Cursor.ofText text).stream.tokens = Log.consumed l.log ++ l.stream.tokens
  ending  : (Cursor.ofText text).stream.ending = l.stream.ending

variable {text : String} {l last next : Lookahead} {e : Event} {rule : Rule} {wanted : Category}
variable {t : Token} {f : Fault}

@[simp] theorem log_note : (l.note e).log = l.log ++ [e] :=
  List.reverse_cons

@[simp] theorem consumed_enter :
    Log.consumed (l.note (.entered rule l.current.span)).log = Log.consumed l.log := by
  simp [Event.consumed?]

theorem log_of_consume (h : l.consume wanted = .ok t next) :
    next.log = l.log ++ [.scanned next.current] ++ [.consumed t] := by
  obtain ⟨-, -, -, hh⟩ := consume_eq_ok h
  simp [log, hh]

theorem consumed_of_consume (h : l.consume wanted = .ok t next) :
    Log.consumed next.log = Log.consumed l.log ++ [l.current] := by
  obtain ⟨rfl, -⟩ := consume_eq_ok h
  simp [log_of_consume h, Event.consumed?]

theorem log_of_consume_error (h : l.consume wanted = .error f last)
    (hc : l.current.symbol.category = wanted) :
    last.log = l.log ++ (Event.ofFault? f).toList := by
  obtain ⟨-, -, hh⟩ := consume_eq_error h hc
  rw [log, hh, List.reverse_append]
  cases Event.ofFault? f <;> rfl

theorem log_of_ofCursor {c : Cursor} (h : ofCursor c = .ok l) : l.log = [.scanned l.current] := by
  unfold ofCursor at h
  split at h <;> cases h
  rfl

theorem stream_of_consume (h : l.consume wanted = .ok t next) (hw : wanted ≠ .finish) :
    l.stream = { next.stream with tokens := l.current :: next.stream.tokens } := by
  obtain ⟨-, hc, hs, -⟩ := consume_eq_ok h
  rw [stream_of_category hc hw, stream_of_scan hs]

namespace Tracks

theorem of_ofCursor (h : ofCursor (.ofText text) = .ok l) : l.Tracks text := by
  have hs := stream_of_scan (scan_of_ofCursor h)
  have hl := log_of_ofCursor h
  refine ⟨hl ▸ .first, ?_, by rw [hs]⟩
  rw [hs, hl]
  rfl

theorem enter (h : l.Tracks text) (rule : Rule) :
    (l.note (.entered rule l.current.span)).Tracks text where
  running := log_note ▸ h.running.enter rule
  tokens := by rw [consumed_enter, stream_note, h.tokens]
  ending := h.ending

theorem consume (h : l.Tracks text) (hc : l.consume wanted = .ok t next) (hw : wanted ≠ .finish) :
    next.Tracks text := by
  have hs := stream_of_consume hc hw
  constructor
  case running =>
    obtain ⟨rfl, hk, -, -⟩ := consume_eq_ok hc
    rw [log_of_consume hc]
    refine h.running.advance fun hf => hw ?_
    rw [← hk, hf]
    rfl
  case tokens => rw [h.tokens, hs, consumed_of_consume hc, List.append_assoc, List.singleton_append]
  case ending => rw [h.ending, hs]

-- Where no token can be read, all tokens of the text have been.
theorem consume_error (h : l.Tracks text) (hk : l.current.symbol.category = wanted)
    (hw : wanted ≠ .finish) (hc : l.consume wanted = .error f last) :
    (Cursor.ofText text).stream.tokens = Log.scanned l.log ∧
      (Cursor.ofText text).stream.ending = .error f := by
  obtain ⟨hs, -, -⟩ := consume_eq_error hc hk
  rw [h.tokens, h.ending, h.running.atHand, stream_of_category hk hw, Cursor.stream_of_error hs]
  exact ⟨rfl, rfl⟩

theorem tokenize_of_finish (h : l.Tracks text) (hf : l.current.symbol = .finish) :
    tokenize text = .ok (Log.consumed l.log) := by
  have hs : l.stream = ⟨[], .ok l.current, l.cursor⟩ := if_pos (Token.isFinish_iff.mpr hf)
  rw [tokenize, h.tokens, h.ending, hs, List.append_nil]
  rfl

end Tracks
end Lookahead

namespace Moment

variable {text : String} {m m' : Moment} {l : Lookahead}

theorem Reaches.tracks (h : m.Reaches m') (ht : m.place.lookahead.Tracks text) :
    m'.place.lookahead.Tracks text :=
  h.keeps_lookahead (fun hw hc ht => ht.consume hc hw) (fun rule ht => ht.enter rule) ht

theorem start_tracks (ht : l.Tracks text) : (start l).place.lookahead.Tracks text :=
  ((ht.enter .expression).enter .term).enter .factor

end Moment

namespace Lookahead.Outcome

def result {α : Type} : Outcome α → Except Fault α
  | .error f _ => .error f
  | .ok a _ => .ok a

def evaluation : Outcome Operand → Evaluation
  | .error f l => ⟨.error f, l.log⟩
  | .ok v l => ⟨.ok v.value, l.log⟩

end Lookahead.Outcome

theorem Lookahead.Outcome.outcome_evaluation (out : Lookahead.Outcome Operand) :
    out.evaluation.outcome = out.result.map (·.value) := by
  cases out <;> rfl

def Event.remark? : Except Fault Operand → Option Event
  | .error (.trailingInput t) => some (.trailing t)
  | .error f => Event.ofFault? f
  | .ok v => some (.completed v)

theorem Event.idle_of_remark {result : Except Fault Operand} {e : Event}
    (h : e ∈ Event.remark? result) : e.Idle := by
  rcases result with f | v
  case error => cases f <;> cases h <;> exact ⟨rfl, rfl⟩
  case ok =>
    cases h
    exact ⟨rfl, rfl⟩

theorem Event.idle_of_ofFault {f : Fault} {e : Event} (h : e ∈ Event.ofFault? f) : e.Idle := by
  cases f <;> cases h
  exact ⟨rfl, rfl⟩

theorem Event.remark?_of_ending {text : String} {f : Fault}
    (h : (Cursor.ofText text).stream.ending = .error f) :
    Event.remark? (.error f) = Event.ofFault? f := by
  have ⟨_, _, _, _, _, he⟩ := reads_ofText text
  rw [h] at he
  cases he <;> rfl

theorem Moment.fault_of_close {waiting : Option (Operand × Operator)} {v : Operand}
    {l last : Lookahead} {f : Fault} (h : close waiting v l = .error f last) :
    (∃ s, f = .divisionByZero s) ∨ ∃ s, f = .overflow s := by
  rcases waiting with _ | ⟨left, op⟩
  case none => cases h
  case some =>
    rw [close, Operator.apply] at h
    by_cases hz : op = .divide ∧ v.value = 0
    case pos =>
      rw [if_pos hz] at h
      cases h
      exact .inl ⟨_, rfl⟩
    case neg =>
      rw [if_neg hz] at h
      cases hw : Word.ofInt? (op.exact left.value.toInt v.value.toInt) <;> simp only [hw] at h
      case none =>
        cases h
        exact .inr ⟨_, rfl⟩
      case some => cases h

-- A parse that stops adds nothing to the log but what is noted of its result.
theorem Moment.Stops.log_eq {text : String} {m : Moment} {out : Lookahead.Outcome Operand}
    (h : m.Stops out) (ht : m.place.lookahead.Tracks text) :
    out.evaluation.log = m.place.lookahead.log ++ (Event.remark? out.result).toList := by
  cases h
  case consume f last hw hk hc =>
    have ⟨_, he⟩ := ht.consume_error hk hw hc
    have hr : Event.remark? (Lookahead.Outcome.result (.error f last)) = Event.ofFault? f :=
      Event.remark?_of_ending he
    rw [hr]
    exact Lookahead.log_of_consume_error hc hk
  case operand => exact (List.append_nil _).symm
  case product hc =>
    rcases Moment.fault_of_close hc with ⟨s, rfl⟩ | ⟨s, rfl⟩ <;> exact (List.append_nil _).symm
  case sum hc =>
    rcases Moment.fault_of_close hc with ⟨s, rfl⟩ | ⟨s, rfl⟩ <;> exact (List.append_nil _).symm
  case trailing => exact Lookahead.log_note
  case completed => exact Lookahead.log_note

theorem Moment.Stops.consumed_eq {m : Moment} {out : Lookahead.Outcome Operand} (h : m.Stops out) :
    Log.consumed out.evaluation.log = Log.consumed m.place.lookahead.log := by
  cases h
  case consume f last _ hk hc =>
    have hl : last.log = m.place.lookahead.log ++ (Event.ofFault? f).toList :=
      Lookahead.log_of_consume_error hc hk
    rw [Lookahead.Outcome.evaluation, hl, Log.consumed_append,
      Log.consumed_idle fun _ => Event.idle_of_ofFault, List.append_nil]
  case trailing => simp [Lookahead.Outcome.evaluation, Place.lookahead, Event.consumed?]
  case completed => simp [Lookahead.Outcome.evaluation, Place.lookahead, Event.consumed?]
  all_goals rfl

theorem Lookahead.evaluation_eq (l : Lookahead) : l.evaluation = l.parse.evaluation := by
  unfold evaluation
  cases l.parse <;> rfl

theorem exists_stop (text : String) :
    (∃ f stop, (Cursor.ofText text).scan = (.error f, stop) ∧
      trace text = ⟨.error f, (Event.remark? (.error f)).toList⟩) ∨
    ∃ l m out, Lookahead.ofCursor (.ofText text) = .ok l ∧ (Moment.start l).Reaches m ∧
      m.Stops out ∧ trace text = out.evaluation := by
  unfold trace Cursor.evaluation
  cases h : Lookahead.ofCursor (.ofText text)
  case error f =>
    unfold Lookahead.ofCursor at h
    split at h <;> cases h
    rename_i stop hs
    have he : (Cursor.ofText text).stream.ending = .error f := by rw [Cursor.stream_of_error hs]
    exact .inl ⟨f, stop, hs, by rw [Event.remark?_of_ending he]⟩
  case ok l =>
    have ⟨m, hm, hs⟩ := Moment.reaches_parse l
    exact .inr ⟨l, m, l.parse, rfl, hm, Moment.stops_of_step hs, l.evaluation_eq⟩

end Calculator
