import Calculator.Proofs.Operands

namespace Calculator

open Text (isBlank size)

def TokenStream.items (s : TokenStream) : List Token :=
  s.tokens ++ s.ending.toOption.toList

namespace Log

structure OneAhead (log : List Event) : Prop where
  -- A token is used up as soon as the token behind it has been read. The end of the text never is.
  used    : ∀ front t back, log = front ++ .consumed t :: back →
    t.symbol ≠ .finish ∧ ∃ pre u, front = pre ++ [.scanned u] ∧ AtHand pre t
  -- Between any other two events, and at the end, there is one token at hand.
  between : ∀ front back, log = front ++ back → scanned front ≠ [] →
    (∃ t, AtHand front t) ∨
      ∃ pre t u post, front = pre ++ [.scanned u] ∧ back = .consumed t :: post

def BehindNumeral (text : String) (log : List Event) (s : Span) : Prop :=
  ∃ us t u ws, (Cursor.ofText text).stream.items = us ++ t :: u :: ws ∧
    t.symbol.category = .number ∧ t.span.stop = s.stop ∧ consumed log = us ++ [t] ∧ AtHand log u

def BeforeOffset (text : String) (log : List Event) (offset : Nat) : Prop :=
  let ts := (Cursor.ofText text).stream.tokens
  ts = [] ∧ scanned log = [] ∨
    ∃ us t blanks, ts = us ++ [t] ∧ AtHand log t ∧
      Span.slice? ⟨t.span.stop, offset⟩ text = some blanks ∧ ∀ c ∈ blanks.toList, isBlank c

-- Which token is at hand at the end of the log, for each outcome. A numeral that is no word is a
-- fault of the text, and all other overflows come from operations.
def EndsWith (text : String) (log : List Event) : Except Fault Word → Prop
  | .ok _ => ∃ t, t.symbol = .finish ∧ AtHand log t
  | .error (.unexpectedToken _ found) => AtHand log found
  | .error (.trailingInput found) => AtHand log found
  | .error (.divisionByZero s) => BehindNumeral text log s
  | .error (.overflow s) =>
    tokenize text = .error (.overflow s) ∧ BeforeOffset text log s.start ∨
      tokenize text ≠ .error (.overflow s) ∧ BehindNumeral text log s
  | .error (.invalidCharacter _ offset) => BeforeOffset text log offset

variable {log front back : List Event} {e : Event} {t u : Token}

namespace OneAhead

theorem nil : OneAhead [] := by
  constructor <;> simp_all

theorem exists_atHand (h : OneAhead log) (hs : scanned log ≠ []) : ∃ t, AtHand log t := by
  rcases h.between log [] (by simp) hs with h | ⟨_, _, _, _, _, h⟩
  · exact h
  · cases h

theorem idle (h : OneAhead log) (he : e.Idle) : OneAhead (log ++ [e]) where
  used front t back hl := by
    rcases cons_of_concat hl with ⟨-, -, rfl⟩ | ⟨rest, -, hr⟩
    · cases he.consumed
    · exact h.used front t rest hr
  between front back hl hs := by
    rcases append_of_concat hl with ⟨-, rfl⟩ | ⟨rest, rfl, hr⟩
    case inl =>
      have hs : scanned log ≠ [] := by simpa [he.scanned] using hs
      have ⟨t, ht⟩ := h.exists_atHand hs
      exact .inl ⟨t, ht.idle he⟩
    case inr =>
      rcases h.between front rest hr hs with ht | ⟨pre, t, u, post, hp, rfl⟩
      · exact .inl ht
      · exact .inr ⟨pre, t, u, post ++ [e], hp, rfl⟩

theorem advance (h : OneAhead log) (ht : AtHand log t) (hf : t.symbol ≠ .finish) :
    OneAhead (log ++ [.scanned u] ++ [.consumed t]) where
  used front t' back hl := by
    rcases cons_of_concat hl with ⟨-, rfl, he⟩ | ⟨rest, -, hr⟩
    case inl =>
      cases he
      exact ⟨hf, log, u, rfl, ht⟩
    case inr =>
      rcases cons_of_concat hr with ⟨-, -, he⟩ | ⟨rest', -, hr'⟩
      · cases he
      · exact h.used front t' rest' hr'
  between front back hl hs := by
    rcases append_of_concat hl with ⟨-, rfl⟩ | ⟨rest, rfl, hr⟩
    case inl =>
      refine .inl ⟨u, ?_⟩
      rw [AtHand] at *
      simp [ht, Event.scanned?, Event.consumed?]
    case inr =>
      rcases append_of_concat hr with ⟨rfl, rfl⟩ | ⟨rest', rfl, hr'⟩
      · exact .inr ⟨log, t, u, [], rfl, rfl⟩
      · rcases h.between front rest' hr' hs with ht | ⟨pre, t', u', post, hp, rfl⟩
        · exact .inl ht
        · exact .inr ⟨pre, t', u', post ++ [.scanned u] ++ [.consumed t], hp, by simp⟩

theorem first : OneAhead [.scanned t] where
  used front u back hl := by
    rcases front with _ | ⟨e, front⟩ <;> simp at hl
  between front back hl hs := by
    rcases List.singleton_eq_append_iff.mp hl with ⟨rfl, -⟩ | ⟨rfl, -⟩
    · exact absurd rfl hs
    · exact .inl ⟨t, rfl⟩

end OneAhead

theorem Running.oneAhead (h : Running log t) : OneAhead log := by
  induction h
  case first => exact .first
  case enter ih => exact ih.idle ⟨rfl, rfl⟩
  case advance h hf ih => exact ih.advance h.atHand hf

theorem AtHand.remark {e? : Option Event} (h : AtHand log t) (he : ∀ e ∈ e?, e.Idle) :
    AtHand (log ++ e?.toList) t := by
  cases e?
  case none => simpa using h
  case some e => exact h.idle (he e rfl)

theorem OneAhead.remark {e? : Option Event} (h : OneAhead log) (he : ∀ e ∈ e?, e.Idle) :
    OneAhead (log ++ e?.toList) := by
  cases e?
  case none => simpa using h
  case some e => exact h.idle (he e rfl)

end Log

structure Evaluation.ReadsAhead (e : Evaluation) (text : String) : Prop where
  scanned  : Log.scanned e.log <+: (Cursor.ofText text).stream.items
  ordered  : (Log.scanned e.log).Pairwise Token.Before
  finish   : ∀ front t back, Log.scanned e.log = front ++ t :: back → t.symbol = .finish →
    back = [] ∧ t.span = ⟨text.utf8ByteSize, text.utf8ByteSize⟩
  consumed : Log.consumed e.log <+: Log.scanned e.log
  oneAhead : Log.OneAhead e.log
  endsWith : Log.EndsWith text e.log e.outcome

section

open Log

variable {text : String} {log : List Event} {t : Token} {us front back : List Token}
variable {l : Lookahead} {m : Moment} {f : Fault} {out : Lookahead.Outcome Operand}

theorem Lookahead.exists_items (l : Lookahead) : ∃ rest, l.stream.items = l.current :: rest := by
  unfold stream TokenStream.items
  split
  case isTrue => exact ⟨[], rfl⟩
  case isFalse => exact ⟨_, rfl⟩

theorem Lookahead.Tracks.exists_items (h : l.Tracks text) :
    ∃ rest, (Cursor.ofText text).stream.items = scanned l.log ++ rest := by
  have ⟨rest, hr⟩ := l.exists_items
  refine ⟨rest, ?_⟩
  rw [TokenStream.items] at hr ⊢
  rw [h.tokens, h.ending, h.running.atHand, List.append_assoc, hr, List.append_assoc,
    List.singleton_append]

theorem items_eq (text : String) :
    let s := (Cursor.ofText text).stream
    s.items = s.tokens ∨
      s.items = s.tokens ++ [⟨.finish, text.utf8ByteSize, text.utf8ByteSize⟩] := by
  have ⟨front, back, hc, _, _, he⟩ := reads_ofText text
  simp only [TokenStream.items]
  generalize (Cursor.ofText text).stream.ending = ending at he
  cases he
  case finish =>
    right
    rw [← Text.size_toList, hc, List.append_nil]
    rfl
  all_goals exact .inl (List.append_nil _)

theorem items_ordered (text : String) :
    (Cursor.ofText text).stream.items.Pairwise Token.Before := by
  have ⟨front, back, hc, hr, _, _⟩ := reads_ofText text
  rcases items_eq text with he | he <;> rw [he]
  case inl => exact hr.ordered
  case inr =>
    refine List.pairwise_append.mpr ⟨hr.ordered, List.pairwise_singleton .., fun t ht u hu => ?_⟩
    obtain rfl := List.mem_singleton.mp hu
    have := hr.start_lt_stop ht
    have := (hr.within ht).2
    rw [← Text.size_toList, hc, Text.size_append]
    constructor <;> simp only <;> omega

theorem items_finish (h : (Cursor.ofText text).stream.items = front ++ t :: back)
    (hf : t.symbol = .finish) :
    back = [] ∧ t.span = ⟨text.utf8ByteSize, text.utf8ByteSize⟩ := by
  have ⟨_, _, _, hr, _, _⟩ := reads_ofText text
  have hn : t ∉ (Cursor.ofText text).stream.tokens := fun ht => hr.ne_finish t ht hf
  rcases items_eq text with he | he <;> rw [he] at h
  case inl => exact absurd (by simp [h]) hn
  case inr =>
    rcases cons_of_concat h with ⟨hb, -, rfl⟩ | ⟨rest, -, ht⟩
    · exact ⟨hb, rfl⟩
    · exact absurd (by simp [ht]) hn

theorem beforeOffset_of_ending (ha : AtHand log t)
    (ht : (Cursor.ofText text).stream.tokens = scanned log)
    (he : (Cursor.ofText text).stream.ending = .error f) : BeforeOffset text log f.span.start := by
  have ⟨front, back, hc, hr, _, hends⟩ := reads_ofText text
  rw [ha] at ht
  rw [ht] at hr
  rw [he] at hends
  obtain ⟨pre, body, blanks, rfl, hcut⟩ := hr.cut
  refine .inr ⟨_, t, .ofList blanks, ht, ha, ?_, by simpa using hcut.after.isBlank_of_nil⟩
  rw [hends.start_eq, hcut.span_eq, Text.size_append, Nat.zero_add, ← Text.size_append]
  exact Span.slice?_append hc

-- The fault of an operation is no fault of the text, which would lie behind all tokens.
theorem tokenize_ne_of_stop (ht : t ∈ (Cursor.ofText text).stream.tokens)
    (hs : t.span.stop = f.span.stop) : tokenize text ≠ .error f := by
  intro h
  have he : (Cursor.ofText text).stream.ending = .error f := Machine.map_eq_error_iff.mp h
  have ⟨front, back, _, hr, _, hends⟩ := reads_ofText text
  rw [he] at hends
  have := hends.lt_stop
  have := (hr.within ht).2
  omega

namespace Moment.Stops

theorem atHand (h : m.Stops out) (ht : m.place.lookahead.Tracks text) :
    AtHand out.evaluation.log m.place.lookahead.current := by
  rw [h.log_eq ht]
  exact ht.running.atHand.remark fun _ => Event.idle_of_remark

theorem scanned_eq (h : m.Stops out) (ht : m.place.lookahead.Tracks text) :
    Log.scanned out.evaluation.log = Log.scanned m.place.lookahead.log := by
  rw [h.log_eq ht, scanned_append, scanned_idle fun _ => Event.idle_of_remark,
    List.append_nil]

-- An operation that fails has just got its right operand.
theorem endsWith_of_last {l last : Lookahead} {waiting : Option (Operand × Operator)} {v : Operand}
    (h : m.Stops (.error f last)) (ht : m.place.lookahead.Tracks text)
    (hc : close waiting v l = .error f last) (hu : m.used = us ++ [t])
    (hn : t.symbol.category = .number) (hs : t.span.stop = f.span.stop) :
    EndsWith text (Lookahead.Outcome.evaluation (.error f last)).log (.error f) := by
  have hl : Log.consumed m.place.lookahead.log = us ++ [t] := hu
  have hb : BehindNumeral text (Lookahead.Outcome.evaluation (.error f last)).log f.span := by
    have ⟨rest, hi⟩ := ht.exists_items
    rw [ht.running.atHand, hl] at hi
    exact ⟨us, t, m.place.lookahead.current, rest, by simpa using hi, hn, hs,
      h.consumed_eq.trans hu, h.atHand ht⟩
  have hm : t ∈ (Cursor.ofText text).stream.tokens := by
    rw [ht.tokens, hl]
    simp
  rcases fault_of_close hc with ⟨s, rfl⟩ | ⟨s, rfl⟩
  · exact hb
  · exact .inr ⟨tokenize_ne_of_stop hm hs, hb⟩

theorem endsWith_of_ending (ha : AtHand log t)
    (ht : (Cursor.ofText text).stream.tokens = scanned log)
    (he : (Cursor.ofText text).stream.ending = .error f) : EndsWith text log (.error f) := by
  have hb := beforeOffset_of_ending ha ht he
  have htok : tokenize text = .error f := Machine.map_eq_error_iff.mpr he
  have ⟨_, _, _, _, _, hends⟩ := reads_ofText text
  rw [he] at hends
  cases hends
  case stray => exact hb
  case numeral => exact .inl ⟨htok, hb⟩

theorem endsWith (h : m.Stops out) (ht : m.place.lookahead.Tracks text) (hm : m.Has m.used) :
    EndsWith text out.evaluation.log out.evaluation.outcome := by
  have ha := h.atHand ht
  have ⟨_, _, _, hr⟩ := reads_used ht
  cases h
  case consume hw hk hc =>
    have ⟨htok, he⟩ := ht.consume_error hk hw hc
    exact endsWith_of_ending ha (htok.trans (scanned_eq (.consume hk hw hc) ht).symm) he
  case operand => exact ha
  case product hc =>
    have ⟨us, t, hu, hn, hs⟩ := hm.exists_last_of_product hc hr
    exact endsWith_of_last (.product hc) ht hc hu hn hs
  case sum hc =>
    have ⟨us, t, hu, hn, hs⟩ := hm.exists_last_of_sum hc hr
    exact endsWith_of_last (.sum hc) ht hc hu hn hs
  case trailing => exact ha
  case completed hf => exact ⟨_, hf, ha⟩

theorem readsAhead (h : m.Stops out) (ht : m.place.lookahead.Tracks text) (hm : m.Has m.used) :
    out.evaluation.ReadsAhead text := by
  have ⟨rest, hi⟩ := ht.exists_items
  rw [← h.scanned_eq ht] at hi
  constructor
  case scanned => exact ⟨rest, hi.symm⟩
  case ordered => exact (List.pairwise_append.mp (hi ▸ items_ordered text)).1
  case finish =>
    intro front t back hs hf
    rw [hs, List.append_assoc, List.cons_append] at hi
    have ⟨hb, hp⟩ := items_finish hi hf
    exact ⟨(List.append_eq_nil_iff.mp hb).1, hp⟩
  case consumed => exact ⟨_, (h.atHand ht).symm⟩
  case oneAhead =>
    rw [h.log_eq ht]
    exact ht.running.oneAhead.remark fun _ => Event.idle_of_remark
  case endsWith => exact h.endsWith ht hm

end Moment.Stops

theorem readsAhead_of_scan {stop : Cursor} (h : (Cursor.ofText text).scan = (.error f, stop)) :
    Evaluation.ReadsAhead ⟨.error f, (Event.remark? (.error f)).toList⟩ text := by
  have ht : (Cursor.ofText text).stream.tokens = [] := by rw [Cursor.stream_of_error h]
  have he : (Cursor.ofText text).stream.ending = .error f := by rw [Cursor.stream_of_error h]
  have htok : tokenize text = .error f := Machine.map_eq_error_iff.mpr he
  have ⟨_, _, _, _, _, hends⟩ := reads_ofText text
  rw [he] at hends
  have hr : ∀ e ∈ Event.remark? (.error f), e.Idle := fun _ => Event.idle_of_remark
  have hs := scanned_idle hr
  have hc := consumed_idle hr
  constructor
  case scanned => simp only [hs, List.nil_prefix]
  case ordered => simp only [hs, List.Pairwise.nil]
  case finish => simp [hs]
  case consumed => simp only [hc, List.nil_prefix]
  case oneAhead => exact OneAhead.nil.remark hr
  case endsWith =>
    cases hends
    case stray => exact .inl ⟨ht, hs⟩
    case numeral => exact .inl ⟨htok, .inl ⟨ht, hs⟩⟩

-- The rules keep one token ahead of what they use up, in every reading of every text, and stop as
-- soon as they can go no further.
theorem trace_readsAhead (text : String) : (trace text).ReadsAhead text := by
  rcases exists_stop text with ⟨f, stop, hc, h⟩ | ⟨l, m, out, hl, hm, hs, h⟩ <;> rw [h]
  case inl => exact readsAhead_of_scan hc
  case inr =>
    have ht := hm.tracks (Moment.start_tracks (.of_ofCursor hl))
    exact hs.readsAhead ht (hm.has hl)

-- The division fails with the `+` at hand and does not come to the `$`, which the second reading
-- meets behind a `+`.
theorem trace_endsWith_plus :
    Log.BehindNumeral "7 / 0 + $" (trace "7 / 0 + $").log ⟨4, 5⟩ ∧
      Log.BeforeOffset "1 + $" (trace "1 + $").log 4 := by
  have h₁ := (trace_readsAhead "7 / 0 + $").endsWith
  have h₂ := (trace_readsAhead "1 + $").endsWith
  rw [show (trace "7 / 0 + $").outcome = .error (.divisionByZero ⟨4, 5⟩) by decide +kernel] at h₁
  rw [show (trace "1 + $").outcome = .error (.invalidCharacter '$' 4) by decide +kernel] at h₂
  exact ⟨h₁, h₂⟩

end

end Calculator
