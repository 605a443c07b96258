import Calculator.Proofs.Descent
import Calculator.Proofs.Midway

namespace Calculator

open Text (isBlank size)

structure Span.On (text : String) (s : Span) : Prop where
  start_le : s.start ≤ s.stop
  stop_le  : s.stop ≤ text.utf8ByteSize
  slice    : ∃ inside, s.slice? text = some inside

structure Token.On (text : String) (t : Token) : Prop where
  span     : t.span.On text
  number   : ∀ n, t.symbol = .number n → 0 ≤ n.toInt ∧ n.toInt ≤ Int64.maxValue.toInt
  negation : ∀ n, t.symbol = .number n → (-n).toInt = -n.toInt

def ItemOn (text : String) : Except Fault Token → Prop
  | .ok t => t.On text
  | .error f => f.span.On text

structure Cursor.CutsWell (text : String) (c : Cursor) : Prop where
  blanks : c.Within text
  token  : c.skipBlanks.Within text
  digits : ∃ back, Text.split? (size c.skipBlanks.digits) c.skipBlanks.rest =
    some (c.skipBlanks.digits, back)

-- What the rules rely on at a moment: the text can be cut for the next token, the token at hand is a
-- part of it, and there are no more minus signs to count than bytes.
structure Moment.Safe (text : String) (m : Moment) : Prop where
  cursor  : m.place.lookahead.cursor.CutsWell text
  current : m.place.lookahead.current.On text
  minuses : ∀ start n l, m.place = .signs start n l → n ≤ text.utf8ByteSize

structure Reader.Safe (text : String) (r : Reader) : Prop where
  cursor  : r.cursor.CutsWell text
  read    : ItemOn text r.read.1
  next    : ∀ item, r.next?.1 = some item → ItemOn text item
  moments : ∀ l m, Lookahead.ofCursor r.cursor = .ok l → (Moment.start l).Reaches m → m.Safe text
  -- The signs that a moment has counted are those that `Lookahead.signed` has counted there.
  agrees  : ∀ l m, Lookahead.ofCursor r.cursor = .ok l → (Moment.start l).Reaches m →
    m.outcome = l.parse
  parse   : ∀ l, Lookahead.ofCursor r.cursor = .ok l →
    ∃ last, (Moment.start l).Reaches last ∧ last.step = .stop l.parse
  outcome : ∀ f, r.cursor.evaluation.outcome = .error f → f.span.On text

inductive Divides (left right : Operand) : Except Fault Operand → Prop where
  | zero :
    right.value = 0 → Divides left right (.error (.divisionByZero right.span))
  | overflow :
    left.value = Int64.minValue → right.value = -1 →
    Divides left right (.error (.overflow (left.span.hull right.span)))
  | quotient {v : Operand} :
    right.value ≠ 0 → ¬(left.value = Int64.minValue ∧ right.value = -1) →
    v.value.toInt = left.value.toInt.tdiv right.value.toInt →
    v.span = left.span.hull right.span → Divides left right (.ok v)

structure Safe (text : String) : Prop where
  readers  : ∀ moves, ((Session.ofText text).after moves).reader.Safe text
  tokens   : ∀ ts, tokenize text = .ok ts → ∀ t ∈ ts, t.On text
  unread   : ∀ f, tokenize text = .error f → f.span.On text
  fault    : ∀ f, evaluate text = .error f → f.span.On text
  division : ∀ left right, Divides left right (Operator.divide.apply left right)
  exact    : ∀ (op : Operator) left right v, op.apply left right = .ok v →
    v.value.toInt = op.exact left.value.toInt right.value.toInt

variable {text : String} {front body back : List Char} {s : Span} {t : Token} {f : Fault}
variable {c next : Cursor} {l : Lookahead} {m m' : Moment} {n : Nat}

theorem Span.On.of_slice {inside : String} (h : s.slice? text = some inside) : s.On text := by
  have ⟨front, back, ht, hs, he⟩ := Span.slice?_eq_some_iff.mp h
  have hn : text.utf8ByteSize = size front + size inside.toList + size back := by
    rw [← Text.size_toList, ht, Text.size_append, Text.size_append]
  exact ⟨by omega, by omega, inside, h⟩

theorem Span.On.of_append (h : text.toList = front ++ body ++ back) :
    Span.On text ⟨size front, size front + size body⟩ :=
  .of_slice (slice?_append h)

theorem Span.On.finish (text : String) : Span.On text ⟨text.utf8ByteSize, text.utf8ByteSize⟩ := by
  have ht : text.toList = text.toList ++ [] ++ [] := by simp
  simpa using Span.On.of_append ht

-- A part of the rest of a text is a part of the text.
theorem Span.On.shift (hc : c.Within text) (h : s.On (.ofList c.rest)) :
    (s.shift c.position).On text := by
  have ⟨front, ht, hp⟩ := Cursor.within_iff.mp hc
  have ⟨inside, hi⟩ := h.slice
  have ⟨pre, post, hr, hs, he⟩ := Span.slice?_eq_some_iff.mp hi
  rw [String.toList_ofList] at hr
  have hs' : (s.shift c.position).slice? text = some inside := by
    refine Span.slice?_eq_some_iff.mpr ⟨front ++ pre, post, by simp [ht, hr], ?_, ?_⟩
    · simp [Span.shift, hp, hs, Nat.add_comm]
    · simp only [Span.shift]
      omega
  exact .of_slice hs'

theorem Word.toInt_neg_of_read? {digits : List Char} {w : Word}
    (h : Numeral.read? digits = some w) : 0 ≤ w.toInt ∧ (-w).toInt = -w.toInt := by
  have hw : 0 ≤ w.toInt := by
    have := Numeral.toInt_of_read? h
    omega
  exact ⟨hw, toInt_neg hw⟩

theorem Token.On.of_spelled (h : text.toList = front ++ body ++ back) (hb : t.symbol.Spelled body)
    (hs : t.span = ⟨size front, size front + size body⟩) : t.On text := by
  have hw : ∀ n, t.symbol = .number n → Numeral.read? body = some n := fun n hn =>
    (Symbol.Spelled.number_iff.mp (hn ▸ hb)).2.2
  constructor
  case span => exact hs ▸ .of_append h
  case number => exact fun n hn => ⟨(Word.toInt_neg_of_read? (hw n hn)).1, n.fits_toInt.2⟩
  case negation => exact fun n hn => (Word.toInt_neg_of_read? (hw n hn)).2

theorem Token.On.of_finish (hs : t.symbol = .finish) (h : text.toList = front ++ body ++ back)
    (ht : t.span = ⟨size front, size front + size body⟩) : t.On text where
  span := ht ▸ .of_append h
  number := by simp [hs]
  negation := by simp [hs]

namespace Cursor.Within

theorem cutsWell (h : c.Within text) : c.CutsWell text where
  blanks := h
  token := h.skipBlanks
  digits := ⟨_, Text.split?_eq_some_iff.mpr ⟨List.takeWhile_append_dropWhile.symm, rfl⟩⟩

theorem token_on (h : c.Within text) (hs : c.scan = (.ok t, next)) : t.On text := by
  have ⟨front, ht, hp⟩ := within_iff.mp h
  have ⟨blanks, body, hr, _, hspan, _, hsym⟩ := scan_eq_ok hs
  have ht : text.toList = front ++ blanks ++ body ++ next.rest := by simp [ht, hr]
  rw [← hp, ← Text.size_append] at hspan
  cases hsym
  case inl hf => exact .of_finish hf.1 ht hspan
  case inr hb => exact .of_spelled ht hb.1 hspan

theorem fault_on (h : c.Within text) (he : Ends c (.error f)) : f.span.On text := by
  have ⟨front, ht, hp⟩ := within_iff.mp h
  cases he
  case stray p ch rest _ _ _ =>
    have ht : text.toList = front ++ [ch] ++ rest := by simp [ht]
    have hs : (Fault.invalidCharacter ch p).span = ⟨size front, size front + size [ch]⟩ := by
      simp [Fault.span, hp]
    exact hs ▸ .of_append ht
  case numeral p digits rest _ _ _ _ =>
    have ht : text.toList = front ++ digits ++ rest := by simp [ht]
    have hs : (Fault.overflow ⟨p, p + size digits⟩).span = ⟨size front, size front + size digits⟩ := by
      simp [Fault.span, hp]
    exact hs ▸ .of_append ht

theorem itemOn (h : c.Within text) : ItemOn text c.scan.1 := by
  match hs : c.scan with
  | (.ok t, next) => exact h.token_on hs
  | (.error f, stop) =>
    have he := c.ends_stop
    rw [stream_of_error hs] at he
    have hw := h.scan
    rw [hs] at hw
    exact hw.fault_on he

end Cursor.Within

theorem Reader.itemOn_of_next? {r : Reader} {item : Except Fault Token}
    (h : r.cursor.Within text) (hi : r.next?.1 = some item) : ItemOn text item := by
  have hs := h.itemOn
  unfold next? at hi
  split at hi
  case isTrue => cases hi
  case isFalse =>
    generalize r.cursor.scan = x at hs hi
    match x with
    | (.error f, _) => cases hi; exact hs
    | (.ok t, _) =>
      cases ht : t.isFinish <;> simp only [ht] at hi <;> cases hi
      exact hs

structure Lookahead.Within (text : String) (l : Lookahead) : Prop where
  cursor   : l.cursor.Within text
  current  : l.current.On text
  ordered  : l.Ordered
  start_lt : l.current.symbol ≠ .finish → l.current.span.start < l.current.span.stop

namespace Lookahead.Within

theorem of_scan (h : c.Within text) (hs : c.scan = (.ok l.current, l.cursor)) : l.Within text where
  cursor := by simpa [hs] using h.scan
  current := h.token_on hs
  ordered := (ordered_of_scan hs).1
  start_lt hf := by
    have ⟨_, _, _, _, hspan, _, hsym⟩ := Cursor.scan_eq_ok hs
    have := (hsym.resolve_left fun h => hf h.1).1.size_pos
    simp only [hspan]
    omega

theorem note (h : l.Within text) (e : Event) : (l.note e).Within text where
  cursor := h.cursor
  current := h.current
  ordered := h.ordered.note e
  start_lt := h.start_lt

theorem consume {wanted : Category} {l' : Lookahead} (h : l.Within text)
    (hc : l.consume wanted = .ok t l') :
    l'.Within text ∧ l.current.span.stop ≤ l'.current.span.start :=
  ⟨.of_scan h.cursor (consume_eq_ok hc).2.2.1, (ordered_of_consume h.ordered hc).2⟩

theorem start_le (h : l.Within text) : l.current.span.start ≤ text.utf8ByteSize :=
  Nat.le_trans h.current.span.start_le h.current.span.stop_le

end Lookahead.Within

structure Moment.Within (text : String) (m : Moment) : Prop where
  lookahead : m.place.lookahead.Within text
  minuses   : ∀ start n l, m.place = .signs start n l → n ≤ l.current.span.start

namespace Moment.Within

theorem beginFactor {sum product : Option (Operand × Operator)} (h : l.Within text) :
    Within text ⟨sum, product, .beginFactor l⟩ where
  lookahead := h.note _
  minuses := by
    intro _ _ _ he
    cases he
    exact Nat.zero_le _

theorem beginTerm {sum product : Option (Operand × Operator)} (h : l.Within text) :
    Within text ⟨sum, product, .beginTerm l⟩ :=
  beginFactor (h.note _)

theorem step (h : m.Within text) (ht : m.Transition m') : m'.Within text := by
  have hl := h.lookahead
  cases ht
  case plus start n _ l next _ hc =>
    have ⟨hw, hn⟩ := hl.consume hc
    refine ⟨hw, fun _ _ _ he => ?_⟩
    cases he
    have := h.minuses start n l rfl
    have := hl.ordered.start_le
    simp only [Place.lookahead] at *
    omega
  case minus start n _ l next hs hc =>
    have ⟨hw, hn⟩ := hl.consume hc
    refine ⟨hw, fun _ _ _ he => ?_⟩
    cases he
    have := h.minuses start n l rfl
    -- The sign takes up the byte that the count grows by.
    have := hl.start_lt (by simp [Place.lookahead, hs])
    simp only [Place.lookahead] at *
    omega
  case number hc => exact ⟨(hl.consume hc).1, by simp⟩
  case product => exact ⟨hl, by simp⟩
  case term => exact ⟨hl, by simp⟩
  case times hc => exact .beginFactor (hl.consume hc).1
  case sum => exact ⟨hl, by simp⟩
  case expression => exact ⟨hl, by simp⟩
  case adds hc => exact .beginTerm (hl.consume hc).1

theorem reaches (h : m.Within text) (hr : m.Reaches m') : m'.Within text :=
  hr.keeps (fun ht hm => hm.step ht) h

theorem safe (h : m.Within text) : m.Safe text where
  cursor := h.lookahead.cursor.cutsWell
  current := h.lookahead.current
  minuses start n l hp := by
    have hl : l.Within text := by simpa [hp, Place.lookahead] using h.lookahead
    exact Nat.le_trans (h.minuses start n l hp) hl.start_le

end Moment.Within

theorem token_on_of_tokenize {ts : List Token} (h : tokenize text = .ok ts) (ht : t ∈ ts) :
    t.On text := by
  have ⟨front, body, back, us, ws, hb, hc⟩ := (tokenize_eq_ok_iff.mp h).cut_of_mem ht
  exact .of_spelled hb hc.spelled (by simp [hc.span_eq])

theorem fault_on_of_tokenize (h : tokenize text = .error f) : f.span.On text := by
  have ⟨front, back, ts, ht, _, _, he⟩ := tokenize_eq_error_iff.mp h
  exact (Cursor.within_iff.mpr ⟨front, ht, rfl⟩).fault_on he

theorem fault_on_of_evaluate (h : evaluate text = .error f) : f.span.On text := by
  cases f
  case invalidCharacter => exact fault_on_of_tokenize (tokenize_of_invalidCharacter h)
  case unexpectedToken =>
    rcases (unexpectedAt_of_evaluate h).token with ⟨_, hs⟩ | ⟨_, hs⟩ | rfl
    · exact .of_slice hs
    · exact .of_slice hs
    · exact .finish text
  case trailingInput =>
    have ⟨_, _, _, hs, _⟩ := (trailingAt_of_evaluate h).token
    exact .of_slice hs
  case divisionByZero =>
    have ⟨_, _, _, hs, _⟩ := zeroDivisor_of_evaluate h
    exact .of_slice hs
  case overflow =>
    have ⟨_, hs, _⟩ := overflowing_of_evaluate h
    exact .of_slice hs

theorem Cursor.Within.outcome_on (h : c.Within text) (he : c.evaluation.outcome = .error f) :
    f.span.On text := by
  rw [c.evaluation_midway] at he
  cases hr : evaluate (.ofList c.rest)
  case ok => simp [hr, Except.mapError] at he
  case error g =>
    simp only [hr, Except.mapError, Except.error.injEq] at he
    rw [← he, Fault.span_shift]
    exact (fault_on_of_evaluate hr).shift h

theorem Word.fits_tdiv_iff {a b : Word} (hb : b ≠ 0) :
    Fits (a.toInt.tdiv b.toInt) ↔ ¬(a = Int64.minValue ∧ b = -1) := by
  constructor
  case mp =>
    rintro hf ⟨rfl, rfl⟩
    exact absurd hf (by decide)
  case mpr =>
    intro h
    have hb' : b.toInt ≠ 0 := by rwa [Ne, ← Int64.toInt_inj] at hb
    have h' : ¬(a.toInt = -9223372036854775808 ∧ b.toInt = -1) := by
      rwa [← Int64.toInt_inj, ← Int64.toInt_inj] at h
    have ha := fits_iff.mp a.fits_toInt
    rw [fits_iff]
    rcases (by omega : b.toInt = 1 ∨ b.toInt = -1 ∨ 2 ≤ b.toInt.natAbs) with h₁ | h₁ | h₂
    case inl => simpa [h₁] using ha
    case inr.inl =>
      simp only [h₁, Int.tdiv_neg, Int.tdiv_one, and_true] at *
      omega
    case inr.inr =>
      -- The quotient is at most half as long.
      have hd : (a.toInt.tdiv b.toInt).natAbs = a.toInt.natAbs / b.toInt.natAbs :=
        Int.natAbs_tdiv ..
      have : a.toInt.natAbs / b.toInt.natAbs ≤ a.toInt.natAbs / 2 :=
        Nat.div_le_div_left h₂ (by decide)
      omega

theorem divides_apply (left right : Operand) :
    Divides left right (Operator.divide.apply left right) := by
  unfold Operator.apply
  by_cases hz : right.value = 0
  case pos =>
    rw [if_pos ⟨rfl, hz⟩]
    exact .zero hz
  case neg =>
    rw [if_neg fun h => hz h.2]
    have hf := Word.fits_tdiv_iff (a := left.value) hz
    cases hv : Word.ofInt? (Operator.divide.exact left.value.toInt right.value.toInt)
    case none =>
      have ⟨hl, hr⟩ := not_not.mp (mt hf.mpr (Word.ofInt?_eq_none_iff.mp hv))
      exact .overflow hl hr
    case some w =>
      have hw := Word.ofInt?_eq_some_iff.mp hv
      have hn := hf.mp (by simpa [hw, Operator.exact] using w.fits_toInt)
      exact .quotient hz hn hw rfl

theorem Reader.safe_of_within {r : Reader} (h : r.cursor.Within text) : r.Safe text where
  cursor := h.cutsWell
  read := h.itemOn
  next _ hi := itemOn_of_next? h hi
  moments l _ hl hr :=
    have hw : l.Within text := .of_scan h (Lookahead.scan_of_ofCursor hl)
    ((Moment.Within.beginTerm (hw.note _)).reaches hr).safe
  agrees l _ _ hr := hr.outcome_eq.trans (Moment.outcome_start l)
  parse l _ := Moment.reaches_parse l
  outcome _ he := h.outcome_on he

-- Nothing goes wrong unseen, whatever is done with a text: it is only cut between two of its
-- characters, no number wraps round, and every token and every fault lies on the text.
theorem safe_text (text : String) : Safe text where
  readers moves := Reader.safe_of_within (within_after text moves)
  tokens _ h _ ht := token_on_of_tokenize h ht
  unread _ h := fault_on_of_tokenize h
  fault _ h := fault_on_of_evaluate h
  division := divides_apply
  exact _ _ _ _ h := (Operator.apply_eq_ok_iff.mp h).2.2

theorem safe_text_division_sign :
    Span.On "2 ÷ 1" ⟨2, 4⟩ ∧ Span.On "(é" ⟨0, 1⟩ ∧ Span.On "8/é" ⟨2, 4⟩ :=
  ⟨(safe_text "2 ÷ 1").fault (.invalidCharacter '÷' 2) (by decide +kernel),
    (safe_text "(é").unread (.invalidCharacter '(' 0) (by decide +kernel),
    (safe_text "8/é").fault (.invalidCharacter 'é' 2) (by decide +kernel)⟩

end Calculator
