import Calculator.Cursor

namespace Calculator

structure Reader where
  cursor : Cursor
  -- `next?` has handed out a fault.
  halted : Bool
deriving DecidableEq, Repr

namespace Reader

def ofText (text : String) : Reader where
  cursor := .ofText text
  halted := false

def read (r : Reader) : Except Fault Token × Reader :=
  let (item, cursor) := r.cursor.scan
  (item, { r with cursor })

-- The next token or fault, and none at the end of the text. A fault is handed out once, and
-- nothing after it.
def next? (r : Reader) : Option (Except Fault Token) × Reader :=
  if r.halted then (none, r)
  else match r.cursor.scan with
    | (.error f, cursor) => (some (.error f), ⟨cursor, true⟩)
    | (.ok t, cursor) =>
      if t.isFinish then (none, ⟨cursor, false⟩) else (some (.ok t), ⟨cursor, false⟩)

def drain (r : Reader) : List (Except Fault Token) × Reader :=
  if r.halted then ([], r)
  else
    let stream := r.cursor.stream
    match stream.ending with
    | .error f => (stream.tokens.map .ok ++ [.error f], ⟨stream.stop, true⟩)
    | .ok _ => (stream.tokens.map .ok, ⟨stream.stop, false⟩)

theorem drain_of_next?_eq_none {r last : Reader} (h : r.next? = (none, last)) :
    r.drain = ([], last) := by
  unfold next? at h
  split at h
  case isTrue hh =>
    cases h
    simp [drain, hh]
  case isFalse hh =>
    split at h
    case h_1 => cases h
    case h_2 t cursor hs =>
      split at h
      case isTrue ht =>
        cases h
        simp [drain, hh, Cursor.stream_of_finish hs ht]
      case isFalse => cases h

theorem drain_of_next?_eq_some {r next : Reader} {item : Except Fault Token}
    (h : r.next? = (some item, next)) : r.drain = (item :: next.drain.1, next.drain.2) := by
  unfold next? at h
  split at h
  case isTrue => cases h
  case isFalse hh =>
    split at h
    case h_1 f cursor hs =>
      cases h
      simp [drain, hh, Cursor.stream_of_error hs]
    case h_2 t cursor hs =>
      split at h
      case isTrue => cases h
      case isFalse ht =>
        cases h
        simp only [drain, hh, Cursor.stream_of_token hs ht, Bool.false_eq_true, if_false]
        split <;> simp

-- Calls of `next?`, one after another, up to the first that hands out nothing.
inductive HandsOut : Reader → List (Except Fault Token) → Reader → Prop where
  | done {r last : Reader} : r.next? = (none, last) → HandsOut r [] last
  | item {r next last : Reader} {item : Except Fault Token} {items : List (Except Fault Token)} :
    r.next? = (some item, next) → HandsOut next items last → HandsOut r (item :: items) last

variable {r last : Reader} {items : List (Except Fault Token)}

theorem HandsOut.drain_eq (h : r.HandsOut items last) : r.drain = (items, last) := by
  induction h
  case done hn => exact drain_of_next?_eq_none hn
  case item hn _ ih => rw [drain_of_next?_eq_some hn, ih]

theorem handsOut_of_drain (h : r.drain = (items, last)) : r.HandsOut items last := by
  induction items generalizing r
  case nil =>
    obtain ⟨_ | item, next, hn⟩ : ∃ handed next, r.next? = (handed, next) := ⟨_, _, rfl⟩
    case none =>
      rw [drain_of_next?_eq_none hn] at h
      cases h
      exact .done hn
    case some =>
      rw [drain_of_next?_eq_some hn] at h
      cases h
  case cons ih =>
    obtain ⟨_ | item, next, hn⟩ : ∃ handed next, r.next? = (handed, next) := ⟨_, _, rfl⟩
    case none =>
      rw [drain_of_next?_eq_none hn] at h
      cases h
    case some =>
      rw [drain_of_next?_eq_some hn] at h
      cases h
      exact .item hn (ih rfl)

theorem handsOut_drain (r : Reader) : r.HandsOut r.drain.1 r.drain.2 :=
  handsOut_of_drain rfl

theorem HandsOut.items_eq {text : String} (h : (ofText text).HandsOut items last) :
    items = (Cursor.ofText text).stream.tokens.map Except.ok ++
      match (Cursor.ofText text).stream.ending with
      | .error f => [.error f]
      | .ok _ => [] := by
  have hd := h.drain_eq
  simp only [drain, ofText, Bool.false_eq_true, if_false] at hd
  cases he : (Cursor.ofText text).stream.ending <;> rw [he] at hd <;> cases hd
  case error => rfl
  case ok => rw [List.append_nil]

theorem mapM_tokens (ts : List Token) (items : List (Except Fault Token)) :
    (ts.map Except.ok ++ items).mapM id = (items.mapM id).map (ts ++ ·) := by
  induction ts
  case nil =>
    rw [List.map_nil, List.nil_append]
    cases items.mapM id <;> rfl
  case cons t ts ih =>
    rw [List.map_cons, List.cons_append, List.mapM_cons, ih]
    cases items.mapM id <;> rfl

theorem tokenize_of_handsOut {text : String} (h : (ofText text).HandsOut items last) :
    tokenize text = items.mapM id := by
  rw [tokenize, h.items_eq, mapM_tokens]
  cases (Cursor.ofText text).stream.ending
  case error => rfl
  case ok => simp [Except.map, pure, Except.pure]

end Reader
end Calculator
