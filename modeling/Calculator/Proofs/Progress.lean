import Calculator.Proofs.OwnText

namespace Calculator

open Lookahead (Reachable)

structure Request.Advances (text : String) (r : Request) : Prop where
  reachable : r.lookahead.Reachable text
  token     : r.token.symbol ≠ .finish
  category  : r.token.symbol.category = r.wanted
  start_lt  : r.token.span.start < r.token.span.stop
  stop_le   : ∀ t next, r.answer = .ok t next → r.token.span.stop ≤ next.current.span.start

namespace Moment

-- All that is asked for from here on, up to the end of the parse.
def requests (m : Moment) : List Request :=
  match _h : m.step with
  | .go next => m.request?.toList ++ next.requests
  | .stop _ => m.request?.toList
termination_by m.weight
decreasing_by exact (Leads.transition _h).weight_lt

variable {text : String} {m m' last : Moment} {r : Request} {out : Lookahead.Outcome Operand}
variable {us : List Token} {l : Lookahead}

theorem requests_of_leads (h : m.Leads m') : m.requests = m.request?.toList ++ m'.requests := by
  rw [requests]
  split <;> simp_all [Leads]

theorem requests_of_stop (h : m.step = .stop out) : m.requests = m.request?.toList := by
  rw [requests]
  split <;> simp_all

-- What a moment does with its lookahead. A token is asked for after a look at it. Where no token is
-- asked for, the lookahead stays as it is, or a note is made of the end.
inductive Action.At (l : Lookahead) : Action → Prop where
  | ask {wanted : Category} {go : Token → Lookahead → Moment} :
    l.current.symbol.category = wanted → wanted ≠ .finish → At l (.ask ⟨wanted, l⟩ go)
  | go {m : Moment} : m.place.lookahead = l → At l (.idle (.go m))
  | stop {out : Lookahead.Outcome Operand} :
    out.left.unlogged = l.unlogged → At l (.idle (.stop out))

theorem Action.at_close {waiting : Option (Operand × Operator)} {v : Operand}
    {go : Operand → Lookahead → Moment} (hg : ∀ v, (go v l).place.lookahead = l) :
    Action.At l (.idle (.ofOutcome (close waiting v l) go)) := by
  cases hc : close waiting v l
  case error =>
    obtain rfl := close_eq_error hc
    exact .stop rfl
  case ok =>
    obtain rfl := close_eq_ok hc
    exact .go (hg _)

theorem action_at (m : Moment) : m.action.At m.place.lookahead := by
  obtain ⟨sum, product, place⟩ := m
  unfold action
  cases place
  case signs start n l =>
    dsimp only
    split
    case h_1 hs => exact .ask (congrArg Symbol.category hs) (by simp)
    case h_2 hs => exact .ask (congrArg Symbol.category hs) (by simp)
    case h_3 hs => exact .ask (congrArg Symbol.category hs) (by simp)
    case h_4 => exact .stop rfl
  case factor => exact Action.at_close fun _ => rfl
  case products left l =>
    dsimp only
    split
    case h_1 => exact .go rfl
    case h_2 op ho => exact .ask (Operator.category_of_operator? ho) op.category_ne_finish
  case term => exact Action.at_close fun _ => rfl
  case sums left l =>
    dsimp only
    split
    case h_1 => exact .go rfl
    case h_2 op ho => exact .ask (Operator.category_of_operator? ho) op.category_ne_finish
  case expression v l =>
    simp only [conclude]
    split
    case isTrue => exact .stop rfl
    case isFalse => exact .stop rfl

theorem action_of_request (h : m.request? = some r) : ∃ go, m.action = .ask r go := by
  unfold request? at h
  generalize m.action = a at h ⊢
  cases a <;> cases h
  exact ⟨_, rfl⟩

theorem action_of_idle (h : m.request? = none) : m.action = .idle m.step := by
  unfold request? at h
  unfold step
  generalize m.action = a at h ⊢
  cases a <;> cases h
  rfl

theorem step_of_request (h : m.request? = some r) : ∃ go, m.step = .ofOutcome r.answer go := by
  have ⟨go, ha⟩ := action_of_request h
  exact ⟨go, by rw [step, ha]; rfl⟩

theorem token_of_request (h : m.request? = some r) :
    r.lookahead = m.place.lookahead ∧ r.token.symbol.category = r.wanted ∧ r.wanted ≠ .finish := by
  have ⟨go, ha⟩ := action_of_request h
  have hl := m.action_at
  rw [ha] at hl
  cases hl
  case ask hc hw => exact ⟨rfl, hc, hw⟩

theorem Leads.lookahead_eq (h : m.Leads m') (hr : m.request? = none) :
    m'.place.lookahead = m.place.lookahead := by
  have hl := m.action_at
  rw [action_of_idle hr, h] at hl
  cases hl
  case go he => exact he

theorem left_of_stop (h : m.step = .stop out) (hr : m.request? = none) :
    out.left.unlogged = m.place.lookahead.unlogged := by
  have hl := m.action_at
  rw [action_of_idle hr, h] at hl
  cases hl
  case stop he => exact he

theorem Leads.uses (h : m.Leads m') :
    m.place.lookahead.Uses (m.request?.toList.map (·.token)) m'.place.lookahead := by
  cases h.transition
  case plus hs hc =>
    simp only [request?, action, hs]
    exact .of_consume hc (by simp)
  case minus hs hc =>
    simp only [request?, action, hs]
    exact .of_consume hc (by simp)
  case number hs hc =>
    simp only [request?, action, hs]
    exact .of_consume hc (by simp)
  case times op _ _ _ ho hc =>
    simp only [request?, action, ho]
    exact (Lookahead.Uses.of_consume hc op.category_ne_finish).enter .factor
  case adds op _ _ _ ho hc =>
    simp only [request?, action, ho]
    exact ((Lookahead.Uses.of_consume hc op.category_ne_finish).enter .term).enter .factor
  case term ho =>
    simp only [request?, action, ho]
    exact .refl
  case expression ho =>
    simp only [request?, action, ho]
    exact .refl
  all_goals exact .refl

-- A run uses up the tokens that are asked for on the way. At its end there may be a request that has
-- no answer.
theorem Reaches.uses_requests (h : m.Reaches last) (hs : last.step = .stop out) :
    ∃ us, m.place.lookahead.Uses us last.place.lookahead ∧
      m.requests.map (·.token) = us ++ last.request?.toList.map (·.token) := by
  induction h using Relation.ReflTransGen.head_induction_on
  case refl => exact ⟨[], .refl, by rw [requests_of_stop hs, List.nil_append]⟩
  case head hl _ ih =>
    have ⟨us, hu, hr⟩ := ih
    refine ⟨_, hl.uses.trans hu, ?_⟩
    rw [requests_of_leads hl, List.map_append, hr, List.append_assoc]

theorem reaches_of_mem (h : r ∈ m.requests) : ∃ m', m.Reaches m' ∧ m'.request? = some r := by
  fun_induction requests m
  case case1 m next hl ih =>
    rcases List.mem_append.mp h with h | h
    · exact ⟨m, .refl, by simpa using h⟩
    · obtain ⟨m', hm, hr⟩ := ih h
      exact ⟨m', .head hl hm, hr⟩
  case case2 m _ _ => exact ⟨m, .refl, by simpa using h⟩

theorem advances_of_request (h : m.request? = some r) (hm : m.place.lookahead.Reachable text) :
    r.Advances text := by
  have ⟨hl, hc, hw⟩ := token_of_request h
  have hr : r.lookahead.Reachable text := hl ▸ hm
  have hf : r.token.symbol ≠ .finish := by
    intro hf
    rw [hf] at hc
    exact hw hc.symm
  exact ⟨hr, hf, hc, hr.within.start_lt hf, fun _ _ ha => (hr.within.consume ha).2⟩

theorem token_isPrefix (h : last.request? = some r) :
    [r.token] <+: last.place.lookahead.stream.tokens := by
  have ⟨hl, hc, hw⟩ := token_of_request h
  rw [← hl, Lookahead.stream_of_category hc hw]
  exact List.prefix_append [_] _

theorem requests_isPrefix (m : Moment) :
    m.requests.map (·.token) <+: m.place.lookahead.stream.tokens := by
  have ⟨last, hm, hs⟩ := m.reaches_stop
  have ⟨us, hu, hr⟩ := hm.uses_requests hs
  rw [hr, hu.tokens, List.prefix_append_right_inj]
  cases h : last.request?
  case none => exact List.nil_prefix
  case some r => exact token_isPrefix h

end Moment

structure Lookahead.Progresses (text : String) (l : Lookahead) : Prop where
  -- A request is what a step begins with, and only with an answer the step goes on.
  steps    : ∀ r ∈ (Moment.start l).requests, ∃ m go,
    (Moment.start l).Reaches m ∧ m.step = .ofOutcome r.answer go
  idle     : ∀ m m', (Moment.start l).Reaches m → m.request? = none → m.Leads m' →
    m'.place.lookahead = m.place.lookahead
  settled  : ∀ m out, (Moment.start l).Reaches m → m.request? = none → m.step = .stop out →
    out.left.unlogged = m.place.lookahead.unlogged
  advances : ∀ r ∈ (Moment.start l).requests, r.Advances text
  tokens   : (Moment.start l).requests.map (·.token) <+: l.stream.tokens
  -- All that is asked for is used up, but for the last token if the one behind it cannot be read.
  consumed : Log.consumed l.evaluation.log <+: (Moment.start l).requests.map (·.token)
  answered : (Moment.start l).requests.length ≤ (Log.consumed l.evaluation.log).length + 1
  ends     : ∃ last, (Moment.start l).Reaches last ∧ last.step = .stop l.parse

theorem Lookahead.Reachable.progresses {text : String} {c : Cursor} {l : Lookahead}
    (h : l.Reachable text) (hc : Lookahead.ofCursor c = .ok l) : l.Progresses text := by
  obtain ⟨last, hm, hs⟩ := Moment.reaches_parse l
  obtain ⟨us, hu, hr⟩ := hm.uses_requests hs
  -- The log has the tokens that the steps have used up, and the last moment uses up none.
  have hlog : Log.consumed l.evaluation.log = us := by
    have hl := Lookahead.log_of_ofCursor hc
    rw [l.evaluation_eq, (Moment.stops_of_step hs).consumed_eq, hu.consumed]
    simp [Moment.start, Place.lookahead, Place.beginTerm, Place.beginFactor, hl, Event.consumed?]
  constructor
  case steps =>
    intro r hr
    obtain ⟨m, hm, hr⟩ := Moment.reaches_of_mem hr
    obtain ⟨go, hs⟩ := Moment.step_of_request hr
    exact ⟨m, go, hm, hs⟩
  case advances =>
    intro r hr
    obtain ⟨m, hm, hr⟩ := Moment.reaches_of_mem hr
    exact Moment.advances_of_request hr (hm.reachable h.note.note.note)
  case idle => exact fun m m' _ hr hl => hl.lookahead_eq hr
  case settled => exact fun m out _ hr hs => Moment.left_of_stop hs hr
  case tokens => exact (Moment.start l).requests_isPrefix
  case consumed => exact ⟨_, by rw [hlog, hr]⟩
  case answered =>
    have hn := congrArg List.length hr
    rw [List.length_map, List.length_append, List.length_map] at hn
    rw [hn, hlog]
    cases last.request? <;> simp
  case ends => exact ⟨last, hm, hs⟩

-- Wherever a parse begins, it asks for tokens that are there, one behind the other, and comes to an
-- end before they run out.
theorem parse_progresses (text : String) :
    (∀ l : Lookahead, l.Reachable text →
        l.cursor.position = l.current.span.stop ∧ l.cursor.position ≤ text.utf8ByteSize) ∧
      (∀ (moves : List Move) (l : Lookahead),
        let c := ((Session.ofText text).after moves).reader.cursor
        Lookahead.ofCursor c = .ok l →
          l.Progresses text ∧ (Moment.start l).requests.length ≤ c.stream.tokens.length) ∧
      WellFounded fun m' m : Moment => m.Leads m' := by
  refine ⟨fun l h => ?_, fun moves l => ?_, ?_⟩
  case refine_1 =>
    have hp := h.within.ordered.position_eq
    exact ⟨hp, hp ▸ h.within.current.span.stop_le⟩
  case refine_2 =>
    intro c hc
    have h := (Reachable.first hc).progresses hc
    refine ⟨h, ?_⟩
    rw [Lookahead.stream_of_scan (Lookahead.scan_of_ofCursor hc)]
    simpa using h.tokens.length_le
  case refine_3 =>
    exact Subrelation.wf (fun h => h.transition.weight_lt) (measure Moment.weight).wf

-- Three tokens are used up. The fourth is asked for, but behind it no token can be read.
theorem parse_progresses_before_stray :
    ∃ l : Lookahead, l.Reachable "2*-3 $" ∧ l.cursor.position = l.current.span.stop ∧
      (Log.consumed l.evaluation.log).length = 3 ∧ l.Progresses "2*-3 $" ∧
      (Moment.start l).requests.length ≤ 4 := by
  let l : Lookahead := ⟨⟨1, "*-3 $".toList⟩, ⟨.number 2, 0, 1⟩, [.scanned ⟨.number 2, 0, 1⟩]⟩
  have hl : Lookahead.ofCursor ((Session.ofText "2*-3 $").after []).reader.cursor = .ok l := by
    decide +kernel
  have hc : (Log.consumed l.evaluation.log).length = 3 := by decide +kernel
  have hs : ((Session.ofText "2*-3 $").after []).reader.cursor.stream.tokens.length = 4 := by
    decide +kernel
  have h := parse_progresses "2*-3 $"
  have ⟨hp, hn⟩ := h.2.1 [] l hl
  exact ⟨l, .first hl, (h.1 l (.first hl)).1, hc, hp, hs ▸ hn⟩

end Calculator
