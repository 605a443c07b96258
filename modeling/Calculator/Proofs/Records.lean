import Calculator.Proofs.Operands
import Calculator.Reader

namespace Calculator

def endsInNumeral (ts : List Token) : Bool :=
  ts.getLast?.any (·.symbol.category = .number)

-- How many operators of this strength are between two operands. They come right behind a numeral,
-- and signs do not.
def binaries (strength : Precedence) : List Token → Nat
  | t :: u :: ts =>
    binaries strength (u :: ts) +
      (t.symbol.category = .number && (strength.operator? u.symbol).isSome).toNat
  | _ => 0

def Event.enters (rule : Rule) : Event → Bool
  | entered r _ => r = rule
  | _ => false

def Event.Closes (e : Event) : Prop :=
  e.level = .debug ∨ ∃ t, e = .trailing t

namespace Log

def entries (rule : Rule) (log : List Event) : Nat :=
  log.countP (Event.enters rule)

structure Balanced (log : List Event) : Prop where
  expression : entries .expression log = 1
  term       : entries .term log = 1 + binaries .sum (consumed log)
  factor     : entries .factor log =
    1 + (binaries .sum (consumed log) + binaries .product (consumed log))

end Log

open Log

variable {text : String} {log front back : List Event} {e : Event} {t u : Token} {ts : List Token}
variable {rule : Rule} {strength : Precedence} {op : Operator} {wanted : Category} {s : Span}
variable {l next : Lookahead} {m m' : Moment} {out : Lookahead.Outcome Operand}

@[simp] theorem endsInNumeral_concat :
    endsInNumeral (ts ++ [t]) = decide (t.symbol.category = .number) := by
  simp [endsInNumeral]

theorem binaries_concat : binaries strength (ts ++ [u]) =
    binaries strength ts + (endsInNumeral ts && (strength.operator? u.symbol).isSome).toNat := by
  induction ts
  case nil => simp [binaries, endsInNumeral]
  case cons t ts ih =>
    cases ts
    case nil => simp [binaries, endsInNumeral]
    case cons t' ts =>
      simp only [List.cons_append, binaries, endsInNumeral, List.getLast?_cons_cons] at ih ⊢
      omega

theorem binaries_sign (h : endsInNumeral ts = false) :
    binaries strength (ts ++ [u]) = binaries strength ts := by
  simp [binaries_concat, h]

theorem binaries_none (ts : List Token) (h : strength.operator? u.symbol = none) :
    binaries strength (ts ++ [u]) = binaries strength ts := by
  simp [binaries_concat, h]

theorem binaries_some (hn : endsInNumeral ts) (ho : strength.operator? u.symbol = some op) :
    binaries strength (ts ++ [u]) = binaries strength ts + 1 := by
  simp [binaries_concat, hn, ho]

namespace Log

@[simp] theorem entries_append :
    entries rule (front ++ back) = entries rule front + entries rule back :=
  List.countP_append

@[simp] theorem entries_cons :
    entries rule (e :: log) = entries rule log + if e.enters rule then 1 else 0 :=
  List.countP_cons

@[simp] theorem entries_nil : entries rule [] = 0 := rfl

theorem entries_of_consume (h : l.consume wanted = .ok t next) :
    entries rule next.log = entries rule l.log := by
  simp [Lookahead.log_of_consume h, Event.enters]

namespace Balanced

-- The entries stay as they are, and so do the operators: only a sign or a numeral has come.
theorem consume (h : Balanced l.log) (hc : l.consume wanted = .ok t next)
    (hb : ∀ strength, binaries strength (consumed l.log ++ [l.current]) =
      binaries strength (consumed l.log)) : Balanced next.log := by
  have hu := Lookahead.consumed_of_consume hc
  constructor
  case expression => rw [entries_of_consume hc, h.expression]
  case term => rw [entries_of_consume hc, hu, hb, h.term]
  case factor => rw [entries_of_consume hc, hu, hb, hb, h.factor]

theorem times (h : Balanced l.log) (hc : l.consume wanted = .ok t next)
    (hn : endsInNumeral (consumed l.log))
    (ho : Precedence.product.operator? l.current.symbol = some op) :
    Balanced (next.note (.entered .factor s)).log := by
  have hu := Lookahead.consumed_of_consume hc
  have hs := binaries_none (consumed l.log) (Machine.operator?_sum_of_product ho)
  have hp := binaries_some hn ho
  constructor
  case expression => simp [Event.enters, entries_of_consume hc, h.expression]
  case term => simp [Event.enters, Event.consumed?, entries_of_consume hc, hu, hs, h.term]
  case factor =>
    simp [Event.enters, Event.consumed?, entries_of_consume hc, hu, hs, hp, h.factor]
    omega

theorem adds (h : Balanced l.log) (hc : l.consume wanted = .ok t next)
    (hn : endsInNumeral (consumed l.log))
    (ho : Precedence.sum.operator? l.current.symbol = some op) :
    Balanced ((next.note (.entered .term s)).note (.entered .factor s)).log := by
  have hu := Lookahead.consumed_of_consume hc
  have hs := binaries_some hn ho
  have hp := binaries_none (consumed l.log) (Machine.operator?_product_of_sum ho)
  constructor
  case expression => simp [Event.enters, entries_of_consume hc, h.expression]
  case term =>
    simp [Event.enters, Event.consumed?, entries_of_consume hc, hu, hs, h.term]
    omega
  case factor =>
    simp [Event.enters, Event.consumed?, entries_of_consume hc, hu, hs, hp, h.factor]
    omega

end Balanced

theorem Running.span_eq (h : Running log t) (hl : log = front ++ .entered rule s :: back) :
    (scanned front).getLast?.map (·.span) = some s := by
  induction h generalizing front back
  case first =>
    rcases front with _ | ⟨e, front⟩ <;> simp at hl
  case enter h ih =>
    rcases cons_of_concat hl with ⟨-, rfl, he⟩ | ⟨rest, -, hr⟩
    case inl =>
      cases he
      rw [h.atHand]
      simp
    case inr => exact ih hr
  case advance ih =>
    rcases cons_of_concat hl with ⟨-, -, he⟩ | ⟨rest, -, hr⟩
    case inl => cases he
    rcases cons_of_concat hr with ⟨-, -, he⟩ | ⟨rest, -, hr⟩
    · cases he
    · exact ih hr

theorem Running.not_closes (h : Running log t) : ∀ e ∈ log, ¬e.Closes := by
  induction h
  case first => simp [Event.Closes, Event.level]
  case enter ih => simp_all [Event.Closes, Event.level, or_imp, forall_and]
  case advance ih => simp_all [Event.Closes, Event.level, or_imp, forall_and]

end Log

def Place.wantsOperand : Place → Bool
  | .signs .. => true
  | _ => false

namespace Moment

structure Balanced (m : Moment) : Prop where
  log     : Log.Balanced m.place.lookahead.log
  numeral : endsInNumeral m.used = !m.place.wantsOperand

theorem start_balanced (h : Lookahead.ofCursor (.ofText text) = .ok l) : (start l).Balanced := by
  have hl : (start l).place.lookahead.log =
      [.scanned l.current, .entered .expression l.current.span, .entered .term l.current.span,
        .entered .factor l.current.span] := by
    simp [start, Place.beginTerm, Place.beginFactor, Place.lookahead, Lookahead.log_of_ofCursor h]
  constructor
  case log => constructor <;> simp [hl, Event.enters, Event.consumed?, binaries]
  case numeral =>
    rw [used_start h]
    rfl

theorem endsInNumeral_of_consume (h : l.consume wanted = .ok t next) :
    endsInNumeral (consumed next.log) = decide (wanted = .number) := by
  obtain ⟨rfl, hk, -⟩ := Lookahead.consume_eq_ok h
  rw [Lookahead.consumed_of_consume h, endsInNumeral_concat, hk]

theorem Transition.balanced (h : m.Transition m') (hm : m.Balanced) : m'.Balanced := by
  obtain ⟨hl, hn⟩ := hm
  cases h
  case plus hc => exact ⟨hl.consume hc fun _ => binaries_sign hn, endsInNumeral_of_consume hc⟩
  case minus hc => exact ⟨hl.consume hc fun _ => binaries_sign hn, endsInNumeral_of_consume hc⟩
  case number hc => exact ⟨hl.consume hc fun _ => binaries_sign hn, endsInNumeral_of_consume hc⟩
  case times op _ _ _ ho hc =>
    refine ⟨hl.times hc hn ho, ?_⟩
    rw [used_beginFactor, endsInNumeral_of_consume hc]
    cases op <;> rfl
  case adds op _ _ _ ho hc =>
    refine ⟨hl.adds hc hn ho, ?_⟩
    rw [used_beginTerm, endsInNumeral_of_consume hc]
    cases op <;> rfl
  case product => exact ⟨hl, hn⟩
  case term => exact ⟨hl, hn⟩
  case sum => exact ⟨hl, hn⟩
  case expression => exact ⟨hl, hn⟩

theorem Reaches.balanced (hc : Lookahead.ofCursor (.ofText text) = .ok l)
    (h : (start l).Reaches m) : m.Balanced :=
  h.keeps Transition.balanced (start_balanced hc)

end Moment

structure Evaluation.Records (e : Evaluation) (text : String) : Prop where
  entered  : ∀ front rule s back, e.log = front ++ .entered rule s :: back →
    (scanned front).getLast?.map (·.span) = some s
  -- What closes the log is its last entry, and so there is no other.
  closes   : ∀ front a back, e.log = front ++ a :: back → a.Closes → back = []
  value    : ∀ v, e.outcome = .ok v ↔ ∃ s, .completed ⟨v, s⟩ ∈ e.log
  covers   : ∀ v, .completed v ∈ e.log → ∃ ts, tokenize text = .ok ts ∧ v.span.Covers ts
  trailing : ∀ t, e.outcome = .error (.trailingInput t) ↔ .trailing t ∈ e.log

variable {body : List Event} {result : Except Fault Operand}

theorem Event.mem_remark_completed {v : Operand} :
    .completed v ∈ Event.remark? result ↔ result = .ok v := by
  rcases result with f | w
  case error => cases f <;> simp [remark?, ofFault?]
  case ok => simp [remark?]

theorem Event.mem_remark_trailing :
    .trailing t ∈ Event.remark? result ↔ result = .error (.trailingInput t) := by
  rcases result with f | w
  case error => cases f <;> simp [remark?, ofFault?]
  case ok => simp [remark?]

theorem Event.mem_remark_entered : .entered rule s ∉ Event.remark? result := by
  rcases result with f | w
  case error => cases f <;> simp [remark?, ofFault?]
  case ok => simp [remark?]

theorem Log.mem_of_closes (h : ∀ e ∈ body, ¬e.Closes) (he : e.Closes) :
    e ∈ body ++ (Event.remark? result).toList ↔ e ∈ Event.remark? result := by
  have : e ∉ body := fun hb => h e hb he
  simp [this]

theorem Evaluation.records_of_remark {e : Evaluation}
    (hl : e.log = body ++ (Event.remark? result).toList)
    (ho : e.outcome = result.map (·.value)) (hb : ∀ e ∈ body, ¬e.Closes)
    (hs : ∀ front rule s back, body = front ++ .entered rule s :: back →
      (scanned front).getLast?.map (·.span) = some s)
    (hv : ∀ v, result = .ok v → ∃ ts, tokenize text = .ok ts ∧ v.span.Covers ts) :
    e.Records text := by
  have hd : ∀ v, Event.Closes (.completed v) := fun v => .inl rfl
  have ht : ∀ t, Event.Closes (.trailing t) := fun t => .inr ⟨t, rfl⟩
  -- Nothing in the body closes a log, and so only the remark can.
  constructor
  case entered =>
    intro front rule s back h
    rcases cons_of_toList (hl ▸ h) with ⟨hr, -, -⟩ | ⟨rest, hr⟩
    · exact absurd hr Event.mem_remark_entered
    · exact hs front rule s rest hr
  case closes =>
    intro front a back h ha
    rcases cons_of_toList (hl ▸ h) with ⟨-, -, hn⟩ | ⟨rest, hr⟩
    · exact hn
    · exact absurd ha (hb a (by simp [hr]))
  case value =>
    intro v
    simp only [hl, ho, mem_of_closes hb (hd _), Event.mem_remark_completed, Machine.map_eq_ok_iff]
    constructor
    · rintro ⟨w, hw, rfl⟩
      exact ⟨w.span, hw⟩
    · rintro ⟨s, hw⟩
      exact ⟨_, hw, rfl⟩
  case covers =>
    intro v h
    rw [hl, mem_of_closes hb (hd v), Event.mem_remark_completed] at h
    exact hv v h
  case trailing =>
    intro t
    rw [hl, ho, mem_of_closes hb (ht t), Event.mem_remark_trailing]
    exact Machine.map_eq_error_iff

theorem Log.Balanced.remark (h : Balanced body) :
    Balanced (body ++ (Event.remark? result).toList) := by
  have he : ∀ rule, entries rule (Event.remark? result).toList = 0 := by
    intro rule
    cases hr : Event.remark? result
    case none => rfl
    case some e =>
      cases e
      case entered => exact absurd hr Event.mem_remark_entered
      all_goals rfl
  have hi : ∀ e ∈ Event.remark? result, e.Idle := fun _ => Event.idle_of_remark
  obtain ⟨h₁, h₂, h₃⟩ := h
  constructor <;> simpa [he, consumed_idle hi]

theorem Moment.Stops.covers {v : Operand} {last : Lookahead} (h : m.Stops (.ok v last))
    (ht : m.place.lookahead.Tracks text) (hm : m.Has m.used) :
    ∃ ts, tokenize text = .ok ts ∧ v.span.Covers ts := by
  cases h
  case completed hf =>
    cases hm
    case expression hv => exact ⟨_, ht.tokenize_of_finish hf, hv.covers⟩

-- If the first token can be read, the rules begin as often as the operators ask for, wherever the
-- reading stops. The last entry tells the outcome in every reading.
theorem trace_records (text : String) :
    (∀ t, (Reader.ofText text).read.1 = .ok t → Log.Balanced (trace text).log) ∧
      (trace text).Records text := by
  rcases exists_stop text with ⟨f, stop, hc, h⟩ | ⟨l, m, out, hl, hm, hs, h⟩ <;> rw [h]
  case inl =>
    constructor
    case left =>
      intro t ht
      cases (congrArg Prod.fst hc).symm.trans ht
    case right =>
      have hl : (Event.remark? (.error f)).toList = [] ++ (Event.remark? (.error f)).toList := rfl
      refine Evaluation.records_of_remark hl rfl ?_ ?_ ?_ <;> simp
  case inr =>
    have ht := hm.tracks (Moment.start_tracks (.of_ofCursor hl))
    have hr := ht.running
    constructor
    case left =>
      intro _ _
      rw [hs.log_eq ht]
      exact (hm.balanced hl).log.remark
    case right =>
      refine Evaluation.records_of_remark (hs.log_eq ht) out.outcome_evaluation hr.not_closes
        (fun _ _ _ _ => hr.span_eq) fun v hv => ?_
      rcases out with ⟨w, last⟩ | ⟨f, last⟩ <;> cases hv
      exact hs.covers ht (hm.has hl)

-- Three factors have begun, of which one has signs, and there the reading stops at the `$`.
theorem trace_records_balanced :
    (Reader.ofText "1 - -2 * 3 $").read.1 = .ok ⟨.number 1, 0, 1⟩ ∧
      Log.Balanced (trace "1 - -2 * 3 $").log :=
  have h : (Reader.ofText "1 - -2 * 3 $").read.1 = .ok ⟨.number 1, 0, 1⟩ := by decide +kernel
  ⟨h, (trace_records "1 - -2 * 3 $").1 _ h⟩

end Calculator
