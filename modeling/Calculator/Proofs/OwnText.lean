import Calculator.Proofs.Nesting
import Calculator.Proofs.Operands

namespace Calculator

open Lookahead (Reachable)
open Text (size)

def Rule.read : Rule → Lookahead → Lookahead.Outcome Operand
  | expression => Lookahead.expression
  | term => Lookahead.term
  | factor => Lookahead.factor

namespace Precedence

def rule : Precedence → Rule
  | sum => .expression
  | product => .term

def operandRule : Precedence → Rule
  | sum => .term
  | product => .factor

def loop : Precedence → Operand → Lookahead → Lookahead.Outcome Operand
  | sum, left, l => l.chain .sum Lookahead.term Lookahead.size_le_of_term left
  | product, left, l => l.chain .product Lookahead.factor Lookahead.size_le_of_factor left

-- The rule has been called at `begun`, and has come to the head of its loop with an operand so far.
inductive Loops (strength : Precedence) (begun : Lookahead) : Operand → Lookahead → Prop where
  | first {left : Operand} {l : Lookahead} :
    strength.operandRule.read (begun.note (.entered strength.rule begun.current.span)) =
      .ok left l →
    Loops strength begun left l
  | again {left right v : Operand} {op : Operator} {t : Token} {l next last : Lookahead} :
    Loops strength begun left l → strength.operator? l.current.symbol = some op →
    l.consume op.category = .ok t next → strength.operandRule.read next = .ok right last →
    op.apply left right = .ok v → Loops strength begun v last

end Precedence

structure Operand.OwnsText (text : String) (begun last : Lookahead) (v : Operand) : Prop where
  covers : ∃ us, Log.consumed last.log = Log.consumed begun.log ++ us ∧ v.span.Covers us
  value  : ∃ inside, v.span.slice? text = some inside ∧ evaluate inside = .ok v.value

structure Lookahead.Ahead (text : String) (l : Lookahead) : Prop where
  split  : ∃ front chars back, text.toList = front ++ chars ++ back ∧
    Reads (Text.size front) chars l.stream.tokens
  finish : l.current.symbol = .finish → l.cursor.rest = []

def Place.operand? : Place → Option Operand
  | signs .. => none
  | factor v _ | products v _ | term v _ | sums v _ | expression v _ => some v

variable {text : String} {front chars back : List Char} {us post : List Token} {t : Token}
variable {l next last begun : Lookahead} {v left right : Operand} {op : Operator}
variable {sum product : Option (Operand × Operator)} {strength : Precedence} {rule : Rule}

namespace Moment

theorem Transition.leads {m m' : Moment} (h : m.Transition m') : m.Leads m' := by
  cases h <;> simp_all [Leads, step, action, Action.next, Request.answer, Next.ofOutcome]

theorem Reaches.reachable {m m' : Moment} (h : m.Reaches m')
    (hl : m.place.lookahead.Reachable text) : m'.place.lookahead.Reachable text :=
  h.keeps_lookahead (fun _ hc hl => hl.consume hc) (fun _ hl => hl.note) hl

theorem close_of_apply (h : op.apply left right = .ok v) :
    close (some (left, op)) right l = .ok v l := by
  simp [close, h]

theorem Has.isValueOf {place : Place} (h : Has ⟨none, none, place⟩ us)
    (hv : place.operand? = some v) : v.IsValueOf (IsExpression Word.Fits) us := by
  cases h
  case signs => cases hv
  case factor hc ha hb =>
    cases ha
    cases hb
    cases hv
    exact hc.mono fun _ _ hi => .term (.factor hi)
  case products hb ha =>
    cases ha
    cases hv
    exact hb.mono fun _ _ => .term
  case term hb ha =>
    cases ha
    cases hv
    exact hb.mono fun _ _ => .term
  case sums h =>
    cases hv
    exact h
  case expression h =>
    cases hv
    exact h

end Moment

namespace Precedence

open Lookahead Moment

theorem read_eq (l : Lookahead) :
    strength.rule.read l =
      (strength.operandRule.read (l.note (.entered strength.rule l.current.span))).andThen
        strength.loop := by
  cases strength
  case sum => exact expression_eq l
  case product => exact term_eq l

theorem loop_eq (h : strength.operator? l.current.symbol = some op) :
    strength.loop left l = (l.consume op.category).andThen fun _ l =>
      ((strength.operandRule.read l).andThen (close (some (left, op)))).andThen strength.loop := by
  cases strength <;> exact chain_some h

-- What is left of a call is the rest of its loop.
theorem Loops.read_eq_loop (h : Loops strength begun left l) :
    strength.rule.read begun = strength.loop left l := by
  induction h
  case first h => rw [read_eq, h, Outcome.ok_andThen]
  case again ho hc hr ha ih =>
    rw [ih, loop_eq ho, hc, Outcome.ok_andThen, hr, Outcome.ok_andThen, close_of_apply ha,
      Outcome.ok_andThen]

theorem loops_of_chain {operand : Lookahead → Outcome Operand}
    {shrinks : ∀ {l next v}, operand l = .ok v next → next.size ≤ l.size}
    (hl : Loops strength begun left l) (ho : operand = strength.operandRule.read)
    (h : l.chain strength operand shrinks left = .ok v last) :
    Loops strength begun v last ∧ strength.operator? last.current.symbol = none := by
  fun_induction chain strength operand shrinks left l
  case case1 hn =>
    cases h
    exact ⟨hl, hn⟩
  case case5 hop _ _ hc _ _ hr _ ha ih => exact ih (hl.again hop hc (ho ▸ hr) ha) h
  all_goals cases h

theorem loops_of_read (h : strength.rule.read l = .ok v last) :
    Loops strength l v last ∧ strength.operator? last.current.symbol = none := by
  rw [read_eq] at h
  obtain ⟨left, next, hr, h⟩ := Outcome.eq_ok_of_andThen h
  cases strength <;> exact loops_of_chain (.first hr) rfl h

end Precedence

namespace Lookahead

open Moment Precedence

theorem reaches_of_signed {start : Span} {n : Nat} (h : l.signed start n = .ok v last) :
    Reaches ⟨sum, product, .signs start n l⟩ ⟨sum, product, .factor v last⟩ := by
  fun_induction signed start n l
  case case2 hs _ _ hc ih => exact .head (Transition.plus hs hc).leads (ih h)
  case case4 hs _ _ hc ih => exact .head (Transition.minus hs hc).leads (ih h)
  case case6 hs _ _ hc =>
    cases h
    exact .single (Transition.number hs hc).leads
  all_goals cases h

theorem reaches_of_factor (h : l.factor = .ok v last) :
    Reaches ⟨sum, product, .beginFactor l⟩ ⟨sum, product, .factor v last⟩ :=
  reaches_of_signed h

theorem reaches_products (h : Loops .product begun left l) :
    Reaches ⟨sum, none, .beginTerm begun⟩ ⟨sum, none, .products left l⟩ := by
  induction h
  case first h => exact (reaches_of_factor h).tail (Transition.product rfl).leads
  case again ho hc hr ha ih =>
    exact ih.trans (.head (Transition.times ho hc).leads
      ((reaches_of_factor hr).tail (Transition.product (close_of_apply ha)).leads))

theorem reaches_of_term (h : l.term = .ok v last) :
    Reaches ⟨sum, none, .beginTerm l⟩ ⟨sum, none, .term v last⟩ := by
  have h : Precedence.product.rule.read l = .ok v last := h
  have ⟨hl, ho⟩ := loops_of_read h
  exact (reaches_products hl).tail (Transition.term ho).leads

theorem reaches_sums (h : Loops .sum begun left l) :
    Reaches (Moment.start begun) ⟨none, none, .sums left l⟩ := by
  induction h
  case first h => exact (reaches_of_term h).tail (Transition.sum rfl).leads
  case again ho hc hr ha ih =>
    exact ih.trans (.head (Transition.adds ho hc).leads
      ((reaches_of_term hr).tail (Transition.sum (close_of_apply ha)).leads))

end Lookahead

namespace Rule

open Lookahead Moment Precedence

def start (l : Lookahead) : Rule → Moment
  | expression => .start l
  | term => ⟨none, none, .beginTerm l⟩
  | factor => ⟨none, none, .beginFactor l⟩

structure Holds (rule : Rule) (l last : Lookahead) (v : Operand) : Prop where
  place : ∃ place : Place, (rule.start l).Reaches ⟨none, none, place⟩ ∧
    place.operand? = some v ∧ place.lookahead = last

theorem holds_of_loops (h : strength.Loops begun left l) : strength.rule.Holds begun l left := by
  cases strength
  case sum => exact ⟨_, reaches_sums h, rfl, rfl⟩
  case product => exact ⟨_, reaches_products h, rfl, rfl⟩

theorem holds_of_read (h : rule.read l = .ok v last) : rule.Holds l last v := by
  cases rule
  case expression =>
    have h : Precedence.sum.rule.read l = .ok v last := h
    exact holds_of_loops (loops_of_read h).1
  case term => exact ⟨_, reaches_of_term h, rfl, rfl⟩
  case factor => exact ⟨_, reaches_of_factor h, rfl, rfl⟩

theorem uses_start : l.Uses [] (rule.start l).place.lookahead := by
  cases rule
  case expression => exact ((Uses.refl.enter .expression).enter .term).enter .factor
  case term => exact (Uses.refl.enter .term).enter .factor
  case factor => exact Uses.refl.enter .factor

theorem has_start : (rule.start l).Has [] := by
  cases rule <;> exact Has.beginFactor (a := []) (b := []) rfl rfl

theorem reachable_start (h : l.Reachable text) :
    (rule.start l).place.lookahead.Reachable text := by
  cases rule
  case expression => exact h.note.note.note
  case term => exact h.note.note
  case factor => exact h.note

end Rule

namespace Lookahead.Ahead

theorem rest_of_scan {c : Cursor} (hs : c.scan = (.ok l.current, l.cursor))
    (hf : l.current.symbol = .finish) : l.cursor.rest = [] := by
  have ⟨_, _, _, _, _, _, hsym⟩ := Cursor.scan_eq_ok hs
  rcases hsym with ⟨-, -, hr⟩ | ⟨hb, -⟩
  · exact hr
  · exact absurd hf hb.ne_finish

theorem of_scan {c : Cursor} (hc : c.Within text) (hs : c.scan = (.ok l.current, l.cursor)) :
    l.Ahead text := by
  have ⟨behind, ht, hp⟩ := Cursor.within_iff.mp hc
  have ⟨chars, back, ts, ending, hr, hread, hseam, hends⟩ := exists_reads c.position c.rest
  have hstream : l.stream.tokens = ts := by
    have hc : c = ⟨c.position, chars ++ back⟩ := hr ▸ rfl
    rw [← stream_of_scan hs, hc, hread.stream_eq hseam hends]
  refine ⟨⟨behind, chars, back, by rw [ht, hr, List.append_assoc], ?_⟩, rest_of_scan hs⟩
  rw [hstream, hp]
  exact hread

theorem note (h : l.Ahead text) (e : Event) : (l.note e).Ahead text :=
  ⟨h.split, h.finish⟩

theorem of_finish (hf : l.current.symbol = .finish) (hr : l.cursor.rest = []) : l.Ahead text := by
  have ht : l.stream.tokens = [] := by rw [stream, if_pos (Token.isFinish_iff.mpr hf)]
  exact ⟨⟨text.toList, [], [], by simp, ht ▸ .nil⟩, fun _ => hr⟩

theorem consume {wanted : Category} (h : l.Ahead text) (hc : l.consume wanted = .ok t next) :
    next.Ahead text := by
  obtain ⟨-, hk, hs, -⟩ := consume_eq_ok hc
  by_cases hw : wanted = .finish
  case pos =>
    have hf : l.current.symbol = .finish := by
      cases hsym : l.current.symbol <;> simp_all [Symbol.category]
    have hl : l.cursor = ⟨l.cursor.position, []⟩ := h.finish hf ▸ rfl
    rw [hl, Cursor.scan_of_ends .finish] at hs
    obtain ⟨ht, hn⟩ := Prod.mk.inj hs
    have ht := Except.ok.inj ht
    exact of_finish (by rw [← ht]) (by rw [← hn])
  case neg =>
    obtain ⟨front, chars, back, ht, hr⟩ := h.split
    rw [stream_of_consume hc hw, ← List.nil_append (l.current :: next.stream.tokens)] at hr
    obtain ⟨passed, chars, rfl, -, hr, hp⟩ := hr.split_after
    rw [hp, ← Text.size_append] at hr
    exact ⟨⟨front ++ passed, chars, back, by simp [ht], hr⟩, rest_of_scan hs⟩

end Lookahead.Ahead

theorem Lookahead.Reachable.ahead (h : l.Reachable text) : l.Ahead text := by
  induction h
  case first hl => exact .of_scan (within_after text _) (scan_of_ofCursor hl)
  case note ih => exact ih.note _
  case consume hc ih => exact ih.consume hc

-- A sentence in the middle of a text has its value also by itself.
theorem Operand.IsValueOf.evaluate_slice (h : v.IsValueOf (IsExpression Word.Fits) us)
    (ht : text.toList = front ++ chars ++ back)
    (hr : Reads (size front) chars (us ++ post)) :
    ∃ inside, v.span.slice? text = some inside ∧ evaluate inside = .ok v.value := by
  rw [← List.nil_append us] at hr
  obtain ⟨before, mid, after, rfl, -, hm, hs⟩ := hr.split_covers h.covers
  rw [← Text.size_append] at hs
  have ht : text.toList = front ++ before ++ mid ++ (after ++ back) := by simp [ht]
  rw [← Nat.zero_add v.span.start] at hm
  have ⟨ws, hw, hm⟩ := hm.of_shift
  have ⟨w, hv, hi⟩ := (hw ▸ h).of_shift
  exact ⟨.ofList mid, hs ▸ Span.slice?_append ht, hv ▸ evaluate_of_reads (by simpa using hm) hi⟩

theorem Rule.Holds.ownsText (h : rule.Holds l last v) (hl : l.Reachable text) :
    last.Reachable text ∧ v.OwnsText text l last := by
  obtain ⟨place, hreach, hv, rfl⟩ := h.place
  have hs : l.Uses [] (rule.start l).place.lookahead := uses_start
  have ⟨front, chars, back, ht, hr⟩ := hl.ahead.split
  have ⟨us, hu, hm⟩ := hreach.uses has_start (hs.tokens ▸ hr)
  have hu := hs.trans hu
  have hi := hm.isValueOf hv
  rw [hu.tokens] at hr
  refine ⟨hreach.reachable (reachable_start hl), ⟨us, hu.consumed, hi.covers⟩, ?_⟩
  exact hi.evaluate_slice ht hr

-- Wherever in a text a rule is called, the operand that it gives is the value of its own text: from
-- the first token of the call to the last, whatever stands behind them. So is each operand on the
-- way, which the loops of the rules come to.
theorem operand_ownsText (text : String) (l : Lookahead) (hl : l.Reachable text) :
    (∀ (rule : Rule) v last, rule.read l = .ok v last →
        last.Reachable text ∧ v.OwnsText text l last) ∧
      ∀ (strength : Precedence) left next, strength.Loops l left next →
        strength.rule.read l = strength.loop left next ∧
          next.Reachable text ∧ left.OwnsText text l next :=
  ⟨fun _ _ _ h => (Rule.holds_of_read h).ownsText hl,
    fun _ _ _ h => ⟨h.read_eq_loop, (Rule.holds_of_loops h).ownsText hl⟩⟩

theorem Lookahead.Outcome.exists_of_result {out : Outcome Operand} (h : out.result = .ok v) :
    ∃ last, out = .ok v last := by
  cases out <;> cases h
  exact ⟨_, rfl⟩

-- The text has no value, as there is a stray character behind the sum.
theorem operand_ownsText_before_stray :
    ∃ l : Lookahead, l.Reachable "12 * -3+$" ∧
      (∃ last, Rule.factor.read l = .ok ⟨12, 0, 2⟩ last ∧
        Operand.OwnsText "12 * -3+$" l last ⟨12, 0, 2⟩) ∧
      ∃ next, Precedence.sum.Loops l ⟨-36, 0, 7⟩ next ∧
        Operand.OwnsText "12 * -3+$" l next ⟨-36, 0, 7⟩ := by
  let l : Lookahead :=
    ⟨⟨2, " * -3+$".toList⟩, ⟨.number 12, 0, 2⟩, [.scanned ⟨.number 12, 0, 2⟩]⟩
  have hl : Lookahead.ofCursor ((Session.ofText "12 * -3+$").after []).reader.cursor = .ok l := by
    decide +kernel
  have hf : (Rule.factor.read l).result = .ok ⟨12, 0, 2⟩ := by decide +kernel
  have ht : (Rule.term.read (l.note (.entered .expression l.current.span))).result =
      .ok ⟨-36, 0, 7⟩ := by decide +kernel
  have h := operand_ownsText _ l (.first hl)
  have ⟨last, hf⟩ := Lookahead.Outcome.exists_of_result hf
  have ⟨next, ht⟩ := Lookahead.Outcome.exists_of_result ht
  have ht : Precedence.sum.Loops l ⟨-36, 0, 7⟩ next := .first ht
  exact ⟨l, .first hl, ⟨last, hf, (h.1 _ _ _ hf).2⟩, next, ht, (h.2 _ _ _ ht).2.2⟩

end Calculator
