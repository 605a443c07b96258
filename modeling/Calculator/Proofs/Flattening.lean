import Calculator.Evaluation
import Calculator.Machine
import Calculator.Proofs.Reading

namespace Calculator

theorem Operator.apply_eq_close {op : Operator} {left right : Operand}
    (h₁ : left.span.start ≤ right.span.start) (h₂ : left.span.stop ≤ right.span.stop) :
    op.apply left right = Machine.close (some (left, op)) right := by
  rw [apply, Span.hull_eq h₁ h₂]
  rfl

namespace Lookahead

def stream (l : Lookahead) : TokenStream :=
  if l.current.isFinish then ⟨[], .ok l.current, l.cursor⟩
  else { l.cursor.stream with tokens := l.current :: l.cursor.stream.tokens }

structure Ordered (l : Lookahead) : Prop where
  start_le    : l.current.span.start ≤ l.current.span.stop
  position_eq : l.cursor.position = l.current.span.stop

section

variable {l next : Lookahead} {wanted : Category} {t : Token} {f : Fault} {m : Machine}

@[simp] theorem stream_note (e : Event) : (l.note e).stream = l.stream := rfl

theorem Ordered.note (h : l.Ordered) (e : Event) : (l.note e).Ordered :=
  ⟨h.start_le, h.position_eq⟩

theorem ordered_of_scan {c : Cursor} (h : c.scan = (.ok next.current, next.cursor)) :
    next.Ordered ∧ c.position ≤ next.current.span.start := by
  obtain ⟨blanks, body, -, -, hs, hp, -⟩ := Cursor.scan_eq_ok h
  refine ⟨⟨?_, hp⟩, ?_⟩ <;> simp [hs]

theorem ordered_of_consume (hl : l.Ordered) (h : l.consume wanted = .ok t next) :
    next.Ordered ∧ l.current.span.stop ≤ next.current.span.start := by
  obtain ⟨-, -, hs, -⟩ := consume_eq_ok h
  exact hl.position_eq ▸ ordered_of_scan hs

theorem stream_of_scan {c : Cursor} (h : c.scan = (.ok next.current, next.cursor)) :
    c.stream = next.stream := by
  unfold stream
  split
  case isTrue hf => exact Cursor.stream_of_finish h hf
  case isFalse hf => exact Cursor.stream_of_token h hf

theorem stream_of_category (hc : l.current.symbol.category = wanted) (hw : wanted ≠ .finish) :
    l.stream = { l.cursor.stream with tokens := l.current :: l.cursor.stream.tokens } := by
  rw [stream, if_neg]
  rw [Token.isFinish_iff]
  intro hf
  rw [hf] at hc
  exact hw hc.symm

theorem run_of_consume {m m' : Machine} (h : l.consume wanted = .ok t next) (hw : wanted ≠ .finish)
    (hm : m.step l.current = .ok m') : m.run l.stream = m'.run next.stream := by
  obtain ⟨-, hc, hs, -⟩ := consume_eq_ok h
  rw [stream_of_category hc hw, stream_of_scan hs]
  exact Machine.run_of_step hm

theorem run_of_consume_error {m m' : Machine} (h : l.consume wanted = .error f next)
    (hc : l.current.symbol.category = wanted) (hw : wanted ≠ .finish)
    (hm : m.step l.current = .ok m') : m.run l.stream = .error f := by
  obtain ⟨hs, -, -⟩ := consume_eq_error h hc
  rw [stream_of_category hc hw, Cursor.stream_of_error hs]
  exact Machine.run_of_step hm

theorem run_expects {sum product : Option (Operand × Operator)} {start : Option Nat}
    {negative : Bool} (hp : l.current.symbol ≠ .plus) (hm : l.current.symbol ≠ .minus)
    (hn : ∀ n, l.current.symbol ≠ .number n) :
    Machine.run ⟨sum, product, .expects start negative⟩ l.stream =
      .error (.unexpectedToken .operand l.current) := by
  unfold stream
  split
  case isTrue => rfl
  case isFalse =>
    rw [Machine.run_cons, Machine.step_expects_error hp hm hn]
    rfl

theorem run_expects_none {sum product : Option (Operand × Operator)} {negative : Bool} :
    Machine.run ⟨sum, product, .expects none negative⟩ l.stream =
      Machine.run ⟨sum, product, .expects (some l.current.span.start) negative⟩ l.stream := by
  unfold stream
  split
  case isTrue => rfl
  case isFalse => rw [Machine.run_cons, Machine.run_cons, Machine.step_expects_none]

theorem run_holds {sum product : Option (Operand × Operator)} {v : Operand} :
    Machine.run ⟨sum, product, .holds v⟩ l.stream =
      Machine.close product v >>= fun term => Machine.run ⟨sum, none, .holds term⟩ l.stream := by
  unfold stream
  split
  case isTrue => exact Machine.finish_holds (t := l.current)
  case isFalse =>
    rw [Machine.run_cons, Machine.step_holds, bind_assoc]
    simp only [Machine.run_cons]

theorem run_holds_term {sum : Option (Operand × Operator)} {v : Operand}
    (h : Precedence.product.operator? l.current.symbol = none) :
    Machine.run ⟨sum, none, .holds v⟩ l.stream =
      Machine.close sum v >>= fun total => Machine.run ⟨none, none, .holds total⟩ l.stream := by
  unfold stream
  split
  case isTrue => exact Machine.finish_holds_term (t := l.current)
  case isFalse =>
    rw [Machine.run_cons, Machine.step_holds_term h, bind_assoc]
    simp only [Machine.run_cons]

end

structure Follows (l : Lookahead) (v : Operand) : Prop where
  ordered  : l.Ordered
  start_le : v.span.start ≤ v.span.stop
  stop_le  : v.span.stop ≤ l.current.span.start

-- What a rule does from `l` on, the machine `m` does as well: it comes to the same fault, or to the
-- machine `k v` where the rule has read the operand `v`, which begins at `start`.
def Simulates (m : Machine) (k : Operand → Machine) (start : Nat) (l : Lookahead) :
    Outcome Operand → Prop
  | .error f _ => m.run l.stream = .error f
  | .ok v next => m.run l.stream = (k v).run next.stream ∧ v.span.start = start ∧ next.Follows v

section

variable {l next : Lookahead} {m m' : Machine} {k : Operand → Machine} {start : Nat}
variable {out : Outcome Operand} (sum product : Option (Operand × Operator))

theorem Simulates.of_run_eq (hr : m.run l.stream = m'.run next.stream)
    (h : Simulates m' k start next out) : Simulates m k start l out := by
  cases out
  case error => exact hr.trans h
  case ok => exact ⟨hr.trans h.1, h.2⟩

theorem simulates_signed {start : Span} (minuses : Nat) (hl : l.Ordered)
    (h₁ : start.start ≤ l.current.span.start) (h₂ : start.stop ≤ l.current.span.stop) :
    Simulates ⟨sum, product, .expects (some start.start) (minuses % 2 = 1)⟩
      (fun v => ⟨sum, product, .holds v⟩) start.start l (l.signed start minuses) := by
  -- While the rule counts minus signs, the machine only keeps whether their number is odd.
  fun_induction signed start minuses l
  case case1 minuses l hs f last hc =>
    exact run_of_consume_error hc (by simp [hs, Symbol.category]) (by decide) (Machine.step_plus hs)
  case case2 minuses l hs t next hc ih =>
    have hn := (ordered_of_consume hl hc).1
    have ho := (ordered_of_consume hl hc).2
    have := hl.start_le
    have := hn.start_le
    apply Simulates.of_run_eq (run_of_consume hc (by decide) (Machine.step_plus hs))
    exact ih hn (by omega) (by omega)
  case case3 minuses l hs f last hc =>
    exact run_of_consume_error hc (by simp [hs, Symbol.category]) (by decide)
      (Machine.step_minus hs)
  case case4 minuses l hs t next hc ih =>
    have hn := (ordered_of_consume hl hc).1
    have ho := (ordered_of_consume hl hc).2
    have := hl.start_le
    have := hn.start_le
    have hp : (!decide (minuses % 2 = 1)) = decide ((minuses + 1) % 2 = 1) := by
      rw [← decide_not, decide_eq_decide]
      omega
    apply Simulates.of_run_eq (run_of_consume hc (by decide) (Machine.step_minus hs))
    exact hp ▸ ih hn (by omega) (by omega)
  case case5 minuses l value hs f last hc =>
    exact run_of_consume_error hc (by simp [hs, Symbol.category]) (by decide)
      (Machine.step_number hs)
  case case6 minuses l value hs t next hc =>
    have hn := (ordered_of_consume hl hc).1
    have ho := (ordered_of_consume hl hc).2
    have := hl.start_le
    obtain ⟨rfl, -⟩ := consume_eq_ok hc
    simp only [Span.hull_eq h₁ h₂]
    refine ⟨?_, rfl, hn, by simp; omega, ho⟩
    rw [run_of_consume hc (by decide) (Machine.step_number hs)]
    simp
  case case7 minuses l hp hm hn =>
    exact run_expects hp hm fun n hs => hn n hs

theorem simulates_factor (hl : l.Ordered) :
    Simulates ⟨sum, product, .expects none false⟩ (fun v => ⟨sum, product, .holds v⟩)
      l.current.span.start l l.factor := by
  have h := simulates_signed sum product 0 (hl.note (.entered .factor l.current.span))
    (Nat.le_refl _) (Nat.le_refl _)
  exact .of_run_eq run_expects_none h

theorem operand_of_consume {wanted : Category} {v w : Operand} {t : Token} {last : Lookahead}
    (hl : l.Follows v) (hc : l.consume wanted = .ok t next)
    (h : next.Ordered → Simulates m k next.current.span.start next (.ok w last)) :
    v.span.start ≤ w.span.start ∧ v.span.stop ≤ w.span.stop ∧ last.Follows w ∧
      m.run next.stream = (k w).run last.stream := by
  have ⟨hn, _⟩ := ordered_of_consume hl.ordered hc
  have ⟨hr, _, hf⟩ := h hn
  have := hl.start_le
  have := hl.stop_le
  have := hl.ordered.start_le
  have := hf.start_le
  refine ⟨?_, ?_, hf, hr⟩ <;> omega

-- `holding v` is the machine with `v` at hand, `waiting v op` the machine that wants the operand
-- behind `v` and `op`, and `closing v op w` the machine that has got `w` as this operand.
theorem simulates_chain {strength : Precedence} {operand : Lookahead → Outcome Operand}
    {shrinks : ∀ {l next v}, operand l = .ok v next → next.size ≤ l.size} {left : Operand}
    (holding : Operand → Machine) (waiting : Operand → Operator → Machine)
    (closing : Operand → Operator → Operand → Machine)
    (step_holding : ∀ {v op t}, strength.operator? t.symbol = some op →
      (holding v).step t = .ok (waiting v op))
    (simulates_operand : ∀ v op {l}, l.Ordered →
      Simulates (waiting v op) (closing v op) l.current.span.start l (operand l))
    (run_closing : ∀ {v op w l next}, operand l = .ok w next →
      (closing v op w).run next.stream =
        Machine.close (some (v, op)) w >>= fun v => (holding v).run next.stream)
    (hl : l.Follows left) :
    Simulates (holding left) holding left.span.start l (l.chain strength operand shrinks left) := by
  -- At the head of every round, the machine has `left` at hand. It applies the operator later than
  -- the rule does, when the token behind the right operand has come.
  fun_induction chain strength operand shrinks left l
  case case1 => exact ⟨rfl, rfl, hl⟩
  case case2 left l op hp f last hc =>
    exact run_of_consume_error hc (Operator.category_of_operator? hp) op.category_ne_finish
      (step_holding hp)
  case case3 left l op hp t next hc f last ho =>
    have hn := (ordered_of_consume hl.ordered hc).1
    have h := ho ▸ simulates_operand left op hn
    exact (run_of_consume hc op.category_ne_finish (step_holding hp)).trans h
  case case4 left l op hp t next hc right last ho f ha =>
    obtain ⟨h₁, h₂, -, hr⟩ := operand_of_consume (k := closing left op) hl hc
      (ho ▸ simulates_operand left op)
    replace hr := run_of_consume hc op.category_ne_finish (step_holding hp) |>.trans hr
    rw [Simulates, hr, run_closing ho, ← Operator.apply_eq_close h₁ h₂, ha]
    rfl
  case case5 left l op hp t next hc right last ho v ha ih =>
    obtain ⟨h₁, h₂, hf, hr⟩ := operand_of_consume (k := closing left op) hl hc
      (ho ▸ simulates_operand left op)
    replace hr := run_of_consume hc op.category_ne_finish (step_holding hp) |>.trans hr
    rw [Operator.apply_eq_close h₁ h₂] at ha
    rw [run_closing ho, ha] at hr
    have hv := (Machine.close_eq_ok_iff.mp ha).2.1
    have hs : left.span.start ≤ right.span.stop := Nat.le_trans h₁ hf.start_le
    have h := ih ⟨hf.ordered, by simpa [hv] using hs, by simp [hv, hf.stop_le]⟩
    rw [hv] at h
    exact .of_run_eq hr h

theorem operator?_of_chain {strength : Precedence} {operand : Lookahead → Outcome Operand}
    {shrinks : ∀ {l next v}, operand l = .ok v next → next.size ≤ l.size} {left v : Operand}
    (h : l.chain strength operand shrinks left = .ok v next) :
    strength.operator? next.current.symbol = none := by
  fun_induction chain strength operand shrinks left l
  case case1 hp => cases h; exact hp
  case case5 ih => exact ih h
  all_goals cases h

theorem of_chain {P : Lookahead → Prop} {strength : Precedence}
    {operand : Lookahead → Outcome Operand}
    {shrinks : ∀ {l next v}, operand l = .ok v next → next.size ≤ l.size} {left v : Operand}
    (ho : ∀ {l next v}, operand l = .ok v next → P next) (hl : P l)
    (h : l.chain strength operand shrinks left = .ok v next) : P next := by
  fun_induction chain strength operand shrinks left l
  case case1 => cases h; exact hl
  case case5 ho' _ _ ih => exact ih (ho ho') h
  all_goals cases h

theorem operator?_of_term {v : Operand} (h : l.term = .ok v next) :
    Precedence.product.operator? next.current.symbol = none := by
  unfold term at h
  split at h
  case h_1 => cases h
  case h_2 => exact operator?_of_chain h

theorem simulates_term (hl : l.Ordered) :
    Simulates ⟨sum, none, .expects none false⟩ (fun v => ⟨sum, none, .holds v⟩)
      l.current.span.start l l.term := by
  have h := simulates_factor sum none (hl.note (.entered .term l.current.span))
  unfold term
  split
  case h_1 f next hf => exact hf ▸ h
  case h_2 left next hf =>
    obtain ⟨hr, hs, hn⟩ := hf ▸ h
    replace hs : left.span.start = l.current.span.start := hs
    rw [← hs]
    apply Simulates.of_run_eq hr
    apply simulates_chain (fun v => ⟨sum, none, .holds v⟩)
      (fun v op => ⟨sum, some (v, op), .expects none false⟩)
      (fun v op w => ⟨sum, some (v, op), .holds w⟩)
    · exact Machine.step_product
    · exact fun _ _ _ hl => simulates_factor _ _ hl
    · exact fun _ => run_holds
    · exact hn

theorem simulates_expression (hl : l.Ordered) :
    Simulates .empty (fun v => ⟨none, none, .holds v⟩) l.current.span.start l l.expression := by
  have h := simulates_term none (hl.note (.entered .expression l.current.span))
  unfold expression
  split
  case h_1 f next hf => exact hf ▸ h
  case h_2 left next hf =>
    obtain ⟨hr, hs, hn⟩ := hf ▸ h
    replace hs : left.span.start = l.current.span.start := hs
    rw [← hs]
    apply Simulates.of_run_eq hr
    apply simulates_chain (fun v => ⟨none, none, .holds v⟩)
      (fun v op => ⟨some (v, op), none, .expects none false⟩)
      (fun v op w => ⟨some (v, op), none, .holds w⟩)
    · exact Machine.step_sum
    · exact fun _ _ _ hl => simulates_term _ hl
    · exact fun ht => run_holds_term (operator?_of_term ht)
    · exact hn

theorem operator?_of_expression {v : Operand} (h : l.expression = .ok v next) :
    ∀ strength : Precedence, strength.operator? next.current.symbol = none := by
  unfold expression at h
  split at h
  case h_1 => cases h
  case h_2 ht =>
    rintro ⟨⟩
    case sum => exact operator?_of_chain h
    case product =>
      exact of_chain (P := fun l => Precedence.product.operator? l.current.symbol = none)
        operator?_of_term (operator?_of_term ht) h

theorem evaluation_outcome (hl : l.Ordered) : l.evaluation.outcome = l.stream.value := by
  -- Behind the expression, both want the end of the text and refuse any other token.
  have h := simulates_expression hl
  unfold evaluation parse TokenStream.value
  split
  case h_1 f last hp =>
    split at hp
    case h_1 he =>
      cases hp
      rw [he] at h
      rw [h]
      rfl
    case h_2 result next he =>
      split at hp <;> cases hp
      obtain ⟨hr, -, -⟩ := he ▸ h
      rw [hr, stream, if_neg ‹_›, Machine.run_cons]
      simp only [Machine.step, operator?_of_expression he]
      rfl
  case h_2 result last hp =>
    split at hp
    case h_1 => cases hp
    case h_2 result' next he =>
      split at hp <;> cases hp
      obtain ⟨hr, -, -⟩ := he ▸ h
      rw [hr, stream, if_pos ‹_›]
      rfl

end
end Lookahead

theorem Lookahead.scan_of_ofCursor {c : Cursor} {l : Lookahead} (h : ofCursor c = .ok l) :
    c.scan = (.ok l.current, l.cursor) := by
  unfold ofCursor at h
  split at h <;> cases h
  assumption

-- Whatever is in front of a cursor, the rules and the machine agree on it.
theorem Cursor.evaluation_outcome (c : Cursor) : c.evaluation.outcome = c.stream.value := by
  unfold Cursor.evaluation
  cases h : Lookahead.ofCursor c
  case error f =>
    unfold Lookahead.ofCursor at h
    split at h <;> cases h
    rw [stream_of_error ‹_›]
    rfl
  case ok l =>
    have hs := Lookahead.scan_of_ofCursor h
    have ⟨hl, _⟩ := Lookahead.ordered_of_scan hs
    rw [Lookahead.stream_of_scan hs]
    exact Lookahead.evaluation_outcome hl

end Calculator
