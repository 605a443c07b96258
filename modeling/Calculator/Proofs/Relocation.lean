import Calculator.Proofs.FirstFault

namespace Calculator

open Text (size)

-- Where the tokens of one text stand in another. The machine carries places along and never
-- compares them, so that it commutes with every relocation.
structure Relocation where
  start : Nat → Nat
  stop : Nat → Nat
  finish : Nat → Nat

def Relocation.shift (n : Nat) : Relocation where
  start := (· + n)
  stop := (· + n)
  finish := (· + n)

def Span.relocate (r : Relocation) (s : Span) : Span where
  start := r.start s.start
  stop := r.stop s.stop

def Token.relocate (r : Relocation) (t : Token) : Token :=
  if t.isFinish then ⟨.finish, r.finish t.span.start, r.finish t.span.stop⟩
  else { t with span := t.span.relocate r }

def Operand.relocate (r : Relocation) (v : Operand) : Operand :=
  { v with span := v.span.relocate r }

def Fault.relocate (r : Relocation) : Fault → Fault
  | invalidCharacter char offset => invalidCharacter char (r.start offset)
  | unexpectedToken expected found => unexpectedToken expected (found.relocate r)
  | trailingInput found => trailingInput (found.relocate r)
  | divisionByZero span => divisionByZero (span.relocate r)
  | overflow span => overflow (span.relocate r)

variable {α β : Type} {r : Relocation} {n p : Nat} {t : Token} {ts us : List Token} {m : Machine}
variable {text : List Char} {s s' : TokenStream} {c : Cursor} {ending : Except Fault Token}

theorem Token.relocate_of_ne_finish (h : t.symbol ≠ .finish) :
    t.relocate r = { t with span := t.span.relocate r } := by
  simp [relocate, h]

@[simp] theorem Token.symbol_relocate : (t.relocate r).symbol = t.symbol := by
  unfold relocate
  split <;> simp_all

@[simp] theorem Span.relocate_shift {s : Span} : s.relocate (.shift n) = s.shift n := rfl

@[simp] theorem Token.relocate_shift : t.relocate (.shift n) = t.shift n := by
  unfold relocate
  split
  case isTrue h => simp_all [shift, Span.shift, Relocation.shift]
  case isFalse => rfl

@[simp] theorem Fault.relocate_shift {f : Fault} : f.relocate (.shift n) = f.shift n := by
  cases f <;> simp [relocate, shift]
  rfl

namespace Relocation

def result (r : Relocation) (place : α → β) (x : Except Fault α) : Except Fault β :=
  (x.map place).mapError (Fault.relocate r)

@[simp] theorem result_ok {place : α → β} {a : α} : r.result place (.ok a) = .ok (place a) := rfl

@[simp] theorem result_error {place : α → β} {f : Fault} :
    r.result place (.error f) = .error (f.relocate r) := rfl

theorem bind_result {γ δ : Type} {x : Except Fault α} {place : α → β} {place' : γ → δ}
    {k : α → Except Fault γ} {k' : β → Except Fault δ}
    (h : ∀ a, k' (place a) = r.result place' (k a)) :
    r.result place x >>= k' = r.result place' (x >>= k) := by
  cases x
  case error => rfl
  case ok a => exact h a

end Relocation

namespace Machine

def relocateWaiting (r : Relocation) : Option (Operand × Operator) → Option (Operand × Operator) :=
  Option.map fun (v, op) => (v.relocate r, op)

def Phase.relocate (r : Relocation) : Phase → Phase
  | expects start negative => expects (start.map r.start) negative
  | holds factor => holds (factor.relocate r)

def relocate (r : Relocation) (m : Machine) : Machine where
  sum := relocateWaiting r m.sum
  product := relocateWaiting r m.product
  phase := m.phase.relocate r

theorem close_relocate {waiting : Option (Operand × Operator)} {right : Operand} :
    close (relocateWaiting r waiting) (right.relocate r) =
      r.result (Operand.relocate r) (close waiting right) := by
  match waiting with
  | none => rfl
  | some (left, op) =>
    simp only [relocateWaiting, Option.map_some, close, Operand.relocate]
    by_cases hz : op = .divide ∧ right.value = 0
    case pos => simp [hz, Fault.relocate]
    case neg =>
      simp only [hz, if_false]
      cases Word.ofInt? (op.exact left.value.toInt right.value.toInt) <;> rfl

theorem step_relocate : (m.relocate r).step (t.relocate r) = r.result (relocate r) (m.step t) := by
  obtain ⟨sum, product, phase⟩ := m
  cases phase
  case expects start negative =>
    have hs : (start.map r.start).getD (r.start t.span.start) = r.start (start.getD t.span.start) := by
      cases start <;> rfl
    by_cases ht : t.symbol = .finish
    case pos => simp [relocate, Phase.relocate, step, ht, Fault.relocate]
    case neg =>
      simp only [relocate, Phase.relocate, step, Token.relocate_of_ne_finish ht]
      cases h : t.symbol <;>
        simp [h, Span.relocate, hs, Fault.relocate, Token.relocate_of_ne_finish ht, relocate,
          Phase.relocate, Operand.relocate]
  case holds factor =>
    simp only [relocate, Phase.relocate, step, Token.symbol_relocate, close_relocate]
    refine Relocation.bind_result fun term => ?_
    split
    case h_1 => rfl
    case h_2 =>
      rw [close_relocate]
      refine Relocation.bind_result fun total => ?_
      split <;> rfl

theorem foldlM_relocate :
    (ts.map (·.relocate r)).foldlM step (m.relocate r) =
      r.result (relocate r) (ts.foldlM step m) := by
  induction ts generalizing m
  case nil => rfl
  case cons t ts ih =>
    rw [List.map_cons, List.foldlM_cons, List.foldlM_cons, step_relocate]
    exact Relocation.bind_result fun _ => ih

theorem finish_relocate :
    (m.relocate r).finish (t.relocate r) = r.result (Operand.relocate r) (m.finish t) := by
  obtain ⟨sum, product, phase⟩ := m
  cases phase
  case expects => rfl
  case holds factor =>
    simp only [relocate, Phase.relocate, finish, close_relocate]
    exact Relocation.bind_result fun _ => close_relocate

end Machine

structure TokenStream.Relocates (r : Relocation) (s s' : TokenStream) : Prop where
  tokens : s'.tokens = s.tokens.map (·.relocate r)
  ending : s'.ending = r.result (Token.relocate r) s.ending

theorem Machine.run_relocate (h : s.Relocates r s') :
    (m.relocate r).run s' = r.result (Operand.relocate r) (m.run s) := by
  simp only [run, h.tokens, h.ending, foldlM_relocate]
  exact Relocation.bind_result fun _ => Relocation.bind_result fun _ => finish_relocate

-- The value of a text does not depend on where its tokens stand.
theorem TokenStream.Relocates.value (h : s.Relocates r s') :
    s'.value = s.value.mapError (Fault.relocate r) := by
  have hr : Machine.empty.run s' = _ := Machine.run_relocate (m := .empty) h
  rw [TokenStream.value, hr, TokenStream.value]
  cases Machine.empty.run s <;> rfl

theorem Reads.shift (h : Reads p text ts) (n : Nat) : Reads (p + n) text (ts.map (·.shift n)) := by
  induction h
  case nil => exact .nil
  case blank p c _ _ hc _ ih =>
    rw [Nat.add_right_comm] at ih
    exact .blank hc ih
  case token p s body _ _ hb hs _ ih =>
    rw [Nat.add_right_comm] at ih
    have ht : Token.shift n ⟨s, p, p + size body⟩ = ⟨s, p + n, p + n + size body⟩ := by
      simp [Token.shift, Span.shift, Nat.add_right_comm]
    rw [List.map_cons, ht]
    exact .token hb hs ih

theorem Ends.shift (h : Ends c ending) (n : Nat) :
    Ends (c.shift n) ((Relocation.shift n).result (Token.relocate (.shift n)) ending) := by
  cases h
  case finish p =>
    simp only [Relocation.result_ok, Token.relocate_shift]
    exact .finish
  case stray hb ho hd => exact .stray hb ho hd
  case numeral p digits rest hn hd hs hr =>
    have hf : Fault.relocate (.shift n) (.overflow ⟨p, p + size digits⟩) =
        .overflow ⟨p + n, p + n + size digits⟩ := by
      simp [Fault.shift, Span.shift, Nat.add_right_comm]
    rw [Relocation.result_error, hf]
    exact .numeral hn hd hs hr

theorem Cursor.relocates_shift (n : Nat) (c : Cursor) :
    c.stream.Relocates (.shift n) (c.shift n).stream := by
  obtain ⟨p, text⟩ := c
  have ⟨front, back, ts, ending, ht, hr, hs, he⟩ := exists_reads p text
  have he' := he.shift n
  rw [Cursor.shift, Nat.add_right_comm] at he'
  rw [Cursor.shift, ht, hr.stream_eq hs he, (hr.shift n).stream_eq hs he']
  exact ⟨by simp, rfl⟩

end Calculator
