import Calculator.Proofs.Relocation
import Calculator.Proofs.SyntaxFault

namespace Calculator

open Text (isBlank size)

-- The same fault, which ends `n` bytes later. Where it begins is left open.
inductive Fault.Delayed (n : Nat) : Fault → Fault → Prop where
  | invalidCharacter {c : Char} {offset : Nat} :
    Delayed n (.invalidCharacter c offset) (.invalidCharacter c (offset + n))
  | unexpectedToken {expected : Demand} {t t' : Token} :
    t'.symbol = t.symbol → t'.span.stop = t.span.stop + n →
    Delayed n (.unexpectedToken expected t) (.unexpectedToken expected t')
  | trailingInput {t t' : Token} :
    t'.symbol = t.symbol → t'.span.stop = t.span.stop + n →
    Delayed n (.trailingInput t) (.trailingInput t')
  | divisionByZero {s s' : Span} :
    s'.stop = s.stop + n → Delayed n (.divisionByZero s) (.divisionByZero s')
  | overflow {s s' : Span} : s'.stop = s.stop + n → Delayed n (.overflow s) (.overflow s')

inductive Agree {α : Type} (n : Nat) (same : α → α → Prop) :
    Except Fault α → Except Fault α → Prop where
  | ok {a b : α} : same a b → Agree n same (.ok a) (.ok b)
  | error {f g : Fault} : f.Delayed n g → Agree n same (.error f) (.error g)

structure Operand.Delayed (n : Nat) (v v' : Operand) : Prop where
  value : v'.value = v.value
  stop  : v'.span.stop = v.span.stop + n

namespace Machine

inductive Phase.Delayed (n : Nat) : Phase → Phase → Prop where
  | expects {start start' : Option Nat} {negative : Bool} :
    Delayed n (.expects start negative) (.expects start' negative)
  | holds {v v' : Operand} : v.Delayed n v' → Delayed n (.holds v) (.holds v')

-- An operand on the left of its operator counts by its value alone.
def pending : Option (Operand × Operator) → Option (Word × Operator) :=
  Option.map fun (v, op) => (v.value, op)

structure Delayed (n : Nat) (m m' : Machine) : Prop where
  sum     : pending m'.sum = pending m.sum
  product : pending m'.product = pending m.product
  phase   : m.phase.Delayed n m'.phase

end Machine

section

variable {α β : Type} {n : Nat} {same : α → α → Prop} {same' : β → β → Prop}
variable {x y : Except Fault α} {k k' : α → Except Fault β}

theorem Fault.delayed_shift (f : Fault) (n : Nat) : f.Delayed n (f.shift n) := by
  cases f <;> constructor <;> rfl

theorem Agree.bind (h : Agree n same x y)
    (hk : ∀ a b, same a b → Agree n same' (k a) (k' b)) : Agree n same' (x >>= k) (y >>= k') := by
  cases h
  case ok a b h => exact hk a b h
  case error h => exact .error h

theorem Agree.value {x y : Except Fault Operand} (h : Agree n (Operand.Delayed n) x y) :
    Agree n (· = ·) (x.map (·.value)) (y.map (·.value)) := by
  cases h
  case ok h => exact .ok h.value.symm
  case error h => exact .error h

end

namespace Machine

variable {n : Nat} {m m' : Machine} {v v' : Operand} {t : Token} {ts : List Token}
variable {waiting waiting' : Option (Operand × Operator)}

theorem close_delayed (hw : pending waiting' = pending waiting) (hv : v.Delayed n v') :
    Agree n (Operand.Delayed n) (close waiting v) (close waiting' v') := by
  match waiting, waiting', hw with
  | none, none, _ => exact .ok hv
  | some (left, op), some (left', op'), hw =>
    obtain ⟨hl, rfl⟩ : left'.value = left.value ∧ op' = op := by simpa [pending] using hw
    simp only [close, hl, hv.value]
    split
    case isTrue => exact .error (.divisionByZero hv.stop)
    case isFalse =>
      split
      case h_1 => exact .error (.overflow hv.stop)
      case h_2 => exact .ok ⟨rfl, hv.stop⟩

theorem step_delayed (h : m.Delayed n m') :
    Agree n (Delayed n) (m.step t) (m'.step (t.shift n)) := by
  obtain ⟨sum, product, phase⟩ := m
  obtain ⟨sum', product', phase'⟩ := m'
  obtain ⟨hs, hp, hm⟩ := h
  cases hm
  case expects start start' negative =>
    simp only [step, Token.shift]
    split
    case h_1 => exact .ok ⟨hs, hp, .expects⟩
    case h_2 => exact .ok ⟨hs, hp, .expects⟩
    case h_3 => exact .ok ⟨hs, hp, .holds ⟨rfl, rfl⟩⟩
    case h_4 => exact .error (.unexpectedToken rfl rfl)
  case holds v v' hv =>
    refine (close_delayed hp hv).bind fun term term' ht => ?_
    simp only [Token.shift]
    split
    case h_1 => exact .ok ⟨hs, by simp [pending, ht.value], .expects⟩
    case h_2 =>
      refine (close_delayed hs ht).bind fun total total' ht => ?_
      split
      case h_1 => exact .ok ⟨by simp [pending, ht.value], rfl, .expects⟩
      case h_2 => exact .error (.trailingInput rfl rfl)

theorem foldlM_delayed (h : m.Delayed n m') :
    Agree n (Delayed n) (ts.foldlM step m) ((ts.map (·.shift n)).foldlM step m') := by
  induction ts generalizing m m'
  case nil => exact .ok h
  case cons t ts ih =>
    rw [List.map_cons, List.foldlM_cons, List.foldlM_cons]
    exact (step_delayed h).bind fun _ _ => ih

theorem finish_delayed (h : m.Delayed n m') :
    Agree n (Operand.Delayed n) (m.finish t) (m'.finish (t.shift n)) := by
  obtain ⟨sum, product, phase⟩ := m
  obtain ⟨sum', product', phase'⟩ := m'
  obtain ⟨hs, hp, hm⟩ := h
  cases hm
  case expects => exact .error (.unexpectedToken rfl rfl)
  case holds hv => exact (close_delayed hp hv).bind fun _ _ => close_delayed hs

theorem run_delayed (h : m.Delayed n m') (c : Cursor) :
    Agree n (Operand.Delayed n) (m.run c.stream) (m'.run (c.shift n).stream) := by
  have hc := c.relocates_shift n
  simp only [run, hc.tokens, hc.ending, Token.relocate_shift]
  refine (foldlM_delayed h).bind fun _ _ h => ?_
  cases c.stream.ending
  case error f =>
    rw [Relocation.result_error, Fault.relocate_shift]
    exact .error (f.delayed_shift n)
  case ok t =>
    rw [Relocation.result_ok, Token.relocate_shift]
    exact finish_delayed h

theorem holds_of_step {value : Word} (h : m.step t = .ok m') (ht : t.symbol = .number value) :
    ∃ v, m'.phase = .holds v := by
  obtain ⟨sum, product, phase⟩ := m
  cases phase
  case expects start negative =>
    rw [step_number ht] at h
    cases h
    exact ⟨_, rfl⟩
  case holds factor =>
    obtain ⟨term, -, h⟩ := bind_eq_ok_iff.mp h
    simp only [ht, Precedence.operator?] at h
    obtain ⟨total, -, h⟩ := bind_eq_ok_iff.mp h
    cases h

end Machine

section

variable {p n : Nat} {u s y : String} {front text signs : List Char} {ts : List Token} {t : Token}
variable {m : Machine} {start : Option Nat} {negative : Bool} {expected : Demand}

theorem Reads.eq_nil (h : Reads p [] ts) : ts = [] := by
  generalize ht : [] = text at h
  cases h
  case nil => rfl
  case blank => cases ht
  case token hb _ _ => exact absurd (List.append_eq_nil_iff.mp ht.symm).1 hb.ne_nil

theorem Reads.exists_numeral {c : Char} (h : Reads p text ts) (hc : c ∈ text.getLast?)
    (hd : c.isDigit) : ∃ us t value, ts = us ++ [t] ∧ t.symbol = .number value := by
  induction h
  case nil => cases hc
  case blank b text ts hb h ih =>
    cases text
    case nil =>
      obtain rfl : b = c := by simpa using hc
      simp [Text.isDigit_eq_false_of_isBlank hb] at hd
    case cons d text => exact ih (by simpa using hc)
  case token p s body text ts hb hs h ih =>
    cases text
    case nil =>
      obtain rfl := h.eq_nil
      rw [List.append_nil] at hc
      cases hb
      case sign d ho =>
        obtain rfl : d = c := by simpa using hc
        simp [Symbol.isDigit_of_ofChar? ho] at hd
      case number value hn ha hr => exact ⟨[], _, value, rfl, rfl⟩
    case cons d text =>
      obtain ⟨us, t, value, rfl, ht⟩ := ih (by simpa [List.getLast?_append] using hc)
      exact ⟨_ :: us, t, value, rfl, ht⟩

-- Where an operand is missing, no numeral can be torn.
theorem Reads.seam_of_expects (h : Reads p front ts) (hm : ts.foldlM Machine.step .empty = .ok m)
    (hp : m.phase = .expects start negative) (back : List Char) : Seam front back := by
  refine .of_last fun c hc => Bool.eq_false_iff.mpr fun hd => ?_
  obtain ⟨us, t, value, rfl, ht⟩ := h.exists_numeral hc hd
  rw [List.foldlM_append] at hm
  obtain ⟨m', -, hm⟩ := Machine.bind_eq_ok_iff.mp hm
  obtain ⟨_, hs, hm⟩ := Machine.bind_eq_ok_iff.mp hm
  cases hm
  obtain ⟨v, hv⟩ := Machine.holds_of_step hs ht
  cases hv.symm.trans hp

-- Signs and blanks go on where they stand. They turn the sign if their minus signs are odd in number.
theorem exists_reads_signs (h : ∀ c ∈ signs, c = '+' ∨ c = '-' ∨ isBlank c) (p : Nat)
    (sum product : Option (Operand × Operator)) (start : Option Nat) (negative : Bool) :
    ∃ ts start', Reads p signs ts ∧
      ts.foldlM Machine.step ⟨sum, product, .expects start negative⟩ =
        .ok ⟨sum, product, .expects start' (negative ^^ decide (signs.count '-' % 2 = 1))⟩ := by
  induction signs generalizing p start negative
  case nil => exact ⟨[], start, .nil, by simp; rfl⟩
  case cons c signs ih =>
    have ⟨hc, hs⟩ := List.forall_mem_cons.mp h
    rcases hc with rfl | rfl | hc
    case inl =>
      have ⟨ts, start', hr, hm⟩ := ih hs (p + 1) (some (start.getD p)) negative
      refine ⟨_, start', .token (.sign rfl) (.of_last (by simp)) hr, ?_⟩
      rw [Machine.foldlM_of_step (Machine.step_plus rfl), hm]
      simp
    case inr.inl =>
      have ⟨ts, start', hr, hm⟩ := ih hs (p + 1) (some (start.getD p)) (!negative)
      refine ⟨_, start', .token (.sign rfl) (.of_last (by simp)) hr, ?_⟩
      have hn : (signs.count '-' + 1) % 2 = 1 ↔ ¬signs.count '-' % 2 = 1 := by omega
      rw [Machine.foldlM_of_step (Machine.step_minus rfl), hm]
      simp only [List.count_cons_self, hn, decide_not, Bool.not_xor, Bool.xor_not]
    case inr.inr =>
      have ⟨ts, start', hr, hm⟩ := ih hs (p + c.utf8Size) start negative
      have hn : c ≠ '-' := by
        rintro rfl
        cases hc
      exact ⟨ts, start', .blank hc hr, by rw [hm, List.count_cons_of_ne hn]⟩

theorem exists_expects (h : evaluate u = .error (.unexpectedToken expected t))
    (ht : t.symbol = .finish) :
    ∃ ts sum product start negative, Reads 0 u.toList ts ∧
      ts.foldlM Machine.step .empty = .ok ⟨sum, product, .expects start negative⟩ := by
  have ⟨front, back, ts, m, hf, hr, _, hm, hh⟩ := exists_halts h
  obtain ⟨-, ⟨start, negative, hp⟩, ⟨rfl, -⟩ | ⟨_, _, -, -, hs⟩⟩ := hh.unexpectedToken
  case inl =>
    rw [List.append_nil] at hf
    obtain ⟨sum, product, phase⟩ := m
    obtain rfl : phase = .expects start negative := hp
    exact ⟨ts, sum, product, start, negative, hf ▸ hr, hm⟩
  case inr => simp [ht] at hs

-- Wherever an operand is missing, signs whose minus signs are even in number can be put in. The
-- value stays, and a fault stays, only that it ends later by the bytes that have been put in.
theorem evaluate_insert_signs (hu : evaluate u = .error (.unexpectedToken expected t))
    (ht : t.symbol = .finish) (hs : ∀ c ∈ s.toList, c = '+' ∨ c = '-' ∨ isBlank c)
    (hn : s.toList.count '-' % 2 = 0) :
    Agree s.utf8ByteSize (· = ·) (evaluate (u ++ y)) (evaluate (u ++ s ++ y)) := by
  obtain ⟨ts, sum, product, start, negative, hr, hm⟩ := exists_expects hu ht
  obtain ⟨us, start', hr', hm'⟩ :=
    exists_reads_signs hs (0 + size u.toList) sum product start negative
  simp only [hn, Nat.zero_ne_one, decide_false, Bool.xor_false] at hm'
  have hus : (ts ++ us).foldlM Machine.step .empty = .ok ⟨sum, product, .expects start' negative⟩ :=
    (Machine.foldlM_append_of_ok hm).trans hm'
  have hrs : Reads 0 (u ++ s).toList (ts ++ us) := by
    rw [String.toList_append]
    exact hr.append hr' (hr.seam_of_expects hm rfl _)
  have hc : Cursor.mk (size (u ++ s).toList) y.toList =
      (Cursor.mk (size u.toList) y.toList).shift s.utf8ByteSize := by
    simp [Cursor.shift]
  rw [evaluate_of_foldlM String.toList_append hr (hr.seam_of_expects hm rfl _) hm,
    evaluate_of_foldlM String.toList_append hrs (hrs.seam_of_expects hus rfl _) hus, hc]
  refine Agree.value (Machine.run_delayed ?_ _)
  exact ⟨rfl, rfl, .expects⟩

-- Behind the sign that is open already, and with a divisor of zero at the end.
theorem evaluate_insert_signs_twice :
    Agree 7 (· = ·) (evaluate ("2*-" ++ "3")) (evaluate ("2*-" ++ " - +\u00a0-" ++ "3")) ∧
      Agree 7 (· = ·) (evaluate ("8/" ++ "0 + 1")) (evaluate ("8/" ++ " - +\u00a0-" ++ "0 + 1")) := by
  have hs : ∀ c ∈ " - +\u00a0-".toList, c = '+' ∨ c = '-' ∨ isBlank c := by
    simp [isBlank]
  have h₁ : evaluate "2*-" = .error (.unexpectedToken .operand ⟨.finish, 3, 3⟩) := by decide +kernel
  have h₂ : evaluate "8/" = .error (.unexpectedToken .operand ⟨.finish, 2, 2⟩) := by decide +kernel
  exact ⟨evaluate_insert_signs h₁ rfl hs rfl, evaluate_insert_signs h₂ rfl hs rfl⟩

end
end Calculator
