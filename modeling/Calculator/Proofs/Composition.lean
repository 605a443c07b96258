import Calculator.Proofs.ArithmeticFault
import Calculator.Proofs.Relocation
import Calculator.Proofs.Safety
import Mathlib.Data.List.Chain

namespace Calculator

open Text (size)

-- No token is an operator of this strength between two operands. Such an operator comes right behind
-- a number, and signs do not.
def Unjoined (strength : Precedence) (ts : List Token) : Prop :=
  ts.IsChain fun t u => t.symbol.category = .number → strength.operator? u.symbol = none

instance {strength : Precedence} {ts : List Token} : Decidable (Unjoined strength ts) :=
  inferInstanceAs (Decidable (ts.IsChain _))

def Word.orOverflow (s : Span) (i : Int) : Except Fault Word :=
  match ofInt? i with
  | none => .error (.overflow s)
  | some w => .ok w

structure Composes (x y : String) (a b : Word) (ts us : List Token) (left right : Span) : Prop where
  left_tokens  : tokenize x = .ok ts
  right_tokens : tokenize y = .ok us
  left_covers  : left.Covers ts
  right_covers : right.Covers us
  sum : Unjoined .sum us →
    evaluate (x ++ " + " ++ y) =
      Word.orOverflow ⟨left.start, x.utf8ByteSize + 3 + right.stop⟩ (a.toInt + b.toInt)
  difference : Unjoined .sum us →
    evaluate (x ++ " - " ++ y) =
      Word.orOverflow ⟨left.start, x.utf8ByteSize + 3 + right.stop⟩ (a.toInt - b.toInt)
  product : Unjoined .sum ts → (∀ strength, Unjoined strength us) →
    evaluate (x ++ " * " ++ y) =
      Word.orOverflow ⟨left.start, x.utf8ByteSize + 3 + right.stop⟩ (a.toInt * b.toInt)
  -- Only these two divisions have no result.
  zero : Unjoined .sum ts → (∀ strength, Unjoined strength us) → b = 0 →
    evaluate (x ++ " / " ++ y) = .error (.divisionByZero (right.shift (x.utf8ByteSize + 3)))
  least : Unjoined .sum ts → (∀ strength, Unjoined strength us) → a = Int64.minValue → b = -1 →
    evaluate (x ++ " / " ++ y) =
      .error (.overflow ⟨left.start, x.utf8ByteSize + 3 + right.stop⟩)
  quotient : Unjoined .sum ts → (∀ strength, Unjoined strength us) → b ≠ 0 →
    ¬(a = Int64.minValue ∧ b = -1) →
    ∃ q : Word, evaluate (x ++ " / " ++ y) = .ok q ∧ q.toInt = a.toInt.tdiv b.toInt

variable {n : Nat} {x y mid : String} {ts us : List Token} {t : Token} {row : List Lexeme} {i : Int}
variable {v w : Operand} {op : Operator} {s : Span} {strength : Precedence}
variable {Is : List Lexeme → Int → Prop}

theorem Word.orOverflow_of_toInt {q : Word} (h : q.toInt = i) : orOverflow s i = .ok q := by
  rw [orOverflow, ofInt?_eq_some_iff.mpr h]

theorem Word.orOverflow_of_not_fits (h : ¬Fits i) : orOverflow s i = .error (.overflow s) := by
  rw [orOverflow, ofInt?_eq_none_iff.mpr h]

theorem Unjoined.solid (h : Unjoined strength ts) (hm : Matches ts row) : Solid strength row := by
  rintro front z back rfl ⟨n, hn⟩
  obtain ⟨front, rfl⟩ := List.getLast?_eq_some_iff.mp hn
  obtain ⟨us, ws, rfl, hu, hw⟩ := hm.of_append
  obtain ⟨t, ws, rfl, hz, -⟩ := hw.of_cons
  obtain ⟨us, last, rfl, -, hl⟩ := hu.of_append
  obtain ⟨u, rest, rfl, hx, hn⟩ := hl.of_cons
  obtain rfl := hn.eq_nil_iff.mpr rfl
  obtain ⟨value, hv, -⟩ := Lexeme.symbol?_number hx
  have ht : u.symbol.category = .number → strength.operator? t.symbol = none :=
    (List.isChain_append.mp h).2.2 u (by simp) t (by simp)
  rw [Lexeme.operator?, hz]
  exact ht (by rw [hv]; rfl)

-- An expression in which nothing is joined is a single operand.
theorem IsExpression.isTerm_of_solid {p : Int → Prop} (h : IsExpression p row i)
    (hs : Solid .sum row) : IsTerm p row i := by
  cases h
  case term h => exact h
  case plus h _ _ => cases hs _ _ _ rfl (h.chain.endsInNumber IsTerm.endsInNumber)
  case minus h _ _ => cases hs _ _ _ rfl (h.chain.endsInNumber IsTerm.endsInNumber)

theorem IsTerm.isFactor_of_solid {p : Int → Prop} (h : IsTerm p row i)
    (hs : Solid .product row) : IsFactor row i := by
  cases h
  case factor h => exact h
  case times h _ _ => cases hs _ _ _ rfl h.endsInNumber
  case divided h _ _ _ => cases hs _ _ _ rfl h.endsInNumber

namespace Operand.IsValueOf

theorem isTerm (h : v.IsValueOf (IsExpression Word.Fits) ts) (hu : Unjoined .sum ts) :
    v.IsValueOf (IsTerm Word.Fits) ts :=
  have ⟨row, hm, hi⟩ := h.sentence
  ⟨⟨row, hm, hi.isTerm_of_solid (hu.solid hm)⟩, h.covers⟩

theorem isFactor (h : v.IsValueOf (IsExpression Word.Fits) ts)
    (hu : ∀ strength, Unjoined strength ts) : v.IsValueOf IsFactor ts :=
  have ⟨row, hm, hi⟩ := (h.isTerm (hu .sum)).sentence
  ⟨⟨row, hm, hi.isFactor_of_solid ((hu .product).solid hm)⟩, h.covers⟩

end Operand.IsValueOf

theorem Operand.IsValueOf.shift (h : v.IsValueOf Is ts) (n : Nat) :
    (v.relocate (.shift n)).IsValueOf Is (ts.map (·.shift n)) :=
  have ⟨row, hm, hi⟩ := h.sentence
  ⟨⟨row, hm.shift n, hi⟩, h.covers.shift n⟩

-- Over an operation, the machine comes to where only the operator is left to be applied.
theorem Machine.exists_finish_eq_close (hl : v.IsValueOf strength.IsLeft ts)
    (ho : strength.operator? t.symbol = some op) (hr : w.IsValueOf strength.IsRight us) :
    ∃ m, (ts ++ t :: us).foldlM step empty = .ok m ∧ ∀ u, m.finish u = close (some (v, op)) w := by
  cases strength
  case sum =>
    have ⟨product, f, hm, hp⟩ := foldlM_sum (reachesSum hl) ho (reachesTerm hr)
    refine ⟨_, hm, fun u => ?_⟩
    rw [finish_holds, hp]
    rfl
  case product =>
    have hm : (ts ++ t :: us).foldlM step empty = .ok ⟨none, some (v, op), .holds w⟩ :=
      foldlM_product (reachesTerm hl) ho hr
    refine ⟨_, hm, fun u => ?_⟩
    rw [finish_holds]
    cases close (some (v, op)) w <;> rfl

theorem exists_reads_sign {c : Char} {symbol : Symbol} (hc : Symbol.ofChar? c = some symbol)
    (p : Nat) : ∃ t, t.symbol = symbol ∧ Reads p [' ', c, ' '] [t] := by
  have hd := Symbol.isDigit_of_ofChar? hc
  have hr : Reads (p + 1 + size [c]) [' '] [] := .blank (by decide) .nil
  exact ⟨_, rfl, .blank (by decide) (.token (.sign hc) (.of_last (by simpa using hd)) hr)⟩

-- Both texts read as they do by themselves, and between them an operator is read.
theorem Reads.join {c : Char} {symbol : Symbol} (hx : Reads 0 x.toList ts)
    (hy : Reads 0 y.toList us) (hm : mid.toList = [' ', c, ' '])
    (hc : Symbol.ofChar? c = some symbol) :
    ∃ t, t.symbol = symbol ∧
      Reads 0 (x ++ mid ++ y).toList (ts ++ t :: us.map (·.shift (x.utf8ByteSize + 3))) := by
  have ⟨t, ht, hr⟩ := exists_reads_sign hc (0 + size x.toList)
  refine ⟨t, ht, ?_⟩
  have hn : 0 + size (x.toList ++ [' ', c, ' ']) = 0 + (x.utf8ByteSize + 3) := by
    have := Symbol.utf8Size_of_ofChar? hc
    simp [this]
    rfl
  have hb : Seam x.toList [' ', c, ' '] := .of_head (by simp)
  have hj := (hx.append hr hb).append (hn ▸ hy.shift (x.utf8ByteSize + 3)) (.of_last (by simp))
  simpa [hm] using hj

theorem Machine.value_close : (close (some (v, op)) w).map (·.value) =
    if op = .divide ∧ w.value = 0 then .error (.divisionByZero w.span)
    else Word.orOverflow ⟨v.span.start, w.span.stop⟩ (op.exact v.value.toInt w.value.toInt) := by
  rw [close, Word.orOverflow]
  split
  case isTrue => rfl
  case isFalse => cases Word.ofInt? (op.exact v.value.toInt w.value.toInt) <;> rfl

theorem evaluate_join (strength : Precedence) (op : Operator) {c : Char}
    (hx : Reads 0 x.toList ts) (hy : Reads 0 y.toList us) (hm : mid.toList = [' ', c, ' '])
    (ho : (Symbol.ofChar? c).bind strength.operator? = some op)
    (hl : v.IsValueOf strength.IsLeft ts) (hr : w.IsValueOf strength.IsRight us) :
    evaluate (x ++ mid ++ y) =
      if op = .divide ∧ w.value = 0 then
        .error (.divisionByZero (w.span.shift (x.utf8ByteSize + 3)))
      else
        Word.orOverflow ⟨v.span.start, x.utf8ByteSize + 3 + w.span.stop⟩
          (op.exact v.value.toInt w.value.toInt) := by
  obtain ⟨symbol, hc, ho⟩ := Option.bind_eq_some_iff.mp ho
  obtain ⟨t, rfl, h⟩ := hx.join hy hm hc
  obtain ⟨m, hm, hf⟩ := Machine.exists_finish_eq_close hl ho (hr.shift _)
  rw [evaluate_of_foldlM (List.append_nil _).symm h .nil_right hm, Cursor.stream_of_ends .finish,
    Machine.run_nil, hf, Nat.add_comm _ w.span.stop]
  exact Machine.value_close

-- Two expressions with an operator between them come to what it makes of their values, if a term is
-- added or subtracted, or if a term is multiplied or divided by a factor.
theorem evaluate_compose {a b : Word} (hx : evaluate x = .ok a) (hy : evaluate y = .ok b) :
    ∃ ts us left right, Composes x y a b ts us left right := by
  obtain ⟨ts, v, hts, hv, rfl⟩ := reads_of_evaluate hx
  obtain ⟨us, w, hus, hw, rfl⟩ := reads_of_evaluate hy
  refine ⟨ts, us, v.span, w.span, ?_⟩
  constructor
  case left_tokens => exact tokenize_eq_ok_iff.mpr hts
  case right_tokens => exact tokenize_eq_ok_iff.mpr hus
  case left_covers => exact hv.covers
  case right_covers => exact hw.covers
  case sum =>
    intro hu
    exact evaluate_join .sum .add hts hus rfl rfl hv (hw.isTerm hu)
  case difference =>
    intro hu
    exact evaluate_join .sum .subtract hts hus rfl rfl hv (hw.isTerm hu)
  case product =>
    intro ht hu
    exact evaluate_join .product .multiply hts hus rfl rfl (hv.isTerm ht) (hw.isFactor hu)
  case zero =>
    intro ht hu hb
    rw [evaluate_join .product .divide hts hus rfl rfl (hv.isTerm ht) (hw.isFactor hu)]
    exact if_pos ⟨rfl, hb⟩
  case least =>
    intro ht hu ha hb
    have hz : w.value ≠ 0 := by simp [hb]
    have hn := mt (Word.fits_tdiv_iff hz).mp (not_not.mpr ⟨ha, hb⟩)
    rw [evaluate_join .product .divide hts hus rfl rfl (hv.isTerm ht) (hw.isFactor hu),
      if_neg (hz ·.2)]
    exact Word.orOverflow_of_not_fits hn
  case quotient =>
    intro ht hu hz hn
    have ⟨q, hq⟩ := ((Word.fits_tdiv_iff hz).mpr hn).exists_word
    rw [evaluate_join .product .divide hts hus rfl rfl (hv.isTerm ht) (hw.isFactor hu),
      if_neg (hz ·.2)]
    exact ⟨q, Word.orOverflow_of_toInt hq, hq⟩

-- The signs of the numbers are no operators. These are the term and the factor of which no quotient
-- is a word.
theorem evaluate_compose_least_word :
    ∃ ts us left right,
      Composes "-4611686018427387904*2" " -1" Int64.minValue (-1) ts us left right ∧
        Unjoined .sum ts ∧ ∀ strength, Unjoined strength us := by
  have ⟨ts, us, left, right, h⟩ := evaluate_compose (x := "-4611686018427387904*2") (y := " -1")
    (a := Int64.minValue) (b := -1) (by decide +kernel) (by decide +kernel)
  have ht : tokenize "-4611686018427387904*2" =
      .ok [⟨.minus, 0, 1⟩, ⟨.number 4611686018427387904, 1, 20⟩, ⟨.star, 20, 21⟩,
        ⟨.number 2, 21, 22⟩] := by decide +kernel
  have hu : tokenize " -1" = .ok [⟨.minus, 1, 2⟩, ⟨.number 1, 2, 3⟩] := by decide +kernel
  refine ⟨ts, us, left, right, h, ?_, ?_⟩
  · rw [Except.ok.inj (h.left_tokens.symm.trans ht)]
    decide
  · rw [Except.ok.inj (h.right_tokens.symm.trans hu)]
    rintro ⟨⟩ <;> decide

end Calculator
