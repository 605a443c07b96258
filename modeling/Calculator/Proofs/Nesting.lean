import Calculator.Proofs.Safety

namespace Calculator

-- Only the least word has no negation.
theorem Word.toInt_neg_of_natAbs_le {value : Word}
    (h : (value.toInt.natAbs : Int) ≤ Int64.maxValue.toInt) :
    (-value).toInt = -value.toInt := by
  change (value.toInt.natAbs : Int) ≤ 9223372036854775807 at h
  rw [Int64.toInt_neg]
  apply Int.bmod_eq_of_le <;> omega

namespace Lookahead

deriving instance DecidableEq for EStateM.Result

-- A lookahead that a parse of the text can come to, wherever in the text the parse begins.
inductive Reachable (text : String) : Lookahead → Prop where
  | first {moves : List Move} {l : Lookahead} :
    ofCursor ((Session.ofText text).after moves).reader.cursor = .ok l → Reachable text l
  | note {l : Lookahead} {e : Event} : Reachable text l → Reachable text (l.note e)
  | consume {l next : Lookahead} {wanted : Category} {t : Token} :
    Reachable text l → l.consume wanted = .ok t next → Reachable text next

def unlogged (l : Lookahead) : Lookahead :=
  { l with history := [] }

def Outcome.unlogged {α : Type} : Outcome α → Outcome α
  | .ok a l => .ok a l.unlogged
  | .error f l => .error f l.unlogged

def negate (sign : Token) (v : Operand) (l : Lookahead) : Outcome Operand :=
  match Word.ofInt? (-v.value.toInt) with
  | none => .error (.overflow ⟨sign.span.start, v.span.stop⟩) l
  | some value => .ok ⟨value, sign.span.start, v.span.stop⟩ l

-- The rule of a factor as one that calls itself: a sign in front of a factor is a factor again,
-- and a minus sign negates what is behind it.
def nested (l : Lookahead) : Outcome Operand :=
  match l.current.symbol with
  | .plus =>
    match _h : l.consume .plus with
    | .error f l => .error f l
    | .ok sign next =>
      next.nested.andThen fun v l => .ok ⟨v.value, sign.span.start, v.span.stop⟩ l
  | .minus =>
    match _h : l.consume .minus with
    | .error f l => .error f l
    | .ok sign next => next.nested.andThen (negate sign)
  | .number value => (l.consume .number).andThen fun t l => .ok ⟨value, t.span⟩ l
  | _ => .error (.unexpectedToken .operand l.current) l
termination_by l.size
decreasing_by all_goals exact size_lt_of_consume _h (by decide)

variable {text : String} {l l' last next : Lookahead} {wanted : Category} {t sign : Token}
variable {value : Word} {v : Operand} {start : Span} {n : Nat}

theorem Reachable.within (h : l.Reachable text) : l.Within text := by
  induction h
  case first hl => exact .of_scan (within_after text _) (scan_of_ofCursor hl)
  case note ih => exact ih.note _
  case consume hc ih => exact (ih.consume hc).1

theorem nested_plus (h : l.current.symbol = .plus) :
    l.nested = (l.consume .plus).andThen fun sign next =>
      next.nested.andThen fun v l => .ok ⟨v.value, sign.span.start, v.span.stop⟩ l := by
  rw [nested]
  simp only [h]
  split <;> simp_all

theorem nested_minus (h : l.current.symbol = .minus) :
    l.nested = (l.consume .minus).andThen fun sign next => next.nested.andThen (negate sign) := by
  rw [nested]
  simp only [h]
  split <;> simp_all

theorem nested_number (h : l.current.symbol = .number value) :
    l.nested = (l.consume .number).andThen fun t l => .ok ⟨value, t.span⟩ l := by
  rw [nested]
  simp only [h]

theorem nested_error (hp : l.current.symbol ≠ .plus) (hm : l.current.symbol ≠ .minus)
    (hn : ∀ value, l.current.symbol ≠ .number value) :
    l.nested = .error (.unexpectedToken .operand l.current) l := by
  rw [nested]
  split <;> simp_all

theorem start_of_nested (h : l.nested = .ok v last) : v.span.start = l.current.span.start := by
  cases hs : l.current.symbol
  case plus =>
    rw [nested_plus hs] at h
    obtain ⟨sign, next, hc, h⟩ := Outcome.eq_ok_of_andThen h
    obtain ⟨w, last', -, h⟩ := Outcome.eq_ok_of_andThen h
    cases h
    rw [(consume_eq_ok hc).1]
  case minus =>
    rw [nested_minus hs] at h
    obtain ⟨sign, next, hc, h⟩ := Outcome.eq_ok_of_andThen h
    obtain ⟨w, last', -, h⟩ := Outcome.eq_ok_of_andThen h
    unfold negate at h
    split at h <;> cases h
    rw [(consume_eq_ok hc).1]
  case number value =>
    rw [nested_number hs] at h
    obtain ⟨t, next, hc, h⟩ := Outcome.eq_ok_of_andThen h
    cases h
    rw [(consume_eq_ok hc).1]
  all_goals
    rw [nested_error (by simp [hs]) (by simp [hs]) (by simp [hs])] at h
    cases h

theorem negate_eq_ok (h : (v.value.toInt.natAbs : Int) ≤ Int64.maxValue.toInt) :
    negate sign v l = .ok ⟨-v.value, sign.span.start, v.span.stop⟩ l := by
  rw [negate, Word.ofInt?_eq_some_iff.mpr (Word.toInt_neg_of_natAbs_le h)]

-- Numerals are not negative, and signs leave a value as far from zero as it is.
theorem natAbs_le_of_nested (hl : l.Within text) (h : l.nested = .ok v last) :
    (v.value.toInt.natAbs : Int) ≤ Int64.maxValue.toInt := by
  fun_induction nested l generalizing v last
  case case1 => cases h
  case case2 l hs sign next hc ih =>
    obtain ⟨w, last', hn, h⟩ := Outcome.eq_ok_of_andThen h
    have hw := ih (hl.consume hc).1 hn
    cases h
    exact hw
  case case3 => cases h
  case case4 l hs sign next hc ih =>
    obtain ⟨w, last', hn, h⟩ := Outcome.eq_ok_of_andThen h
    have hw := ih (hl.consume hc).1 hn
    rw [negate_eq_ok hw] at h
    cases h
    simpa [Word.toInt_neg_of_natAbs_le hw] using hw
  case case5 l value hs =>
    obtain ⟨h₀, h₁⟩ := hl.current.number value hs
    obtain ⟨t, next, -, h⟩ := Outcome.eq_ok_of_andThen h
    cases h
    rwa [Int.natAbs_of_nonneg h₀]
  case case6 => cases h

-- Counted or not, the signs come to the same.
theorem signed_eq_nested (hl : l.Within text) (hs : start.start ≤ l.current.span.start)
    (he : start.stop ≤ l.current.span.stop) :
    l.signed start n = l.nested.andThen fun v last =>
      .ok ⟨if n % 2 = 1 then -v.value else v.value, start.start, v.span.stop⟩ last := by
  -- The signs that have been counted stand outside: if their minus signs are odd in number, they
  -- negate what `nested` makes of the rest.
  fun_induction signed start n l
  case case1 n l hp f last hc =>
    rw [nested_plus hp, hc]
    rfl
  case case2 n l hp sign next hc ih =>
    obtain ⟨hn, hle⟩ := hl.consume hc
    have := hl.current.span.start_le
    have := hn.current.span.start_le
    rw [nested_plus hp, hc, Outcome.ok_andThen, Outcome.andThen_assoc]
    exact ih hn (by omega) (by omega)
  case case3 n l hm f last hc =>
    rw [nested_minus hm, hc]
    rfl
  case case4 n l hm sign next hc ih =>
    obtain ⟨hn, hle⟩ := hl.consume hc
    have := hl.current.span.start_le
    have := hn.current.span.start_le
    rw [nested_minus hm, hc, Outcome.ok_andThen, ih hn (by omega) (by omega)]
    cases hv : next.nested
    case error => rfl
    case ok v last =>
      -- One more minus sign is counted on the one side, and negates once more on the other.
      simp only [Outcome.ok_andThen, negate_eq_ok (natAbs_le_of_nested hn hv)]
      by_cases hodd : n % 2 = 1
      case pos =>
        have hne : ¬(n + 1) % 2 = 1 := by omega
        simp [hodd, hne]
      case neg =>
        have hne : (n + 1) % 2 = 1 := by omega
        simp [hodd, hne]
  case case5 n l value hv f last hc =>
    rw [nested_number hv, hc]
    rfl
  case case6 n l value hv t last hc =>
    obtain ⟨rfl, -⟩ := consume_eq_ok hc
    rw [nested_number hv, hc, Span.hull_eq hs he]
    rfl
  case case7 n l hp hm hn =>
    rw [nested_error hp hm fun value h => hn value h]
    rfl

theorem unlogged_consume (h : l.unlogged = l'.unlogged) :
    (l.consume wanted).unlogged = (l'.consume wanted).unlogged := by
  obtain ⟨cursor, current, history⟩ := l
  obtain ⟨_, _, history'⟩ := l'
  cases h
  simp only [consume, advance]
  split
  case isTrue =>
    generalize cursor.scan = x
    obtain ⟨item, next⟩ := x
    cases item <;> rfl
  case isFalse => rfl

theorem Outcome.unlogged_andThen {α β : Type} {out out' : Outcome α}
    {k : α → Lookahead → Outcome β} (h : out.unlogged = out'.unlogged)
    (hk : ∀ a l l', out = .ok a l → l.unlogged = l'.unlogged →
      (k a l).unlogged = (k a l').unlogged) :
    (out.andThen k).unlogged = (out'.andThen k).unlogged := by
  cases out <;> cases out'
  case error.error f l f' l' =>
    obtain ⟨hf, hl⟩ : f = f' ∧ l.unlogged = l'.unlogged := by simpa [unlogged] using h
    simp [unlogged, hf, hl]
  case ok.ok a l a' l' =>
    obtain ⟨ha, hl⟩ : a = a' ∧ l.unlogged = l'.unlogged := by simpa [unlogged] using h
    exact ha ▸ hk a l l' rfl hl
  all_goals cases h

theorem unlogged_nested (h : l.unlogged = l'.unlogged) :
    l.nested.unlogged = l'.nested.unlogged := by
  induction hn : l.size using Nat.strongRecOn generalizing l l'
  case ind n ih =>
    have hc : l.current = l'.current := by
      have hc : l.unlogged.current = l'.unlogged.current := by rw [h]
      exact hc
    -- Whatever their logs, what is left behind a token is smaller on both sides.
    have ih : ∀ wanted, wanted ≠ .finish → ∀ (sign : Token) (next next' : Lookahead),
        l.consume wanted = .ok sign next → next.unlogged = next'.unlogged →
        next.nested.unlogged = next'.nested.unlogged :=
      fun wanted hw sign next next' hs hu =>
        ih next.size (hn ▸ size_lt_of_consume hs hw) hu rfl
    cases hs : l.current.symbol
    case plus =>
      rw [nested_plus hs, nested_plus (hc ▸ hs)]
      refine Outcome.unlogged_andThen (unlogged_consume h) fun sign next next' hn hu => ?_
      refine Outcome.unlogged_andThen (ih _ (by decide) _ _ _ hn hu) fun v l l' _ hl => ?_
      simp [Outcome.unlogged, hl]
    case minus =>
      rw [nested_minus hs, nested_minus (hc ▸ hs)]
      refine Outcome.unlogged_andThen (unlogged_consume h) fun sign next next' hn hu => ?_
      refine Outcome.unlogged_andThen (ih _ (by decide) _ _ _ hn hu) fun v l l' _ hl => ?_
      unfold negate
      split <;> simp [Outcome.unlogged, hl]
    case number value =>
      rw [nested_number hs, nested_number (hc ▸ hs)]
      refine Outcome.unlogged_andThen (unlogged_consume h) fun t l l' _ hl => ?_
      simp [Outcome.unlogged, hl]
    all_goals
      rw [nested_error (by simp [hs]) (by simp [hs]) (by simp [hs]),
        nested_error (by simp [← hc, hs]) (by simp [← hc, hs]) (by simp [← hc, hs])]
      simp [Outcome.unlogged, hc, h]

theorem factor_eq (hl : l.Within text) :
    l.factor = (l.note (.entered .factor l.current.span)).nested := by
  have hl' : (l.note (.entered .factor l.current.span)).Within text := hl.note _
  have hf : l.factor = _ := signed_eq_nested (n := 0) hl' (Nat.le_refl _) (Nat.le_refl _)
  rw [hf]
  cases hn : (l.note (.entered .factor l.current.span)).nested
  case error => rfl
  case ok v last =>
    have hv := start_of_nested hn
    rw [current_note] at hv
    simp only [Outcome.ok_andThen, ← hv]
    rfl

-- The rule that counts signs gives what the rule that calls itself gives, and no minus sign of the
-- latter fails.
theorem factor_eq_nested (h : l.Reachable text) :
    l.factor.unlogged = l.nested.unlogged ∧
      ∀ sign next v last, l.consume .minus = .ok sign next → next.nested = .ok v last →
        negate sign v last = .ok ⟨-v.value, sign.span.start, v.span.stop⟩ last := by
  constructor
  case left =>
    rw [factor_eq h.within]
    exact unlogged_nested rfl
  case right =>
    intro sign next v last hc hn
    exact negate_eq_ok (natAbs_le_of_nested (h.within.consume hc).1 hn)

theorem factor_eq_nested_three_signs :
    ∃ l : Lookahead, l.Reachable "- + -5" ∧
      l.nested.unlogged = .ok ⟨5, 0, 6⟩ ⟨⟨6, []⟩, ⟨.finish, 6, 6⟩, []⟩ ∧
      l.factor.unlogged = l.nested.unlogged ∧
      ∀ sign next v last, l.consume .minus = .ok sign next → next.nested = .ok v last →
        negate sign v last = .ok ⟨-v.value, sign.span.start, v.span.stop⟩ last := by
  have h : ofCursor ((Session.ofText "- + -5").after []).reader.cursor =
      .ok ⟨⟨1, " + -5".toList⟩, ⟨.minus, 0, 1⟩, [.scanned ⟨.minus, 0, 1⟩]⟩ := by decide +kernel
  exact ⟨_, .first h, by decide +kernel, factor_eq_nested (.first h)⟩

end Lookahead
end Calculator
