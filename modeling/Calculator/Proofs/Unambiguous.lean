import Calculator.Proofs.Spelling

namespace Calculator

open Text (isBlank)

variable {c : Char} {text digits : List Char} {x y : Lexeme} {row next front back : List Lexeme}
variable {strength : Precedence} {Is : List Lexeme → Int → Prop} {v w : Int} {op : Operator}

namespace Spells

theorem of_blank (h : Spells (c :: text) row) (hc : isBlank c) : Spells text row := by
  generalize ht : c :: text = t at h
  cases h
  case nil => cases ht
  case blank h =>
    cases ht
    exact h
  case sign hx _ =>
    cases ht
    have ⟨s, hs, _⟩ := Lexeme.exists_symbol hx
    simp [Symbol.isBlank_of_ofChar? hs] at hc
  case number hn hd _ _ =>
    have ⟨d, ds, hds⟩ := List.exists_cons_of_ne_nil hn
    rw [hds] at ht hd
    cases ht
    have := Text.isDigit_eq_false_of_isBlank hc
    simp [hd c (by simp)] at this

theorem of_sign (h : Spells (c :: text) row) (hx : Lexeme.ofSign? c = some x) :
    ∃ r, row = x :: r ∧ Spells text r := by
  have ⟨s, hs, _⟩ := Lexeme.exists_symbol hx
  generalize ht : c :: text = t at h
  cases h
  case nil => cases ht
  case blank hb _ =>
    cases ht
    simp [Symbol.isBlank_of_ofChar? hs] at hb
  case sign hy h =>
    cases ht
    cases hx.symm.trans hy
    exact ⟨_, rfl, h⟩
  case number hn hd _ _ =>
    have ⟨d, ds, hds⟩ := List.exists_cons_of_ne_nil hn
    rw [hds] at ht hd
    cases ht
    have := Symbol.isDigit_of_ofChar? hs
    simp [hd c (by simp)] at this

theorem of_digits (h : Spells (digits ++ text) row) (hn : digits ≠ [])
    (hd : ∀ d ∈ digits, d.isDigit) (ht : ∀ c ∈ text.head?, c.isDigit = false) :
    ∃ r, row = .number (Numeral.value digits) :: r ∧ Spells text r := by
  have ⟨h₁, h₂⟩ := Cursor.digits_eq (p := 0) hd hn (.of_head ht)
  have ⟨d, ds, hds⟩ := List.exists_cons_of_ne_nil hn
  have hc : d.isDigit := hd d (by simp [hds])
  generalize he : digits ++ text = t at h
  cases h
  case nil => simp [hn] at he
  case blank hb _ =>
    rw [hds] at he
    cases he
    simp [Text.isDigit_eq_false_of_isBlank hb] at hc
  case sign hx _ =>
    rw [hds] at he
    cases he
    have ⟨s, hs, _⟩ := Lexeme.exists_symbol hx
    simp [Symbol.isDigit_of_ofChar? hs] at hc
  case number hn' hd' ht' h =>
    have ⟨h₁', h₂'⟩ := Cursor.digits_eq (p := 0) hd' hn' (.of_head ht')
    rw [← he] at h₁' h₂'
    cases h₁.symm.trans h₁'
    cases h₂.symm.trans h₂'
    exact ⟨_, rfl, h⟩

theorem unique (h : Spells text row) (h' : Spells text next) : row = next := by
  induction h generalizing next
  case nil =>
    generalize ht : [] = t at h'
    cases h'
    case nil => rfl
    case number hn _ _ _ => simp [hn] at ht
    all_goals cases ht
  case blank hc _ ih => exact ih (h'.of_blank hc)
  case sign hx _ ih =>
    have ⟨r, hr, h⟩ := h'.of_sign hx
    rw [hr, ih h]
  case number hn hd ht _ ih =>
    have ⟨r, hr, h⟩ := h'.of_digits hn hd ht
    rw [hr, ih h]

end Spells

namespace Lexeme

def operator? (strength : Precedence) (x : Lexeme) : Option Operator :=
  x.symbol?.bind strength.operator?

theorem operator?_number {n : Nat} : operator? strength (number n) = none := by
  rw [operator?]
  cases hs : (number n).symbol?
  case none => rfl
  case some s =>
    obtain ⟨w, rfl, -⟩ := symbol?_number hs
    cases strength <;> rfl

end Lexeme

def EndsInNumber (row : List Lexeme) : Prop :=
  ∃ n, row.getLast? = some (.number n)

def Solid (strength : Precedence) (row : List Lexeme) : Prop :=
  ∀ front x back, row = front ++ x :: back → EndsInNumber front → x.operator? strength = none

theorem Lexeme.ne_number (h : x.operator? strength = some op) (n : Nat) : x ≠ number n := by
  rintro rfl
  simp [operator?_number] at h

namespace EndsInNumber

theorem append (h : EndsInNumber next) : EndsInNumber (row ++ x :: next) := by
  have ⟨n, hn⟩ := h
  exact ⟨n, by simp [List.getLast?_append, List.getLast?_cons, hn]⟩

theorem cons (h : EndsInNumber next) : EndsInNumber (x :: next) := by
  rw [← List.nil_append (x :: next)]
  exact h.append

theorem of_append (h : EndsInNumber (row ++ x :: next)) (hx : ∀ n, x ≠ .number n) :
    EndsInNumber next := by
  have ⟨n, hn⟩ := h
  cases next
  case nil => exact absurd (by simpa using hn) (hx n)
  case cons => exact ⟨n, by simpa [List.getLast?_append] using hn⟩

theorem of_cons (h : EndsInNumber (x :: next)) (hx : ∀ n, x ≠ .number n) : EndsInNumber next := by
  rw [← List.nil_append (x :: next)] at h
  exact h.of_append hx

theorem ne_nil (h : EndsInNumber row) : row ≠ [] := by
  have ⟨n, hn⟩ := h
  rintro rfl
  cases hn

end EndsInNumber

theorem Matches.exists_last {ts : List Token} (hm : Matches ts row) (h : EndsInNumber row) :
    ∃ us t w, ts = us ++ [t] ∧ t.symbol = .number w := by
  have ⟨n, hn⟩ := h
  obtain ⟨front, rfl⟩ := List.getLast?_eq_some_iff.mp hn
  obtain ⟨us, _, rfl, -, hl⟩ := hm.of_append
  obtain ⟨t, rest, rfl, hx, hr⟩ := hl.of_cons
  have ⟨w, hw, _⟩ := Lexeme.symbol?_number hx
  exact ⟨us, t, w, by rw [hr.eq_nil_iff.mpr rfl], hw⟩

-- There is one last operator of the strength that follows a number.
theorem append_inj_of_solid {row' next' : List Lexeme} {op' : Operator}
    (h : row ++ x :: next = row' ++ y :: next') (hr : EndsInNumber row) (hr' : EndsInNumber row')
    (hx : x.operator? strength = some op) (hy : y.operator? strength = some op')
    (hn : Solid strength next) (hn' : Solid strength next') :
    row = row' ∧ x = y ∧ next = next' := by
  -- Neither operator can stand in the row behind the other, as both of these rows are solid.
  obtain ⟨a, rfl, ha⟩ | ⟨a, rfl, ha⟩ := List.append_eq_append_iff.mp h
  all_goals cases a
  case inl.nil => simpa using ha
  case inl.cons z a =>
    obtain ⟨rfl, ha'⟩ := List.cons.inj ha
    simp [hn a y next' ha' (hr'.of_append (Lexeme.ne_number hx))] at hy
  case inr.nil => simpa [eq_comm] using ha
  case inr.cons z a =>
    obtain ⟨rfl, ha'⟩ := List.cons.inj ha
    simp [hn' a x next ha' (hr.of_append (Lexeme.ne_number hy))] at hx

inductive Chain (strength : Precedence) (Is : List Lexeme → Int → Prop) :
    List Lexeme → Int → Prop where
  | one {row : List Lexeme} {v : Int} : Is row v → Chain strength Is row v
  | more {row next : List Lexeme} {x : Lexeme} {v w : Int} {op : Operator} :
    Chain strength Is row v → x.operator? strength = some op → Is next w →
    Chain strength Is (row ++ x :: next) (op.exact v w)

namespace Chain

theorem endsInNumber (he : ∀ {row v}, Is row v → EndsInNumber row) (h : Chain strength Is row v) :
    EndsInNumber row := by
  cases h
  case one h => exact he h
  case more h => exact (he h).append

theorem unique (he : ∀ {row v}, Is row v → EndsInNumber row)
    (hs : ∀ {row v}, Is row v → Solid strength row)
    (hu : ∀ {row v w}, Is row v → Is row w → v = w) (h : Chain strength Is row v)
    (h' : Chain strength Is row w) : v = w := by
  induction h generalizing w
  case one h =>
    cases h'
    case one h' => exact hu h h'
    case more h' hx _ => simp [hs h _ _ _ rfl (h'.endsInNumber he)] at hx
  case more row next x _ _ _ h hx hn ih =>
    generalize hr : row ++ x :: next = r at h'
    cases h'
    case one h' => simp [hs h' _ _ _ hr.symm (h.endsInNumber he)] at hx
    case more h' hy hn' =>
      obtain ⟨rfl, rfl, rfl⟩ := append_inj_of_solid hr (h.endsInNumber he) (h'.endsInNumber he)
        hx hy (hs hn) (hs hn')
      cases hx.symm.trans hy
      rw [ih h', hu hn hn']

theorem solid {other : Precedence} (hs : ∀ {row v}, Is row v → Solid other row)
    (ho : ∀ {x op}, Lexeme.operator? strength x = some op → x.operator? other = none)
    (h : Chain strength Is row v) : Solid other row := by
  induction h
  case one h => exact hs h
  case more row next x _ _ _ h hx hn ih =>
    intro front y back hr hf
    obtain ⟨a, rfl, ha⟩ | ⟨a, rfl, ha⟩ := List.append_eq_append_iff.mp hr
    all_goals cases a
    case inl.nil =>
      obtain ⟨rfl, -⟩ := List.cons.inj ha
      exact ho hx
    case inl.cons z a =>
      obtain ⟨rfl, ha'⟩ := List.cons.inj ha
      exact hs hn a y back ha' (hf.of_append (Lexeme.ne_number hx))
    case inr.nil =>
      obtain ⟨rfl, -⟩ := List.cons.inj ha
      exact ho hx
    case inr.cons z a =>
      obtain ⟨rfl, ha'⟩ := List.cons.inj ha
      exact ih front y a rfl hf

end Chain

namespace IsFactor

theorem endsInNumber (h : IsFactor row v) : EndsInNumber row := by
  induction h
  case number n => exact ⟨n, rfl⟩
  case plus ih => exact ih.cons
  case minus ih => exact ih.cons

theorem solid (h : IsFactor row v) : Solid strength row := by
  intro front x back hr hf
  induction h generalizing front
  all_goals cases front
  case number.cons => simp at hr
  case plus.cons ih y front =>
    obtain ⟨rfl, hr'⟩ := List.cons.inj hr
    exact ih front hr' (hf.of_cons (by simp))
  case minus.cons ih y front =>
    obtain ⟨rfl, hr'⟩ := List.cons.inj hr
    exact ih front hr' (hf.of_cons (by simp))
  all_goals exact absurd rfl hf.ne_nil

theorem unique (h : IsFactor row v) (h' : IsFactor row w) : v = w := by
  induction h generalizing w
  case number =>
    cases h'
    rfl
  case plus ih =>
    cases h'
    case plus h' => exact ih h'
  case minus ih =>
    cases h'
    case minus h' => rw [ih h']

end IsFactor

namespace IsTerm

variable {p q : Int → Prop}

theorem chain (h : IsTerm p row v) : Chain .product IsFactor row v := by
  have hs : Lexeme.operator? .product .star = some .multiply := rfl
  have hd : Lexeme.operator? .product .slash = some .divide := rfl
  induction h
  case factor h => exact .one h
  case times hn _ ih => exact ih.more hs hn
  case divided hn _ _ ih => exact ih.more hd hn

theorem endsInNumber (h : IsTerm p row v) : EndsInNumber row :=
  h.chain.endsInNumber IsFactor.endsInNumber

theorem solid (h : IsTerm p row v) : Solid .sum row := by
  apply h.chain.solid IsFactor.solid
  intro x op hx
  cases x
  case number => exact Lexeme.operator?_number
  case plus => cases hx
  case minus => cases hx
  all_goals rfl

theorem unique (h : IsTerm p row v) (h' : IsTerm q row w) : v = w :=
  h.chain.unique IsFactor.endsInNumber IsFactor.solid IsFactor.unique h'.chain

end IsTerm

namespace IsExpression

variable {p q : Int → Prop}

theorem chain (h : IsExpression p row v) : Chain .sum (IsTerm fun _ => True) row v := by
  have hp : Lexeme.operator? .sum .plus = some .add := rfl
  have hm : Lexeme.operator? .sum .minus = some .subtract := rfl
  induction h
  case term h => exact .one (h.mono fun _ _ => trivial)
  case plus hn _ ih => exact ih.more hp (hn.mono fun _ _ => trivial)
  case minus hn _ ih => exact ih.more hm (hn.mono fun _ _ => trivial)

theorem unique (h : IsExpression p row v) (h' : IsExpression q row w) : v = w :=
  h.chain.unique IsTerm.endsInNumber IsTerm.solid IsTerm.unique h'.chain

end IsExpression

theorem ExactValue.unique {text : String} (h : ExactValue text v) (h' : ExactValue text w) :
    v = w := by
  have ⟨row, hs, hv⟩ := h
  have ⟨row', hs', hw⟩ := h'
  exact hv.unique (hs'.unique hs ▸ hw)

end Calculator
