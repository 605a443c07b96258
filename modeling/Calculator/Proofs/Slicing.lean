import Calculator.Proofs.Derivation
import Calculator.Proofs.Reading

namespace Calculator

open Text (size)

variable {n p : Nat} {text : List Char} {s : Span} {t : Token} {ts us ws : List Token}
variable {row : List Lexeme} {Is : List Lexeme → Int → Prop} {v : Operand}

theorem Reads.split_before (h : Reads p text (ts ++ t :: us)) :
    ∃ front back, text = front ++ back ∧ Reads p front ts ∧ Reads t.span.start back (t :: us) ∧
      t.span.start = p + size front := by
  obtain ⟨front, body, back, rfl, hc⟩ := h.cut
  have hs : t = ⟨t.symbol, t.span.start, t.span.start + size body⟩ := by
    obtain ⟨symbol, span⟩ := t
    have hs : span = _ := hc.span_eq
    simp [hs]
  have ha := hc.after
  refine ⟨front, body ++ back, List.append_assoc .., hc.before, ?_, by rw [hc.span_eq]⟩
  rw [hs] at ha ⊢
  exact .token hc.spelled hc.seam_right ha

theorem Reads.split_after (h : Reads p text (ts ++ t :: us)) :
    ∃ front back, text = front ++ back ∧ Reads p front (ts ++ [t]) ∧
      Reads t.span.stop back us ∧ t.span.stop = p + size front := by
  obtain ⟨front, body, back, rfl, hc⟩ := h.cut
  have hs : t = ⟨t.symbol, p + size front, p + size front + size body⟩ := by
    rw [← hc.span_eq]
  refine ⟨front ++ body, back, rfl, ?_, hc.after, by simp [hc.span_eq, Nat.add_assoc]⟩
  rw [hs]
  refine hc.before.append ?_ hc.seam_left.left
  simpa using Reads.token hc.spelled .nil_right .nil

theorem Span.Covers.split_head (h : s.Covers ts) :
    ∃ t us, ts = t :: us ∧ t.span.start = s.start := by
  obtain ⟨t, us, rfl⟩ := List.exists_cons_of_ne_nil h.ne_nil
  exact ⟨t, us, rfl, by simpa using h.start⟩

theorem Span.Covers.split_last (h : s.Covers ts) :
    ∃ us t, ts = us ++ [t] ∧ t.span.stop = s.stop := by
  have ⟨us, t, ht⟩ := ts.eq_nil_or_concat.resolve_left h.ne_nil
  rw [List.concat_eq_append] at ht
  exact ⟨us, t, ht, by simpa [ht] using h.stop⟩

theorem Reads.split_covers (h : Reads p text (ts ++ us ++ ws)) (hs : s.Covers us) :
    ∃ front mid back, text = front ++ mid ++ back ∧ Reads p front ts ∧ Reads s.start mid us ∧
      s = ⟨p + size front, p + size front + size mid⟩ := by
  have ⟨u, last, hu, hl⟩ := hs.split_last
  rw [hu, ← List.append_assoc, List.append_assoc _ [last]] at h
  obtain ⟨front, back, rfl, h, -, he⟩ := h.split_after
  rw [List.append_assoc, ← hu] at h
  have ⟨first, u', hu', hf⟩ := hs.split_head
  rw [hu'] at h
  obtain ⟨front, mid, rfl, hts, hus, hb⟩ := h.split_before
  refine ⟨front, mid, back, rfl, hts, hu' ▸ hf ▸ hus, ?_⟩
  obtain ⟨start, stop⟩ := s
  simp_all [Nat.add_assoc]

theorem Reads.of_shift (h : Reads (p + n) text ts) :
    ∃ us, ts = us.map (·.shift n) ∧ Reads p text us := by
  generalize hq : p + n = q at h
  induction h generalizing p
  case nil => exact ⟨[], rfl, .nil⟩
  case blank q c text ts hc _ ih =>
    have ⟨us, hu, h⟩ := ih (p := p + c.utf8Size) (by omega)
    exact ⟨us, hu, .blank hc h⟩
  case token q s body text ts hb hs _ ih =>
    have ⟨us, hu, h⟩ := ih (p := p + size body) (by omega)
    refine ⟨⟨s, p, p + size body⟩ :: us, ?_, .token hb hs h⟩
    simp only [List.map_cons, hu, Token.shift, Span.shift, List.cons.injEq, Token.mk.injEq,
      Span.mk.injEq, true_and, and_true]
    omega

theorem Matches.shift (h : Matches ts row) (n : Nat) : Matches (ts.map (·.shift n)) row := by
  rw [Matches] at *
  rw [h, List.map_map]
  rfl

theorem Span.Covers.shift (h : s.Covers ts) (n : Nat) : (s.shift n).Covers (ts.map (·.shift n)) := by
  have ⟨t, ht, hs⟩ := Option.map_eq_some_iff.mp h.start
  have ⟨u, hu, hs'⟩ := Option.map_eq_some_iff.mp h.stop
  constructor <;> simp [ht, hu, Token.shift, Span.shift, hs, hs']

theorem Span.Covers.of_shift (h : (s.shift n).Covers (ts.map (·.shift n))) : s.Covers ts := by
  have h₁ := h.start
  have h₂ := h.stop
  constructor
  · cases ht : ts.head? <;> simp_all [Token.shift, Span.shift]
  · cases ht : ts.getLast? <;> simp_all [Token.shift, Span.shift]

theorem Matches.of_shift (h : Matches (ts.map (·.shift n)) row) : Matches ts row := by
  rw [Matches] at *
  rw [h, List.map_map]
  rfl

theorem Operand.IsValueOf.of_shift (h : v.IsValueOf Is (ts.map (·.shift n))) :
    ∃ w : Operand, w.value = v.value ∧ w.IsValueOf Is ts := by
  have ⟨row, hm, hi⟩ := h.sentence
  have hn : ts ≠ [] := by simpa using h.covers.ne_nil
  have ⟨s, hs⟩ := Span.Covers.exists_of_ne_nil hn
  exact ⟨⟨v.value, s⟩, rfl, ⟨row, hm.of_shift, hi⟩, hs⟩

theorem Span.slice?_append {text : String} {front mid back : List Char}
    (h : text.toList = front ++ mid ++ back) :
    Span.slice? ⟨size front, size front + size mid⟩ text = some (.ofList mid) :=
  Span.slice?_eq_some_iff.mpr ⟨front, back, by simpa using h, rfl, by simp⟩

theorem Span.slice?_front {text : String} {front back : List Char}
    (h : text.toList = front ++ back) : Span.slice? ⟨0, size front⟩ text = some (.ofList front) :=
  Span.slice?_eq_some_iff.mpr ⟨[], back, by simpa using h, rfl, by simp⟩

structure Excerpt (text : String) (s : Span) (ts us : List Token) where
  before       : String
  inside       : String
  tokens       : List Token
  slice_before : Span.slice? ⟨0, s.start⟩ text = some before
  slice        : s.slice? text = some inside
  reads_before : Reads 0 before.toList ts
  reads        : Reads 0 inside.toList tokens
  shift        : us = tokens.map (·.shift s.start)
  covers       : Span.Covers ⟨0, inside.utf8ByteSize⟩ tokens

theorem Reads.excerpt {text : String} {front back : List Char} (ht : text.toList = front ++ back)
    (h : Reads 0 front (ts ++ us ++ ws)) (hs : s.Covers us) : Nonempty (Excerpt text s ts us) := by
  obtain ⟨before, mid, after, rfl, hb, hm, he⟩ := h.split_covers hs
  rw [Nat.zero_add] at he
  rw [← Nat.zero_add s.start] at hm
  have ⟨us', hu, hr⟩ := hm.of_shift
  constructor
  refine ⟨.ofList before, .ofList mid, us', ?_, ?_, by simpa using hb, by simpa using hr, hu, ?_⟩
  · rw [List.append_assoc, List.append_assoc] at ht
    exact he ▸ Span.slice?_front ht
  · rw [List.append_assoc] at ht
    exact he ▸ Span.slice?_append ht
  · apply Span.Covers.of_shift (n := s.start)
    have hs' : Span.shift s.start ⟨0, size mid⟩ = s := by
      simp [Span.shift, he, Nat.add_comm]
    rwa [← hu, ← Text.size_toList, String.toList_ofList, hs']

theorem Reads.head (h : Reads p text (t :: us)) (ht : t.span.start = p) :
    ∃ body rest, text = body ++ rest ∧ t.symbol.Spelled body := by
  rw [← List.nil_append (t :: us)] at h
  obtain ⟨front, body, back, rfl, hc⟩ := h.cut
  have hf : size front = 0 := by
    rw [hc.span_eq] at ht
    exact Nat.add_eq_left.mp ht
  exact ⟨body, back, by simp [Text.size_eq_zero_iff.mp hf], hc.spelled⟩

theorem Reads.last (h : Reads p text (ts ++ [t])) (ht : t.span.stop = p + size text) :
    ∃ front body, text = front ++ body ∧ t.symbol.Spelled body := by
  obtain ⟨front, body, back, rfl, hc⟩ := h.cut
  have hb : size back = 0 := by
    rw [hc.span_eq] at ht
    simp [Nat.add_assoc] at ht
    exact ht
  exact ⟨front, body, by simp [Text.size_eq_zero_iff.mp hb], hc.spelled⟩

end Calculator
