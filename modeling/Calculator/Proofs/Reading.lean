import Calculator.Cursor

namespace Calculator

open Text (isBlank size)

-- No digits stand on both sides, so that no numeral would be torn.
def Seam (front back : List Char) : Prop :=
  ∀ c ∈ front.getLast?, c.isDigit → ∀ d ∈ back.head?, d.isDigit = false

namespace Seam

variable {c : Char} {front mid back : List Char}

theorem nil_left : Seam [] back := by
  simp [Seam]

theorem nil_right : Seam front [] := by
  simp [Seam]

theorem of_head (h : ∀ d ∈ back.head?, d.isDigit = false) : Seam front back :=
  fun _ _ _ => h

theorem of_last (h : ∀ c ∈ front.getLast?, c.isDigit = false) : Seam front back := by
  intro c hc hd
  simp [h c hc] at hd

theorem left (h : Seam front (mid ++ back)) : Seam front mid := by
  intro c hc hd d hm
  apply h c hc hd
  simp_all [List.head?_append]

theorem right (h : Seam (front ++ mid) back) : Seam mid back := by
  intro c hc
  apply h c
  simp_all [List.getLast?_append]

theorem append_left (h : Seam mid back) (hf : mid = [] → Seam front back) :
    Seam (front ++ mid) back := by
  rcases mid.eq_nil_or_concat with rfl | ⟨mid, c, rfl⟩
  · simpa using hf rfl
  · simpa [Seam] using h

theorem cons (h : Seam front back) (hc : c.isDigit = false) : Seam (c :: front) back := by
  change Seam ([c] ++ front) back
  apply h.append_left
  rintro rfl
  exact of_last (by simpa using hc)

theorem tail (h : Seam (c :: front) back) : Seam front back := by
  rw [← List.singleton_append] at h
  exact h.right

theorem append_right (h : Seam front mid) (hm : mid = [] → Seam front back) :
    Seam front (mid ++ back) := by
  cases mid
  case nil => simpa using hm rfl
  case cons => simpa [Seam] using h

end Seam

namespace Symbol

inductive Spelled : Symbol → List Char → Prop where
  | sign {c : Char} {s : Symbol} : ofChar? c = some s → Spelled s [c]
  | number {digits : List Char} {n : Word} :
    digits ≠ [] → (∀ d ∈ digits, d.isDigit) → Numeral.read? digits = some n →
    Spelled (.number n) digits

theorem isBlank_of_ofChar? {c : Char} {s : Symbol} (h : ofChar? c = some s) :
    isBlank c = false := by
  unfold ofChar? at h
  split at h <;> cases h <;> decide

theorem isDigit_of_ofChar? {c : Char} {s : Symbol} (h : ofChar? c = some s) :
    c.isDigit = false := by
  unfold ofChar? at h
  split at h <;> cases h <;> decide

theorem ne_finish_of_ofChar? {c : Char} {s : Symbol} (h : ofChar? c = some s) : s ≠ .finish := by
  unfold ofChar? at h
  split at h <;> cases h <;> decide

theorem ofChar?_ne_number {c : Char} {n : Word} : ofChar? c ≠ some (number n) := by
  unfold ofChar?
  split <;> simp

theorem eq_of_ofChar? {c d : Char} {s : Symbol} (hc : ofChar? c = some s)
    (hd : ofChar? d = some s) : c = d := by
  unfold ofChar? at hc hd
  split at hc <;> cases hc <;> split at hd <;> simp_all

namespace Spelled

variable {s : Symbol} {body : List Char} {c : Char} {n : Word}

theorem eq_singleton (h : Spelled s body) (hc : ofChar? c = some s) : body = [c] := by
  cases h
  case sign hd => rw [eq_of_ofChar? hc hd]
  case number => exact absurd hc ofChar?_ne_number

theorem number_iff : Spelled (.number n) body ↔
    body ≠ [] ∧ (∀ d ∈ body, d.isDigit) ∧ Numeral.read? body = some n := by
  constructor
  case mp =>
    intro h
    cases h
    case sign h => exact absurd h ofChar?_ne_number
    case number hn hd hr => exact ⟨hn, hd, hr⟩
  case mpr => exact fun ⟨hn, hd, hr⟩ => .number hn hd hr

theorem ne_nil : Spelled s body → body ≠ []
  | sign _ => by simp
  | number h _ _ => h

theorem ne_finish : Spelled s body → s ≠ .finish
  | sign h => ne_finish_of_ofChar? h
  | number .. => by simp

end Spelled
end Symbol

-- The text, which begins at an offset, is a row of tokens with any blanks around them. This is
-- what a text reads as, said without the cursor.
inductive Reads : Nat → List Char → List Token → Prop where
  | nil {p : Nat} : Reads p [] []
  | blank {p : Nat} {c : Char} {text : List Char} {ts : List Token} :
    isBlank c → Reads (p + c.utf8Size) text ts → Reads p (c :: text) ts
  | token {p : Nat} {s : Symbol} {body text : List Char} {ts : List Token} :
    s.Spelled body → Seam body text → Reads (p + size body) text ts →
    Reads p (body ++ text) (⟨s, p, p + size body⟩ :: ts)

inductive Ends : Cursor → Except Fault Token → Prop where
  | finish {p : Nat} : Ends ⟨p, []⟩ (.ok ⟨.finish, p, p⟩)
  | stray {p : Nat} {c : Char} {text : List Char} :
    isBlank c = false → Symbol.ofChar? c = none → c.isDigit = false →
    Ends ⟨p, c :: text⟩ (.error (.invalidCharacter c p))
  | numeral {p : Nat} {digits text : List Char} :
    digits ≠ [] → (∀ d ∈ digits, d.isDigit) → Seam digits text → Numeral.read? digits = none →
    Ends ⟨p, digits ++ text⟩ (.error (.overflow ⟨p, p + size digits⟩))

namespace Ends

variable {p : Nat} {text : List Char} {f : Fault}

theorem start_eq (h : Ends ⟨p, text⟩ (.error f)) : f.span.start = p := by
  cases h <;> rfl

theorem lt_stop (h : Ends ⟨p, text⟩ (.error f)) : p < f.span.stop := by
  cases h
  case stray c _ _ _ _ => exact Nat.lt_add_of_pos_right c.utf8Size_pos
  case numeral hn _ _ _ => exact Nat.lt_add_of_pos_right (Text.size_pos_of_ne_nil hn)

end Ends

namespace Cursor

variable {p : Nat} {c : Char} {s : Symbol} {body text : List Char}

theorem scan_eq_of_blank (h : isBlank c) :
    scan ⟨p, c :: text⟩ = scan ⟨p + c.utf8Size, text⟩ := by
  simp [scan, skipBlanks, h, Nat.add_assoc]

theorem scan_eq_scanHere (h : ∀ c ∈ text.head?, isBlank c = false) :
    scan ⟨p, text⟩ = scanHere ⟨p, text⟩ := by
  cases text <;> simp_all [scan, skipBlanks]

theorem digits_eq (h₁ : ∀ d ∈ body, d.isDigit) (h₂ : body ≠ []) (h : Seam body text) :
    digits ⟨p, body ++ text⟩ = body ∧ (body ++ text).dropWhile Char.isDigit = text := by
  have ht : ∀ d ∈ text.head?, d.isDigit = false := by
    apply h _ (List.getLast?_eq_some_getLast h₂)
    exact h₁ _ (List.getLast_mem h₂)
  rw [digits, List.takeWhile_append_of_pos h₁, List.dropWhile_append_of_pos h₁]
  cases text <;> simp_all

theorem scan_of_digits (h₁ : ∀ d ∈ body, d.isDigit) (h₂ : body ≠ []) :
    scan ⟨p, body ++ text⟩ = scanNumeral ⟨p, body ++ text⟩ := by
  obtain ⟨c, body, rfl⟩ := List.exists_cons_of_ne_nil h₂
  have hc : c.isDigit := h₁ c (by simp)
  have hb : isBlank c = false := Text.isBlank_eq_false_of_isDigit hc
  have hs : Symbol.ofChar? c = none := by
    cases hs : Symbol.ofChar? c
    case none => rfl
    case some => simp [Symbol.isDigit_of_ofChar? hs] at hc
  rw [scan_eq_scanHere (by simpa using hb)]
  simp [scanHere, hs, hc]

theorem scan_token (hs : s.Spelled body) (h : Seam body text) :
    scan ⟨p, body ++ text⟩ = (.ok ⟨s, p, p + size body⟩, ⟨p + size body, text⟩) := by
  cases hs
  case sign c hc =>
    rw [scan_eq_scanHere (by simpa using Symbol.isBlank_of_ofChar? hc)]
    simp [scanHere, hc]
  case number n hn hd hr =>
    have ⟨h₁, h₂⟩ := digits_eq (p := p) hd hn h
    rw [scan_of_digits hd hn, scanNumeral, h₁, hr]
    simp [digitsSpan, h₁, h₂]

theorem scan_of_ends {c : Cursor} {ending : Except Fault Token} (h : Ends c ending) :
    c.scan = (ending, c) := by
  cases h
  case finish => rfl
  case stray hb hs hd =>
    rw [scan_eq_scanHere (by simpa using hb)]
    simp [scanHere, hs, hd]
  case numeral p digits text hn hd h hr =>
    have ⟨h₁, h₂⟩ := digits_eq (p := p) hd hn h
    rw [scan_of_digits hd hn, scanNumeral, h₁, hr]
    simp [digitsSpan, h₁]

theorem stream_eq_of_scan_eq {c d : Cursor} (h : c.scan = d.scan) : c.stream = d.stream := by
  match hd : d.scan with
  | (.error f, stop) => rw [stream_of_error (h.trans hd), stream_of_error hd]
  | (.ok t, next) =>
    by_cases ht : t.isFinish
    case pos => rw [stream_of_finish (h.trans hd) ht, stream_of_finish hd ht]
    case neg => rw [stream_of_token (h.trans hd) ht, stream_of_token hd ht]

theorem stream_of_ends {c : Cursor} {ending : Except Fault Token} (h : Ends c ending) :
    c.stream = ⟨[], ending, c⟩ := by
  have hs := scan_of_ends h
  cases h
  case finish => exact stream_of_finish hs (by simp)
  case stray => exact stream_of_error hs
  case numeral => exact stream_of_error hs

end Cursor

namespace Reads

variable {p : Nat} {front back text : List Char} {t : Token} {ts us : List Token}

theorem stream_append (h : Reads p front ts) (hs : Seam front back) :
    (Cursor.mk p (front ++ back)).stream =
      let s := (Cursor.mk (p + size front) back).stream
      ⟨ts ++ s.tokens, s.ending, s.stop⟩ := by
  induction h
  case nil => rfl
  case blank p c text ts hc _ ih =>
    rw [List.cons_append, Cursor.stream_eq_of_scan_eq (Cursor.scan_eq_of_blank hc)]
    simpa [Nat.add_assoc] using ih hs.tail
  case token p s body text ts hb ht _ ih =>
    have ht' : Seam body (text ++ back) := by
      apply ht.append_right
      rintro rfl
      simpa using hs
    rw [List.append_assoc, Cursor.stream_of_token (Cursor.scan_token hb ht')]
    · simp [ih hs.right, Nat.add_assoc]
    · simpa using hb.ne_finish

theorem stream_eq {ending : Except Fault Token} (h : Reads p front ts) (hs : Seam front back)
    (he : Ends ⟨p + size front, back⟩ ending) :
    (Cursor.mk p (front ++ back)).stream = ⟨ts, ending, p + size front, back⟩ := by
  simp [h.stream_append hs, Cursor.stream_of_ends he]

theorem append (h : Reads p front ts) (h' : Reads (p + size front) back us)
    (hs : Seam front back) : Reads p (front ++ back) (ts ++ us) := by
  induction h
  case nil => simpa using h'
  case blank p c text ts hc _ ih =>
    refine .blank hc (ih ?_ hs.tail)
    simpa [Nat.add_assoc] using h'
  case token p s body text ts hb ht _ ih =>
    rw [List.append_assoc]
    refine .token hb ?_ (ih ?_ hs.right)
    · apply ht.append_right
      rintro rfl
      simpa using hs
    · simpa [Nat.add_assoc] using h'

end Reads

structure Reads.Cut (p : Nat) (front body back : List Char) (ts : List Token) (t : Token)
    (us : List Token) : Prop where
  before     : Reads p front ts
  spelled    : t.symbol.Spelled body
  after      : Reads t.span.stop back us
  seam_left  : Seam front (body ++ back)
  seam_right : Seam body back
  span_eq    : t.span = ⟨p + size front, p + size front + size body⟩

theorem Reads.cut {p : Nat} {text : List Char} {ts us : List Token} {t : Token}
    (h : Reads p text (ts ++ t :: us)) :
    ∃ front body back, text = front ++ body ++ back ∧ Cut p front body back ts t us := by
  generalize hr : ts ++ t :: us = row at h
  induction h generalizing ts
  case nil => simp at hr
  case blank p c text row hc _ ih =>
    obtain ⟨front, body, back, rfl, h⟩ := ih hr
    refine ⟨c :: front, body, back, rfl,
      .blank hc h.before, h.spelled, h.after, ?_, h.seam_right, ?_⟩
    · exact h.seam_left.cons (Text.isDigit_eq_false_of_isBlank hc)
    · simp [h.span_eq, Nat.add_assoc]
  case token p s body text row hb hs ht ih =>
    cases ts
    case nil =>
      obtain ⟨rfl, rfl⟩ := List.cons.inj hr
      exact ⟨[], body, text, by simp, .nil, hb, ht, .nil_left, hs, by simp⟩
    case cons u ts =>
      obtain ⟨rfl, ht⟩ := List.cons.inj hr
      obtain ⟨front, mid, back, rfl, h⟩ := ih ht
      refine ⟨body ++ front, mid, back, by simp,
        ?_, h.spelled, h.after, ?_, h.seam_right, ?_⟩
      · rw [List.append_assoc] at hs
        exact .token hb hs.left h.before
      · apply h.seam_left.append_left
        rintro rfl
        simpa using hs
      · simp [h.span_eq, Nat.add_assoc]

theorem Reads.cut_of_mem {p : Nat} {text : List Char} {ts : List Token} {t : Token}
    (h : Reads p text ts) (ht : t ∈ ts) :
    ∃ front body back us ws, text = front ++ body ++ back ∧ Cut p front body back us t ws := by
  have ⟨us, ws, hts⟩ := List.append_of_mem ht
  have ⟨front, body, back, hb, hc⟩ := Reads.cut (hts ▸ h)
  exact ⟨front, body, back, us, ws, hb, hc⟩

theorem exists_digits (text : List Char) :
    ∃ digits back, text = digits ++ back ∧ (∀ d ∈ digits, d.isDigit) ∧
      ∀ c ∈ back.head?, c.isDigit = false := by
  refine ⟨text.takeWhile Char.isDigit, text.dropWhile Char.isDigit,
    List.takeWhile_append_dropWhile.symm, ?_, ?_⟩
  · exact fun d hd => List.all_eq_true.mp List.all_takeWhile d hd
  · intro c hc
    simpa [Option.mem_def.mp hc] using List.head?_dropWhile_not Char.isDigit text

theorem spelled_or_ends (p : Nat) {c : Char} (hb : isBlank c = false) (text : List Char) :
    (∃ s body back, c :: text = body ++ back ∧ Symbol.Spelled s body ∧ Seam body back) ∨
      ∃ ending, Ends ⟨p, c :: text⟩ ending := by
  cases hs : Symbol.ofChar? c
  case some s =>
    refine .inl ⟨s, [c], text, rfl, .sign hs, .of_last ?_⟩
    simpa using Symbol.isDigit_of_ofChar? hs
  case none =>
    cases hd : c.isDigit
    case false => exact .inr ⟨_, .stray hb hs hd⟩
    case true =>
      obtain ⟨digits, back, rfl, ha, hh⟩ := exists_digits text
      have ha : ∀ d ∈ c :: digits, d.isDigit := List.forall_mem_cons.mpr ⟨hd, ha⟩
      cases hr : Numeral.read? (c :: digits)
      case none => exact .inr ⟨_, .numeral (by simp) ha (.of_head hh) hr⟩
      case some n =>
        exact .inl ⟨_, c :: digits, back, rfl, .number (by simp) ha hr, .of_head hh⟩

-- Every text can be read up to some place, and there is a reason to stop there.
theorem exists_reads (p : Nat) (text : List Char) :
    ∃ front back ts ending, text = front ++ back ∧ Reads p front ts ∧ Seam front back ∧
      Ends ⟨p + size front, back⟩ ending := by
  -- The induction is on the length, as a token may be of any number of characters.
  induction hn : text.length using Nat.strongRecOn generalizing p text
  case ind n ih =>
    cases text
    case nil => exact ⟨[], [], [], _, rfl, .nil, .nil_left, .finish⟩
    case cons c text =>
      cases hb : isBlank c
      case true =>
        obtain ⟨front, back, ts, ending, rfl, h, hs, he⟩ :=
          ih text.length (by simp [← hn]) (p + c.utf8Size) text rfl
        refine ⟨c :: front, back, ts, ending, rfl, .blank hb h, ?_, ?_⟩
        · exact hs.cons (Text.isDigit_eq_false_of_isBlank hb)
        · simpa [Nat.add_assoc] using he
      case false =>
        obtain ⟨s, body, rest, ht, hs, hm⟩ | ⟨ending, he⟩ := spelled_or_ends p hb text
        case inr => exact ⟨[], c :: text, [], ending, rfl, .nil, .nil_left, by simpa using he⟩
        have hl : rest.length < n := by
          have := List.length_pos_iff.mpr hs.ne_nil
          have := congrArg List.length ht
          simp at this hn
          omega
        obtain ⟨front, back, ts, ending, rfl, h, hs', he⟩ := ih _ hl (p + size body) rest rfl
        refine ⟨body ++ front, back, _, ending, by simp [ht], .token hs hm.left h, ?_, ?_⟩
        · apply hs'.append_left
          rintro rfl
          simpa using hm
        · simpa [Nat.add_assoc] using he

section

variable {text : String} {front back : List Char} {ts : List Token} {f : Fault}
variable {ending : Except Fault Token}

theorem reads_ofText (text : String) :
    ∃ front back, text.toList = front ++ back ∧ Reads 0 front (Cursor.ofText text).stream.tokens ∧
      Seam front back ∧ Ends ⟨size front, back⟩ (Cursor.ofText text).stream.ending := by
  have ⟨front, back, ts, ending, ht, hr, hs, he⟩ := exists_reads 0 text.toList
  refine ⟨front, back, ht, ?_, hs, ?_⟩
  all_goals rw [Cursor.ofText, ht, hr.stream_eq hs he]
  · exact hr
  · rwa [Nat.zero_add] at he

theorem tokenize_of_reads (ht : text.toList = front ++ back) (h : Reads 0 front ts)
    (hs : Seam front back) (he : Ends ⟨size front, back⟩ ending) :
    tokenize text = ending.map fun _ => ts := by
  rw [← Nat.zero_add (size front)] at he
  simp [tokenize, Cursor.ofText, ht, h.stream_eq hs he]

theorem tokenize_eq_ok_iff : tokenize text = .ok ts ↔ Reads 0 text.toList ts := by
  constructor
  case mp =>
    intro h
    have ⟨front, back, us, ending, ht, hr, hs, he⟩ := exists_reads 0 text.toList
    rw [Nat.zero_add] at he
    rw [tokenize_of_reads ht hr hs he] at h
    cases he
    case finish =>
      cases h
      simpa [ht] using hr
    all_goals cases h
  case mpr => exact fun h => tokenize_of_reads (List.append_nil _).symm h .nil_right .finish

theorem tokenize_eq_error_iff : tokenize text = .error f ↔
    ∃ front back ts, text.toList = front ++ back ∧ Reads 0 front ts ∧ Seam front back ∧
      Ends ⟨size front, back⟩ (.error f) := by
  constructor
  case mp =>
    intro h
    have ⟨front, back, ts, ending, ht, hr, hs, he⟩ := exists_reads 0 text.toList
    rw [Nat.zero_add] at he
    rw [tokenize_of_reads ht hr hs he] at h
    cases ending
    case ok => cases h
    case error =>
      cases h
      exact ⟨front, back, ts, ht, hr, hs, he⟩
  case mpr => exact fun ⟨_, _, _, ht, hr, hs, he⟩ => tokenize_of_reads ht hr hs he

end

namespace Reads

variable {p : Nat} {text blanks : List Char}

theorem isBlank_of_nil (h : Reads p text []) : ∀ c ∈ text, isBlank c := by
  generalize hr : [] = row at h
  induction h
  case nil => simp
  case blank c text row hc _ ih => simp_all
  case token => cases hr

end Reads

namespace Cursor

variable {p : Nat} {text blanks : List Char} {c next : Cursor} {t : Token}

theorem scan_blanks (h : ∀ c ∈ blanks, isBlank c) :
    scan ⟨p, blanks ++ text⟩ = scan ⟨p + size blanks, text⟩ := by
  induction blanks generalizing p
  case nil => rfl
  case cons c blanks ih =>
    rw [List.cons_append, scan_eq_of_blank (h c (by simp)), ih fun d hd => h d (by simp [hd])]
    simp [Nat.add_assoc]

theorem scan_eq_ok (h : c.scan = (.ok t, next)) :
    ∃ blanks body, c.rest = blanks ++ (body ++ next.rest) ∧ (∀ b ∈ blanks, isBlank b) ∧
      t.span = ⟨c.position + size blanks, c.position + size blanks + size body⟩ ∧
      next.position = t.span.stop ∧
      (t.symbol = .finish ∧ body = [] ∧ next.rest = [] ∨
        t.symbol.Spelled body ∧ Seam body next.rest) := by
  obtain ⟨p, text⟩ := c
  obtain ⟨front, back, ts, ending, rfl, hr, hs, he⟩ := exists_reads p text
  cases ts
  case nil =>
    -- Nothing can be read behind the blanks, which is no fault only at the end of the text.
    have hb := hr.isBlank_of_nil
    rw [scan_blanks hb, scan_of_ends he] at h
    cases h
    cases he
    exact ⟨front, [], by simp, hb, rfl, rfl, .inl ⟨rfl, rfl, rfl⟩⟩
  case cons u us =>
    rw [← List.nil_append (u :: us)] at hr
    obtain ⟨blanks, body, rest, rfl, hc⟩ := hr.cut
    have hb := hc.before.isBlank_of_nil
    have hm : Seam body (rest ++ back) := by
      apply hc.seam_right.append_right
      rintro rfl
      rw [List.append_nil] at hs
      exact hs.right
    have hu : u = ⟨u.symbol, p + size blanks, p + size blanks + size body⟩ := by
      rw [← hc.span_eq]
    rw [List.append_assoc, List.append_assoc, scan_blanks hb, scan_token hc.spelled hm, ← hu] at h
    cases h
    refine ⟨blanks, body, by simp, hb, ?_, ?_, .inr ⟨hc.spelled, hm⟩⟩ <;> rw [hu]

end Cursor
end Calculator
