import Calculator.Proofs.Slicing
import Calculator.Proofs.Spelling
import Calculator.Reader
import Mathlib.Data.List.Sort

namespace Calculator

open Text (isBlank size)

def operators : List (Char × Symbol) :=
  [('+', .plus), ('-', .minus), ('*', .star), ('/', .slash)]

inductive Offence (text : List Char) : Fault → Prop where
  | character {front back : List Char} {c : Char} :
    text = front ++ c :: back → ¬Legal c → Offence text (.invalidCharacter c (size front))
  | numeral {front run back : List Char} :
    MaximalRun text front run back → Int64.maxValue.toInt < Numeral.value run →
    Offence text (.overflow ⟨size front, size front + size run⟩)

structure FirstOffence (text : List Char) (f : Fault) : Prop where
  offence : Offence text f
  first   : ∀ g, Offence text g → f.span.start ≤ g.span.start

inductive Occurs (text : List Char) : Token → Prop where
  | operator {front back : List Char} {c : Char} {s : Symbol} :
    text = front ++ c :: back → (c, s) ∈ operators →
    Occurs text ⟨s, size front, size front + c.utf8Size⟩
  | numeral {front run back : List Char} {n : Word} :
    MaximalRun text front run back → n.toInt = Numeral.value run →
    Occurs text ⟨.number n, size front, size front + size run⟩

def Token.Before (t u : Token) : Prop :=
  t.span.start < u.span.start ∧ t.span.stop ≤ u.span.start

instance : Std.Asymm Token.Before where
  asymm _ _ h h' := Nat.lt_asymm h.1 h'.1

structure Listing (text : String) (ts : List Token) : Prop where
  mem_iff : ∀ t, t ∈ ts ↔ Occurs text.toList t
  ordered : ts.Pairwise Token.Before
  slice   : ∀ t ∈ ts, ∃ inside, t.span.slice? text = some inside ∧
    ∀ n, t.symbol = .number n → n.toInt = Numeral.value inside.toList
  outside : ∀ front c back, text.toList = front ++ c :: back →
    (∀ t ∈ ts, size front < t.span.start ∨ t.span.stop ≤ size front) → isBlank c
  apart   : ts.Pairwise fun t u =>
    t.symbol.category = .number → u.symbol.category = .number → t.span.stop < u.span.start

theorem Listing.unique {text : String} {ts us : List Token} (h : Listing text ts)
    (h' : Listing text us) : ts = us :=
  h.ordered.eq_of_mem_iff h'.ordered fun t => (h.mem_iff t).trans (h'.mem_iff t).symm

variable {p : Nat} {c : Char} {text front back pre run post body : List Char}
variable {f g : Fault} {s : Symbol} {t u : Token} {ts us : List Token}

theorem Symbol.ofChar?_eq_some_iff : ofChar? c = some s ↔ (c, s) ∈ operators := by
  unfold ofChar?
  split <;> simp_all [operators, eq_comm]

theorem exists_symbol_iff : (∃ s, (c, s) ∈ operators) ↔ c ∈ ['+', '-', '*', '/'] := by
  simp [operators, exists_or]

theorem not_legal (hb : isBlank c = false) (hs : Symbol.ofChar? c = none)
    (hd : c.isDigit = false) : ¬Legal c := by
  intro h
  cases h
  case inl h => simp [hb] at h
  case inr h =>
    cases h
    case inl h => simp [hd] at h
    case inr h =>
      have ⟨s, ho⟩ := exists_symbol_iff.mpr h
      simp [← Symbol.ofChar?_eq_some_iff, hs] at ho

theorem MaximalRun.of_seams (hn : run ≠ []) (hd : ∀ d ∈ run, d.isDigit)
    (hs : Seam front (run ++ back)) (hs' : Seam run back) :
    MaximalRun (front ++ run ++ back) front run back where
  text_eq := rfl
  ne_nil := hn
  digits := hd
  before := by
    intro c hc
    cases hb : c.isDigit
    case false => rfl
    case true =>
      have := hs c hc hb (run.head hn) (by simp [List.head?_append, List.head?_eq_some_head hn])
      simp [hd (run.head hn) (List.head_mem hn)] at this
  after := hs' _ (List.getLast?_eq_some_getLast hn) (hd _ (List.getLast_mem hn))

theorem MaximalRun.eq_of_append {run' back' : List Char} (h : MaximalRun text front run back)
    (hb : run ++ back = run' ++ back') (hn : run' ≠ []) (hd : ∀ d ∈ run', d.isDigit)
    (hs : Seam run' back') : run = run' := by
  have ⟨h₁, _⟩ := Cursor.digits_eq (p := 0) h.digits h.ne_nil (.of_head h.after)
  have ⟨h₂, _⟩ := Cursor.digits_eq (p := 0) hd hn hs
  rw [← h₁, hb, h₂]

theorem MaximalRun.of_seam (h : MaximalRun (front ++ back) pre run post) (hs : Seam front back) :
    (∃ rest, MaximalRun front pre run rest) ∨
      ∃ rest, MaximalRun back rest run post ∧ pre = front ++ rest := by
  have ht := h.text_eq
  rw [List.append_assoc] at ht
  cases List.append_eq_append_iff.mp ht
  case inl hp =>
    have ⟨rest, hp, hb⟩ := hp
    refine .inr ⟨rest, ⟨by simp [hb], h.ne_nil, h.digits, ?_, h.after⟩, hp⟩
    intro c hc
    apply h.before
    simp_all [List.getLast?_append]
  case inr hp =>
    have ⟨mid, hf, hr⟩ := hp
    cases List.append_eq_append_iff.mp hr
    case inl hm =>
      have ⟨rest, hm, hp⟩ := hm
      refine .inl ⟨rest, by simp [hf, hm], h.ne_nil, h.digits, h.before, ?_⟩
      intro c hc
      apply h.after
      simp_all [List.head?_append]
    case inr hm =>
      have ⟨more, hm, hb⟩ := hm
      by_cases hl : more = []
      case pos => exact .inl ⟨[], by simp [hf, hm, hl], h.ne_nil, h.digits, h.before, by simp⟩
      by_cases hn : mid = []
      case pos => exact .inr ⟨[], ⟨by simp_all, h.ne_nil, h.digits, by simp, h.after⟩, by simp_all⟩
      -- Otherwise the run has digits on both sides.
      have hd : ∀ d ∈ mid ++ more, d.isDigit := hm ▸ h.digits
      have hs : Seam mid more := (hf ▸ hb ▸ hs).right.left
      have := hs _ (List.getLast?_eq_some_getLast hn) (hd _ (by simp)) _
        (List.head?_eq_some_head hl)
      simp [hd (more.head hl) (by simp)] at this

theorem Reads.not_offence (h : Reads p text ts) : ¬Offence text f := by
  intro hf
  cases hf
  case character front back c ht hc => exact hc (h.legal c (by simp [ht]))
  case numeral hr hv =>
    have ⟨n, hn⟩ := h.exists_word hr
    have := n.fits_toInt.2
    rw [Numeral.toInt_of_read? hn] at this
    omega

namespace Offence

theorem of_seam (h : Offence (front ++ back) f) (hs : Seam front back) :
    Offence front f ∨ size front ≤ f.span.start := by
  cases h
  case character pre post c ht hc =>
    cases Nat.lt_or_ge (size pre) (size front)
    case inr hp => exact .inr hp
    case inl hp =>
      have ⟨mid, hf, hm⟩ := Text.append_eq_append_of_size_le ht.symm (Nat.le_of_lt hp)
      cases mid
      case nil => simp [hf] at hp
      case cons d mid =>
        have ⟨hd, _⟩ := List.cons.inj hm
        exact .inl (.character (hd ▸ hf) hc)
  case numeral hr hv =>
    cases hr.of_seam hs
    case inl hr =>
      have ⟨rest, hr⟩ := hr
      exact .inl (.numeral hr hv)
    case inr hr =>
      have ⟨rest, _, hp⟩ := hr
      exact .inr (by simp [hp, Fault.span])

-- Where a text cannot be read on, there is an offence.
theorem of_ends (h : Ends ⟨size front, back⟩ (.error f)) (hs : Seam front back) :
    Offence (front ++ back) f ∧ f.span.start = size front := by
  generalize hc : Cursor.mk (size front) back = c at h
  cases h
  case stray hb ho hd =>
    cases hc
    exact ⟨.character rfl (not_legal hb ho hd), rfl⟩
  case numeral digits rest hn hd ht hr =>
    cases hc
    refine ⟨?_, rfl⟩
    rw [← List.append_assoc]
    refine .numeral (.of_seams hn hd hs ht) ?_
    rw [Numeral.read?_eq, Word.ofInt?_eq_none_iff, Word.fits_iff] at hr
    exact Int.lt_of_not_ge fun hv => hr ⟨by omega, hv⟩

theorem exists_head (h : Offence text f) :
    ∃ front c back, text = front ++ c :: back ∧ f.span.start = size front ∧
      (¬Legal c ∧ f = .invalidCharacter c (size front) ∨
        c.isDigit ∧ f = .overflow (Cursor.digitsSpan ⟨size front, c :: back⟩)) := by
  cases h
  case character front back c ht hc => exact ⟨front, c, back, ht, rfl, .inl ⟨hc, rfl⟩⟩
  case numeral front run back hr hv =>
    have ⟨c, digits, hc⟩ := List.exists_cons_of_ne_nil hr.ne_nil
    have ⟨hw, _⟩ := Cursor.digits_eq (p := size front) hr.digits hr.ne_nil (.of_head hr.after)
    refine ⟨front, c, digits ++ back, by simp [hr.text_eq, hc], rfl, .inr ⟨?_, ?_⟩⟩
    · exact hr.digits c (by simp [hc])
    · rw [hc, List.cons_append] at hw
      rw [Cursor.digitsSpan, hw, hc]

theorem eq_of_start (h : Offence text f) (h' : Offence text g) (hs : f.span.start = g.span.start) :
    f = g := by
  have ⟨front, c, back, ht, hf, hc⟩ := h.exists_head
  have ⟨front', d, back', ht', hg, hd⟩ := h'.exists_head
  have ⟨hp, hb⟩ := Text.append_inj_of_size (ht ▸ ht') (hf ▸ hg ▸ hs)
  have ⟨hcd, hb⟩ := List.cons.inj hb
  cases hc <;> cases hd <;> simp_all [Legal]

end Offence

theorem firstOffence_of_ends (h : Reads p front ts) (hs : Seam front back)
    (he : Ends ⟨size front, back⟩ (.error f)) : FirstOffence (front ++ back) f := by
  have ⟨ho, hf⟩ := Offence.of_ends he hs
  refine ⟨ho, fun g hg => ?_⟩
  cases hg.of_seam hs
  case inl hg => exact absurd hg h.not_offence
  case inr hg => exact hf ▸ hg

theorem FirstOffence.unique (h : FirstOffence text f) (h' : FirstOffence text g) : f = g :=
  h.offence.eq_of_start h'.offence (Nat.le_antisymm (h.first g h'.offence) (h'.first f h.offence))

namespace Reads

theorem Cut.occurs (h : Cut 0 front body back ts t us) : Occurs (front ++ body ++ back) t := by
  have ht : t = ⟨t.symbol, size front, size front + size body⟩ := by
    rw [← Nat.zero_add (size front), ← h.span_eq]
  have hb := h.spelled
  rw [ht]
  generalize t.symbol = s at hb
  cases hb
  case sign c hc => exact .operator (List.append_assoc ..) (Symbol.ofChar?_eq_some_iff.mp hc)
  case number n hn hd hw =>
    exact .numeral (.of_seams hn hd h.seam_left h.seam_right) (Numeral.toInt_of_read? hw)

theorem exists_cover (h : Reads p text ts) (ht : text = front ++ c :: back)
    (hc : isBlank c = false) :
    ∃ t ∈ ts, t.span.start ≤ p + size front ∧ p + size front < t.span.stop := by
  induction h generalizing front
  case nil => simp at ht
  case blank p d text ts hd _ ih =>
    cases front
    case nil => simp_all
    case cons e front =>
      have ⟨he, ht⟩ := List.cons.inj ht
      simpa [he, Nat.add_assoc] using ih ht
  case token p s body text ts hb hs _ ih =>
    cases Nat.lt_or_ge (size front) (size body)
    case inl hl => exact ⟨_, List.mem_cons_self, by simp, by simpa using hl⟩
    case inr hl =>
      have ⟨mid, hf, hm⟩ := Text.append_eq_append_of_size_le ht hl
      have ⟨t, hm, hc⟩ := ih hm
      exact ⟨t, List.mem_cons_of_mem _ hm, by simpa [hf, Nat.add_assoc] using hc⟩

theorem exists_cut (h : Reads 0 text ts) (ht : text = front ++ c :: back)
    (hc : isBlank c = false) :
    ∃ pre first last post us t ws, front = pre ++ first ∧ back = last ++ post ∧ t ∈ ts ∧
      Cut 0 pre (first ++ c :: last) post us t ws := by
  have ⟨t, hm, h₁, h₂⟩ := h.exists_cover ht hc
  have ⟨pre, body, post, us, ws, hp, hcut⟩ := h.cut_of_mem hm
  simp only [hcut.span_eq, Nat.zero_add] at h₁ h₂
  rw [ht, List.append_assoc] at hp
  have ⟨first, hf, hb⟩ := Text.append_eq_append_of_size_le hp.symm h₁
  rw [hf, Text.size_append] at h₂
  have ⟨mid, hm', hb⟩ := Text.append_eq_append_of_size_le hb.symm (by omega)
  cases mid
  case nil => simp [hm'] at h₂
  case cons d last =>
    have ⟨hd, hb⟩ := List.cons.inj hb
    rw [hm', ← hd] at hcut
    exact ⟨pre, first, last, post, us, t, ws, hf, hb, hm, hcut⟩

end Reads

namespace Symbol.Spelled

variable {first last : List Char} {s' : Symbol}

theorem of_operator (h : Spelled s (first ++ c :: last)) (hc : ofChar? c = some s') :
    first = [] ∧ last = [] ∧ s = s' := by
  generalize hb : first ++ c :: last = body at h
  cases h
  case sign => simp_all [List.append_eq_singleton_iff]
  case number hd _ =>
    have := hd c (by simp [← hb])
    simp [isDigit_of_ofChar? hc] at this

theorem of_digit (h : Spelled s (first ++ c :: last)) (hc : c.isDigit) :
    ∃ n, s = .number n := by
  generalize hb : first ++ c :: last = body at h
  cases h
  case sign d hd =>
    have hb : first = [] ∧ c = d ∧ last = [] := by simpa [List.append_eq_singleton_iff] using hb
    simp [hb.2.1, isDigit_of_ofChar? hd] at hc
  case number n _ _ _ => exact ⟨n, rfl⟩

end Symbol.Spelled

theorem Reads.mem_of_occurs (h : Reads 0 text ts) (ho : Occurs text t) : t ∈ ts := by
  cases ho
  case operator front back c s ht hc =>
    have hs := Symbol.ofChar?_eq_some_iff.mpr hc
    have ⟨pre, first, last, post, us, u, ws, hf, _, hm, hu⟩ :=
      h.exists_cut ht (Symbol.isBlank_of_ofChar? hs)
    have ⟨hfirst, hlast, hsu⟩ := hu.spelled.of_operator hs
    have hu : u = ⟨s, size front, size front + c.utf8Size⟩ := by
      have hp := hu.span_eq
      cases u
      simp_all
    exact hu ▸ hm
  case numeral front run back n hr hn =>
    have ⟨c, digits, hc⟩ := List.exists_cons_of_ne_nil hr.ne_nil
    have hd : c.isDigit := hr.digits c (by simp [hc])
    have ht : text = front ++ c :: (digits ++ back) := by simp [hr.text_eq, hc]
    have ⟨pre, first, last, post, us, u, ws, hf, hb, hm, hu⟩ :=
      h.exists_cut ht (Text.isBlank_eq_false_of_isDigit hd)
    have ⟨m, hsu⟩ := hu.spelled.of_digit hd
    have ⟨hne, hds, hw⟩ := Symbol.Spelled.number_iff.mp (hsu ▸ hu.spelled)
    -- The token begins where the run does, or the run would not be maximal.
    have hfirst : first = [] := by
      rcases first.eq_nil_or_concat with hn | ⟨first, d, hn⟩
      · exact hn
      · have := hr.before d (by simp [hf, hn])
        simp [hds d (by simp [hn])] at this
    rw [hfirst, List.nil_append] at hu hne hds hw
    have hrun : run = c :: last := hr.eq_of_append (by simp [hc, hb]) hne hds hu.seam_right
    have hmn : m = n := by
      rw [← Int64.toInt_inj, hn, Numeral.toInt_of_read? hw, hrun]
    have hu : u = ⟨.number n, size front, size front + size run⟩ := by
      have hp := hu.span_eq
      cases u
      simp_all
    exact hu ▸ hm

theorem Symbol.Spelled.size_pos (h : s.Spelled body) : 0 < size body :=
  Text.size_pos_of_ne_nil h.ne_nil

theorem Symbol.Spelled.isDigit (h : s.Spelled body) (hs : s.category = .number) :
    ∀ d ∈ body, d.isDigit := by
  cases s <;> cases hs
  exact (number_iff.mp h).2.1

theorem Reads.within (h : Reads p text ts) (ht : t ∈ ts) :
    p ≤ t.span.start ∧ t.span.stop ≤ p + size text := by
  have ⟨front, body, back, _, _, hb, hc⟩ := h.cut_of_mem ht
  simp only [hc.span_eq, hb, Text.size_append]
  omega

theorem Reads.ordered (h : Reads p text ts) : ts.Pairwise Token.Before := by
  induction h
  case nil => exact .nil
  case blank ih => exact ih
  case token hb _ h ih =>
    refine .cons (fun u hu => ?_) ih
    have := hb.size_pos
    have := (h.within hu).1
    constructor <;> simp only <;> omega

theorem Reads.apart (h : Reads p text ts) : ts.Pairwise fun t u =>
    t.symbol.category = .number → u.symbol.category = .number → t.span.stop < u.span.start := by
  induction h
  case nil => exact .nil
  case blank ih => exact ih
  case token body text ts hb hm h ih =>
    refine .cons (fun u hu ht hu' => ?_) ih
    have ⟨front, body', _, _, _, hf, hc⟩ := h.cut_of_mem hu
    have hd := hb.isDigit ht
    have hd' := hc.spelled.isDigit hu'
    have hn' := hc.spelled.ne_nil
    have hf : front ≠ [] := by
      intro hn
      have := hm _ (List.getLast?_eq_some_getLast hb.ne_nil) (hd _ (List.getLast_mem hb.ne_nil))
        (body'.head hn') (by simp [hf, hn, List.head?_append, List.head?_eq_some_head hn'])
      simp [hd' _ (List.head_mem hn')] at this
    have := mt Text.size_eq_zero_iff.mp hf
    rw [hc.span_eq]
    simp only
    omega

theorem listing_of_reads {text : String} (h : Reads 0 text.toList ts) : Listing text ts where
  mem_iff t := by
    refine ⟨fun ht => ?_, h.mem_of_occurs⟩
    have ⟨_, _, _, _, _, hb, hc⟩ := h.cut_of_mem ht
    exact hb ▸ hc.occurs
  ordered := h.ordered
  slice t ht := by
    have ⟨front, body, _, _, _, hb, hc⟩ := h.cut_of_mem ht
    refine ⟨.ofList body, ?_, ?_⟩
    · rw [hc.span_eq, Nat.zero_add]
      exact Span.slice?_append hb
    · intro n hn
      have ⟨_, _, hw⟩ := Symbol.Spelled.number_iff.mp (hn ▸ hc.spelled)
      simpa using Numeral.toInt_of_read? hw
  outside front c back ht hc := by
    cases hb : isBlank c
    case true => rfl
    case false =>
      have ⟨t, hm, h₁, h₂⟩ := h.exists_cover ht hb
      have := hc t hm
      omega
  apart := h.apart

theorem listing_of_tokenize {text : String} (h : tokenize text = .ok ts) :
    (∀ f, ¬Offence text.toList f) ∧ Listing text ts :=
  have hr := tokenize_eq_ok_iff.mp h
  ⟨fun _ => hr.not_offence, listing_of_reads hr⟩

theorem firstOffence_of_tokenize {text : String} (h : tokenize text = .error f) :
    FirstOffence text.toList f :=
  have ⟨_, _, _, ht, hr, hs, he⟩ := tokenize_eq_error_iff.mp h
  ht ▸ firstOffence_of_ends hr hs he

-- A text without offences gives the list of its operators and numerals, and any other text the
-- first of its offences. Both are collected from what the reader hands out, call by call.
theorem tokenize_eq_iff (text : String) :
    (∀ ts, tokenize text = .ok ts ↔ (∀ f, ¬Offence text.toList f) ∧ Listing text ts) ∧
      (∀ f, tokenize text = .error f ↔ FirstOffence text.toList f) ∧
      ∃ items last, (Reader.ofText text).HandsOut items last ∧ tokenize text = items.mapM id := by
  refine ⟨fun ts => ?_, fun f => ?_, ?_⟩
  case refine_1 =>
    refine ⟨listing_of_tokenize, fun ⟨hn, hl⟩ => ?_⟩
    cases hr : tokenize text
    case error f => exact absurd (firstOffence_of_tokenize hr).offence (hn f)
    case ok us => rw [hl.unique (listing_of_tokenize hr).2]
  case refine_2 =>
    refine ⟨firstOffence_of_tokenize, fun hf => ?_⟩
    cases hr : tokenize text
    case error g => rw [hf.unique (firstOffence_of_tokenize hr)]
    case ok us => exact absurd hf.offence ((listing_of_tokenize hr).1 f)
  case refine_3 =>
    have h := (Reader.ofText text).handsOut_drain
    exact ⟨_, _, h, Reader.tokenize_of_handsOut h⟩

end Calculator
