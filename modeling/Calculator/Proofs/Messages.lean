import Calculator.Proofs.TokenTable

namespace Calculator

variable {hidden hidden' : Char → Bool} {c d : Char} {m n : Nat} {v w : Word} {s t : Symbol}
variable {a b : Span} {x y : Demand} {f g : Fault}
variable {front front' written written' rest rest' : List Char}

namespace Text

theorem append_cons_inj (hf : c ∉ front) (hf' : c ∉ front')
    (h : front ++ c :: rest = front' ++ c :: rest') : front = front' ∧ rest = rest' := by
  have hs := congrArg (List.splitOn c) h
  rw [List.splitOn_append_cons_self_of_not_mem hf,
    List.splitOn_append_cons_self_of_not_mem hf'] at hs
  obtain rfl := (List.cons.inj hs).1
  exact ⟨rfl, (List.cons.inj (List.append_cancel_left h)).2⟩

def shorts : List (Char × Char) :=
  [('\x00', '0'), ('\t', 't'), ('\n', 'n'), ('\r', 'r'), ('\\', '\\'), ('\x27', '\x27')]

inductive Escaped : Char → List Char → Prop where
  | plain {c : Char} : c ≠ '\\' → Escaped c [c]
  | short {c e : Char} : (c, e) ∈ shorts → Escaped c ['\\', e]
  | code {c : Char} :
    Escaped c ('\\' :: 'u' :: '\x7b' :: (Nat.toDigits 16 c.toNat ++ ['\x7d']))

theorem escaped_escape (hidden : Char → Bool) (c : Char) : Escaped c (escape hidden '\x27' c) := by
  unfold escape
  split
  case isTrue h => exact .short (by simp [h, shorts])
  split
  case isTrue h => exact .short (by simp [h, shorts])
  split
  case isTrue h => exact .short (by simp [h, shorts])
  split
  case isTrue h => exact .short (by simp [h, shorts])
  split
  case isTrue h => rcases h with rfl | rfl <;> exact .short (by simp [shorts])
  case isFalse h =>
    split
    · exact .code
    · exact .plain fun hc => h (.inl hc)

theorem eq_of_mem_shorts : ∀ p ∈ shorts, ∀ q ∈ shorts, p.2 = q.2 → p.1 = q.1 := by
  decide

theorem ne_of_mem_shorts : ∀ p ∈ shorts, p.2 ≠ 'u' := by
  decide

theorem digitChar_inj : ∀ m < 16, ∀ n < 16, Nat.digitChar m = Nat.digitChar n → m = n := by
  decide

theorem toDigits_inj (h : Nat.toDigits 16 m = Nat.toDigits 16 n) : m = n := by
  induction m using Nat.strongRecOn generalizing n
  case ind m ih =>
    rw [Nat.toDigits_eq_if (by decide), Nat.toDigits_eq_if (n := n) (by decide)] at h
    have hl : ∀ k c c', [c] ≠ Nat.toDigits 16 k ++ [c'] := by
      simp [List.singleton_eq_append_iff, Nat.toDigits_ne_nil]
    by_cases hm : m < 16 <;> by_cases hn : n < 16 <;> simp only [hm, hn, if_true, if_false] at h
    · exact digitChar_inj m hm n hn (by simpa using h)
    · exact absurd h (hl _ _ _)
    · exact absurd h.symm (hl _ _ _)
    -- The last digit is the remainder, and those before it are the digits of the quotient.
    · obtain ⟨hd, hr⟩ := List.append_inj' h rfl
      have := ih (m / 16) (by omega) hd
      have := digitChar_inj (m % 16) (by omega) (n % 16) (by omega) (by simpa using hr)
      omega

theorem brace_not_mem_toDigits (n : Nat) : '\x7d' ∉ Nat.toDigits 16 n := by
  induction n using Nat.strongRecOn
  case ind n ih =>
    rw [Nat.toDigits_eq_if (by decide)]
    split
    case isTrue h => simp
    case isFalse h => simp [ih (n / 16) (by omega)]

theorem Escaped.append_inj (h : Escaped c written) (h' : Escaped d written')
    (he : written ++ rest = written' ++ rest') : c = d ∧ rest = rest' := by
  cases h <;> cases h'
  case plain.plain => simpa using he
  case plain.short hc _ _ => simp [hc] at he
  case plain.code hc => simp [hc] at he
  case short.plain hc => simp [hc.symm] at he
  case short.short h _ h' =>
    obtain ⟨rfl, hr⟩ : _ = _ ∧ rest = rest' := by simpa using he
    exact ⟨eq_of_mem_shorts _ h _ h' rfl, hr⟩
  case short.code h =>
    obtain ⟨rfl, -⟩ : _ = 'u' ∧ _ := by simpa using he
    exact absurd rfl (ne_of_mem_shorts _ h)
  case code.plain hc => simp [hc.symm] at he
  case code.short h =>
    obtain ⟨rfl, -⟩ : 'u' = _ ∧ _ := by simpa using he
    exact absurd rfl (ne_of_mem_shorts _ h)
  case code.code =>
    simp only [List.cons_append, List.append_assoc, List.cons.injEq, true_and] at he
    obtain ⟨hd, hr⟩ := append_cons_inj (brace_not_mem_toDigits _) (brace_not_mem_toDigits _) he
    exact ⟨Char.toNat_inj.mp (toDigits_inj hd), hr⟩

theorem quoteChar_append_inj
    (h : (quoteChar hidden c).toList ++ rest = (quoteChar hidden' d).toList ++ rest') :
    c = d ∧ rest = rest' := by
  simp only [quoteChar, String.toList_ofList, List.cons_append, List.append_assoc, List.cons.injEq,
    true_and] at h
  obtain ⟨hc, hr⟩ := (escaped_escape hidden c).append_inj (escaped_escape hidden' d) h
  exact ⟨hc, (List.cons.inj hr).2⟩

end Text

theorem Numeral.minus_ne : '-' :: rest ≠ (toString n).toList ++ rest' := by
  intro h
  obtain ⟨c, cs, hc⟩ := List.exists_cons_of_ne_nil (toString_ne_nil n)
  have hd := isDigit_toString n c (hc ▸ List.mem_cons_self)
  rw [hc] at h
  cases h
  cases hd

section

-- A number ends where no digit follows.
variable (hr : ∀ c ∈ rest.head?, c.isDigit = false) (hr' : ∀ c ∈ rest'.head?, c.isDigit = false)
include hr hr'

theorem Numeral.append_inj (h : (toString m).toList ++ rest = (toString n).toList ++ rest') :
    m = n ∧ rest = rest' := by
  have ⟨hm, hs⟩ := Cursor.digits_eq (p := 0) (isDigit_toString m) (toString_ne_nil m) (.of_head hr)
  have ⟨hn, hs'⟩ :=
    Cursor.digits_eq (p := 0) (isDigit_toString n) (toString_ne_nil n) (.of_head hr')
  constructor
  · rw [← value_toString m, ← hm, h, hn, value_toString]
  · rw [← hs, h, hs']

theorem Word.append_inj (h : v.text.toList ++ rest = w.text.toList ++ rest') :
    v = w ∧ rest = rest' := by
  cases hv : v.toInt <;> cases hw : w.toInt
  case ofNat.ofNat m n =>
    rw [text_of_toInt hv, text_of_toInt hw] at h
    obtain ⟨hn, hs⟩ := Numeral.append_inj hr hr' h
    exact ⟨Int64.toInt_inj.mp (by rw [hv, hw, hn]), hs⟩
  case ofNat.negSucc m n =>
    rw [text_of_toInt hv, text_of_toInt_negSucc hw, String.toList_append] at h
    exact absurd h.symm Numeral.minus_ne
  case negSucc.ofNat m n =>
    rw [text_of_toInt_negSucc hv, text_of_toInt hw, String.toList_append] at h
    exact absurd h Numeral.minus_ne
  case negSucc.negSucc m n =>
    rw [text_of_toInt_negSucc hv, text_of_toInt_negSucc hw] at h
    simp only [String.toList_append, List.append_assoc, List.append_cancel_left_eq] at h
    obtain ⟨hn, hs⟩ := Numeral.append_inj hr hr' h
    exact ⟨Int64.toInt_inj.mp (by rw [hv, hw, Nat.succ.inj hn]), hs⟩

theorem Span.append_inj (h : a.text.toList ++ rest = b.text.toList ++ rest') :
    a = b ∧ rest = rest' := by
  simp only [text, String.toList_append, List.append_assoc] at h
  obtain ⟨hs, h⟩ := Numeral.append_inj (by simp) (by simp) h
  obtain ⟨he, h⟩ := Numeral.append_inj hr hr' (List.append_cancel_left h)
  obtain ⟨_, _⟩ := a
  obtain ⟨_, _⟩ := b
  simp_all

theorem Symbol.append_inj (h : s.text.toList ++ rest = t.text.toList ++ rest') :
    s = t ∧ rest = rest' := by
  cases s <;> cases t
  case number.number v w =>
    simp only [text, String.toList_append, List.append_assoc, List.append_cancel_left_eq] at h
    obtain ⟨hv, hs⟩ := Word.append_inj hr hr' h
    exact ⟨hv ▸ rfl, hs⟩
  all_goals simp_all [text, Category.text, category]

end

theorem Span.text_inj (h : a.text = b.text) : a = b := by
  rw [← String.toList_inj, ← List.append_nil a.text.toList, ← List.append_nil b.text.toList] at h
  exact (Span.append_inj (by simp) (by simp) h).1

theorem Demand.comma_not_mem (x : Demand) : ',' ∉ x.text.toList := by
  rcases x with ⟨⟨⟩⟩ | ⟨⟩ <;> decide

theorem Demand.text_inj (h : x.text = y.text) : x = y := by
  rcases x with ⟨⟨⟩⟩ | ⟨⟩ <;> rcases y with ⟨⟨⟩⟩ | ⟨⟩ <;> simp_all [text, Category.text]

def Token.placed (t : Token) : List Char :=
  t.symbol.text.toList ++ (" at ".toList ++ t.span.text.toList)

theorem Token.placed_inj {t u : Token} (h : t.placed = u.placed) : t = u := by
  obtain ⟨hs, h⟩ := Symbol.append_inj (by simp) (by simp) h
  have ha := Span.text_inj (String.toList_inj.mp (List.append_cancel_left h))
  obtain ⟨_, _⟩ := t
  obtain ⟨_, _⟩ := u
  cases hs
  cases ha
  rfl

namespace Fault

def opening : Fault → String
  | invalidCharacter .. => "invalid character "
  | unexpectedToken .. => "unexpected token: expected "
  | trailingInput .. => "unexpected token after expression: "
  | divisionByZero .. => "division by zero at "
  | overflow .. => "integer overflow at "

def details (hidden : Char → Bool) : Fault → List Char
  | invalidCharacter char offset =>
    (Text.quoteChar hidden char).toList ++ (" at offset ".toList ++ (toString offset).toList)
  | unexpectedToken expected found =>
    expected.text.toList ++ ',' :: (" found ".toList ++ found.placed)
  | trailingInput found => found.placed
  | divisionByZero span => span.text.toList
  | overflow span => span.text.toList

theorem toList_messageHiding (hidden : Char → Bool) (f : Fault) :
    (f.messageHiding hidden).toList = f.opening.toList ++ f.details hidden := by
  unfold messageHiding
  cases f <;> simp [opening, details, Token.placed]

def openings : List String :=
  ["invalid character ", "unexpected token: expected ", "unexpected token after expression: ",
    "division by zero at ", "integer overflow at "]

theorem opening_mem (f : Fault) : f.opening ∈ openings := by
  cases f <;> simp [opening, openings]

-- No opening is the beginning of another.
theorem opening_unique : ∀ p ∈ openings, ∀ q ∈ openings, p.toList <+: q.toList → p = q := by
  decide +kernel

theorem opening_eq (h : f.messageHiding hidden = g.messageHiding hidden') :
    f.opening = g.opening := by
  rw [← String.toList_inj, toList_messageHiding, toList_messageHiding] at h
  -- Both stand at the front of the one message, and so one of them at the front of the other.
  rcases List.prefix_or_prefix_of_prefix ⟨_, h⟩ (List.prefix_append ..) with hp | hp
  · exact opening_unique _ f.opening_mem _ g.opening_mem hp
  · exact (opening_unique _ g.opening_mem _ f.opening_mem hp).symm

theorem eq_of_messageHiding_eq (h : f.messageHiding hidden = g.messageHiding hidden') :
    f = g := by
  have ho := opening_eq h
  rw [← String.toList_inj, toList_messageHiding, toList_messageHiding, ho] at h
  have hd := List.append_cancel_left h
  cases f <;> cases g
  case invalidCharacter.invalidCharacter c m d n =>
    obtain ⟨rfl, hr⟩ := Text.quoteChar_append_inj hd
    have hn := congrArg Numeral.value (List.append_cancel_left hr)
    rw [Numeral.value_toString, Numeral.value_toString] at hn
    rw [hn]
  case unexpectedToken.unexpectedToken x t y u =>
    obtain ⟨hx, ht⟩ := Text.append_cons_inj x.comma_not_mem y.comma_not_mem hd
    rw [Demand.text_inj (String.toList_inj.mp hx), Token.placed_inj (List.append_cancel_left ht)]
  case trailingInput.trailingInput => rw [Token.placed_inj hd]
  case divisionByZero.divisionByZero => rw [Span.text_inj (String.toList_inj.mp hd)]
  case overflow.overflow => rw [Span.text_inj (String.toList_inj.mp hd)]
  all_goals simp [opening] at ho

-- What is wrong with the input as such is told in other words.
theorem message_ne (f : Fault) : f.message ≠ "stream did not contain valid UTF-8" := by
  intro h
  have hp : f.opening.toList <+: "stream did not contain valid UTF-8".toList :=
    ⟨_, by rw [← h, message, toList_messageHiding]⟩
  have hn : ∀ p ∈ openings, ¬p.toList <+: "stream did not contain valid UTF-8".toList := by
    decide +kernel
  exact hn _ f.opening_mem hp

end Fault

namespace CommandLine

def faultOf? {α : Type} : Except Fault α → Option Fault
  | .error f => some f
  | .ok _ => none

def Command.fault? (line : String) : Command → Option Fault
  | check | eval => faultOf? (evaluate line)
  | tokens => faultOf? (tokenize line)

-- The fault that a command finds in the expression, or else in the first line of the input.
def Command.faultIn? (expression : Option String) (input : List UInt8) (c : Command) :
    Option Fault :=
  (expression <|> readLine? input).bind c.fault?

def complaint (message : String) : String :=
  "Error: " ++ message ++ "\n"

theorem Command.complaint_report (c : Command) (line : String) :
    (c.report line).complaint = (c.fault? line).elim "" fun f => complaint f.message := by
  cases c
  case check =>
    rw [report, validate, fault?]
    cases evaluate line <;> rfl
  case eval =>
    rw [report, fault?]
    cases evaluate line <;> rfl
  case tokens =>
    rw [fault?, tokenize]
    simp only [report]
    cases (Cursor.ofText line).stream.ending <;> rfl

theorem complaint_inj {a b : String} (h : complaint a = complaint b) : a = b := by
  simpa [complaint] using h

theorem complaint_ne {a : String} : complaint a ≠ "" := by
  simp [complaint]

theorem Command.complaint_report_iff {c : Command} {line : String} :
    (c.report line).complaint = complaint f.message ↔ c.fault? line = some f := by
  rw [c.complaint_report]
  cases c.fault? line
  case none => simp [complaint_ne.symm]
  case some g =>
    rw [Option.elim_some, Option.some_inj]
    exact ⟨fun h => Fault.eq_of_messageHiding_eq (complaint_inj h), fun h => h ▸ rfl⟩

theorem Invocation.complaint_report_iff {c : Command} {expression : Option String}
    {input : List UInt8} :
    ((run c expression).report input).complaint = complaint f.message ↔
      c.faultIn? expression input = some f := by
  cases expression
  case none =>
    simp only [report, Report.after, Command.reportInput, Command.faultIn?]
    cases readLine? input
    case none => exact iff_of_false (fun h => f.message_ne (complaint_inj h).symm) (by simp)
    case some line => exact Command.complaint_report_iff
  case some expression => exact Command.complaint_report_iff

-- A message belongs to one fault only, whichever characters are hidden. What stands behind the word
-- `Error` is the message of a fault exactly where that fault has been found.
theorem complaint_tells_fault :
    (∀ (hidden hidden' : Char → Bool) (f g : Fault),
        f.messageHiding hidden = g.messageHiding hidden' → f = g) ∧
      ∀ (c : Command) (expression : Option String) (input : List UInt8) (f : Fault),
        ((Invocation.run c expression).report input).complaint = "Error: " ++ f.message ++ "\n" ↔
          c.faultIn? expression input = some f :=
  ⟨fun _ _ _ _ h => Fault.eq_of_messageHiding_eq h,
    fun _ _ _ _ => Invocation.complaint_report_iff⟩

theorem complaint_tells_fault_of_one_message :
    (∃ f g : Fault,
      f.messageHiding Text.isHidden = "invalid character '\\u\x7b7f\x7d' at offset 3" ∧
        g.messageHiding (fun _ => true) = "invalid character '\\u\x7b7f\x7d' at offset 3" ∧ f = g) ∧
      Command.check.faultIn? none (bytes "3 +\n4") =
        some (.unexpectedToken .operand ⟨.finish, 3, 3⟩) :=
  have hf : (Fault.invalidCharacter '\x7f' 3).messageHiding Text.isHidden =
      "invalid character '\\u\x7b7f\x7d' at offset 3" := by decide +kernel
  have hg : (Fault.invalidCharacter '\x7f' 3).messageHiding (fun _ => true) =
      "invalid character '\\u\x7b7f\x7d' at offset 3" := by decide +kernel
  ⟨⟨_, _, hf, hg, complaint_tells_fault.1 _ _ _ _ (hf.trans hg.symm)⟩,
    (complaint_tells_fault.2 _ _ _ _).mp (by decide +kernel)⟩

end CommandLine
end Calculator
