import Calculator.Proofs.FirstLine
import Calculator.Proofs.Relocation

namespace Calculator

open Text (isBlank size)

def Span.ofText? (text : List Char) : Option Span :=
  match text.splitOn '.' with
  | [start, _, stop] => some ⟨Numeral.value start, Numeral.value stop⟩
  | _ => none

def Symbol.ofText? (text : List Char) : Option Symbol :=
  match [plus, minus, star, slash].find? (·.text.toList = text) with
  | some s => some s
  | none => (Numeral.read? (text.drop "integer ".length)).map number

def Relocation.origin : Relocation where
  start _ := 0
  stop _ := 0
  finish _ := 0

def Fault.unplaced (f : Fault) : Fault :=
  f.relocate .origin

namespace CommandLine

def tableRow (t : Token) (inside : String) : String :=
  t.span.text ++ "\t" ++ inside ++ "\t" ++ t.symbol.text ++ "\n"

def Token.ofRow? (row : List Char) : Option Token :=
  match row.splitOn '\t' with
  | [span, _, symbol] => do return ⟨← Symbol.ofText? symbol, ← Span.ofText? span⟩
  | _ => none

-- Prints what a reader hands out, item by item, and gives up at a fault.
def printed (line : String) : List (Except Fault Token) → Report
  | [] => .success ""
  | .ok t :: items => (printed line items).after (row line t)
  | .error f :: _ => .failure "" f.message

def readTable? (table : String) : Option (List Token) :=
  (table.toList.splitOn '\n').dropLast.mapM Token.ofRow?

end CommandLine

variable {n : Nat} {c : Char} {t : Token} {ts us : List Token} {symbol : Symbol}
variable {line inside : String} {texts : List String} {body : List Char}

theorem not_mem_toString (h : c.isDigit = false) (n : Nat) : c ∉ (toString n).toList := by
  intro hc
  simp [Numeral.isDigit_toString n c hc] at h

theorem Span.ofText?_text (s : Span) : ofText? s.text.toList = some s := by
  have hd : ∀ n : Nat, '.' ∉ (toString n).toList := not_mem_toString rfl
  have ht : s.text.toList =
      (toString s.start).toList ++ '.' :: ([] ++ '.' :: (toString s.stop).toList) := by
    simp [text]
  rw [ofText?, ht, List.splitOn_append_cons_self_of_not_mem (hd _),
    List.splitOn_append_cons_self_of_not_mem (by simp), List.splitOn_eq_singleton (hd _)]
  simp only [Numeral.value_toString]

theorem Symbol.ofText?_number {w : Word} (h : w.toInt = n) :
    ofText? (number w).text.toList = some (number w) := by
  have ht : (number w).text.toList = "integer ".toList ++ (toString n).toList := by
    rw [text, Word.text_of_toInt h, String.toList_append]
  have hf : [plus, minus, star, slash].find? (·.text.toList = (number w).text.toList) = none := by
    simp [text, Category.text, category]
  have hr : Numeral.read? (toString n).toList = some w := by
    rw [Numeral.read?_eq, Numeral.value_toString, Word.ofInt?_eq_some_iff, h]
  have hd : ("integer ".toList ++ (toString n).toList).drop "integer ".length =
      (toString n).toList := List.drop_left
  rw [ofText?, hf, ht, hd, hr]
  rfl

theorem Symbol.Spelled.ofText?_text (h : symbol.Spelled body) :
    Symbol.ofText? symbol.text.toList = some symbol := by
  cases h
  case sign h =>
    unfold ofChar? at h
    split at h <;> cases h <;> decide
  case number hr => exact Symbol.ofText?_number (Numeral.toInt_of_read? hr)

def Separates (c : Char) : Prop :=
  c = '\t' ∨ c = '\n'

namespace Separates

theorem isBlank (h : Separates c) : isBlank c := by
  rcases h with rfl | rfl <;> rfl

theorem not_mem_toString (h : Separates c) (n : Nat) : c ∉ (toString n).toList :=
  Calculator.not_mem_toString (Text.isDigit_eq_false_of_isBlank h.isBlank) n

theorem not_mem_span (h : Separates c) (s : Span) : c ∉ s.text.toList := by
  have hd : c ≠ '.' := by rcases h with rfl | rfl <;> decide
  rw [Span.text, String.toList_append, String.toList_append]
  simp only [List.mem_append, not_or]
  exact ⟨⟨h.not_mem_toString _, by simpa using hd⟩, h.not_mem_toString _⟩

theorem not_mem_spelled (h : Separates c) (hb : symbol.Spelled body) : c ∉ body := by
  intro hc
  have hn := h.isBlank
  cases hb
  case sign hs =>
    obtain rfl := List.mem_singleton.mp hc
    simp [Symbol.isBlank_of_ofChar? hs] at hn
  case number hd _ => simp [Text.isBlank_eq_false_of_isDigit (hd c hc)] at hn

theorem not_mem_symbol (h : Separates c) (hb : symbol.Spelled body) :
    c ∉ symbol.text.toList := by
  cases hb
  case sign hs =>
    unfold Symbol.ofChar? at hs
    split at hs <;> cases hs <;> rcases h with rfl | rfl <;> decide
  case number w _ _ hr =>
    have hi : c ∉ "integer ".toList := by rcases h with rfl | rfl <;> decide
    rw [Symbol.text, Word.text_of_toInt (Numeral.toInt_of_read? hr), String.toList_append,
      List.mem_append, not_or]
    exact ⟨hi, h.not_mem_toString _⟩

end Separates

namespace CommandLine

structure Entry (line : String) (t : Token) (inside : String) : Prop where
  slice   : t.span.slice? line = some inside
  spelled : t.symbol.Spelled inside.toList

theorem exists_entries (line : String) :
    ∃ texts, List.Forall₂ (Entry line) (Cursor.ofText line).stream.tokens texts := by
  have ⟨front, back, hc, hr, _, _⟩ := reads_ofText line
  refine ⟨(Cursor.ofText line).stream.tokens.map fun t => (t.span.slice? line).getD "", ?_⟩
  rw [List.forall₂_map_right_iff, List.forall₂_same]
  intro t ht
  have ⟨pre, body, post, _, _, hf, hcut⟩ := hr.cut_of_mem ht
  have hs : t.span.slice? line = some (.ofList body) := by
    rw [hcut.span_eq, Nat.zero_add]
    rw [hf, List.append_assoc] at hc
    exact Span.slice?_append hc
  rw [hs]
  exact ⟨hs, by simpa using hcut.spelled⟩

def columns (t : Token) (inside : String) : List Char :=
  t.span.text.toList ++ '\t' :: (inside.toList ++ '\t' :: t.symbol.text.toList)

theorem toList_tableRow : (tableRow t inside).toList = columns t inside ++ ['\n'] := by
  simp [tableRow, columns]

theorem Entry.ofRow?_columns (h : Entry line t inside) :
    Token.ofRow? (columns t inside) = some t := by
  have ht : Separates '\t' := .inl rfl
  rw [Token.ofRow?, columns, List.splitOn_append_cons_self_of_not_mem (ht.not_mem_span _),
    List.splitOn_append_cons_self_of_not_mem (ht.not_mem_spelled h.spelled),
    List.splitOn_eq_singleton (ht.not_mem_symbol h.spelled)]
  simp [h.spelled.ofText?_text, Span.ofText?_text]

theorem Entry.not_mem_columns (h : Entry line t inside) : '\n' ∉ columns t inside := by
  have hn : Separates '\n' := .inr rfl
  simp [columns, hn.not_mem_span, hn.not_mem_spelled h.spelled, hn.not_mem_symbol h.spelled]

theorem splitOn_rows (h : List.Forall₂ (Entry line) ts texts) :
    (String.join (List.zipWith tableRow ts texts)).toList.splitOn '\n' =
      List.zipWith columns ts texts ++ [[]] := by
  induction h
  case nil => rfl
  case cons h _ ih =>
    rw [String.toList_join] at ih ⊢
    rw [List.zipWith_cons_cons, List.flatMap_cons, toList_tableRow, List.append_assoc,
      List.singleton_append, List.splitOn_append_cons_self_of_not_mem h.not_mem_columns, ih]
    rfl

theorem readTable?_rows (h : List.Forall₂ (Entry line) ts texts) :
    readTable? (String.join (List.zipWith tableRow ts texts)) = some ts := by
  rw [readTable?, splitOn_rows h, List.dropLast_concat]
  induction h
  case nil => rfl
  case cons h _ ih =>
    rw [List.zipWith_cons_cons, List.mapM_cons, h.ofRow?_columns, ih]
    rfl

theorem reads_joined {p : Nat} (h : List.Forall₂ (Entry line) ts texts) :
    ∃ us, Reads p ([' '].intercalate (texts.map String.toList)) us ∧
      us.map (·.symbol) = ts.map (·.symbol) := by
  induction h generalizing p
  case nil => exact ⟨[], .nil, rfl⟩
  case cons t inside ts texts h hs ih =>
    cases texts
    case nil =>
      obtain rfl := List.forall₂_nil_right_iff.mp hs
      refine ⟨[⟨t.symbol, p, p + size inside.toList⟩], ?_, rfl⟩
      simpa using Reads.token h.spelled .nil_right .nil
    case cons inside' texts =>
      obtain ⟨us, hr, hu⟩ := ih (p := p + size inside.toList + 1)
      refine ⟨⟨t.symbol, p, p + size inside.toList⟩ :: us, ?_, by simp [hu]⟩
      rw [List.map_cons, List.map_cons, List.intercalate_cons_cons, List.append_assoc]
      exact .token h.spelled (.of_head (by simp)) (.blank rfl hr)

end CommandLine

theorem Token.relocate_origin (t : Token) : t.relocate .origin = ⟨t.symbol, 0, 0⟩ := by
  unfold relocate
  split
  case isTrue h =>
    rw [isFinish_iff] at h
    rw [h]
    rfl
  case isFalse => rfl

theorem Reads.value_unplaced {p : Nat} (h : Reads p body ts) :
    (Cursor.mk p body).stream.value.mapError Fault.unplaced =
      TokenStream.value ⟨(ts.map (·.symbol)).map (⟨·, 0, 0⟩), .ok ⟨.finish, 0, 0⟩, ⟨0, []⟩⟩ := by
  have hs := h.stream_eq .nil_right .finish
  rw [List.append_nil] at hs
  rw [hs]
  refine (TokenStream.Relocates.value ⟨?_, rfl⟩).symm
  rw [List.map_map]
  exact List.map_congr_left fun t _ => t.relocate_origin.symm

-- What a text comes to is decided by its symbols.
theorem evaluate_of_symbols {x y : String} (hx : Reads 0 x.toList ts) (hy : Reads 0 y.toList us)
    (h : us.map (·.symbol) = ts.map (·.symbol)) :
    (evaluate y).mapError Fault.unplaced = (evaluate x).mapError Fault.unplaced := by
  rw [evaluate_eq_value, evaluate_eq_value, hx.value_unplaced, hy.value_unplaced, h]

namespace CommandLine

structure Rejoins (line joined : String) (ts us : List Token) : Prop where
  tokens  : tokenize joined = .ok us
  symbols : us.map (·.symbol) = ts.map (·.symbol)
  value   : (evaluate joined).mapError Fault.unplaced = (evaluate line).mapError Fault.unplaced

structure IsTable (line : String) (ts : List Token) (texts : List String) (r : Report) : Prop where
  slices  : List.Forall₂ (fun t inside => t.span.slice? line = some inside) ts texts
  output  : r.output = String.join (List.zipWith tableRow ts texts)
  decodes : readTable? r.output = some ts
  success : ∀ us, tokenize line = .ok us → us = ts ∧ r.status = 0 ∧ r.complaint = "" ∧
    ∃ ws, Rejoins line (" ".intercalate texts) ts ws
  failure : ∀ f, tokenize line = .error f →
    (∃ front, Span.slice? ⟨0, f.span.start⟩ line = some front ∧ tokenize front = .ok ts) ∧
      r.status = 1 ∧ r.complaint = "Error: " ++ f.message ++ "\n"

theorem rows_eq (h : List.Forall₂ (Entry line) ts texts) :
    ts.map (row line) = List.zipWith tableRow ts texts := by
  induction h
  case nil => rfl
  case cons h _ ih =>
    rw [List.map_cons, List.zipWith_cons_cons, ih, row, h.slice]
    rfl

theorem rejoins_of_tokenize (h : tokenize line = .ok ts) (he : List.Forall₂ (Entry line) ts texts) :
    ∃ us, Rejoins line (" ".intercalate texts) ts us := by
  obtain ⟨us, hr, hu⟩ := reads_joined (p := 0) he
  have hj : Reads 0 (" ".intercalate texts).toList us := by
    rw [String.toList_intercalate]
    exact hr
  exact ⟨us, tokenize_eq_ok_iff.mpr hj, hu,
    evaluate_of_symbols (tokenize_eq_ok_iff.mp h) hj hu⟩

theorem isTable (he : List.Forall₂ (Entry line) (Cursor.ofText line).stream.tokens texts) :
    IsTable line (Cursor.ofText line).stream.tokens texts (Command.tokens.report line) := by
  have ⟨front, back, hc, hr, hs, hends⟩ := reads_ofText line
  have ho : (Command.tokens.report line).output =
      String.join (List.zipWith tableRow (Cursor.ofText line).stream.tokens texts) := by
    rw [← rows_eq he]
    simp only [Command.report]
    cases (Cursor.ofText line).stream.ending <;> rfl
  constructor
  case slices => exact he.imp fun _ _ h => h.slice
  case output => exact ho
  case decodes => rw [ho, readTable?_rows he]
  case success =>
    intro us h
    have ⟨t, ht, hu⟩ := Machine.map_eq_ok_iff.mp h
    refine ⟨hu.symm, ?_, ?_, rejoins_of_tokenize (hu ▸ h) he⟩
    all_goals
      simp only [Command.report, ht]
      rfl
  case failure =>
    intro f h
    have ht := Machine.map_eq_error_iff.mp h
    refine ⟨⟨.ofList front, ?_, ?_⟩, ?_, ?_⟩
    · rw [ht] at hends
      rw [hends.start_eq]
      exact Span.slice?_front hc
    · exact tokenize_eq_ok_iff.mpr (by simpa using hr)
    all_goals
      simp only [Command.report, ht]
      rfl

theorem printed_tokens (ts : List Token) (items : List (Except Fault Token)) :
    printed line (ts.map .ok ++ items) =
      (printed line items).after (String.join (ts.map (row line))) := by
  induction ts
  case nil => simp [Report.after]
  case cons ih => simp [printed, ih, Report.after, String.append_assoc]

theorem report_of_handsOut {items : List (Except Fault Token)} {last : Reader}
    (h : (Reader.ofText line).HandsOut items last) :
    Command.tokens.report line = printed line items := by
  rw [h.items_eq, printed_tokens]
  simp only [Command.report]
  cases (Cursor.ofText line).stream.ending
  case error => simp [printed, Report.after, Report.failure]
  case ok => simp [printed, Report.after, Report.success]

-- What the reader hands out is printed item by item. This makes a table with one row for each token
-- before the end of the line or its first fault, which can be read back. Its middle column, with
-- blanks between, comes to what the line comes to.
theorem report_tokens (line : String) :
    (∃ items last, (Reader.ofText line).HandsOut items last ∧
      Command.tokens.report line = printed line items) ∧
      (∃ ts texts, IsTable line ts texts (Command.tokens.report line)) ∧
      (∀ input, (Invocation.run .tokens (some line)).report input = Command.tokens.report line) ∧
      ∀ input, readLine? input = some line →
        (Invocation.run .tokens none).report input = (Command.tokens.report line).after prompt := by
  have ⟨texts, he⟩ := exists_entries line
  have h := (Reader.ofText line).handsOut_drain
  refine ⟨⟨_, _, h, report_of_handsOut h⟩, ⟨_, texts, isTable he⟩, fun _ => rfl, fun input hi => ?_⟩
  simp only [Invocation.report, Command.reportInput, hi]

theorem report_tokens_of_two_lines :
    (∃ ts texts, IsTable "12*-3" ts texts (Command.tokens.report "12*-3")) ∧
      (Invocation.run .tokens none).report (bytes "12*-3" ++ [10]) =
        (Command.tokens.report "12*-3").after prompt ∧
      ∃ ts texts, IsTable "1 $" ts texts (Command.tokens.report "1 $") :=
  have h : readLine? (bytes "12*-3" ++ [10]) = some "12*-3" := by decide +kernel
  ⟨(report_tokens "12*-3").2.1, (report_tokens "12*-3").2.2.2 _ h, (report_tokens "1 $").2.1⟩

end CommandLine
end Calculator
