import Calculator.Proofs.Relocation

namespace Calculator

open Text (isBlank size)

-- Makes room for `k` bytes at the offset `p`: what begins there moves, and what ends there stays.
def Relocation.insertion (p k : Nat) : Relocation where
  start offset := if p ≤ offset then offset + k else offset
  stop offset := if p < offset then offset + k else offset
  finish := (· + k)

variable {p k q : Nat} {text front back blanks : List Char} {s : Span} {f : Fault} {t : Token}
variable {ts : List Token} {c : Cursor} {ending : Except Fault Token}

theorem Span.relocate_before (hs : s.start < p) (he : s.stop ≤ p) :
    s.relocate (.insertion p k) = s := by
  simp [relocate, Relocation.insertion, Nat.not_le.mpr hs, Nat.not_lt.mpr he]

theorem Span.relocate_behind (hs : p ≤ s.start) (he : s.start < s.stop) :
    s.relocate (.insertion p k) = s.shift k := by
  simp [relocate, shift, Relocation.insertion, hs, Nat.lt_of_le_of_lt hs he]

theorem Token.relocate_behind (hs : p ≤ t.span.start) (he : t.span.start < t.span.stop) :
    t.relocate (.insertion p k) = t.shift k := by
  unfold relocate
  split
  case isTrue h => simp_all [shift, Span.shift, Relocation.insertion]
  case isFalse => rw [Span.relocate_behind hs he, shift]

theorem Reads.start_lt_stop (h : Reads q text ts) (ht : t ∈ ts) : t.span.start < t.span.stop := by
  have ⟨_, _, _, _, _, _, hc⟩ := h.cut_of_mem ht
  have := hc.spelled.size_pos
  simp only [hc.span_eq]
  omega

theorem Reads.relocate_before (h : Reads q text ts) (hp : q + size text ≤ p) :
    ts.map (·.relocate (.insertion p k)) = ts := by
  conv => rhs; rw [← List.map_id ts]
  refine List.map_congr_left fun t ht => ?_
  have := h.start_lt_stop ht
  have := (h.within ht).2
  rw [Token.relocate_of_ne_finish (h.ne_finish t ht),
    Span.relocate_before (by omega) (by omega)]
  rfl

theorem Reads.relocate_behind (h : Reads q text ts) (hp : p ≤ q) :
    ts.map (·.relocate (.insertion p k)) = ts.map (·.relocate (.shift k)) := by
  refine List.map_congr_left fun t ht => ?_
  rw [Token.relocate_shift]
  exact Token.relocate_behind (Nat.le_trans hp (h.within ht).1) (h.start_lt_stop ht)

theorem Ends.relocate_before (h : Ends ⟨q, text⟩ (.error f)) (hp : q + size text ≤ p) :
    f.relocate (.insertion p k) = f := by
  cases h
  case stray c rest _ _ _ =>
    have := c.utf8Size_pos
    rw [Text.size_cons] at hp
    have hq : ¬p ≤ q := by omega
    simp [Fault.relocate, Relocation.insertion, hq]
  case numeral digits rest hn _ _ _ =>
    have := Text.size_pos_of_ne_nil hn
    rw [Text.size_append] at hp
    rw [Fault.relocate, Span.relocate_before (by simp only; omega) (by simp only; omega)]

theorem Ends.relocate_behind (h : Ends c ending) (hp : p ≤ c.position) :
    (Relocation.insertion p k).result (Token.relocate (.insertion p k)) ending =
      (Relocation.shift k).result (Token.relocate (.shift k)) ending := by
  cases h
  case finish => simp [Token.relocate, Relocation.insertion, Relocation.shift]
  case stray =>
    rw [Relocation.result_error, Relocation.result_error, Fault.relocate_shift]
    simp [Fault.relocate, Fault.shift, Relocation.insertion, show p ≤ _ from hp]
  case numeral q digits _ hn _ _ _ =>
    have := Text.size_pos_of_ne_nil hn
    rw [Relocation.result_error, Fault.relocate, Span.relocate_behind hp (by simp only; omega)]
    simp [Fault.shift]

theorem Cursor.relocates_behind (k : Nat) (hp : p ≤ c.position) :
    c.stream.Relocates (.insertion p k) (c.shift k).stream := by
  have h := c.relocates_shift k
  obtain ⟨q, text⟩ := c
  have ⟨front, back, ts, ending, ht, hr, hs, he⟩ := exists_reads q text
  rw [ht, hr.stream_eq hs he] at h ⊢
  refine ⟨?_, ?_⟩
  · exact (hr.relocate_behind hp).symm ▸ h.tokens
  · rw [he.relocate_behind (Nat.le_trans hp (Nat.le_add_right ..))]
    exact h.ending

theorem seam_blanks (hs : Seam front back) (hb : ∀ c ∈ blanks, isBlank c) :
    Seam front (blanks ++ back) ∧ Seam (front ++ blanks) back where
  left := (Seam.of_blanks_right hb).append_right fun _ => hs
  right := (Seam.of_blanks_left hb).append_left fun _ => hs

-- All tokens of the front stay, and what is read behind it moves.
theorem Reads.relocates_insertion (hr : Reads 0 front ts) (hs : Seam front back)
    (hb : ∀ c ∈ blanks, isBlank c) :
    (Cursor.mk 0 (front ++ back)).stream.Relocates (.insertion (size front) (size blanks))
      (Cursor.mk 0 (front ++ (blanks ++ back))).stream := by
  have h := Cursor.relocates_behind (c := ⟨0 + size front, back⟩) (size blanks)
    (Nat.le_add_left (size front) 0)
  rw [hr.stream_append hs, ← List.append_assoc,
    (hr.append_blanks hb).stream_append (seam_blanks hs hb).2, Text.size_append, ← Nat.add_assoc]
  refine ⟨?_, h.ending⟩
  rw [List.map_append, hr.relocate_before (Nat.le_of_eq (Nat.zero_add _))]
  exact congrArg (ts ++ ·) h.tokens

theorem Ends.relocates_insertion {pre rest : List Char} (he : Ends ⟨0 + size pre, rest⟩ (.error f))
    (hr : Reads 0 pre ts) (hp : Seam pre rest) (hf : front = pre ++ rest) (hs : Seam front back)
    (hb : ∀ c ∈ blanks, isBlank c) :
    (Cursor.mk 0 (front ++ back)).stream.Relocates (.insertion (size front) (size blanks))
      (Cursor.mk 0 (front ++ (blanks ++ back))).stream := by
  have hn : rest ≠ [] := by cases he <;> simp_all
  have hsize : 0 + size pre + size rest ≤ size front := by simp [hf]
  have hs₁ : Seam rest back := (hf ▸ hs).right
  have hs₂ : Seam rest (blanks ++ back) := (hf ▸ (seam_blanks hs hb).1).right
  rw [hf, List.append_assoc, List.append_assoc,
    hr.stream_eq (hp.append_right fun h => absurd h hn) (he.append hs₁),
    hr.stream_eq (hp.append_right fun h => absurd h hn) (he.append hs₂), ← hf]
  refine ⟨(hr.relocate_before (Nat.le_of_add_right_le hsize)).symm, ?_⟩
  rw [Relocation.result_error, he.relocate_before hsize]

theorem relocates_insertion (hs : Seam front back) (hb : ∀ c ∈ blanks, isBlank c) :
    (Cursor.mk 0 (front ++ back)).stream.Relocates (.insertion (size front) (size blanks))
      (Cursor.mk 0 (front ++ (blanks ++ back))).stream := by
  have ⟨pre, rest, ts, ending, hf, hr, hp, he⟩ := exists_reads 0 front
  cases ending
  case ok t =>
    obtain rfl : rest = [] := by cases he; rfl
    rw [List.append_nil] at hf
    exact (hf ▸ hr).relocates_insertion hs hb
  case error f => exact he.relocates_insertion hr hp hf hs hb

-- The value of a text does not change when blanks are put between its tokens, nor does its fault,
-- other than in where it is.
theorem evaluate_insert_blanks {front back blanks : String} (hs : Seam front.toList back.toList)
    (hb : ∀ c ∈ blanks.toList, isBlank c) :
    evaluate (front ++ blanks ++ back) = (evaluate (front ++ back)).mapError
      (Fault.relocate (.insertion front.utf8ByteSize blanks.utf8ByteSize)) := by
  have h := (relocates_insertion hs hb).value
  rw [evaluate_eq_value, evaluate_eq_value]
  simpa using h

-- The sum grows around the blanks, and the end of the text moves away from its last token.
theorem evaluate_insert_blanks_twice :
    evaluate ("9223372036854775807" ++ "\u00a0\t" ++ "+1") = .error (.overflow ⟨0, 24⟩) ∧
      evaluate ("1+" ++ " " ++ "") = .error (.unexpectedToken .operand ⟨.finish, 3, 3⟩) :=
  have hs : Seam "9223372036854775807".toList "+1".toList := .of_head (by simp)
  have hb : ∀ c ∈ "\u00a0\t".toList, isBlank c := List.all_eq_true.mp rfl
  have hb' : ∀ c ∈ " ".toList, isBlank c := List.all_eq_true.mp rfl
  ⟨(evaluate_insert_blanks hs hb).trans (by decide +kernel),
    (evaluate_insert_blanks (.of_head (by simp)) hb').trans (by decide +kernel)⟩

end Calculator
