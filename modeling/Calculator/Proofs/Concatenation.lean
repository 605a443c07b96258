import Calculator.Proofs.Relocation

namespace Calculator

open Text (size)

variable {x y : String} {f : Fault} {ts : List Token}

theorem tokenize_append_of_error (hs : Seam x.toList y.toList) (hx : tokenize x = .error f) :
    tokenize (x ++ y) = .error f := by
  have ⟨front, back, ts, ht, hr, hs', he⟩ := tokenize_eq_error_iff.mp hx
  have hn : back ≠ [] := by cases he <;> simp_all
  rw [ht] at hs
  refine tokenize_eq_error_iff.mpr ⟨front, back ++ y.toList, ts, ?_, hr, ?_, he.append hs.right⟩
  · simp [ht]
  · exact hs'.append_right fun h => absurd h hn

theorem stream_append_of_ok (hs : Seam x.toList y.toList) (hx : tokenize x = .ok ts) :
    (Cursor.ofText (x ++ y)).stream =
      let s := ((Cursor.ofText y).shift x.utf8ByteSize).stream
      ⟨ts ++ s.tokens, s.ending, s.stop⟩ := by
  have hc : (Cursor.ofText y).shift x.utf8ByteSize = ⟨0 + size x.toList, y.toList⟩ := by
    simp [Cursor.shift, Cursor.ofText]
  rw [hc, Cursor.ofText, String.toList_append]
  exact (tokenize_eq_ok_iff.mp hx).stream_append hs

theorem tokenize_append_of_ok (hs : Seam x.toList y.toList) (hx : tokenize x = .ok ts) :
    tokenize (x ++ y) = ((tokenize y).mapError (·.shift x.utf8ByteSize)).map fun us =>
      ts ++ us.map (·.shift x.utf8ByteSize) := by
  have hy := (Cursor.ofText y).relocates_shift x.utf8ByteSize
  simp only [tokenize, stream_append_of_ok hs hx, hy.tokens, hy.ending]
  cases (Cursor.ofText y).stream.ending <;> simp [Except.map, Except.mapError]

-- Unless a numeral would be torn, two texts are tokenized by themselves, one behind the other.
theorem tokenize_append (hs : Seam x.toList y.toList) :
    tokenize (x ++ y) = do
      let ts ← tokenize x
      let us ← (tokenize y).mapError (·.shift x.utf8ByteSize)
      return ts ++ us.map (·.shift x.utf8ByteSize) := by
  cases hx : tokenize x
  case error f => exact tokenize_append_of_error hs hx
  case ok ts =>
    rw [tokenize_append_of_ok hs hx]
    cases tokenize y <;> rfl

theorem tokenize_append_three_texts :
    tokenize ("12\u00a0" ++ "\u2003-3") = .ok [⟨.number 12, 0, 2⟩, ⟨.minus, 7, 8⟩, ⟨.number 3, 8, 9⟩] ∧
      tokenize ("é*" ++ "(") = .error (.invalidCharacter 'é' 0) ∧
      tokenize ("1+" ++ "99999999999999999999 é") = .error (.overflow ⟨2, 22⟩) :=
  ⟨(tokenize_append (.of_last (by simp))).trans (by decide +kernel),
    (tokenize_append (.of_last (by simp))).trans (by decide +kernel),
    (tokenize_append (.of_last (by simp))).trans (by decide +kernel)⟩

end Calculator
