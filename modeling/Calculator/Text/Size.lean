namespace Calculator.Text

def size (chars : List Char) : Nat :=
  chars.foldr (fun c bytes => c.utf8Size + bytes) 0

@[simp] theorem size_nil : size [] = 0 := rfl

@[simp] theorem size_cons (c : Char) (chars : List Char) :
    size (c :: chars) = c.utf8Size + size chars := rfl

@[simp] theorem size_append (front back : List Char) :
    size (front ++ back) = size front + size back := by
  induction front with
  | nil => simp
  | cons c front ih => simp [ih, Nat.add_assoc]

theorem size_eq_zero_iff {chars : List Char} : size chars = 0 ↔ chars = [] := by
  cases chars with
  | nil => simp
  | cons c chars =>
    have := c.utf8Size_pos
    simp
    omega

theorem size_pos_of_ne_nil {chars : List Char} (h : chars ≠ []) : 0 < size chars :=
  Nat.pos_of_ne_zero (mt size_eq_zero_iff.mp h)

-- Of two cuts of a text, the one at the smaller offset comes first.
theorem append_eq_append_of_size_le {front back front' back' : List Char}
    (h : front ++ back = front' ++ back') (hs : size front ≤ size front') :
    ∃ mid, front' = front ++ mid ∧ back = mid ++ back' := by
  cases List.append_eq_append_iff.mp h
  case inl h => exact h
  case inr h =>
    have ⟨mid, hf, hb⟩ := h
    rw [hf, size_append] at hs
    have hm := size_eq_zero_iff.mp (show size mid = 0 by omega)
    exact ⟨[], by simp [hf, hm], by simp [hb, hm]⟩

theorem append_inj_of_size {front back front' back' : List Char}
    (h : front ++ back = front' ++ back') (hs : size front = size front') :
    front = front' ∧ back = back' := by
  have ⟨mid, hf, hb⟩ := append_eq_append_of_size_le h (Nat.le_of_eq hs)
  rw [hf, size_append] at hs
  have hm := size_eq_zero_iff.mp (show size mid = 0 by omega)
  exact ⟨by simp [hf, hm], by simp [hb, hm]⟩

theorem size_eq_utf8ByteSize (chars : List Char) :
    size chars = (String.ofList chars).utf8ByteSize := by
  induction chars with
  | nil => rfl
  | cons c chars ih =>
    have hc : (String.ofList [c]).utf8ByteSize = c.utf8Size := by
      rw [← String.singleton_eq_ofList, String.utf8ByteSize_singleton]
    rw [← List.singleton_append, String.ofList_append, String.utf8ByteSize_append, hc, ← ih]
    rfl

@[simp] theorem size_toList (text : String) : size text.toList = text.utf8ByteSize := by
  rw [size_eq_utf8ByteSize, String.ofList_toList]

def splitAfter? (passed : List Char) : Nat → List Char → Option (List Char × List Char)
  | 0, rest => some (passed.reverse, rest)
  | _ + 1, [] => none
  | offset + 1, c :: rest =>
    if c.utf8Size ≤ offset + 1 then splitAfter? (c :: passed) (offset + 1 - c.utf8Size) rest
    else none

-- Cuts a text at a byte offset. There is no cut inside a character or past the end.
def split? (offset : Nat) (chars : List Char) : Option (List Char × List Char) :=
  splitAfter? [] offset chars

theorem splitAfter?_eq_some_iff {passed chars front back : List Char} {offset : Nat} :
    splitAfter? passed offset chars = some (front, back) ↔
      ∃ mid, front = passed.reverse ++ mid ∧ chars = mid ++ back ∧ size mid = offset := by
  fun_induction splitAfter? passed offset chars with
  | case1 passed rest =>
    simp only [Option.some.injEq, Prod.mk.injEq, size_eq_zero_iff]
    constructor
    · rintro ⟨rfl, rfl⟩
      exact ⟨[], by simp⟩
    · rintro ⟨mid, rfl, rfl, rfl⟩
      simp
  | case2 passed offset =>
    simp only [reduceCtorEq, false_iff]
    rintro ⟨mid, -, h, hs⟩
    obtain ⟨rfl, -⟩ := List.append_eq_nil_iff.1 h.symm
    simp at hs
  | case3 passed offset c rest hc ih =>
    rw [ih]
    clear ih
    constructor
    · rintro ⟨mid, rfl, rfl, hs⟩
      exact ⟨c :: mid, by simp, rfl, by rw [size_cons, hs]; omega⟩
    · rintro ⟨mid, rfl, h, hs⟩
      cases mid with
      | nil => simp at hs
      | cons d mid =>
        simp only [List.cons_append, List.cons.injEq] at h
        obtain ⟨rfl, rfl⟩ := h
        exact ⟨mid, by simp, rfl, by simp at hs; omega⟩
  | case4 passed offset c rest hc =>
    simp only [reduceCtorEq, false_iff]
    rintro ⟨mid, -, h, hs⟩
    cases mid with
    | nil => simp at hs
    | cons d mid =>
      simp only [List.cons_append, List.cons.injEq] at h
      obtain ⟨rfl, -⟩ := h
      simp at hs
      omega

theorem split?_eq_some_iff {chars front back : List Char} {offset : Nat} :
    split? offset chars = some (front, back) ↔ chars = front ++ back ∧ size front = offset := by
  simp [split?, splitAfter?_eq_some_iff]

def slice? (start stop : Nat) (chars : List Char) : Option (List Char) :=
  if start ≤ stop then do
    let (_, rest) ← split? start chars
    let (inside, _) ← split? (stop - start) rest
    return inside
  else none

theorem slice?_eq_some_iff {chars inside : List Char} {start stop : Nat} :
    slice? start stop chars = some inside ↔
      ∃ front back, chars = front ++ inside ++ back ∧
        size front = start ∧ start + size inside = stop := by
  unfold slice?
  split
  case isTrue h =>
    simp only [Option.bind_eq_bind, Option.bind_eq_some_iff, Prod.exists, split?_eq_some_iff,
      Option.pure_def, Option.some.injEq]
    constructor
    · rintro ⟨front, rest, ⟨rfl, rfl⟩, mid, back, ⟨rfl, hs⟩, rfl⟩
      exact ⟨front, back, by simp, rfl, by omega⟩
    · rintro ⟨front, back, rfl, rfl, hs⟩
      exact ⟨front, inside ++ back, by simp, inside, back, ⟨rfl, by omega⟩, rfl⟩
  case isFalse h =>
    simp only [reduceCtorEq, false_iff]
    rintro ⟨front, back, -, rfl, rfl⟩
    omega

end Calculator.Text
