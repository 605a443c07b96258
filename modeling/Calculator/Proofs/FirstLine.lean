import Calculator.CommandLine.Report
import Mathlib.Data.List.DropRight
import Mathlib.Data.List.TakeWhile

namespace Calculator.CommandLine

def bytes (text : String) : List UInt8 :=
  text.toUTF8.data.toList

inductive FirstLine (line : List UInt8) : List UInt8 → List UInt8 → Prop where
  | newline {more : List UInt8} : FirstLine line (line ++ [10]) (line ++ 10 :: more)
  | finish : FirstLine line line line

variable {line : String} {first read input : List UInt8} {chars : List Char} {c : Char} {j : Nat}

theorem bytes_eq (text : String) : bytes text = text.toList.flatMap String.utf8EncodeChar := by
  rw [bytes, String.toUTF8_eq_toByteArray, ← String.utf8Encode_toList, List.utf8Encode,
    List.data_toByteArray]

theorem bytes_append_replicate (line : String) (j : Nat) :
    bytes (line ++ .ofList (.replicate j '\r')) = bytes line ++ .replicate j 13 := by
  have hr : String.utf8EncodeChar '\r' = [13] := rfl
  simp [bytes_eq, List.flatMap_replicate, hr]

theorem fromUTF8?_bytes (text : String) : String.fromUTF8? (bytes text).toByteArray = some text := by
  have hb : (bytes text).toByteArray = text.toByteArray := by
    rw [bytes_eq, ← List.utf8Encode, String.utf8Encode_toList]
  rw [hb, String.fromUTF8?, dif_pos text.isValidUTF8]
  rfl

-- All bytes of the longer forms are above those of ASCII.
theorem newline_mem_utf8EncodeChar : 10 ∈ String.utf8EncodeChar c ↔ c = '\n' := by
  have hc : c = '\n' ↔ c.val.toNat = 10 := by
    rw [Char.ext_iff, ← UInt32.toNat_inj]
    rfl
  have hb : (10 : UInt8).toNat = 10 := rfl
  rw [hc, String.utf8EncodeChar]
  split
  case isTrue h =>
    simp only [List.mem_singleton, ← UInt8.toNat_inj, UInt8.toNat_ofNat', hb]
    omega
  case isFalse =>
    repeat' split
    all_goals
      simp only [List.mem_cons, List.not_mem_nil, or_false, ← UInt8.toNat_inj, UInt8.toNat_ofNat', hb]
      omega

theorem newline_mem_bytes : 10 ∈ bytes line ↔ '\n' ∈ line.toList := by
  simp [bytes_eq, newline_mem_utf8EncodeChar]

theorem FirstLine.firstLine_eq (h : FirstLine first read input) (hn : 10 ∉ first) :
    firstLine input = first := by
  have hp : ∀ b ∈ first, decide (b ≠ 10) := fun b hb => by
    simpa using ne_of_mem_of_not_mem hb hn
  cases h
  case newline =>
    rw [firstLine, List.takeWhile_append_of_pos hp]
    simp
  case finish => exact List.takeWhile_eq_self_iff.mpr hp

theorem dropWhile_carriage_returns (h : chars.getLast? ≠ some '\r') :
    (chars ++ .replicate j '\r').rdropWhile (· = '\r') = chars := by
  induction j
  case zero =>
    rw [List.replicate_zero, List.append_nil, List.rdropWhile_eq_self_iff]
    intro hn
    simpa [List.getLast?_eq_some_getLast hn] using h
  case succ j ih =>
    rw [List.replicate_succ', ← List.append_assoc, List.rdropWhile_concat_pos _ _ _ (by simp), ih]

theorem readLine?_of_bytes (hn : '\n' ∉ line.toList) (hr : line.toList.getLast? ≠ some '\r')
    (h : FirstLine (bytes line ++ .replicate j 13) read input) : readLine? input = some line := by
  rw [← bytes_append_replicate] at h
  have hf := h.firstLine_eq (by simpa [newline_mem_bytes] using hn)
  rw [readLine?, hf, fromUTF8?_bytes, Option.map_some]
  have hd := dropWhile_carriage_returns (j := j) hr
  rw [List.rdropWhile] at hd
  rw [String.toList_append, String.toList_ofList, hd, String.ofList_toList]

theorem readLine?_of_invalid (hn : 10 ∉ first) (hv : ¬read.toByteArray.IsValidUTF8)
    (h : FirstLine first read input) : readLine? input = none := by
  have hf : ¬first.toByteArray.IsValidUTF8 := by
    cases h
    case finish => exact hv
    case newline =>
      intro hf
      rw [List.toByteArray_append] at hv
      exact hv (hf.append ⟨['\n'], rfl⟩)
  rw [readLine?, h.firstLine_eq hn, String.fromUTF8?, dif_neg hf]
  rfl

-- The first line of the input stands for the expression that it is without the carriage returns at
-- its end. It makes no difference what comes behind it. Where it is not UTF-8, that is the report.
theorem report_firstLine (command : Command) :
    (∀ (line : String) (j : Nat) (read input other : List UInt8),
      '\n' ∉ line.toList → line.toList.getLast? ≠ some '\r' →
      FirstLine (bytes line ++ .replicate j 13) read input →
      (Invocation.run command none).report input =
        ((Invocation.run command (some line)).report other).after prompt) ∧
    ∀ first read input : List UInt8, 10 ∉ first → FirstLine first read input →
      ¬read.toByteArray.IsValidUTF8 →
      (Invocation.run command none).report input =
        ⟨1, prompt, "Error: stream did not contain valid UTF-8\n"⟩ := by
  constructor
  case left =>
    intro line j read input other hn hr h
    simp only [Invocation.report, Command.reportInput, readLine?_of_bytes hn hr h]
  case right =>
    intro first read input hn h hv
    simp only [Invocation.report, Command.reportInput, readLine?_of_invalid hn hv h]
    rfl

theorem report_firstLine_before_bad_byte :
    (Invocation.run .eval none).report (bytes "6\r/2" ++ [13, 13] ++ 10 :: [255]) =
      ((Invocation.run .eval (some "6\r/2")).report []).after prompt ∧
    (Invocation.run .check none).report ([255] ++ 10 :: [49]) =
      ⟨1, prompt, "Error: stream did not contain valid UTF-8\n"⟩ :=
  ⟨(report_firstLine .eval).1 "6\r/2" 2 _ _ [] (by decide) (by decide) .newline,
    (report_firstLine .check).2 [255] _ _ (by decide) .newline (by decide +kernel)⟩

end Calculator.CommandLine
