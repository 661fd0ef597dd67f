import LivePanel.Json.Printer
import LivePanel.Json.Reader

/-!
# Strings in JSON text

A string reads as it was before it was written, whatever characters it is made of: what is escaped
is taken as the character it stands for. Main statement: `run_stringText`.
-/
namespace LivePanel.Json

/-- The two digits of a control are hexadecimal. -/
theorem hexValue?_hexDigit : ∀ n, n < 16 → hexValue? (hexDigit n) = some n := by decide

theorem utf8Size_hexDigit : ∀ n, n < 16 → (hexDigit n).utf8Size = 1 := by decide

/-- A character of a string, once it has been escaped, is read as itself. -/
theorem run_escapedChar (fs : List Frame) (owner : Option Members) (cs : List Char) (c : Char) :
    run (.reading fs (.string owner cs .none)) (escapedChar c) =
      .reading fs (.string owner (c :: cs) .none) := by
  rw [escapedChar]
  -- the seven forms of one letter
  iterate 7
    split
    · subst_vars
      rfl
  split
  · rename_i hcontrol
    -- four digits: two zeros and the two of the control
    have hhigh := hexValue?_hexDigit (c.toNat / 16) (by omega)
    have hlow := hexValue?_hexDigit (c.toNat % 16) (by omega)
    have hzero : hexValue? '0' = some 0 := by decide
    have hwide : ('0' : Char).utf8Size = 1 := by decide
    have hwideHigh := utf8Size_hexDigit (c.toNat / 16) (by omega)
    have hwideLow := utf8Size_hexDigit (c.toNat % 16) (by omega)
    have hvalue : c.toNat / 16 * 16 + c.toNat % 16 = c.toNat := by omega
    have hnotLow : isLowHalf c.toNat = false := by simp [isLowHalf]; omega
    have hnotHigh : isHighHalf c.toNat = false := by simp [isHighHalf]; omega
    simp [step, stepText, hhigh, hlow, hzero, hwide, hwideHigh, hwideLow, hvalue, endUnit, hnotLow,
      hnotHigh]
  · rename_i hquote hslash _ _ _ _ _ hcontrol
    simp [step, stepText, hquote, hslash, hcontrol]

theorem run_escapedChars (fs : List Frame) (owner : Option Members) (cs ds : List Char) :
    run (.reading fs (.string owner cs .none)) (ds.flatMap escapedChar) =
      .reading fs (.string owner (ds.reverse ++ cs) .none) := by
  induction ds generalizing cs with
  | nil => rfl
  | cons d ds ih =>
    rw [List.flatMap_cons, run_append, run_escapedChar, ih, List.reverse_cons, List.append_assoc]
    rfl

/-- From its opening quote on a written string is read as it was. -/
theorem run_stringText (fs : List Frame) (owner : Option Members) (s : String) :
    run (.reading fs (.string owner [] .none)) (s.toList.flatMap escapedChar ++ ['"']) =
      endString fs owner s.toList.reverse := by
  rw [run_append, run_escapedChars, List.append_nil]
  rfl

end LivePanel.Json
