import PageStore.Text.Unseen

/-!
# PageStore.Text.Quoted

Texts in double quotes, as file names stand in messages. The double quote, the backslash, the
common control characters and NUL have a short escape; a character that leaves no mark of its own
on paper, or only one on its neighbour, is written by its number. `quoted_plain` says that all else
stands for itself.
-/

namespace PageStore.Text

/-- How one character stands between the quotes. -/
def quoteChar (c : Char) : List Char :=
  if c = '\x00' then ['\\', '0']
  else if c = '\t' then ['\\', 't']
  else if c = '\r' then ['\\', 'r']
  else if c = '\n' then ['\\', 'n']
  else if c = '\x22' ∨ c = '\\' then ['\\', c]
  else if isUnseen c then ['\\', 'u', '\x7b'] ++ Nat.toDigits 16 c.toNat ++ ['\x7d']
  else [c]

def quoted (s : String) : String :=
  String.ofList (['\x22'] ++ s.toList.flatMap quoteChar ++ ['\x22'])

theorem quoteChar_plain {c : Char} (h : isUnseen c = false)
    (hq : c ≠ '\x22' ∧ c ≠ '\\') : quoteChar c = [c] := by
  have hz : c ≠ '\x00' := by rintro rfl; revert h; decide
  have ht : c ≠ '\t' := by rintro rfl; revert h; decide
  have hr : c ≠ '\r' := by rintro rfl; revert h; decide
  have hn : c ≠ '\n' := by rintro rfl; revert h; decide
  simp [quoteChar, hz, ht, hr, hn, hq, h]

/-- A text of plain characters stands between the quotes as it is. -/
theorem quoted_plain (s : String)
    (h : ∀ c ∈ s.toList, isUnseen c = false ∧ c ≠ '\x22' ∧ c ≠ '\\') :
    quoted s = String.ofList (['\x22'] ++ s.toList ++ ['\x22']) := by
  have : s.toList.flatMap quoteChar = s.toList := by
    generalize s.toList = cs at h
    induction cs with
    | nil => rfl
    | cons c cs ih =>
      rw [List.flatMap_cons, quoteChar_plain (h c (by simp)).1 (h c (by simp)).2,
        ih fun d hd => h d (by simp [hd])]
      rfl
  rw [quoted, this]

end PageStore.Text
