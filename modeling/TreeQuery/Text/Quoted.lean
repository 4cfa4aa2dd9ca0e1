import TreeQuery.Text.Printable

/-!
# Quoted text

How a text is shown inside a message: between quotes, with the backslash, the enclosing quote and
everything that does not print written as an escape. The apostrophe encloses, unless the text has
an apostrophe and no quotation mark.

Main statement: `quote_plain`, a text without quotes, backslashes and unprintable characters stands
between apostrophes as it is.
-/

namespace TreeQuery

namespace Text

/-! ### Escapes

A character that does not print is written by its code point, with two, four or eight digits,
whichever is enough. -/

/-- The last `width` hexadecimal digits of a number, in small letters. -/
def hexDigits (width n : Nat) : Text :=
  match width with
  | 0 => []
  | width + 1 => hexDigits width (n / 16) ++ [Nat.digitChar (n % 16)]

def quoteChar (q c : Char) : Text :=
  if c = q || c = '\\' then ['\\', c]
  else if c = '\n' then ['\\', 'n']
  else if c = '\r' then ['\\', 'r']
  else if c = '\t' then ['\\', 't']
  else if isPrintable c then [c]
  else if c.toNat < 0x100 then '\\' :: 'x' :: hexDigits 2 c.toNat
  else if c.toNat < 0x10000 then '\\' :: 'u' :: hexDigits 4 c.toNat
  else '\\' :: 'U' :: hexDigits 8 c.toNat

def enclosingQuote (s : Text) : Char :=
  if s.contains '\'' && !s.contains '"' then '"' else '\''

def quote (s : Text) : Text :=
  let q := enclosingQuote s
  q :: s.flatMap (quoteChar q) ++ [q]

/-- Quoted texts in brackets, separated by commas. -/
def quoteList (ss : List Text) : Text :=
  '[' :: List.intercalate [',', ' '] (ss.map quote) ++ [']']

/-! ### Texts without escapes

Most texts that are shown hold nothing that needs an escape. They stand between apostrophes as they
are. -/

/-- A character that needs no escape between apostrophes. -/
def isPlain (c : Char) : Bool := isPrintable c && c != '\'' && c != '\\'

theorem quoteChar_plain {c : Char} (h : isPlain c = true) : quoteChar '\'' c = [c] := by
  simp only [isPlain, Bool.and_eq_true, bne_iff_ne, ne_eq] at h
  obtain ⟨⟨hp, h1⟩, h2⟩ := h
  have hn : c ≠ '\n' := by rintro rfl; revert hp; decide
  have hr : c ≠ '\r' := by rintro rfl; revert hp; decide
  have ht : c ≠ '\t' := by rintro rfl; revert hp; decide
  simp [quoteChar, hp, h1, h2, hn, hr, ht]

theorem quote_plain {s : Text} (h : ∀ c ∈ s, isPlain c = true) :
    quote s = '\'' :: s ++ ['\''] := by
  have hq : enclosingQuote s = '\'' := by
    have : '\'' ∉ s := fun hm => absurd (h _ hm) (by decide)
    simp [enclosingQuote, this]
  have hm : s.flatMap (quoteChar '\'') = s := by
    clear hq
    induction s with
    | nil => rfl
    | cons c r ih =>
      have hc := quoteChar_plain (h c (by simp))
      have hr := ih fun d hd => h d (by simp [hd])
      simp [hc, hr]
  simp [quote, hq, hm]

end Text

end TreeQuery
