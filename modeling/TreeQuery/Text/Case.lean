import TreeQuery.Text.CaseTable

/-!
# Case

Small letters and capitals at the beginning of a text, for all scripts. ASCII letters are mapped by
arithmetic, the others by the tables. Two characters need more than a table of single characters:
the dotted capital I, whose small form is two characters, and the capital sigma, whose small form
depends on whether a word ends behind it.

Main statements: `lower_eq_lowerAscii` and `capitalize_ascii`, what the mappings do to ASCII texts.
-/

namespace TreeQuery

namespace Text

/-! ### The end of a word

A capital sigma at the end of a word has a small form of its own. The word ends where no cased
character follows; characters that are neither letters nor separators, such as accents, are skipped
on both sides. -/

def isCaseIgnorable (c : Char) : Bool := inIntervals caseIgnorableIntervals c

def isCased (c : Char) : Bool := inIntervals casedIntervals c

/-- Whether the first character that counts has a case. -/
def startsCased (s : Text) : Bool :=
  match s.dropWhile isCaseIgnorable with
  | [] => false
  | c :: _ => isCased c

/-! ### Mapping characters

A mapping goes through the text with the characters in front at hand, last one first, so that the
end of a word can be decided in both directions. -/

/-- The small form of a character that stands between `before` (last character first) and `after`.
A capital sigma is final if a cased character precedes it and none follows it. -/
def smallForm (before : Text) (c : Char) (after : Text) : Text :=
  if c.toNat < 0x80 then [c.toLower]
  else if c = '\u03A3' then
    if startsCased before && !startsCased after then ['\u03C2'] else ['\u03C3']
  else if c = '\u0130' then ['i', '\u0307']
  else [smallRuns.shift c]

def lowerFrom (before : Text) : Text → Text
  | [] => []
  | c :: r => smallForm before c r ++ lowerFrom (c :: before) r

def lower (s : Text) : Text := lowerFrom [] s

def titleForm (c : Char) : Text :=
  if c.toNat < 0x80 then [c.toUpper]
  else match titleSequences.lookup c.toNat with
    | some cs => cs.map Char.ofNat
    | none => [titleRuns.shift c]

/-- The text with a title's first character and small letters after it. -/
def capitalize : Text → Text
  | [] => []
  | c :: r => titleForm c ++ lowerFrom [c] r

/-! ### ASCII texts

Within ASCII nothing depends on what stands around a character. -/

theorem lowerFrom_ascii {s : Text} (h : ∀ c ∈ s, c.toNat < 0x80) (before : Text) :
    lowerFrom before s = lowerAscii s := by
  induction s generalizing before with
  | nil => rfl
  | cons c r ih =>
    have hc : c.toNat < 0x80 := h c (by simp)
    have hr := ih (fun d hd => h d (by simp [hd])) (c :: before)
    simp [lowerFrom, smallForm, hc, hr, lowerAscii]

/-- An ASCII text is made small letter by letter. -/
theorem lower_eq_lowerAscii {s : Text} (h : ∀ c ∈ s, c.toNat < 0x80) : lower s = lowerAscii s :=
  lowerFrom_ascii h []

/-- An ASCII text gets one capital, at its beginning. -/
theorem capitalize_ascii {c : Char} {r : Text} (hc : c.toNat < 0x80)
    (h : ∀ d ∈ r, d.toNat < 0x80) : capitalize (c :: r) = c.toUpper :: lowerAscii r := by
  simp [capitalize, titleForm, hc, lowerFrom_ascii h]

end Text

end TreeQuery
