import TreeQuery.Text.Basic

/-!
# Names

The names of elements and attributes in markup and in expressions: which characters a name may begin
with, and which it may go on with. A colon is not among them; it stands between the two parts of a
qualified name.

Main statements: `length_of_readName?`, what is left behind a name is shorter, and
`append_of_readName?`, nothing is lost.
-/

namespace TreeQuery

namespace Text

/-! ### Characters of names -/

/-- The intervals of the characters that a name may begin with. -/
def nameStartIntervals : List (Nat × Nat) :=
  [(0x41, 0x5A), (0x5F, 0x5F), (0x61, 0x7A), (0xC0, 0xD6), (0xD8, 0xF6), (0xF8, 0x2FF),
   (0x370, 0x37D), (0x37F, 0x1FFF), (0x200C, 0x200D), (0x2070, 0x218F), (0x2C00, 0x2FEF),
   (0x3001, 0xD7FF), (0xF900, 0xFDCF), (0xFDF0, 0xFFFD), (0x10000, 0xEFFFF)]

/-- The intervals of the further characters that a name may go on with. -/
def namePartIntervals : List (Nat × Nat) :=
  [(0x2D, 0x2E), (0x30, 0x39), (0xB7, 0xB7), (0x300, 0x36F), (0x203F, 0x2040)]

def isNameStart (c : Char) : Bool := inIntervals nameStartIntervals c

def isNamePart (c : Char) : Bool := isNameStart c || inIntervals namePartIntervals c

/-! ### Reading names

A name is as long as it can be. What is left behind it begins with a character that no name goes on
with, or is empty. -/

/-- A name at the beginning of a text, and what follows it. -/
def readName? : Text → Option (Text × Text)
  | [] => none
  | c :: r =>
    if isNameStart c then some (c :: r.takeWhile isNamePart, r.dropWhile isNamePart) else none

/-- A name and what follows it make up the text. -/
theorem append_of_readName? {s n r : Text} (h : readName? s = some (n, r)) : n ++ r = s := by
  cases s with
  | nil => simp [readName?] at h
  | cons c t =>
    simp only [readName?] at h
    split at h
    · cases h; simp
    · cases h

/-- A name has at least one character. -/
theorem length_of_readName? {s n r : Text} (h : readName? s = some (n, r)) :
    r.length < s.length := by
  cases s with
  | nil => simp [readName?] at h
  | cons c t =>
    simp only [readName?] at h
    split at h
    · cases h
      have := (List.dropWhile_suffix (l := t) isNamePart).length_le
      simp only [List.length_cons]; omega
    · cases h

end Text

end TreeQuery
