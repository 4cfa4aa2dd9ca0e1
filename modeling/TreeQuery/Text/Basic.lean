/-!
# Text

A text is a list of characters, so that every function on texts is a function on lists and every
count is a count of characters. This module holds what the whole library needs of texts: intervals
of code points, white space, trimming at both ends, and the ASCII forms of a letter. What a reader
leaves of a text comes with the proof that it is shorter, or not longer, so that reading ends.

Main statements: `trimStart_append_of_blank` (leading blanks do not matter) and
`isBlank_of_isWhitespace` (the white space of ASCII is white space).
-/

namespace TreeQuery

abbrev Text := List Char

/-- What holds of some characters holds of the text that they are written as, with no need to
compute on strings. -/
theorem Text.of_literal {P : Text → Prop} {t : Text} (h : P t) : P (String.ofList t).toList := by
  rwa [String.toList_ofList]

/-- A text that is shorter than another. -/
abbrev Shorter (s : Text) := { r : Text // r.length < s.length }

abbrev NoLonger (s : Text) := { r : Text // r.length ≤ s.length }

/-! ### What is left of a text

A reader returns what it leaves of a text together with the bound on its length, so that a caller
may go on with the rest without a proof of its own. There are two bounds. A reader that takes at
least one character leaves a shorter text, and recursion may follow it; one that may take nothing
leaves a text that is not longer. The functions below carry a bound from a part of a text to the
text itself, and the `simp` lemmas say that they leave the characters alone. -/

namespace NoLonger

def all (s : Text) : NoLonger s := ⟨s, Nat.le_refl _⟩

/-- What is left of a text that is not longer. -/
def below {s r : Text} (h : r.length ≤ s.length) (t : NoLonger r) : NoLonger s :=
  ⟨t, Nat.le_trans t.property h⟩

/-- What is left of a text that is shorter. -/
def inside {s r : Text} (h : r.length < s.length) (t : NoLonger r) : NoLonger s :=
  ⟨t, Nat.le_trans t.property (Nat.le_of_lt h)⟩

@[simp] theorem val_all (s : Text) : (all s).val = s := rfl

@[simp] theorem val_below {s r : Text} (h : r.length ≤ s.length) (t : NoLonger r) :
    (below h t).val = t.val := rfl

@[simp] theorem val_inside {s r : Text} (h : r.length < s.length) (t : NoLonger r) :
    (inside h t).val = t.val := rfl

end NoLonger

namespace Shorter

/-- A shorter text is not longer. -/
def noLonger {s : Text} (t : Shorter s) : NoLonger s := ⟨t, Nat.le_of_lt t.property⟩

instance {s : Text} : Coe (Shorter s) (NoLonger s) := ⟨noLonger⟩

/-- What is left of a text that is not longer, if that gets shorter. -/
def below {s r : Text} (h : r.length ≤ s.length) (t : Shorter r) : Shorter s :=
  ⟨t, Nat.lt_of_lt_of_le t.property h⟩

/-- What is left of a text that is shorter. -/
def inside {s r : Text} (h : r.length < s.length) (t : NoLonger r) : Shorter s :=
  ⟨t, Nat.lt_of_le_of_lt t.property h⟩

/-- What is left of a text behind its first character. -/
def behind {r : Text} (c : Char) (t : NoLonger r) : Shorter (c :: r) :=
  ⟨t, Nat.lt_succ_of_le t.property⟩

@[simp] theorem val_noLonger {s : Text} (t : Shorter s) : t.noLonger.val = t.val := rfl

@[simp] theorem val_below {s r : Text} (h : r.length ≤ s.length) (t : Shorter r) :
    (below h t).val = t.val := rfl

@[simp] theorem val_inside {s r : Text} (h : r.length < s.length) (t : NoLonger r) :
    (inside h t).val = t.val := rfl

@[simp] theorem val_behind {r : Text} (c : Char) (t : NoLonger r) :
    (behind c t).val = t.val := rfl

end Shorter

namespace Text

/-! ### Intervals of code points

Classes of characters are tables of closed intervals, searched from the front. -/

/-- Whether a code point lies in one of the closed intervals of a table. -/
def inIntervals (table : List (Nat × Nat)) (c : Char) : Bool :=
  table.any fun (first, last) => first ≤ c.toNat && c.toNat ≤ last

/-! ### White space

Two kinds of white space are told apart. What a selector or an argument is trimmed of is the white
space of all scripts; markup and expressions know only four characters. -/

/-- The code points of white space: the ASCII blanks, the four information separators, and the
spaces and line ends of the other scripts. The zero-width characters are not among them. -/
def blankIntervals : List (Nat × Nat) :=
  [(0x09, 0x0D), (0x1C, 0x20), (0x85, 0x85), (0xA0, 0xA0), (0x1680, 0x1680), (0x2000, 0x200A),
   (0x2028, 0x2029), (0x202F, 0x202F), (0x205F, 0x205F), (0x3000, 0x3000)]

def isBlank (c : Char) : Bool := inIntervals blankIntervals c

/-- The white space of ASCII is among the white space of all scripts. -/
theorem isBlank_of_isWhitespace {c : Char} (h : c.isWhitespace = true) : isBlank c = true := by
  simp only [Char.isWhitespace, Bool.or_eq_true, decide_eq_true_eq, or_assoc] at h
  rcases h with h | h | h | h <;> subst h <;> decide

def trimStart (s : Text) : Text := s.dropWhile isBlank

def trimEnd (s : Text) : Text := (s.reverse.dropWhile isBlank).reverse

/-- The text without its leading and trailing white space. -/
def trim (s : Text) : Text := trimEnd (trimStart s)

/-- Whether the text is empty or white space only. -/
def isAllBlank (s : Text) : Bool := s.all isBlank

/-- White space in front of a text makes no difference to the text without it. -/
theorem trimStart_append_of_blank {g : Text} (hg : ∀ c ∈ g, isBlank c = true) (s : Text) :
    trimStart (g ++ s) = trimStart s := by
  induction g with
  | nil => rfl
  | cons c r ih =>
    have hc : isBlank c = true := hg c (by simp)
    have hr : ∀ d ∈ r, isBlank d = true := fun d hd => hg d (by simp [hd])
    simpa [trimStart, hc] using ih hr

/-- The white space of markup and expressions: space, tab, line feed, carriage return. -/
def isSpace (c : Char) : Bool := c = ' ' || c = '\t' || c = '\n' || c = '\r'

/-- A character of a kind is not one that is not of this kind. -/
theorem ne_of_kind {p : Char → Bool} {c d : Char} (hc : p c = true) (hd : p d = false) : c ≠ d := by
  rintro rfl
  rw [hc] at hd
  cases hd

/-- A character of a kind of which no white space is. -/
theorem isSpace_eq_false {p : Char → Bool} {c : Char} (hc : p c = true)
    (hspaces : [' ', '\t', '\n', '\r'].all (!p ·) = true) : isSpace c = false := by
  rw [Bool.eq_false_iff]
  intro h
  have hm : c ∈ [' ', '\t', '\n', '\r'] := by simpa [isSpace, or_assoc] using h
  have := List.all_eq_true.1 hspaces c hm
  rw [hc] at this
  cases this

/-- The text behind leading characters of one kind. -/
def skip (p : Char → Bool) (s : Text) : NoLonger s :=
  ⟨s.dropWhile p, (List.dropWhile_suffix p).length_le⟩

/-- What stands behind a character that begins the text. -/
def take? (c : Char) : (s : Text) → Option (Shorter s)
  | [] => none
  | d :: r => if d = c then some ⟨r, by simp⟩ else none

/-! ### ASCII letters -/

def lowerAscii (s : Text) : Text := s.map Char.toLower

/-! ### Leading characters

A beginning is compared character by character. What stands behind it is a suffix, so that the text
is put together again from the two. -/

/-- The text without the leading copies of one character. -/
def dropLeading (c : Char) (s : Text) : Text := s.dropWhile (· == c)

/-- What follows a given beginning, if the text has it. -/
def after? : Text → Text → Option Text
  | [], s => some s
  | _ :: _, [] => none
  | c :: r, d :: s => if c = d then after? r s else none

/-- A beginning and what follows it are as long as the text. -/
theorem length_of_after? {b s r : Text} (h : after? b s = some r) :
    r.length + b.length = s.length := by
  induction b generalizing s with
  | nil => simp [after?] at h; simp [h]
  | cons c b ih =>
    cases s with
    | nil => simp [after?] at h
    | cons d s =>
      by_cases hcd : c = d
      · have := ih (s := s) (by simpa [after?, hcd] using h)
        simp only [List.length_cons]; omega
      · simp [after?, hcd] at h

/-- What follows a given beginning, with the proof that it is not longer. -/
def skip? (b s : Text) : Option (NoLonger s) :=
  match h : after? b s with
  | some r => some ⟨r, by have := length_of_after? h; omega⟩
  | none => none

/-- What follows a beginning that is written in front is found again. -/
theorem after?_append (b s : Text) : after? b (b ++ s) = some s := by
  induction b with
  | nil => rfl
  | cons c r ih => simpa [after?] using ih

/-! ### Parts

The first occurrence of a part divides a text into what stands before it and what stands behind.
Nothing is lost in the division, which is what bounds the length of the rest. -/

/-- What stands before and behind the first occurrence of a part, if there is one. -/
def splitAround? (part : Text) : Text → Option (Text × Text)
  | [] => if part.isEmpty then some ([], []) else none
  | c :: s =>
    match after? part (c :: s) with
    | some r => some ([], r)
    | none => (splitAround? part s).map fun (a, b) => (c :: a, b)

def holds (s part : Text) : Bool := (splitAround? part s).isSome

/-- The beginning and what follows it make up the text. -/
theorem append_of_after? {b s r : Text} (h : after? b s = some r) : b ++ r = s := by
  induction b generalizing s with
  | nil => simp [after?] at h; simp [h]
  | cons c b ih =>
    cases s with
    | nil => simp [after?] at h
    | cons d s =>
      by_cases hcd : c = d
      · have := ih (s := s) (by simpa [after?, hcd] using h)
        simp [hcd, this]
      · simp [after?, hcd] at h

/-- A text has a beginning exactly if that is a prefix of it. -/
theorem isSome_after?_iff (b s : Text) : (after? b s).isSome = true ↔ b <+: s := by
  constructor
  · intro h
    obtain ⟨r, h⟩ := Option.isSome_iff_exists.1 h
    exact ⟨r, append_of_after? h⟩
  · rintro ⟨r, rfl⟩
    rw [after?_append]
    rfl

/-- What stands before a part, the part and what stands behind it make up the text. -/
theorem append_of_splitAround? {part s a b : Text} (h : splitAround? part s = some (a, b)) :
    a ++ part ++ b = s := by
  induction s generalizing a b with
  | nil =>
    simp only [splitAround?] at h
    split at h
    · next hp => cases h; simpa using hp
    · cases h
  | cons c s ih =>
    simp only [splitAround?] at h
    split at h
    · next r hr => cases h; simpa using append_of_after? hr
    · obtain ⟨⟨a', b'⟩, h', he⟩ := Option.map_eq_some_iff.1 h
      cases he
      simpa using ih h'

/-- What stands before and behind the first occurrence of a part; the whole text if there is none.
-/
def upTo (part s : Text) : Text × NoLonger s :=
  match h : splitAround? part s with
  | some (a, b) => (a, ⟨b, by
      have := congrArg List.length (append_of_splitAround? h)
      simp only [List.length_append] at this; omega⟩)
  | none => (s, ⟨[], by simp⟩)

end Text

end TreeQuery
