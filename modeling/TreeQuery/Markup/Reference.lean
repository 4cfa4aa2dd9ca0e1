import TreeQuery.Text.Name

/-!
# References

Characters that markup writes by number, decimal or hexadecimal, or by name.
-/

namespace TreeQuery.Markup

/-! ### Digits -/

def hexValue (c : Char) : Nat :=
  if c.isDigit then c.toNat - '0'.toNat else c.toLower.toNat - 'a'.toNat + 10

def isHexDigit (c : Char) : Bool :=
  c.isDigit || ('a' ≤ c && c ≤ 'f') || ('A' ≤ c && c ≤ 'F')

/-- The character of a code point; the replacement character if there is none. -/
def charOf (n : Nat) : Char := if n.isValidChar ∧ n ≠ 0 then Char.ofNat n else '\uFFFD'

def numberOf (base : Nat) (digits : Text) : Nat :=
  digits.foldl (fun n c => base * n + hexValue c) 0

/-- What stands behind the semicolon that may end a reference. -/
def afterSemicolon (s : Text) : NoLonger s :=
  match Text.take? ';' s with
  | some r => r
  | none => .all s

/-! ### References

All readers behind `&` return what they have not read with the proof that it is no longer than what
they were given; whoever has taken the `&` away knows that it is shorter, and so the readers that
call them end. What is no reference is not refused here: `&` stays a character. -/

/-- The character that digits of one kind write at the beginning of a text. -/
def readDigits? (base : Nat) (isDigit : Char → Bool) (s : Text) : Option (Char × NoLonger s) :=
  let digits := s.takeWhile isDigit
  if digits.isEmpty then none
  else match Text.skip isDigit s with
    | ⟨r, h⟩ => some (charOf (numberOf base digits), .below h (afterSemicolon r))

/-- The character whose number stands behind `&#`, and what follows its reference. -/
def readNumericReference? (s : Text) : Option (Char × NoLonger s) :=
  match s with
  | [] => none
  | c :: r =>
    if c = 'x' || c = 'X' then
      match readDigits? 16 isHexDigit r with
      | some (d, r') => some (d, (Shorter.behind c r').noLonger)
      | none => none
    else readDigits? 10 Char.isDigit (c :: r)

/-- The name behind `&`, and what follows the semicolon behind it. -/
def readNamedReference? (s : Text) : Option (Text × NoLonger s) :=
  match h : Text.readName? s with
  | none => none
  | some (n, r) =>
    match Text.take? ';' r with
    | some r' => some (n, .inside (Text.length_of_readName? h) r')
    | none => none

/-! ### Entities and line ends -/

/-- The entities that need no declaration. -/
def predefined : List (Text × Text) := [
  ("amp".toList, ['&']), ("lt".toList, ['<']), ("gt".toList, ['>']), ("quot".toList, ['"']),
  ("apos".toList, ['\''])]

/-- The text with every line end written as a line feed. -/
def unifyLineEnds : Text → Text
  | [] => []
  | c :: r =>
    if c = '\r' then
      match r with
      | '\n' :: _ => unifyLineEnds r
      | _ => '\n' :: unifyLineEnds r
    else c :: unifyLineEnds r

end TreeQuery.Markup
