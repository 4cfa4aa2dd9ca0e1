import TreeQuery.Text.Case

/-!
# The XML declaration

Markup may begin with a declaration, which says that it is XML and may name the encoding of its
bytes. Where the characters are known already, a declared encoding contradicts them.
-/

namespace TreeQuery.Markup.Xml

/-! ### The declaration -/

def announces (s : Text) : Bool := Text.lower ((Text.trimStart s).take 5) == "<?xml".toList

/-- The markup without its declaration and the white space in front of it. -/
def withoutDeclaration (s : Text) : Text :=
  match Text.after? "<?xml".toList (Text.trimStart s) with
  | none => s
  | some r =>
    match Text.splitAround? ['>'] r with
    | none => s
    | some (inside, rest) => if inside.getLast? == some '?' then rest else s

/-! ### The encoding

The encoding is looked for behind every character of the declaration up to its end, and need not
stand at the place where the declaration has it; the white space in front of it is what tells it
from the end of another word. The quote behind the value may be of either kind. -/

/-- A character that no value between quotes holds. -/
def isQuote (c : Char) : Bool := c = '"' || c = '\''

/-- The encoding that is named behind the white space that a text begins with. -/
def readEncoding? (s : Text) : Option Text := do
  let behind ← if (s.head?.any Text.isBlank) then some (Text.trimStart s) else none
  let value ← Text.after? "encoding".toList behind
  let value ← Text.after? ['='] (Text.trimStart value)
  match Text.trimStart value with
  | [] => none
  | q :: r =>
    if isQuote q && (r.dropWhile (!isQuote ·)).length != 0 then some (r.takeWhile (!isQuote ·))
    else none

/-- The encoding that is named behind at least one character of a declaration. -/
def findEncoding? : Text → Option Text
  | [] => none
  | c :: r =>
    if c = '>' then none
    else match readEncoding? r with
      | some e => some e
      | none => findEncoding? r

def encoding? (s : Text) : Option Text := (Text.after? "<?xml".toList s).bind findEncoding?

/-- The encodings in which each byte is a character. -/
def latinEncodings : List Text :=
  ["iso-8859-1".toList, "iso_8859-1".toList, "iso-latin-1".toList, "latin1".toList, "l1".toList]

/-- Whether an encoding is one in which each byte is a character. -/
def isLatinEncoding (e : Text) : Bool := latinEncodings.contains (Text.lowerAscii e)

end TreeQuery.Markup.Xml
