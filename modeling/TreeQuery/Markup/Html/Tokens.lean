import TreeQuery.Markup.Html.Element
import TreeQuery.Markup.Reference
import TreeQuery.Markup.Token

/-!
# The tokens of HTML

HTML markup as a row of tokens. Names are written in small letters. Nothing is refused: what is no
tag, comment or reference is text, and what begins like a declaration is a comment.

Main statement: `expand_eq_self`, a text without ampersands holds no references.
-/

namespace TreeQuery.Markup.Html

/-- The white space between the parts of a tag. -/
def isTagSpace (c : Char) : Bool := Text.isSpace c || c = '\x0c'

/-! ### References -/

/-- The names of the characters from the no-break space to the last of its block, in order. -/
def latinNames : List Text :=
  words "nbsp iexcl cent pound curren yen brvbar sect uml copy ordf laquo not shy reg macr deg"
    ++ words "plusmn sup2 sup3 acute micro para middot cedil sup1 ordm raquo frac14 frac12 frac34"
    ++ words "iquest Agrave Aacute Acirc Atilde Auml Aring AElig Ccedil Egrave Eacute Ecirc Euml"
    ++ words "Igrave Iacute Icirc Iuml ETH Ntilde Ograve Oacute Ocirc Otilde Ouml times Oslash"
    ++ words "Ugrave Uacute Ucirc Uuml Yacute THORN szlig agrave aacute acirc atilde auml aring"
    ++ words "aelig ccedil egrave eacute ecirc euml igrave iacute icirc iuml eth ntilde ograve"
    ++ words "oacute ocirc otilde ouml divide oslash ugrave uacute ucirc uuml yacute thorn yuml"

/-- The entities whose references need no semicolon. -/
def openEntities : List (Text × Text) :=
  predefined.take 4 ++ latinNames.zipIdx.map fun (n, i) => (n, [Char.ofNat (0xA0 + i)])

/-- All entities. -/
def entities : List (Text × Text) := predefined ++ openEntities

/-- Whether a name goes on: in the value of an attribute it is then no reference without
semicolon. -/
def goesOn : Text → Bool
  | [] => false
  | c :: _ => c.isAlphanum || c = '='

/-- The entity whose name begins a text, without a semicolon behind it. -/
def readOpenEntity? (inValue : Bool) (s : Text) : Option (Text × NoLonger s) :=
  let lengths := (List.range (s.takeWhile Char.isAlphanum).length).reverse.map (· + 1)
  match lengths.find? fun n => (openEntities.lookup (s.take n)).isSome with
  | none => none
  | some n =>
    if inValue && goesOn (s.drop n) then none
    else some ((openEntities.lookup (s.take n)).getD [], ⟨s.drop n, by simp⟩)

/-- The entity whose name begins a text. -/
def readEntity? (inValue : Bool) (s : Text) : Option (Text × NoLonger s) :=
  match Text.skip Char.isAlphanum s with
  | ⟨r, h⟩ =>
    match Text.take? ';' r, entities.lookup (s.takeWhile Char.isAlphanum) with
    | some r', some t => some (t, .below h r')
    | _, _ => readOpenEntity? inValue s

/-- What the reference behind `&` stands for, and what follows it. -/
def readReference? (inValue : Bool) (s : Text) : Option (Text × NoLonger s) :=
  match Text.take? '#' s with
  | some ⟨r, h⟩ =>
    match readNumericReference? r with
    | some (c, r') => some ([c], .inside h r')
    | none => none
  | none => readEntity? inValue s

/-- The text with its references replaced. -/
def expand (inValue : Bool) (s : Text) : Text :=
  match s with
  | [] => []
  | c :: r =>
    if c = '&' then
      match readReference? inValue r with
      | some (t, ⟨r', _h⟩) => t ++ expand inValue r'
      | none => c :: expand inValue r
    else c :: expand inValue r
termination_by s.length
decreasing_by all_goals simp only [List.length_cons]; omega

theorem expand_eq_self {inValue : Bool} {s : Text} (h : '&' ∉ s) : expand inValue s = s := by
  induction s with
  | nil => rw [expand]
  | cons c r ih =>
    have hc : c ≠ '&' := fun e => h (by simp [e])
    rw [expand, if_neg hc, ih fun hr => h (List.mem_cons_of_mem c hr)]

/-! ### Tags -/

/-- A character that goes on with the name of a tag. -/
def isTagPart (c : Char) : Bool := !isTagSpace c && c != '/' && c != '>'

/-- A character that goes on with the name of an attribute. -/
def isAttributePart (c : Char) : Bool := isTagPart c && c != '='

/-- A character that goes on with a value without quotes. -/
def isBarePart (c : Char) : Bool := !isTagSpace c && c != '>'

/-- The value behind an equals sign, and what follows it. -/
def readValue (s : Text) : Text × NoLonger s :=
  match s with
  | [] => ([], .all [])
  | c :: r =>
    if c = '"' || c = '\'' then
      match Text.upTo [c] r with
      | (v, r') => (v, (Shorter.behind c r').noLonger)
    else ((c :: r).takeWhile isBarePart, Text.skip isBarePart (c :: r))

/-- The equals sign and the value behind the name of an attribute, if they are there. -/
def readAssigned? (s : Text) : Option (Text × Shorter s) :=
  match Text.skip isTagSpace s with
  | ⟨r, h⟩ =>
    match Text.take? '=' r with
    | none => none
    | some ⟨r', h'⟩ =>
      match Text.skip isTagSpace r' with
      | ⟨r'', h''⟩ =>
        match readValue r'' with
        | (v, t) => some (expand true v, .below h (.inside h' (.below h'' t)))

/-- The attributes of a tag, whether the tag closes its element, and what follows the tag. -/
def readAttributes (s : Text) : List WrittenAttribute × Bool × NoLonger s :=
  match s with
  | [] => ([], false, .all [])
  | c :: r =>
    if isTagSpace c then
      match readAttributes r with
      | (as, closed, r') => (as, closed, (Shorter.behind c r').noLonger)
    else if c = '>' then ([], false, (Shorter.behind c (.all r)).noLonger)
    else if c = '/' then
      match Text.take? '>' r with
      | some r' => ([], true, (Shorter.behind c r').noLonger)
      | none =>
        match readAttributes r with
        | (as, closed, r') => (as, closed, (Shorter.behind c r').noLonger)
    else
      let name := Text.lowerAscii (c :: r.takeWhile isAttributePart)
      match Text.skip isAttributePart r with
      | ⟨t, h⟩ =>
        match readAssigned? t with
        | some (v, ⟨t', h'⟩) =>
          match readAttributes t' with
          | (as, closed, r') =>
            (⟨name, some v⟩ :: as, closed,
              (Shorter.behind c (.below h (.inside h' r'))).noLonger)
        | none =>
          match readAttributes t with
          | (as, closed, r') =>
            (⟨name, none⟩ :: as, closed, (Shorter.behind c (.below h r')).noLonger)
termination_by s.length
decreasing_by all_goals simp only [List.length_cons]; omega

/-- The attributes without those whose name an earlier one has. -/
def distinct : List WrittenAttribute → List WrittenAttribute
  | [] => []
  | a :: r => a :: (distinct r).filter (·.name != a.name)

/-- Whether what stands behind `<` is the closing tag of an element. -/
def closes (n : Text) : Text → Bool
  | [] => false
  | c :: r =>
    c = '/' && Text.lowerAscii (r.take n.length) == n && !(r.drop n.length).head?.any isTagPart

/-- The text in front of the closing tag of an element, and what follows it. -/
def untilClosing (n : Text) : (s : Text) → Text × NoLonger s
  | [] => ([], .all [])
  | c :: r =>
    if c = '<' && closes n r then ([], .all (c :: r))
    else match untilClosing n r with
      | (t, r') => (c :: t, (Shorter.behind c r').noLonger)

/-- The opening tag whose name begins a text, the text inside it if its content has no markup, and
what follows. -/
def readOpening (s : Text) : List Token × NoLonger s :=
  let n := Text.lowerAscii (s.takeWhile isTagPart)
  match Text.skip isTagPart s with
  | ⟨r, h⟩ =>
    match readAttributes r with
    | (as, closed, ⟨r', h'⟩) =>
      let tag := Token.opening n (distinct as) (closed || isVoid n)
      if !closed && (isRaw n || isPlain n) then
        match untilClosing n r' with
        | (t, r'') =>
          ([tag, .text (if isRaw n then t else expand false t)], .below h (.below h' r''))
      else ([tag], .below h ⟨r', h'⟩)

/-! ### Tokens -/

/-- A comment that ends with the next `>`. -/
def readImproperComment (s : Text) : List Token × NoLonger s :=
  match Text.upTo ['>'] s with
  | (t, r) => ([.comment t], r)

/-- What stands behind `</`. -/
def readClosing (s : Text) : List Token × NoLonger s :=
  match s with
  | [] => ([.text ['<', '/']], .all [])
  | c :: r =>
    if c.isAlpha then
      match Text.skip isTagPart (c :: r) with
      | ⟨t, h⟩ =>
        match readAttributes t with
        | (_, _, t') =>
          ([.closing (Text.lowerAscii ((c :: r).takeWhile isTagPart))], .below h t')
    else if c = '>' then ([], (Shorter.behind c (.all r)).noLonger)
    else readImproperComment (c :: r)

/-- What stands behind `<!`. -/
def readDeclaration (s : Text) : List Token × NoLonger s :=
  match Text.take? '-' s with
  | some ⟨r, h⟩ =>
    match Text.take? '-' r with
    | some ⟨r', h'⟩ =>
      match Text.upTo "-->".toList r' with
      | (t, t') => ([.comment t], .inside h (.inside h' t'))
    | none => readImproperComment s
  | none =>
    if Text.lowerAscii (s.take 7) == "doctype".toList then
      match Text.upTo ['>'] s with
      | (_, r) => ([], r)
    else readImproperComment s

/-- What stands behind `<`; none if the sign is text. -/
def readMarkup? : (s : Text) → Option (List Token × NoLonger s)
  | [] => none
  | c :: r =>
    if c.isAlpha then some (readOpening (c :: r))
    else if c = '/' then
      match readClosing r with
      | (ts, r') => some (ts, (Shorter.behind c r').noLonger)
    else if c = '!' then
      match readDeclaration r with
      | (ts, r') => some (ts, (Shorter.behind c r').noLonger)
    else if c = '?' then some (readImproperComment (c :: r))
    else none

/-- The tokens of a text. -/
def tokens (s : Text) : List Token :=
  match s with
  | [] => []
  | c :: r =>
    if c = '<' then
      match readMarkup? r with
      | some (ts, ⟨r', _h⟩) => ts ++ tokens r'
      | none => .text ['<'] :: tokens r
    else
      match Text.skip (· != '<') r with
      | ⟨r', _h⟩ => .text (expand false (c :: r.takeWhile (· != '<'))) :: tokens r'
termination_by s.length
decreasing_by all_goals simp only [List.length_cons]; omega

end TreeQuery.Markup.Html
