import TreeQuery.Markup.Reference
import TreeQuery.Markup.Token

/-!
# Reading XML

XML markup is read into tokens and these into a document. Entities that the document type declares
are not expanded in content: the reference stays, together with the text it stands for. In the
values of attributes they are.

Names are understood in the scope of the namespaces that the elements around them declare; a
qualifier that nobody declares is part of the name.
-/

namespace TreeQuery.Markup.Xml

abbrev Entities := List (Text × Text)

/-! ### Values and names

A qualifier is part of a written name until the name is resolved: the colon is one of the characters
of names here. In the values of attributes an entity that nobody declares is nothing at all, while
in content the reference to it stays. -/

/-- The value of an attribute: references are replaced, and white space is written as spaces. -/
def expandValue (entities : Entities) (s : Text) : Text :=
  match s with
  | [] => []
  | c :: r =>
    if c = '&' then
      match Text.take? '#' r with
      | some ⟨r', _h⟩ =>
        match readNumericReference? r' with
        | some (d, ⟨r'', _h'⟩) => d :: expandValue entities r''
        | none => c :: expandValue entities r
      | none =>
        match readNamedReference? r with
        | some (n, ⟨r', _h⟩) =>
          ((predefined ++ entities).lookup n).getD [] ++ expandValue entities r'
        | none => c :: expandValue entities r
    else if Text.isSpace c then ' ' :: expandValue entities r
    else c :: expandValue entities r
termination_by s.length
decreasing_by all_goals simp only [List.length_cons]; omega

/-- A character that may begin a name with a qualifier. -/
def isTagStart (c : Char) : Bool := Text.isNameStart c || c = ':'

/-- A character that may stand in a name with a qualifier. -/
def isTagPart (c : Char) : Bool := Text.isNamePart c || c = ':'

/-- A name at the beginning of a text, which may have a qualifier. -/
def readTagName? (s : Text) : Option (Text × Shorter s) :=
  match s with
  | [] => none
  | c :: r =>
    if isTagStart c then
      some (c :: r.takeWhile isTagPart, .behind c (Text.skip isTagPart r))
    else none

/-- A text between quotes, and what follows it. -/
def readQuoted? : (s : Text) → Option (Text × Shorter s)
  | [] => none
  | q :: r =>
    if q = '"' || q = '\'' then
      match Text.upTo [q] r with
      | (v, r') => some (v, .behind q r')
    else none

/-- The equals sign behind the name of an attribute, and the value behind it. -/
def readValue? (entities : Entities) (s : Text) : Option (Text × Shorter s) :=
  match Text.skip Text.isSpace s with
  | ⟨r, h⟩ =>
    match Text.take? '=' r with
    | none => none
    | some ⟨r', h'⟩ =>
      match Text.skip Text.isSpace r' with
      | ⟨r'', h''⟩ =>
        match readQuoted? r'' with
        | some (v, t) => some (expandValue entities v, .below h (.inside h' (.below h'' t)))
        | none => none

/-- The attributes at the beginning of a text. -/
def readAttributes (entities : Entities) (s : Text) : List WrittenAttribute × NoLonger s :=
  match Text.skip Text.isSpace s with
  | ⟨t, h⟩ =>
    match readTagName? t with
    | none => ([], ⟨t, h⟩)
    | some (n, ⟨r, h'⟩) =>
      match readValue? entities r with
      | some (v, ⟨r', h''⟩) =>
        match readAttributes entities r' with
        | (as, r'') => (⟨n, some v⟩ :: as, .below h (.inside h' (.inside h'' r'')))
      | none =>
        match readAttributes entities r with
        | (as, r') => (⟨n, none⟩ :: as, .below h (.inside h' r'))
termination_by s.length

/-! ### The document type

Of a document type only the entities are of use. They are looked for in the internal subset from its
front, and what is not an entity's declaration is passed over. -/

/-- The entities that an internal subset declares. -/
def readEntities (s : Text) : Entities :=
  match _h : Text.splitAround? "<!ENTITY".toList s with
  | none => []
  | some (_, r) =>
    match Text.skip Text.isSpace r with
    | ⟨r', _h'⟩ =>
      match readTagName? r' with
      | none => readEntities r'
      | some (n, ⟨t, _ht⟩) =>
        match Text.skip Text.isSpace t with
        | ⟨t', _ht'⟩ =>
          match readQuoted? t' with
          | none => readEntities t'
          | some (v, ⟨u, _hu⟩) => (n, expandValue [] v) :: readEntities u
termination_by s.length
decreasing_by
  all_goals
    have := congrArg List.length (Text.append_of_splitAround? _h)
    have hm : "<!ENTITY".toList.length = 8 := rfl
    simp only [List.length_append, hm] at this
    omega

/-- The entities that a document type declares, and what follows it. -/
def readDoctype (s : Text) : Entities × NoLonger s :=
  match Text.skip (fun c => c != '[' && c != '>') s with
  | ⟨r, h⟩ =>
    match Text.take? '[' r with
    | some ⟨r', h'⟩ =>
      match Text.upTo [']'] r' with
      | (subset, ⟨t, ht⟩) =>
        (readEntities subset, .below h (.inside h' (.below ht (Text.upTo ['>'] t).2)))
    | none => ([], .below h (Text.upTo ['>'] r).2)

/-! ### Tokens

What begins behind `<` is told by the characters there, the longer beginnings first. A `<` behind
which nothing of all this begins gives no token: reading goes on behind it. The entities that a
document type declares hold for what is read after it. -/

/-- The tag that a name begins, behind that name. -/
def readTag (entities : Entities) (n s : Text) : Token × NoLonger s :=
  match readAttributes entities s with
  | (as, ⟨r, h⟩) =>
    match Text.upTo ['>'] r with
    | (behind, r') => (.opening n as (behind.getLast? == some '/'), .below h r')

/-- The instruction that begins behind `<?`. -/
def readInstruction (s : Text) : Token × NoLonger s :=
  match Text.upTo ['?', '>'] s with
  | (body, r) =>
    (.instruction (body.takeWhile (!Text.isSpace ·))
      ((body.dropWhile (!Text.isSpace ·)).dropWhile Text.isSpace), r)

/-- What begins behind `<`: its tokens, the entities it declares, and what follows it. -/
def readMarkup (entities : Entities) (s : Text) : List Token × Entities × NoLonger s :=
  match Text.skip? "!--".toList s with
  | some ⟨r, h⟩ =>
    match Text.upTo "-->".toList r with
    | (t, r') => ([.comment t], [], .below h r')
  | none =>
    match Text.skip? "![CDATA[".toList s with
    | some ⟨r, h⟩ =>
      match Text.upTo "]]>".toList r with
      | (t, r') => ([.text t], [], .below h r')
    | none =>
      match Text.skip? "!DOCTYPE".toList s with
      | some ⟨r, h⟩ =>
        match readDoctype r with
        | (es, r') => ([], es, .below h r')
      | none =>
        match Text.take? '?' s with
        | some ⟨r, h⟩ =>
          match readInstruction r with
          | (t, r') => ([t], [], .inside h r')
        | none =>
          match Text.take? '/' s with
          | some ⟨r, h⟩ =>
            match Text.upTo ['>'] r with
            | (n, r') => ([.closing (n.takeWhile isTagPart)], [], .inside h r')
          | none =>
            match readTagName? s with
            | some (n, ⟨r, h⟩) =>
              match readTag entities n r with
              | (t, r') => ([t], [], .inside h r')
            | none => ([], [], .all s)

/-- What begins behind `&` in content, and what follows it. -/
def readReference (entities : Entities) (s : Text) : Token × NoLonger s :=
  match Text.take? '#' s with
  | some ⟨r, h⟩ =>
    match readNumericReference? r with
    | some (c, r') => (.text [c], .inside h r')
    | none => (.text ['&'], .all s)
  | none =>
    match readNamedReference? s with
    | some (n, r) =>
      match predefined.lookup n with
      | some t => (.text t, r)
      | none => (.reference n ((entities.lookup n).getD []), r)
    | none => (.text ['&'], .all s)

/-- The tokens of a text. -/
def tokens (entities : Entities) (s : Text) : List Token :=
  match s with
  | [] => []
  | c :: r =>
    if c = '<' then
      match readMarkup entities r with
      | (ts, es, ⟨r', _h⟩) => ts ++ tokens (entities ++ es) r'
    else if c = '&' then
      match readReference entities r with
      | (t, ⟨r', _h⟩) => t :: tokens entities r'
    else
      let inText (c : Char) := c != '<' && c != '&'
      match Text.skip inText r with
      | ⟨r', _h⟩ => .text (c :: r.takeWhile inText) :: tokens entities r'
termination_by s.length
decreasing_by all_goals simp only [List.length_cons]; omega

/-! ### Namespaces

The declarations in scope are a list, those of the innermost element first, so that the first one
with a qualifier counts. Attributes without a qualifier belong to no namespace, also where there is
a default one. -/

/-- A written name as its qualifier, if it has one, and its own part. -/
def splitName (n : Text) : Text × Text :=
  match Text.splitAround? [':'] n with
  | some (q, l) => if q.isEmpty || l.isEmpty then ([], n) else (q, l)
  | none => ([], n)

/-- The namespace that an attribute declares, if it does. -/
def declaration? (a : WrittenAttribute) : Option Declaration :=
  if a.name = "xmlns".toList then some ⟨[], a.value.getD []⟩
  else match Text.after? "xmlns:".toList a.name with
    | some q => some ⟨q, a.value.getD []⟩
    | none => none

def resolve (scope : List Declaration) (plain n : Text) : Name :=
  match splitName n with
  | ([], _) => ⟨plain, [], n⟩
  | (q, l) =>
    match scope.find? (·.qualifier == q) with
    | some d => ⟨d.uri, q, l⟩
    | none => ⟨[], [], n⟩

/-- The tags of XML: names have namespaces, and some attributes declare them. -/
def dialect : Dialect where
  Scope := List Declaration
  outer := [⟨"xml".toList, Name.xmlNamespace⟩]
  element scope n as :=
    let declared := as.filterMap declaration?
    let scope := declared ++ scope
    let plain := ((scope.find? (·.qualifier.isEmpty)).map (·.uri)).getD []
    let attributes := (as.filter fun a => (declaration? a).isNone).map fun a =>
      { name := resolve scope [] a.name, value := a.value.getD [] }
    (.element (resolve scope plain n) declared attributes, scope)

/-- The markup without the declaration that it begins with. -/
def skipDeclaration (s : Text) : Text :=
  match Text.after? "<?xml".toList s with
  | some (c :: r) => if Text.isSpace c then (Text.upTo ['?', '>'] r).2.val else s
  | _ => s

/-- Whether text stands in front of the first tag. -/
def beginsWithText : List Token → Bool
  | [] => false
  | .opening .. :: _ => false
  | .text t :: r => !t.all Text.isSpace || beginsWithText r
  | _ :: r => beginsWithText r

/-- The document that a text is; none if there is no element, or if text stands in front of it. -/
def parse? (s : Text) : Option Document :=
  let s := skipDeclaration (s.dropWhile (· == '\uFEFF'))
  let ts := tokens [] (unifyLineEnds s)
  if beginsWithText ts then none else documentOf? dialect false ts

end TreeQuery.Markup.Xml
