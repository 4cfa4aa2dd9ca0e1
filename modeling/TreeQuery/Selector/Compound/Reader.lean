import TreeQuery.Selector.Compound
import TreeQuery.Selector.Error
import TreeQuery.Selector.Pseudo
import TreeQuery.Selector.Span
import TreeQuery.Text.Letter

/-!
# Reading compounds

A compound is read from its end. What its last character is decides what ends there: a parenthesis a
pseudo-class with an argument, a bracket an attribute test, anything else a name, whose kind is the
delimiter in front of it. Each step takes one item off; the text that no delimiter precedes is the
tag. The spans are therefore held with the last one first.

Main statements: `of_readItem?_eq_ok`, what one step can have read, and `length_of_readItem?`, every
step takes something off.
-/

namespace TreeQuery

namespace Compound

/-! ### Characters

Six characters delimit names, unless they are escaped. All others go on with one; whether they may
stand in a tag or in the name of a pseudo-class is asked when the name is complete. -/

/-- Whether an unescaped character delimits the name after it. -/
def delimits (s : Span) : Bool := !s.escaped && ".#:[]()".toList.contains s.char

/-- Whether an unescaped character may stand in a tag. All characters beyond ASCII may. -/
def isTagChar (c : Char) : Bool := c.isAlphanum || c = '-' || c = '_' || 0x80 ≤ c.toNat

/-- Whether a text may be the name of a pseudo-class: a letter, then letters and hyphens, two
characters at least. -/
def namesPseudoClass : Text → Bool
  | c :: d :: r => Text.isLetter c && (d :: r).all fun x => Text.isLetter x || x = '-'
  | _ => false

/-! ### Items

Each of the following functions takes one item off the end. They differ in what they look for
towards the front: a pseudo-class for the parenthesis that matches its own, a test for the nearest
bracket, whatever stands between, and a name for the nearest delimiter. -/

/-- What stands behind the tag of a compound. -/
inductive Item where
  /-- An attribute test, a class or an identifier, as a fragment. -/
  | attribute (fragment : Text)
  /-- A pseudo-class, as a fragment. -/
  | pseudo (fragment : Text)
  deriving DecidableEq, Repr

/-- The part of an argument behind which `depth` more parentheses are still to be opened, and what
stands in front of the parenthesis that opens it. -/
def splitArgument? : (depth : Nat) → List Span → Option (List Span × List Span)
  | _, [] => none
  | depth, s :: r =>
    if s = Span.plain ')' then (splitArgument? (depth + 1) r).map fun (a, b) => (s :: a, b)
    else if s = Span.plain '(' then
      match depth with
      | 0 => some ([], r)
      | depth + 1 => (splitArgument? depth r).map fun (a, b) => (s :: a, b)
    else (splitArgument? depth r).map fun (a, b) => (s :: a, b)

/-- The pseudo-class whose closing parenthesis stood behind `before`. The argument keeps its
escapes, as it may be a selector itself. -/
def takeFunctional (token : Text) (before : List Span) :
    Except SelectorError (Item × List Span) :=
  match splitArgument? 0 before with
  | none => .error (.unbalancedParenthesis token)
  | some (argument, before) =>
    match before.dropWhile (!delimits ·) with
    | [] => .error (.unexpectedCharacter token)
    | delimiter :: rest =>
      if delimiter.char = ':' then
        let name := Span.text (before.takeWhile (!delimits ·)).reverse
        let argument := Span.source argument.reverse
        if name.isEmpty then .error (.missingPseudoName token)
        else if (FunctionalPseudo.ofName? (Text.lower name)).isNone then
          .error (.unknownPseudoClass name)
        else if Text.isAllBlank argument then .error (.missingPseudoArgument token)
        else .ok (.pseudo (Text.lower name ++ '(' :: argument ++ [')']), rest)
      else .error (.unexpectedCharacter token)

/-- The attribute test whose closing bracket stood behind `before`. -/
def takeBracket (token : Text) (before : List Span) : Except SelectorError (Item × List Span) :=
  match before.dropWhile (· ≠ Span.plain '[') with
  | [] => .error (.unbalancedBracket token)
  | _ :: rest =>
    .ok (.attribute (Span.text (before.takeWhile (· ≠ Span.plain '[')).reverse), rest)

/-- The item that a name behind a delimiter is. -/
def namedItem (token : Text) (delimiter : Char) (name : Text) : Except SelectorError Item :=
  if delimiter = '.' then
    if name.isEmpty then .error (.missingClassName token)
    else .ok (.attribute ("class~=\"".toList ++ name ++ ['"']))
  else if delimiter = '#' then
    if name.isEmpty then .error (.missingIdValue token)
    else .ok (.attribute ("id=\"".toList ++ name ++ ['"']))
  else if delimiter = ':' then
    if name.isEmpty then .error (.missingPseudoName token)
    else if namesPseudoClass name then .ok (.pseudo (Text.lower name))
    else .error (.unknownPseudoClass name)
  else .error (.unexpectedCharacter token)

/-- The item at the end of the spans and what stands in front of it; none if only a tag is left. -/
def readItem? (token : Text) : List Span → Except SelectorError (Option (Item × List Span))
  | [] => .ok none
  | s :: r =>
    if s = Span.plain ')' then (takeFunctional token r).map some
    else if s = Span.plain ']' then (takeBracket token r).map some
    else match (s :: r).dropWhile (!delimits ·) with
      | [] => .ok none
      | delimiter :: rest =>
        let name := Span.text ((s :: r).takeWhile (!delimits ·)).reverse
        (namedItem token delimiter.char name).map fun item => some (item, rest)

/-! ### What has been read

A step that succeeds is taken apart here once for all. What it can have read is one of three shapes,
and all later facts about reading, from its end to what is held in the items, are read off these
shapes and not off the functions. -/

/-- What delimits is not escaped. -/
theorem eq_plain_of_delimits {s : Span} (h : delimits s = true) : s = .plain s.char := by
  obtain ⟨c, e⟩ := s
  cases e with
  | true => cases h
  | false => rfl

/-- Where a search stops, the row falls into what was passed over, what was found and the rest. -/
theorem eq_of_dropWhile {p : Span → Bool} {l rest : List Span} {s : Span}
    (h : l.dropWhile p = s :: rest) :
    l = l.takeWhile p ++ s :: rest ∧ (∀ t ∈ l.takeWhile p, p t = true) ∧ p s = false := by
  refine ⟨?_, List.all_eq_true.1 List.all_takeWhile, ?_⟩
  · rw [← h, List.takeWhile_append_dropWhile]
  · have := List.head?_dropWhile_not p l
    rw [h] at this
    simpa using this

/-- Behind the argument that is split off, towards the front, stands its opening parenthesis. -/
theorem eq_of_splitArgument? {depth : Nat} {l a b : List Span}
    (h : splitArgument? depth l = some (a, b)) : l = a ++ Span.plain '(' :: b := by
  induction l generalizing depth a b with
  | nil => simp [splitArgument?] at h
  | cons s r ih =>
    unfold splitArgument? at h
    split at h
    · obtain ⟨⟨a', b'⟩, h', he⟩ := Option.map_eq_some_iff.1 h
      cases he; rw [ih h']; rfl
    · split at h
      · next hs =>
        split at h
        · cases h; rw [hs]; rfl
        · obtain ⟨⟨a', b'⟩, h', he⟩ := Option.map_eq_some_iff.1 h
          cases he; rw [ih h']; rfl
      · obtain ⟨⟨a', b'⟩, h', he⟩ := Option.map_eq_some_iff.1 h
        cases he; rw [ih h']; rfl

section

variable {token name : Text} {spans before rest : List Span} {item : Item}

/-- In front of the argument that is split off stand the name and the colon. -/
theorem of_takeFunctional_eq_ok (h : takeFunctional token before = .ok (item, rest)) :
    ∃ (argument name : List Span) (p : FunctionalPseudo),
      splitArgument? 0 before = some (argument, name ++ Span.plain ':' :: rest) ∧
      Text.lower (Span.text name.reverse) = p.name ∧
      Text.isAllBlank (Span.source argument.reverse) = false ∧
      item = .pseudo (p.name ++ '(' :: Span.source argument.reverse ++ [')']) := by
  unfold takeFunctional at h
  split at h
  · cases h
  · next argument front ha =>
    split at h
    · cases h
    · next delimiter rest' hd =>
      obtain ⟨hfront, -, hdelimits⟩ := eq_of_dropWhile hd
      split at h
      · next hcolon =>
        simp only at h
        split at h
        · cases h
        · split at h
          · cases h
          · next hname =>
            split at h
            · cases h
            · next hblank =>
              cases h
              obtain ⟨p, hp⟩ := Option.ne_none_iff_exists'.1 (mt Option.isNone_iff_eq_none.2 hname)
              have hlower := FunctionalPseudo.name_of_ofName? hp
              have hplain := eq_plain_of_delimits (by simpa using hdelimits)
              rw [hcolon] at hplain
              rw [hplain] at hfront
              exact ⟨argument, _, p, hfront ▸ ha, hlower, by simpa using hblank, by rw [hlower]⟩
      · cases h

/-- In front of the bracket that closes stands the one that opens. -/
theorem of_takeBracket_eq_ok (h : takeBracket token before = .ok (item, rest)) :
    ∃ body, before = body ++ Span.plain '[' :: rest ∧ Span.plain '[' ∉ body ∧
      item = .attribute (Span.text body.reverse) := by
  unfold takeBracket at h
  split at h
  · cases h
  · next s rest' hd =>
    cases h
    obtain ⟨hbefore, hbody, hbracket⟩ := eq_of_dropWhile hd
    obtain rfl : s = .plain '[' := by simpa using hbracket
    exact ⟨_, hbefore, fun hm => by simpa using hbody _ hm, rfl⟩

/-- A name is that of a class, an identifier or a pseudo-class. -/
theorem of_namedItem_eq_ok {delimiter : Char} (h : namedItem token delimiter name = .ok item) :
    (delimiter = '.' ∧ name ≠ [] ∧ item = .attribute ("class~=\"".toList ++ name ++ ['"'])) ∨
    (delimiter = '#' ∧ name ≠ [] ∧ item = .attribute ("id=\"".toList ++ name ++ ['"'])) ∨
    (delimiter = ':' ∧ namesPseudoClass name = true ∧ item = .pseudo (Text.lower name)) := by
  have hne : ¬ name.isEmpty = true → name ≠ [] := mt List.isEmpty_iff.2
  unfold namedItem at h
  split at h
  · next hd =>
    split at h
    · cases h
    · next he => cases h; exact .inl ⟨hd, hne he, rfl⟩
  · split at h
    · next hd =>
      split at h
      · cases h
      · next he => cases h; exact .inr (.inl ⟨hd, hne he, rfl⟩)
    · split at h
      · next hd =>
        split at h
        · cases h
        · split at h
          · next hn => cases h; exact .inr (.inr ⟨hd, hn, rfl⟩)
          · cases h
      · cases h

/-- What ends with a parenthesis, what ends with a bracket, and what is a name. -/
theorem of_readItem?_eq_ok (h : readItem? token spans = .ok (some (item, rest))) :
    (∃ before, spans = Span.plain ')' :: before ∧ takeFunctional token before = .ok (item, rest)) ∨
    (∃ before, spans = Span.plain ']' :: before ∧ takeBracket token before = .ok (item, rest)) ∨
    ∃ name delimiter, spans = name ++ Span.plain delimiter :: rest ∧
      (∀ s ∈ name, delimits s = false) ∧
      namedItem token delimiter (Span.text name.reverse) = .ok item := by
  unfold readItem? at h
  split at h
  · cases h
  · next s r =>
    split at h
    · next hs =>
      obtain ⟨v, hv, he⟩ := Except.map_eq_ok h
      cases he
      exact .inl ⟨r, by rw [hs], hv⟩
    · split at h
      · next hs =>
        obtain ⟨v, hv, he⟩ := Except.map_eq_ok h
        cases he
        exact .inr (.inl ⟨r, by rw [hs], hv⟩)
      · split at h
        · cases h
        · next delimiter rest' hd =>
          obtain ⟨hspans, hname, hdelimits⟩ := eq_of_dropWhile hd
          obtain ⟨v, hv, he⟩ := Except.map_eq_ok h
          cases he
          rw [eq_plain_of_delimits (s := delimiter) (by simpa using hdelimits)] at hspans
          exact .inr (.inr ⟨_, _, hspans, fun u hu => by simpa using hname u hu, hv⟩)

/-- Every step takes something off. -/
theorem length_of_readItem? (h : readItem? token spans = .ok (some (item, rest))) :
    rest.length < spans.length := by
  rcases of_readItem?_eq_ok h with ⟨before, rfl, hf⟩ | ⟨before, rfl, hb⟩ | ⟨name, d, rfl, -⟩
  · obtain ⟨argument, name, p, ha, -⟩ := of_takeFunctional_eq_ok hf
    rw [eq_of_splitArgument? ha]
    simp only [List.length_append, List.length_cons]
    omega
  · obtain ⟨body, rfl, -⟩ := of_takeBracket_eq_ok hb
    simp only [List.length_append, List.length_cons]
    omega
  · simp only [List.length_append, List.length_cons]
    omega

end

/-! ### Compounds and chains

A token is read item by item until only a tag is left. The tokens of a chain are read one by one;
all that a token has to know of the others is the one before it. -/

/-- The items of a compound in the order in which they are written, in front of those already read,
and the spans of the tag, last one first. -/
def readItems (token : Text) (spans : List Span) (read : List Item) :
    Except SelectorError (List Span × List Item) :=
  match _h : readItem? token spans with
  | .error e => .error e
  | .ok none => .ok (spans, read)
  | .ok (some (item, rest)) => readItems token rest (item :: read)
termination_by spans.length
decreasing_by exact length_of_readItem? _h

def tagOf (token : Text) (spans : List Span) : Except SelectorError Text :=
  if Span.text spans = ['*'] then .ok ['*']
  else if spans.all fun s => s.escaped || isTagChar s.char then .ok (Span.text spans)
  else .error (.unexpectedCharacter token)

def Item.attributes (items : List Item) : List Text :=
  items.filterMap fun | .attribute f => some f | .pseudo _ => none

def Item.pseudos (items : List Item) : List Text :=
  items.filterMap fun | .attribute _ => none | .pseudo f => some f

/-- The relation that the token before a compound states. -/
def relationAfter (before : Option Text) : Relation :=
  match before.bind Combinator.ofToken? with
  | some c => .stated c
  | none => .unstated

/-- The compound that a token is found to be by reading it from its end. -/
def scan (relation : Relation) (token : Text) : Except SelectorError Compound :=
  match Span.resolve? token with
  | none => .error (.unexpectedCharacter token)
  | some spans => do
    let (tag, items) ← readItems token spans.reverse []
    let tag ← tagOf token tag.reverse
    return {
      tag
      relation
      attributes := Item.attributes items
      pseudos := Item.pseudos items }

def isWord (token : Text) : Bool := !token.isEmpty && token.all Text.isLetter

/-- The compound that a token is, given the token before it; none if it is a combinator. A word is
the name of an element and is not scanned. -/
def read (before : Option Text) (token : Text) : Except SelectorError (Option Compound) :=
  if (Combinator.ofToken? token).isSome then .ok none
  else if isWord token then .ok (some { tag := token, relation := relationAfter before })
  else (scan (relationAfter before) token).map some

/-- The compound at a place in a chain of tokens. -/
def readAt (tokens : List Text) (index : Nat) : Except SelectorError (Option Compound) :=
  match tokens[index]? with
  | none => .ok none
  | some token => read (if index = 0 then none else tokens[index - 1]?) token

/-- The compounds of the tokens that follow `before`. -/
def readAfter (before : Option Text) : List Text → Except SelectorError (List Compound)
  | [] => .ok []
  | token :: rest => do
    let compound ← read before token
    let compounds ← readAfter (some token) rest
    return compound.toList ++ compounds

/-- The compounds of a chain. A combinator is not one of them; it is the relation of the compound
behind it. -/
def readChain (tokens : List Text) : Except SelectorError (List Compound) := readAfter none tokens

end Compound

end TreeQuery
