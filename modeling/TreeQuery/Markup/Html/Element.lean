import TreeQuery.Text.Basic

/-!
# The elements of HTML

What the tags of HTML may leave unsaid: which elements have no content, which have content without
markup, which elements end when another begins, and how firmly an element keeps its place when an
outer one is closed.
-/

namespace TreeQuery.Markup.Html

/-- The words of a text, which single spaces separate. -/
def wordsOf : Text → List Text
  | [] => [[]]
  | c :: r =>
    if c = ' ' then [] :: wordsOf r
    else match wordsOf r with
      | [] => [[c]]
      | w :: ws => (c :: w) :: ws

def words (s : String) : List Text := wordsOf s.toList

/-! ### Content -/

/-- The elements without content. -/
def voidNames : List Text :=
  words "area base basefont br col frame hr img input isindex link meta param"

def isVoid (n : Text) : Bool := voidNames.contains n

/-- The elements whose content is text as it stands. -/
def rawNames : List Text := words "iframe noembed noframes script style xmp"

def isRaw (n : Text) : Bool := rawNames.contains n

/-- The elements whose content is text with references. -/
def plainNames : List Text := words "textarea title"

def isPlain (n : Text) : Bool := plainNames.contains n

/-- The elements that belong to the head. -/
def headNames : List Text := words "base link meta script style title"

def frameNames : List Text := words "frame frameset noframes"

/-- The attributes that are written without a value whatever their value is. -/
def bareNames : List Text :=
  words "checked compact declare defer disabled ismap multiple nohref noresize noshade nowrap"
    ++ words "readonly selected"

/-! ### Elements that end where others begin -/

/-- The elements that may not stand in the head. -/
def bodyNames : List Text :=
  words "a abbr acronym address b bdo big blockquote body br center cite code dd dfn dir div dl dt"
    ++ words "em fieldset font form frameset h1 h2 h3 h4 h5 h6 hr i iframe img kbd li listing map"
    ++ words "menu ol p pre q s samp small span strike strong sub sup table tt u ul var xmp"

/-- The elements that may not stand in a paragraph. -/
def blockNames : List Text :=
  words "address blockquote body caption center col colgroup dd dir div dl dt frameset h1 h2 h3 h4"
    ++ words "h5 h6 head hr li listing menu multicol ol p pre table tbody td tfoot th title tr ul"
    ++ words "xmp"

/-- Elements with the elements whose beginning ends them. -/
def endings : List (List Text × List Text) := [
  (words "a", words "a fieldset table td th"),
  (words "address dir menu", words "dd dl dt form ul"),
  (words "address", words "li"),
  (words "b", words "center p td th"),
  (words "big s small strike tt", words "p"),
  (words "caption col", words "col colgroup tbody tfoot thead tr"),
  (words "colgroup", words "colgroup tbody tfoot thead tr"),
  (words "dd", words "dt"),
  (words "dl", words "form li"),
  (words "dt", words "dd dl"),
  (words "font", words "center td th"),
  (words "form ol", words "form"),
  (words "h1 h2 h3 h4 h5 h6", words "fieldset form li p table"),
  (words "head", bodyNames),
  (words "i", words "center"),
  (words "li", words "li"),
  (words "option", words "optgroup option"),
  (words "p", blockNames),
  (words "pre", words "dd dl dt fieldset form li table ul"),
  (words "script", words "noscript"),
  (words "span", words "td th"),
  (words "style title link", words "body frameset"),
  (words "tbody thead", words "tbody tfoot"),
  (words "td th", words "tbody td tfoot th tr"),
  (words "tfoot", words "tbody"),
  (words "tr", words "tbody tfoot tr"),
  (words "u", words "p td th"),
  (words "ul", words "address form menu pre")]

/-- Whether an open element ends where another begins. -/
def endsAt (opened begun : Text) : Bool :=
  endings.any fun (ended, beginnings) => ended.contains opened && beginnings.contains begun

/-- How firmly an element keeps its place: a closing tag does not reach over a firmer element. -/
def firmness (n : Text) : Nat :=
  if n = "div".toList then 150
  else if (words "td th").contains n then 160
  else if n = "tr".toList then 170
  else if (words "tbody tfoot thead").contains n then 180
  else if n = "table".toList then 190
  else if (words "body head").contains n then 200
  else if n = "html".toList then 220
  else 100

end TreeQuery.Markup.Html
