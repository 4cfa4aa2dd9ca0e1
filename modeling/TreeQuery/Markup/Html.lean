import TreeQuery.Markup.Html.Nesting
import TreeQuery.Markup.Html.Tokens

/-!
# Reading HTML

HTML markup is read into tokens, these are nested, and a document is grown from them. Names have no
namespaces.
-/

namespace TreeQuery.Markup.Html

/-- The tags of HTML: an attribute without a value has the empty text for a value. -/
def dialect : Dialect where
  Scope := Unit
  outer := ()
  element _ n as :=
    (.element ⟨[], [], n⟩ []
      (as.map fun a => ⟨⟨[], [], a.name⟩, a.value.getD [], a.value.isNone⟩), ())

/-- The document that a text is; none if there is no element. -/
def parse? (s : Text) : Option Document :=
  documentOf? dialect true (nested (tokens (unifyLineEnds (s.dropWhile (· == '\uFEFF')))))

end TreeQuery.Markup.Html
