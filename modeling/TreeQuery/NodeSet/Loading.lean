import TreeQuery.Markup.Html
import TreeQuery.Markup.Xml
import TreeQuery.Markup.Xml.Declaration
import TreeQuery.NodeSet.Basic
import TreeQuery.Text.Bytes

/-!
# Loading

A set that stands for a whole document is loaded from markup, given as text or as bytes. Unless it
is said what the markup is, it is XML if it announces itself as XML, and HTML otherwise. -/

namespace TreeQuery

/-- A cause for which markup cannot be loaded. -/
inductive LoadingError where
  /-- HTML without an element. -/
  | emptyDocument
  /-- A text that says in which bytes it is encoded. -/
  | declaredEncoding
  deriving DecidableEq, Repr

namespace LoadingError

def message : LoadingError → Text
  | emptyDocument => "Document is empty".toList
  | declaredEncoding =>
    ("Unicode strings with encoding declaration are not supported. Please use bytes input or " ++
      "XML fragments without declaration.").toList

end LoadingError

namespace NodeSet

def ofXml (d : Option Document) : NodeSet :=
  match d with
  | some d => ofDocument d true
  | none => empty (some true)

/-! ### Texts and bytes

A blank text is an empty set whatever it is said to be. A text that announces its encoding is
refused, as it is decoded already; bytes are read in the encoding that they announce. XML without an
element is an empty set, and HTML without one a fault. -/

def loadXml (s : Text) : Except LoadingError NodeSet :=
  let s := Markup.Xml.withoutDeclaration s
  if Text.isAllBlank s then .ok (empty (some true))
  else if (Markup.Xml.encoding? s).isSome then .error .declaredEncoding
  else .ok (ofXml (Markup.Xml.parse? s))

def loadHtml (s : Text) : Except LoadingError NodeSet :=
  if (Markup.Xml.encoding? s).isSome then .error .declaredEncoding
  else match Markup.Html.parse? s with
    | some d => .ok (ofDocument d false)
    | none => .error .emptyDocument

/-- The set of a text. -/
def load (s : Text) (asXml : Option Bool) : Except LoadingError NodeSet :=
  if Text.isAllBlank s then .ok (empty asXml)
  else if asXml.getD (Markup.Xml.announces s) then loadXml s
  else loadHtml s

/-- The text of XML in bytes, which may say how they are to be read. -/
def xmlText (bytes : List UInt8) : Text :=
  let latin := Text.ofLatin1 bytes
  if (Markup.Xml.encoding? latin).any Markup.Xml.isLatinEncoding then latin
  else Text.ofUtf8 bytes

/-- The set of bytes. -/
def loadBytes (bytes : List UInt8) (asXml : Option Bool) : Except LoadingError NodeSet :=
  let s := Text.ofUtf8 bytes
  if Text.isAllBlank s then .ok (empty asXml)
  else if asXml.getD (Markup.Xml.announces s) then .ok (ofXml (Markup.Xml.parse? (xmlText bytes)))
  else loadHtml s

end NodeSet

end TreeQuery
