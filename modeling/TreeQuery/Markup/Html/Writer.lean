import TreeQuery.Markup.Html.Element
import TreeQuery.Markup.Xml.Writer

/-!
# Writing HTML

A node with all it contains as HTML. An element without content has a closing tag, unless it is one
that never has content; some attributes are written without their values.

Main statement: `value_plain`, a value without special characters is written between quotation
marks as it is.
-/

namespace TreeQuery.Markup.Html

/-! ### Characters -/

/-- A character as it stands between tags and in values. -/
def escapeChar (c : Char) : Text :=
  if c = '&' then "&amp;".toList
  else if c = '<' then "&lt;".toList
  else if c = '>' then "&gt;".toList
  else [c]

/-- A text between tags. -/
def escape (t : Text) : Text := t.flatMap escapeChar

/-- A value between quotes: apostrophes if there are quotation marks and no apostrophes in it. -/
def value (v : Text) : Text :=
  let v := escape v
  if !v.contains '"' then '"' :: v ++ ['"']
  else if !v.contains '\'' then '\'' :: v ++ ['\'']
  else '"' :: (v.flatMap fun c => if c = '"' then "&quot;".toList else [c]) ++ ['"']

/-- A character that is written as it is. -/
def isPlainChar (c : Char) : Bool := c != '&' && c != '<' && c != '>' && c != '"'

/-- Nothing is written as a reference that need not be. -/
theorem escape_plain {t : Text} (h : ∀ c ∈ t, isPlainChar c = true) : escape t = t := by
  induction t with
  | nil => rfl
  | cons c r ih =>
    have hc : escapeChar c = [c] := by
      have := h c (by simp)
      simp only [isPlainChar, Bool.and_eq_true, bne_iff_ne, ne_eq] at this
      simp [escapeChar, this]
    have hr := ih fun d hd => h d (by simp [hd])
    simp only [escape] at hr
    simp [escape, hc, hr]

theorem value_plain {v : Text} (h : ∀ c ∈ v, isPlainChar c = true) :
    value v = '"' :: v ++ ['"'] := by
  have hq : '"' ∉ v := fun hm => absurd (h _ hm) (by decide)
  simp [value, escape_plain h, hq]

/-! ### Tags -/

def attributeText (a : Attribute) : Text :=
  if a.bare || bareNames.contains (Text.lowerAscii a.name.localPart) then ' ' :: a.name.written
  else ' ' :: a.name.written ++ '=' :: value a.value

/-- The inside of an opening tag. -/
def tagInside (n : Name) (ds : List Declaration) (as : List Attribute) : Text :=
  n.written ++ ds.flatMap Xml.declaration ++ as.flatMap attributeText

/-! ### Nodes -/

/-- A forest as HTML, where texts may have to be written without references. -/
def write (raw : Bool) : Forest → Text
  | .nil => []
  | .cons (.element n ds as) c r =>
    let opening := '<' :: tagInside n ds as ++ ['>']
    let lowered := Text.lowerAscii n.localPart
    let plain := n.uri.isEmpty
    (if plain && isVoid lowered then opening
      else opening ++ write (plain && isRaw lowered) c ++ '<' :: '/' :: n.written ++ ['>'])
      ++ write raw r
  | .cons (.text t) _ r => (if raw then t else escape t) ++ write raw r
  | .cons (.comment t) _ r => Xml.comment t ++ write raw r
  | .cons (.instruction n t) _ r =>
    '<' :: '?' :: n ++ (if t.isEmpty then [] else ' ' :: t) ++ '>' :: write raw r
  | .cons (.reference n _) _ r => Xml.reference n ++ write raw r

def writeNode (d : Document) (p : Path) : Text := write false (Xml.nodeInScope d p)

end TreeQuery.Markup.Html
