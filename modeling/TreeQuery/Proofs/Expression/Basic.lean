import TreeQuery.Proofs.Pattern.Basic
import TreeQuery.Proofs.XPath.Path

/-!
# Patterns as expressions

The text that a pattern is compiled to is read back before it is evaluated. What comes out is again
an expression along the tree of the pattern. For some patterns nothing comes out, or something else:
a tag that is no name, an apostrophe in a text, a chain in an argument that cannot begin at an
element. The plain patterns are those without such a thing.
-/

namespace TreeQuery

open XPath XPath.Expr

/-! ## Attribute tests

An expression is written down for each operator as the syntax tree of its template. Nothing is said
of texts here; that the template is read as this tree is proved elsewhere. -/

def XPath.Expr.attribute (n : Text) : Expr := .step .here .attributes (.name ⟨[], n⟩) []

namespace AttributeTest

/-- What a test asks for. -/
def expr (t : AttributeTest) : Expr :=
  let subject := Expr.attribute t.name
  match t.comparison with
  | none => subject
  | some (operator, value) =>
    if operator.failsOnEmpty && value.isEmpty then .call ⟨[], "false".toList⟩ []
    else match operator with
    | .equals => .binary .equal subject (.literal value)
    | .differs => .binary .unequal subject (.literal value)
    | .word =>
      .call ⟨[], "contains".toList⟩ [
        .call ⟨[], "concat".toList⟩
          [.literal [' '], .call ⟨[], "normalize-space".toList⟩ [subject], .literal [' ']],
        .literal (' ' :: value ++ [' '])]
    | .part => .call ⟨[], "contains".toList⟩ [subject, .literal value]
    | .beginning => .call ⟨[], "starts-with".toList⟩ [subject, .literal value]
    | .ending =>
      .binary .and subject (.binary .equal
        (.call ⟨[], "substring".toList⟩ [subject, .binary .subtract
          (.call ⟨[], "string-length".toList⟩ [subject])
          (.number (.whole ((value.length - 1 : Nat) : Int)))])
        (.literal value))
    | .dashed =>
      .binary .or (.binary .equal subject (.literal value))
        (.call ⟨[], "starts-with".toList⟩ [subject, .literal (value ++ ['-'])])

/-- Whether the name of a test is a name in expressions, and the value can stand in one. -/
def isPlain (t : AttributeTest) : Bool :=
  Text.isName t.name && t.comparison.all fun c => !c.2.contains '\''

end AttributeTest

/-! ## Static pseudo-classes -/

namespace StaticPseudo

def onAxis (axis : Axis) : Expr := .step .here axis .anyName []

def noneOn (axis : Axis) : Expr := .call ⟨[], "not".toList⟩ [onAxis axis]

def childCount : Expr := .call ⟨[], "count".toList⟩ [.step .here .child .anyName []]

def textLength : Expr := .call ⟨[], "string-length".toList⟩ []

def parity : Expr := .binary .modulo (.call ⟨[], "position".toList⟩ []) (.number (.whole 2))

def isNamed (n : Text) : Expr := .step .here .self (.name ⟨[], n⟩) []

def headerTags : List Text :=
  ["h1".toList, "h2".toList, "h3".toList, "h4".toList, "h5".toList, "h6".toList]

/-- What a pseudo-class asks for. -/
def expr : StaticPseudo → Expr
  | disabled => Expr.attribute "disabled".toList
  | firstChild => noneOn .precedingSibling
  | lastChild => noneOn .followingSibling
  | onlyChild => .binary .and (noneOn .precedingSibling) (noneOn .followingSibling)
  | empty => .binary .and (.binary .equal childCount (.number (.whole 0)))
      (.binary .equal textLength (.number (.whole 0)))
  | notEmpty => .binary .or (.binary .greater childCount (.number (.whole 0)))
      (.binary .greater textLength (.number (.whole 0)))
  | parent => .binary .greater childCount (.number (.whole 0))
  | header => anyOf (headerTags.map isNamed)
  | odd => .binary .equal parity (.number (.whole 0))
  | even => .binary .equal parity (.number (.whole 1))
  | first => .number (.whole 1)
  | last => .call ⟨[], "last".toList⟩ []
  | root => noneOn .parent

end StaticPseudo

namespace Pattern

/-! ## Conditions and chains

The mutual recursion is that of patterns, and gives the tree where there the text is written. A step
whose predicates are still being collected is a stretch: a condition on the whole result ends it,
and makes a set of what is in front. -/

def testOf (tag : Text) : NodeTest :=
  if tag.isEmpty || tag == ['*'] then .anyName else .name ⟨[], tag⟩

mutual

def Condition.expr : Condition → Expr
  | .static p => p.expr
  | .contains t =>
    .step .here .child .text [.call ⟨[], "contains".toList⟩ [.here, .literal t]]
  | .not cs => .call ⟨[], "not".toList⟩ [anyOf (selfExprs cs)]
  | .has rs => anyOf (relativeExprs rs)

def selfExprs : List Chain → List Expr
  | [] => []
  | c :: r => (c.stretch .here .self).expr :: selfExprs r

def relativeExprs : List Relative → List Expr
  | [] => []
  | .mk direct c :: r =>
    (c.stretch .here (if direct then .child else .descendant)).expr :: relativeExprs r

/-- A stretch with conditions behind it. One that selects from the whole result makes a set of what
is in front of it. -/
def givenAll (p : Stretch) : List Condition → Stretch
  | [] => p
  | c :: r => givenAll ((if c.isResultScoped then .set p.expr else p).given c.expr) r

def Element.stretch (start : Expr) (axis : Axis) (nearest : List Expr) : Element → Stretch
  | .mk tag tests conditions =>
    givenAll (.step start axis (testOf tag) (nearest ++ tests.map AttributeTest.expr)) conditions

/-- What the element that a chain looks for must be, whatever comes before it. -/
def Chain.lastStretch : Chain → Stretch
  | .start _ e => e.stretch .here .self []
  | .link _ _ e => e.stretch .here .self []

/-- The steps of a chain, the first of them on a given axis. -/
def Chain.stretch (start : Expr) (axis : Axis) : Chain → Stretch
  | .start _ e => e.stretch start axis []
  | .link b none e => e.stretch (descend (b.stretch start axis).expr) .child []
  | .link b (some .child) e => e.stretch (b.stretch start axis).expr .child []
  | .link b (some .sibling) e => e.stretch (b.stretch start axis).expr .followingSibling []
  | .link b (some .adjacent) e =>
    if b.last.isResultScoped then
      e.stretch (.step (b.stretch start axis).expr .followingSibling .anyName [.number (.whole 1)])
        .self []
    else
      e.stretch (b.stretch start axis).expr .followingSibling
        [.step .here .precedingSibling .anyName [.number (.whole 1), b.lastStretch.expr]]

end

theorem Chain.stretch_adjacent (start : Expr) (a : Axis) (b : Chain) (e : Element) :
    (link b (some .adjacent) e).stretch start a =
      if b.last.isResultScoped then
        e.stretch (.step (b.stretch start a).expr .followingSibling .anyName [.number (.whole 1)])
          .self []
      else
        e.stretch (b.stretch start a).expr .followingSibling
          [.step .here .precedingSibling .anyName [.number (.whole 1), b.lastStretch.expr]] := rfl

/-- The last element is asked for in the same way in every chain. -/
theorem Chain.lastStretch_eq (c : Chain) : c.lastStretch = c.last.stretch .here .self [] := by
  cases c <;> rfl

/-- Conditions that do not select from the whole result become predicates of the step. -/
theorem givenAll_step {conditions : List Condition}
    (h : conditions.any Condition.isResultScoped = false) (start : Expr) (a : Axis)
    (test : NodeTest) (es : List Expr) : givenAll (.step start a test es) conditions =
      .step start a test (es ++ conditions.map Condition.expr) := by
  induction conditions generalizing es with
  | nil => simp [givenAll]
  | cons c r ih =>
    rw [List.any_cons, Bool.or_eq_false_iff] at h
    have hstep : givenAll (.step start a test es) (c :: r) =
        givenAll ((if c.isResultScoped then Stretch.set (Stretch.step start a test es).expr
          else Stretch.step start a test es).given c.expr) r := rfl
    rw [hstep, h.1]
    exact (ih h.2 _).trans (by simp)

def Chain.opening : Chain → Option Combinator
  | .start opening _ => opening
  | .link b _ _ => b.opening

def Chain.first : Chain → Element
  | .start _ e => e
  | .link b _ _ => b.first

def Chain.pathExpr (c : Chain) : Expr :=
  match c.opening with
  | none => (c.stretch (descend .root) .child).expr
  | some .child => (c.stretch .root .child).expr
  | some _ => (c.stretch .root .followingSibling).expr

def Chain.anchoredExpr (c : Chain) : Expr :=
  match c.opening with
  | none => (c.stretch (descend .here) .child).expr
  | some .child => (c.stretch .here .child).expr
  | some _ => (c.stretch .here .followingSibling).expr

/-- The union of the paths of chains. -/
def expr : List Chain → Expr
  | [] => .root
  | c :: r => (r.map Chain.pathExpr).foldl (.binary .union) c.pathExpr

/-- The union of the paths of chains from the context node. -/
def anchoredExpr : List Chain → Expr
  | [] => .here
  | c :: r => (r.map Chain.anchoredExpr).foldl (.binary .union) c.anchoredExpr

/-! ## Plain patterns

Plainness is a Boolean function, so that it can be decided for the pattern of any selector. It asks
of each part that it is read back; of a chain in an argument it also asks that it can begin at an
element, as the axis in front of it takes the place of its slashes. -/

/-- Whether a tag is a name in expressions, or stands for any. -/
def isPlainTag (tag : Text) : Bool := tag.isEmpty || tag == ['*'] || Text.isName tag

/-- Whether no element of a chain is selected from everything matched so far. -/
def Chain.isUnscoped : Chain → Bool
  | .start _ e => !e.isResultScoped
  | .link b _ e => b.isUnscoped && !e.isResultScoped

/-- Whether a chain can begin at an element. -/
def Chain.beginsInside (c : Chain) : Bool :=
  c.isUnscoped && (c.opening == none || c.opening == some .child)

mutual

def Condition.isPlain : Condition → Bool
  | .static _ => true
  | .contains t => !t.contains '\''
  | .not cs => !cs.isEmpty && chainsPlain cs
  | .has rs => !rs.isEmpty && relativesPlain rs

def chainsPlain : List Chain → Bool
  | [] => true
  | c :: r => c.isPlain && c.beginsInside && chainsPlain r

def relativesPlain : List Relative → Bool
  | [] => true
  | .mk _ c :: r => c.isPlain && c.beginsInside && relativesPlain r

def conditionsPlain : List Condition → Bool
  | [] => true
  | c :: r => c.isPlain && conditionsPlain r

def Element.isPlain : Element → Bool
  | .mk tag tests conditions =>
    isPlainTag tag && tests.all AttributeTest.isPlain && conditionsPlain conditions

def Chain.isPlain : Chain → Bool
  | .start _ e => e.isPlain
  | .link b _ e => b.isPlain && e.isPlain

end

theorem Condition.isPlain_not (cs : List Chain) :
    (not cs).isPlain = (!cs.isEmpty && chainsPlain cs) := rfl

theorem Condition.isPlain_has (rs : List Relative) :
    (has rs).isPlain = (!rs.isEmpty && relativesPlain rs) := rfl

theorem chainsPlain_cons (c : Chain) (r : List Chain) :
    chainsPlain (c :: r) = (c.isPlain && c.beginsInside && chainsPlain r) := rfl

theorem relativesPlain_cons (direct : Bool) (c : Chain) (r : List Relative) :
    relativesPlain (.mk direct c :: r) = (c.isPlain && c.beginsInside && relativesPlain r) := rfl

theorem conditionsPlain_cons (c : Condition) (r : List Condition) :
    conditionsPlain (c :: r) = (c.isPlain && conditionsPlain r) := rfl

theorem Element.isPlain_mk (tag : Text) (tests : List AttributeTest)
    (conditions : List Condition) : (mk tag tests conditions).isPlain =
      (isPlainTag tag && tests.all AttributeTest.isPlain && conditionsPlain conditions) := rfl

theorem Chain.isPlain_link (b : Chain) (o : Option Combinator) (e : Element) :
    (link b o e).isPlain = (b.isPlain && e.isPlain) := rfl

/-- Whether a chain can begin at the document: behind the one slash that stands for it, a name has
to begin with a letter of ASCII or an underscore. -/
def Chain.beginsAtRoot (c : Chain) : Bool :=
  c.opening != some .child || mayFollowRoot (nameTest c.first.tag)

/-- Whether a pattern is read back as it is meant. -/
def isPlain (p : List Chain) : Bool :=
  !p.isEmpty && p.all fun c => c.isPlain && c.beginsAtRoot

/-- A plain pattern has chains, all of which are plain and can begin at the document. -/
theorem forall_of_isPlain {p : List Chain} (h : isPlain p = true) :
    p ≠ [] ∧ ∀ c ∈ p, c.isPlain = true ∧ c.beginsAtRoot = true := by
  rw [isPlain, Bool.and_eq_true, List.all_eq_true] at h
  refine ⟨?_, fun c hc => Bool.and_eq_true_iff.1 (h.2 c hc)⟩
  rintro rfl
  cases h.1

end Pattern

end TreeQuery
