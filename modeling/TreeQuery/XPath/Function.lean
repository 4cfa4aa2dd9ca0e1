import TreeQuery.XPath.Value

/-!
# Functions

The functions of expressions. A function that is not known, or that is called with arguments of the
wrong number or kind, has no value.

Main statement: `substring_from`, the end of a text from a whole position on.
-/

namespace TreeQuery.XPath

/-- The node that an expression is evaluated for, its position among the nodes that are being
filtered, and their number. -/
structure Focus where
  node : Node
  position : Nat
  size : Nat
  deriving DecidableEq, Repr

namespace Function

/-! ### Texts

Positions in a text are numbers like any others, which need not be whole: a character belongs to a
part if its position, compared as a number, is not below the beginning and below the end. Positions
that are undefined compare with nothing, so that the part is empty then. -/

/-- The words of a text, which white space separates. -/
def words (s : Text) : List Text := (s.splitOnP Text.isSpace).filter (!·.isEmpty)

def normalizeSpace (s : Text) : Text := List.intercalate [' '] (words s)

/-- The characters at the positions, counted from one, that are not below `first` and, where there
is a bound, below it. -/
def between (first : Number) (bound : Option Number) (s : Text) : Text :=
  (s.zipIdx 1).filterMap fun (c, i) =>
    let position := Number.whole (i : Nat)
    if first.ble position && bound.all (position.blt ·) then some c else none

/-- The part of a text from a position on, of a given length if there is one. -/
def substring (s : Text) (start : Number) (length : Option Number) : Text :=
  between start.round (length.map fun n => Number.add start.round n.round) s

/-- A text with characters replaced by those at the same place of another text, and left out where
that has none. -/
def substitute (s old new : Text) : Text :=
  s.filterMap fun c =>
    match old.idxOf? c with
    | none => some c
    | some i => new[i]?

/-- Whether a language is another or a variant of it, case set aside. -/
def isLanguage (wanted actual : Text) : Bool :=
  match Text.after? (Text.lowerAscii wanted) (Text.lowerAscii actual) with
  | some [] => true
  | some (c :: _) => c = '-'
  | none => false

/-! ### Nodes

In HTML any attribute `id` identifies its element, and `name` does so for anchors. In XML only
`xml:id` does, as nothing is known about the types of other attributes. -/

/-- The attribute of an element or of the nearest element around it that has it. -/
def inherited? (d : Document) (name : Name → Bool) (p : Path) : Option Attribute :=
  (p :: Path.ancestors p).findSome? fun q =>
    (d.label? q).bind fun l => l.attributes.find? fun a => name a.name

/-- Whether an attribute of an element identifies it. -/
def isIdentifier (d : Document) (element : Name) (a : Name) : Bool :=
  if d.isHtml then
    a.uri.isEmpty && (a.localPart = "id".toList
      || (a.localPart = "name".toList && element.localPart = "a".toList))
  else a.uri = Name.xmlNamespace && a.localPart = "id".toList

/-- The first element with a given identifier. -/
def identified? (d : Document) (value : Text) : Option Path :=
  d.elements.find? fun p =>
    match d.label? p with
    | some (.element n _ as) => as.any fun a => isIdentifier d n a.name && a.value = value
    | _ => false

/-- The elements whose identifiers are among the words of some texts. -/
def identified (d : Document) (texts : List Text) : List Node :=
  Node.ordered d ((texts.flatMap words).filterMap fun w => (identified? d w).map Node.tree)

/-! ### Calls

The functions that take one argument or the context node, and those of a given number of texts or
numbers, differ only in what they compute. The number of the arguments is checked when the function
is called, and not when the expression is read. -/

/-- A function of the node of the focus, or of the first node of the one argument. -/
def ofNode (f : Node → Text) (arguments : List Value) (focus : Focus) :
    Option Value :=
  match arguments with
  | [] => some (.text (f focus.node))
  | [.nodes []] => some (.text [])
  | [.nodes (n :: _)] => some (.text (f n))
  | _ => none

/-- A function of the text of the focus or of the one argument. -/
def ofText (d : Document) (f : Text → Value) (arguments : List Value) (focus : Focus) :
    Option Value :=
  match arguments with
  | [] => some (f (focus.node.stringValue d))
  | [v] => some (f (v.toText d))
  | _ => none

/-- A function of two texts. -/
def ofTexts (d : Document) (f : Text → Text → Value) : List Value → Option Value
  | [a, b] => some (f (a.toText d) (b.toText d))
  | _ => none

/-- A function of the number of the one argument. -/
def ofNumber (d : Document) (f : Number → Number) : List Value → Option Value
  | [v] => some (.number (f (v.toNumber d)))
  | _ => none

/-- A function of no argument. -/
def constant (v : Value) : List Value → Option Value
  | [] => some v
  | _ => none

def call (d : Document) (name : Text) (arguments : List Value) (focus : Focus) : Option Value :=
  if name = "last".toList then constant (.number (.whole focus.size)) arguments
  else if name = "position".toList then constant (.number (.whole focus.position)) arguments
  else if name = "count".toList then
    match arguments with
    | [.nodes ns] => some (.number (.whole ns.length))
    | _ => none
  else if name = "id".toList then
    match arguments with
    | [.nodes ns] => some (.nodes (identified d (ns.map (Node.stringValue d))))
    | [v] => some (.nodes (identified d [v.toText d]))
    | _ => none
  else if name = "local-name".toList then
    ofNode (fun n => ((n.name? d).map (·.localPart)).getD
      (match n.label? d with | some (.instruction t _) => t | _ => [])) arguments focus
  else if name = "namespace-uri".toList then
    ofNode (fun n => ((n.name? d).map (·.uri)).getD []) arguments focus
  else if name = "name".toList then
    ofNode (fun n => ((n.name? d).map Name.written).getD
      (match n.label? d with | some (.instruction t _) => t | _ => [])) arguments focus
  else if name = "string".toList then ofText d .text arguments focus
  else if name = "concat".toList then
    if arguments.length < 2 then none
    else some (.text (arguments.flatMap (Value.toText d)))
  else if name = "starts-with".toList then
    ofTexts d (fun a b => .boolean (Text.after? b a).isSome) arguments
  else if name = "contains".toList then
    ofTexts d (fun a b => .boolean (Text.holds a b)) arguments
  else if name = "substring-before".toList then
    ofTexts d (fun a b => .text (((Text.splitAround? b a).map (·.1)).getD [])) arguments
  else if name = "substring-after".toList then
    ofTexts d (fun a b => .text (((Text.splitAround? b a).map (·.2)).getD [])) arguments
  else if name = "substring".toList then
    match arguments with
    | [s, start] => some (.text (substring (s.toText d) (start.toNumber d) none))
    | [s, start, length] =>
      some (.text (substring (s.toText d) (start.toNumber d) (some (length.toNumber d))))
    | _ => none
  else if name = "string-length".toList then
    ofText d (fun t => .number (.whole t.length)) arguments focus
  else if name = "normalize-space".toList then
    ofText d (fun t => .text (normalizeSpace t)) arguments focus
  else if name = "translate".toList then
    match arguments with
    | [s, old, new] => some (.text (substitute (s.toText d) (old.toText d) (new.toText d)))
    | _ => none
  else if name = "boolean".toList then
    match arguments with
    | [v] => some (.boolean v.toBool)
    | _ => none
  else if name = "not".toList then
    match arguments with
    | [v] => some (.boolean (!v.toBool))
    | _ => none
  else if name = "true".toList then constant (.boolean true) arguments
  else if name = "false".toList then constant (.boolean false) arguments
  else if name = "lang".toList then
    match arguments with
    | [v] =>
      some (.boolean (match inherited? d
          (fun n => n.uri = Name.xmlNamespace && n.localPart = "lang".toList)
          focus.node.path with
        | some a => isLanguage (v.toText d) a.value
        | none => false))
    | _ => none
  else if name = "number".toList then
    match arguments with
    | [] => some (.number (Number.ofText (focus.node.stringValue d)))
    | [v] => some (.number (v.toNumber d))
    | _ => none
  else if name = "sum".toList then
    match arguments with
    | [.nodes ns] =>
      some (.number ((ns.map fun n => Number.ofText (n.stringValue d)).foldl Number.add (.whole 0)))
    | _ => none
  else if name = "floor".toList then ofNumber d Number.floor arguments
  else if name = "ceiling".toList then ofNumber d Number.ceiling arguments
  else if name = "round".toList then ofNumber d Number.round arguments
  else none

/-! ### The end of a text

For a whole position the comparisons of numbers are those of integers, and the part of a text from
there on is what is left when the characters in front are dropped. The test for the ending of an
attribute cuts its text off in this way. -/

/-- The statement for any number of the first character, which the induction needs. -/
theorem between_whole (n : Int) (s : Text) (i : Nat) :
    (s.zipIdx i).filterMap (fun (c, j) =>
      if (Number.whole n).ble (.whole (j : Nat)) then some c else none)
      = s.drop (n - i).toNat := by
  induction s generalizing i with
  | nil => simp
  | cons c r ih =>
    have hb : (Number.whole n).ble (.whole (i : Nat)) = decide (n ≤ i) := by
      simp only [Number.ble, Number.blt, Number.beq]
      rw [Bool.eq_iff_iff]
      simp only [Bool.or_eq_true, decide_eq_true_eq, beq_iff_eq]
      omega
    rw [List.zipIdx_cons, List.filterMap_cons, ih]
    -- From the first character at the position on, all are kept; in front of it none is.
    by_cases h : n ≤ i
    · have h0 : (n - i).toNat = 0 := by omega
      have h1 : (n - ((i : Int) + 1)).toNat = 0 := by omega
      simp [hb, h, h0, h1]
    · have h0 : (n - i).toNat = (n - ((i : Int) + 1)).toNat + 1 := by omega
      simp [hb, h, h0]

/-- From a whole position on, a text loses the characters in front of that position. -/
theorem substring_from (s : Text) (n : Int) :
    substring s (.whole n) none = s.drop (n - 1).toNat := by
  have := between_whole n s 1
  simpa [substring, between, Number.round] using this

end Function

end TreeQuery.XPath
