import TreeQuery.XPath.Node

/-!
# Values

What an expression can come to, how one kind of value is turned into another, and how values
compare. A set of nodes compares like each of its nodes: it is enough that one of them does.
-/

namespace TreeQuery.XPath

/-- What an expression comes to. -/
inductive Value where
  /-- A set of nodes, in document order. -/
  | nodes (ns : List Node)
  | boolean (b : Bool)
  | number (n : Number)
  | text (t : Text)
  deriving DecidableEq, Repr

namespace Value

/-! ### Turning values into others

A set of nodes has a truth value by whether it is empty, and a text by its first node alone, in
document order; its number is that of this text. -/

def nodes? : Value → Option (List Node)
  | nodes ns => some ns
  | _ => none

def toBool : Value → Bool
  | nodes ns => !ns.isEmpty
  | boolean b => b
  | number n => n.isTrue
  | text t => !t.isEmpty

/-- The text of a value; that of a set is the text of its first node. -/
def toText (d : Document) : Value → Text
  | nodes ns =>
    match ns with
    | [] => []
    | n :: _ => n.stringValue d
  | boolean b => if b then "true".toList else "false".toList
  | number n => n.toText
  | text t => t

def toNumber (d : Document) : Value → Number
  | nodes ns => Number.ofText (toText d (nodes ns))
  | boolean b => .whole (if b then 1 else 0)
  | number n => n
  | text t => Number.ofText t

/-! ### Comparing values

How two values that are no sets compare depends on the richer kind: if one is a truth value both are
compared as truth values, else if one is a number as numbers, else as texts. The order is always one
of numbers. A relation of sets is lifted from their nodes in one place for all the operators. -/

/-- Whether two values that are no sets are equal. -/
def atomsEqual (d : Document) (a b : Value) : Bool :=
  match a, b with
  | boolean _, _ | _, boolean _ => a.toBool == b.toBool
  | number _, _ | _, number _ => (a.toNumber d).beq (b.toNumber d)
  | _, _ => a.toText d == b.toText d

/-- Whether a relation holds between some node of a set and another value. A truth value is compared
with the truth of the set. -/
def someNode (d : Document) (relation : Value → Value → Bool) (ns : List Node) (b : Value) : Bool :=
  match b with
  | nodes ms => ns.any fun n => ms.any fun m =>
      relation (text (n.stringValue d)) (text (m.stringValue d))
  | boolean _ => relation (boolean (!ns.isEmpty)) b
  | _ => ns.any fun n => relation (text (n.stringValue d)) b

/-- Whether a relation between values that are no sets holds between two values. -/
def related (d : Document) (relation : Value → Value → Bool) (a b : Value) : Bool :=
  match a, b with
  | nodes ns, _ => someNode d relation ns b
  | _, nodes ns => someNode d (fun x y => relation y x) ns a
  | _, _ => relation a b

def equal (d : Document) (a b : Value) : Bool := related d (atomsEqual d) a b

/-- Whether two values are unequal, which sets can be while they are equal. -/
def unequal (d : Document) (a b : Value) : Bool := related d (fun x y => !atomsEqual d x y) a b

/-- Whether the number of a value is less than that of another. -/
def less (d : Document) (a b : Value) : Bool :=
  related d (fun x y => (x.toNumber d).blt (y.toNumber d)) a b

/-- Whether the number of a value is less than that of another or equal to it. -/
def lessOrEqual (d : Document) (a b : Value) : Bool :=
  related d (fun x y => (x.toNumber d).ble (y.toNumber d)) a b

end Value

end TreeQuery.XPath
