import TreeQuery.XPath.Function
import TreeQuery.XPath.Reader

/-!
# Evaluation

The value of an expression for a node. A step goes from each node of a set along its axis, keeps
what passes the test and then the predicates one after another, counting along the axis; what is
found from all the nodes is put into document order. The predicates of a set count in document
order.

An expression without a value is rejected as a whole, unless the part without a value is not needed:
the predicates of a step that finds nothing, and the second operand of `and` and `or` where the
first decides.

Main statement: `keep_eq_filter`, a predicate with a truth value for every node is a filter.
-/

namespace TreeQuery.XPath

/-! ### Predicates and steps

A list of nodes is gone through in its order, and the first node that makes a predicate or a step
fail makes the whole fail. Both functions take what they apply as an argument, so that they stand
outside the mutual recursion of evaluation. -/

/-- Whether a predicate holds: a number has to be the position, anything else has to be true. -/
def Value.holdsAt (position : Nat) : Value → Bool
  | .number n => n.beq (.whole position)
  | v => v.toBool

/-- The nodes, numbered from `position`, for which a predicate holds. -/
def keep (predicate : Focus → Option Value) (size position : Nat) :
    List Node → Option (List Node)
  | [] => some []
  | n :: r =>
    match predicate ⟨n, position, size⟩ with
    | none => none
    | some v =>
      match keep predicate size (position + 1) r with
      | none => none
      | some kept => some (if v.holdsAt position then n :: kept else kept)

/-- The values of all steps together; none if one has none. -/
def gather (f : Node → Option (List Node)) : List Node → Option (List Node)
  | [] => some []
  | n :: r =>
    match f n with
    | none => none
    | some found =>
      match gather f r with
      | none => none
      | some rest => some (found ++ rest)

/-! ### Operators -/

/-- The value of an operator between two values; `and` and `or` have been decided before. -/
def Operator.apply (d : Document) (o : Operator) (a b : Value) : Option Value :=
  match o with
  | .or => some (.boolean (a.toBool || b.toBool))
  | .and => some (.boolean (a.toBool && b.toBool))
  | .equal => some (.boolean (a.equal d b))
  | .unequal => some (.boolean (a.unequal d b))
  | .less => some (.boolean (a.less d b))
  | .lessOrEqual => some (.boolean (a.lessOrEqual d b))
  | .greater => some (.boolean (b.less d a))
  | .greaterOrEqual => some (.boolean (b.lessOrEqual d a))
  | .add => some (.number (Number.add (a.toNumber d) (b.toNumber d)))
  | .subtract => some (.number (Number.sub (a.toNumber d) (b.toNumber d)))
  | .multiply => some (.number (Number.mul (a.toNumber d) (b.toNumber d)))
  | .divide => some (.number (Number.div (a.toNumber d) (b.toNumber d)))
  | .modulo => some (.number (Number.mod (a.toNumber d) (b.toNumber d)))
  | .union =>
    match a, b with
    | .nodes ns, .nodes ms => some (.nodes (Node.ordered d (ns ++ ms)))
    | _, _ => none

/-- The truth value that the first operand alone decides. -/
def Operator.decided : Operator → Value → Option Bool
  | .or, a => if a.toBool then some true else none
  | .and, a => if a.toBool then none else some false
  | _, _ => none

namespace Expr

mutual

def eval (d : Document) (focus : Focus) : Expr → Option Value
  | .number n => some (.number n)
  | .literal t => some (.text t)
  | .variable _ => none
  | .call function arguments =>
    match evalAll d focus arguments with
    | none => none
    | some vs =>
      if function.qualifier.isEmpty then Function.call d function.localPart vs focus else none
  | .binary o a b =>
    match eval d focus a with
    | none => none
    | some v =>
      match o.decided v with
      | some t => some (.boolean t)
      | none =>
        match eval d focus b with
        | none => none
        | some w => o.apply d v w
  | .negated e => (eval d focus e).map fun v => .number (Number.neg (v.toNumber d))
  | .converted e => (eval d focus e).map fun v => .number (v.toNumber d)
  | .root => some (.nodes [.tree []])
  | .here => some (.nodes [focus.node])
  | .step start axis test predicates =>
    match (eval d focus start).bind Value.nodes? with
    | none => none
    | some ns =>
      -- A name with a qualifier that has no namespace is refused even where no node is.
      if test.isBound then
        let found := gather (fun n =>
          keepAll d predicates ((n.along d axis).filter (test.passes d axis))) ns
        found.map fun found => .nodes (Node.ordered d found)
      else none
  | .filter set predicate =>
    match (eval d focus set).bind Value.nodes? with
    | none => none
    | some ns => (keep (fun f => eval d f predicate) ns.length 1 ns).map .nodes

def evalAll (d : Document) (focus : Focus) : List Expr → Option (List Value)
  | [] => some []
  | e :: es =>
    match eval d focus e with
    | none => none
    | some v => (evalAll d focus es).map (v :: ·)

/-- The nodes that pass the predicates one after another. -/
def keepAll (d : Document) : List Expr → List Node → Option (List Node)
  | [], ns => some ns
  | p :: ps, ns =>
    match keep (fun f => eval d f p) ns.length 1 ns with
    | none => none
    | some kept => keepAll d ps kept

end

@[simp] theorem eval_root (d : Document) (f : Focus) :
    eval d f .root = some (.nodes [.tree []]) := by rw [eval]

@[simp] theorem eval_here (d : Document) (f : Focus) :
    eval d f .here = some (.nodes [f.node]) := by rw [eval]

@[simp] theorem keepAll_nil (d : Document) (ns : List Node) : keepAll d [] ns = some ns := by
  rw [keepAll]

/-- The nodes that an expression selects for a node; none if it has another value or no value. -/
def select? (d : Document) (node : Node) (e : Expr) : Option (List Node) :=
  (eval d ⟨node, 0, 0⟩ e).bind Value.nodes?

end Expr

/-! ### Predicates as filters -/

/-- A predicate that comes to a truth value for every node keeps the nodes for which it is true. -/
theorem keep_eq_filter {predicate : Focus → Option Value} {size : Nat} {test : Node → Bool}
    (h : ∀ n position, predicate ⟨n, position, size⟩ = some (.boolean (test n))) (ns : List Node)
    (position : Nat) : keep predicate size position ns = some (ns.filter test) := by
  induction ns generalizing position with
  | nil => rfl
  | cons n r ih =>
    rw [keep, h, ih]
    cases ht : test n <;> simp [ht, Value.holdsAt, Value.toBool]

end TreeQuery.XPath
