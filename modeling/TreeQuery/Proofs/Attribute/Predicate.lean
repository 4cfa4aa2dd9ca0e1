import TreeQuery.Proofs.Attribute.Grammar
import TreeQuery.Proofs.Expression.Predicates
import TreeQuery.Proofs.Matching.Attributes
import TreeQuery.Proofs.Matching.Finding

/-!
# What the predicates of attribute tests say

The predicate of a test is put together from pieces that depend on the name, the operator and the
length of the value. The value itself stands between apostrophes in it, and as it has no quotes, it
cannot end what stands between them. At an element the predicate holds if the element passes the
test.

Main statement: `AttributeTest.attributePredicate_holds`.
-/

namespace TreeQuery

open XPath XPath.Expr

namespace AttributeTest

def value (t : AttributeTest) : Text := t.comparison.elim [] (·.2)

/-! ## The pieces of a predicate

A template is written down here a second time, as a list of pieces that tell literals from what is
between them. The pieces depend on the value by its length alone: which of them there are, and what
they say but for the inside of some literals, cannot be changed by choosing the characters of the
value. That the pieces write out the predicate is proved operator by operator. -/

/-- A piece of a predicate in which a value is left out. -/
inductive Piece where
  /-- Signs and names outside of literals. -/
  | code (s : Text)
  /-- A literal without the value. -/
  | fixed (s : Text)
  /-- A literal with the value in it. -/
  | around (before after : Text)

namespace Piece

def write (v : Text) : Piece → Text
  | code s => s
  | fixed s => literal s
  | around before after => literal (before ++ v ++ after)

def isClosed : Piece → Bool
  | code s | fixed s => s.all (!isQuote ·)
  | around before after => (before ++ after).all (!isQuote ·)

end Piece

/-- The pieces of the predicate that compares an attribute with a value of a certain length. -/
def pieces (name : Text) (operator : Option AttributeOperator) (length : Nat) : List Piece :=
  let subject := '@' :: name
  match operator with
  | none => [.code ("[".toList ++ subject ++ "]".toList)]
  | some operator =>
    if operator.failsOnEmpty && length == 0 then [.code "[false()]".toList]
    else match operator with
    | .equals => [.code ("[".toList ++ subject ++ "=".toList), .around [] [], .code "]".toList]
    | .differs => [.code ("[".toList ++ subject ++ "!=".toList), .around [] [], .code "]".toList]
    | .word =>
      [.code "[contains(concat(".toList, .fixed [' '],
        .code (", normalize-space(".toList ++ subject ++ "), ".toList), .fixed [' '],
        .code "), ".toList, .around [' '] [' '], .code ")]".toList]
    | .part =>
      [.code ("[contains(".toList ++ subject ++ ", ".toList), .around [] [], .code ")]".toList]
    | .beginning =>
      [.code ("[starts-with(".toList ++ subject ++ ", ".toList), .around [] [], .code ")]".toList]
    | .ending =>
      [.code ("[".toList ++ subject ++ " and substring(".toList ++ subject ++
          ", string-length(".toList ++ subject ++ ")-".toList ++ Nat.toDigits 10 (length - 1) ++
          ") = ".toList),
        .around [] [], .code "]".toList]
    | .dashed =>
      [.code ("[".toList ++ subject ++ "=".toList), .around [] [],
        .code (" or starts-with(".toList ++ subject ++ ", ".toList), .around [] ['-'],
        .code ")]".toList]

/-- A predicate is its pieces with the value in them. -/
theorem predicate_eq (t : AttributeTest) : t.predicate =
    (pieces t.name (t.comparison.map (·.1)) t.value.length).flatMap (Piece.write t.value) := by
  obtain ⟨name, comparison⟩ := t
  cases comparison with
  | none => simp [predicate, pieces, Piece.write]
  | some c =>
    obtain ⟨operator, v⟩ := c
    have hempty : v.isEmpty = (v.length == 0) := by cases v <;> rfl
    -- An operator may refuse empty values before its own template is used.
    by_cases hfails : (operator.failsOnEmpty && v.length == 0) = true
    · simp [predicate, pieces, Piece.write, value, hempty, hfails]
    · cases operator <;>
        simp [predicate, pieces, Piece.write, value, hempty, hfails, literal]

/-- A character with a property that no quote has is no quote. -/
theorem isQuote_eq_false {p : Char → Bool} (hp : p '\'' = false) (hp' : p '"' = false) {c : Char}
    (h : p c = true) : isQuote c = false := by
  by_contra hquote
  rw [Bool.not_eq_false, isQuote, Bool.or_eq_true, decide_eq_true_eq, decide_eq_true_eq] at hquote
  rcases hquote with rfl | rfl
  · cases hp.symm.trans h
  · cases hp'.symm.trans h

/-- No piece has quotes of its own if the name has none. -/
theorem isClosed_of_mem_pieces {name : Text} (hname : ∀ c ∈ name, isQuote c = false)
    (operator : Option AttributeOperator) (length : Nat) :
    ∀ x ∈ pieces name operator length, x.isClosed = true := by
  have hsubject : ∀ c ∈ name, c ≠ '\'' ∧ c ≠ '"' := by simpa [isQuote] using hname
  -- The one piece that depends on the length has it in digits.
  have hdigits : ∀ c ∈ Nat.toDigits 10 (length - 1), c ≠ '\'' ∧ c ≠ '"' := by
    intro c hc
    have hdigit := Nat.isDigit_of_mem_toDigits (by decide) (by decide) hc
    simpa [isQuote] using isQuote_eq_false (p := Char.isDigit) (by decide) (by decide) hdigit
  rw [← List.all_eq_true, pieces.eq_def]
  cases operator with
  | none => simpa [Piece.isClosed, isQuote] using hsubject
  | some operator =>
    by_cases hfails : (operator.failsOnEmpty && length == 0) = true
    · simp only [hfails, if_true]
      decide
    · cases operator with
      | ending => simpa [Piece.isClosed, hfails, isQuote] using And.intro hsubject hdigits
      | _ => simpa [Piece.isClosed, hfails, isQuote] using hsubject

/-- The name and the value of a test that has been read are without quotes. -/
theorem noQuote_of_ofFragment? {e : Text} {t : AttributeTest} (h : ofFragment? e = some t) :
    (∀ c ∈ t.name, isQuote c = false) ∧ ∀ c ∈ t.value, isQuote c = false := by
  obtain ⟨c, r, hc, hr, hname, hvalue⟩ := exists_of_ofFragment? h
  constructor
  · have hparts : ∀ d ∈ c :: r, isNamePart d = true :=
      List.forall_mem_cons.2 ⟨isNamePart_of_isNameStart hc, hr⟩
    have hlower := List.all_eq_true.1 (all_isNamePart_lowerFrom hparts [])
    intro d hd
    rw [hname] at hd
    exact isQuote_eq_false (p := Text.isNamePart) (by decide) (by decide) (hlower d hd)
  · intro d hd
    rw [value] at hd
    cases ho : t.comparison with
    | none =>
      rw [ho] at hd
      cases hd
    | some x =>
      rw [ho] at hd
      exact hvalue x.1 x.2 ho d hd

/-! ## What a predicate asks for

The value of a predicate at an element is found in three steps: the name and the value of a test
that has been read are such that its predicate is read as an expression, the expression has a truth
value at every element, and the predicate holds if that value is true. The first step fails for a
name that begins with a digit, and the second for a word with white space in it, which is why both
are asked about. -/

theorem isName_of_ofFragment? {e : Text} {t : AttributeTest} (h : ofFragment? e = some t)
    (hdigit : ∀ c ∈ e.head?, c.isDigit = false) : Text.isName t.name = true := by
  obtain ⟨r, rfl, rfl⟩ := exists_reading_of_ofFragment? h
  obtain ⟨c, n, hn, hc, hparts⟩ := r.isName
  have hfirst : c ∈ r.text.head? := by
    rw [Reading.text, hn]
    rfl
  show Text.isName (Text.lower r.name) = true
  rw [hn]
  exact isName_lower hc (hdigit c hfirst) hparts

/-- The predicate of a fragment holds of the elements that pass its test, and nothing but the inside
of literals depends on the characters of the value. -/
theorem attributePredicate_holds {e p : Text} (h : attributePredicate e = .ok p) :
    ∃ t, ofFragment? e = some t ∧
      (∀ c ∈ t.value, isQuote c = false) ∧
      (∀ x ∈ pieces t.name (t.comparison.map (·.1)) t.value.length, x.isClosed = true) ∧
      p = (pieces t.name (t.comparison.map (·.1)) t.value.length).flatMap (Piece.write t.value) ∧
      ((∀ c ∈ e.head?, c.isDigit = false) →
        (∀ w, t.comparison = some (.word, w) → ∀ c ∈ w, Text.isSpace c = false) →
        ∃ u x, p = '[' :: (u ++ [']']) ∧ Expr.ofText? u = some x ∧
          ∀ d : Document, d.IsTree → ∀ q, d.isElement q = true → ∀ position size,
            ∃ v, eval d ⟨.tree q, position, size⟩ x = some v ∧
              v.holdsAt position = t.holds d q) := by
  obtain ⟨t, ht, rfl⟩ := attributePredicate_eq_ok_iff.1 h
  obtain ⟨hname, hvalue⟩ := noQuote_of_ofFragment? ht
  refine ⟨t, ht, hvalue, isClosed_of_mem_pieces hname _ _, t.predicate_eq, ?_⟩
  intro hdigit hspace
  have hquote : (t.comparison.all fun c => !c.2.contains '\'') = true := by
    cases ho : t.comparison with
    | none => rfl
    | some c =>
      rw [value, ho] at hvalue
      have hmem : '\'' ∉ c.2 := fun hmem => absurd (hvalue _ hmem) (by decide)
      simpa using hmem
  have hplain : t.isPlain = true := by
    rw [isPlain, isName_of_ofFragment? ht hdigit, hquote]
    rfl
  obtain ⟨u, hu, hreads⟩ := readsPredicate hplain
  refine ⟨u, t.expr, hu, hreads.ofText?, ?_⟩
  intro d hd q hq position size
  obtain ⟨v, hv, hnumber, hbool⟩ := truth hd hspace q hq position size
  -- The value is no number, so that it is not compared with the position.
  exact ⟨v, hv, (Value.holdsAt_eq hnumber position).trans hbool⟩

/-- The first item of the list has the class `a`, the second has none. -/
theorem attributePredicate_holds_class :
    attributePredicate "CLASS|='a'".toList =
        .ok "[@class='a' or starts-with(@class, 'a-')]".toList ∧
      ∃ x, Expr.ofText? "@class='a' or starts-with(@class, 'a-')".toList = some x ∧
        ∀ position size,
          (∃ v, eval Written.list ⟨.tree [0, 0], position, size⟩ x = some v ∧
            v.holdsAt position = true) ∧
          ∃ v, eval Written.list ⟨.tree [0, 1], position, size⟩ x = some v ∧
            v.holdsAt position = false := by
  have hok : attributePredicate "CLASS|='a'".toList =
      .ok "[@class='a' or starts-with(@class, 'a-')]".toList := rfl
  have htree : Written.list.IsTree := Document.isTree_of_isProper (by decide)
  obtain ⟨t, ht, -, -, -, hmeans⟩ := attributePredicate_holds hok
  obtain rfl : AttributeTest.mk "class".toList (some (.dashed, ['a'])) = t := Option.some.inj ht
  have hletter : ∀ c ∈ "CLASS|='a'".toList.head?, c.isDigit = false := by
    rintro c ⟨⟩
    rfl
  obtain ⟨u, x, hu, hx, heval⟩ := hmeans hletter nofun
  obtain rfl : "@class='a' or starts-with(@class, 'a-')".toList = u :=
    List.append_cancel_right (List.cons.inj hu).2
  refine ⟨hok, x, hx, fun position size => ⟨?_, ?_⟩⟩
  · exact heval Written.list htree [0, 0] (by decide) position size
  · exact heval Written.list htree [0, 1] (by decide) position size

end AttributeTest

end TreeQuery
