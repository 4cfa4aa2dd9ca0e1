import TreeQuery.NodeSet.Query
import TreeQuery.Proofs.Expression.Basic
import TreeQuery.XPath.Union

/-!
# The characters of expressions

An expression is not evaluated if it holds a character that has no place in markup. Those of the
expression of a plain pattern come from the values and texts that the pattern asks for; all others
have a place.

Main statement: `all_isCompatible_xpath`.
-/

namespace TreeQuery

theorem isCompatible_of_toNat {c : Char} (hlow : 0x20 ≤ c.toNat) (hE : c.toNat ≠ 0xFFFE)
    (hF : c.toNat ≠ 0xFFFF) : isCompatible c = true := by
  have hE : c ≠ '\uFFFE' := by
    rintro rfl
    exact hE rfl
  have hF : c ≠ '\uFFFF' := by
    rintro rfl
    exact hF rfl
  simp [isCompatible, hlow, hE, hF]

theorem isCompatible_of_isNamePart {c : Char} (h : Text.isNamePart c = true) :
    isCompatible c = true := by
  simp only [Text.isNamePart, Text.isNameStart, Text.inIntervals, Text.nameStartIntervals,
    Text.namePartIntervals, List.any_cons, List.any_nil, Bool.or_eq_true, Bool.and_eq_true,
    decide_eq_true_eq, Bool.false_eq_true, or_false] at h
  exact isCompatible_of_toNat (by omega) (by omega) (by omega)

theorem isCompatible_of_isDigit {c : Char} (h : c.isDigit = true) : isCompatible c = true := by
  have := XPath.Expr.toNat_of_isDigit h
  exact isCompatible_of_toNat (by omega) (by omega) (by omega)

theorem all_isCompatible_of_isName {t : Text} (h : Text.isName t = true) :
    t.all isCompatible = true :=
  List.all_eq_true.2 fun c hc =>
    isCompatible_of_isNamePart (List.all_eq_true.1 (Text.all_isNamePart h) c hc)

def AttributeTest.isWritable (t : AttributeTest) : Bool :=
  t.comparison.all fun c => c.2.all isCompatible

namespace Pattern

mutual

def Condition.isWritable : Condition → Bool
  | .static _ => true
  | .contains t => t.all isCompatible
  | .not cs => chainsWritable cs
  | .has rs => relativesWritable rs

def chainsWritable : List Chain → Bool
  | [] => true
  | c :: r => c.isWritable && chainsWritable r

def relativesWritable : List Relative → Bool
  | [] => true
  | .mk _ c :: r => c.isWritable && relativesWritable r

def conditionsWritable : List Condition → Bool
  | [] => true
  | c :: r => c.isWritable && conditionsWritable r

def Element.isWritable : Element → Bool
  | .mk _ tests conditions => tests.all AttributeTest.isWritable && conditionsWritable conditions

def Chain.isWritable : Chain → Bool
  | .start _ e => e.isWritable
  | .link b _ e => b.isWritable && e.isWritable

end

end Pattern

/-! ## Predicates

The names of a plain pattern are made of characters of names, and those have a place in markup. The
rest of a predicate is fixed, but for the value and for a length in digits. -/

/-- The predicate of a plain test has no other characters than its value brings in. -/
theorem AttributeTest.all_isCompatible_predicate {t : AttributeTest} (hp : t.isPlain = true)
    (hw : t.isWritable = true) : t.predicate.all isCompatible = true := by
  obtain ⟨name, comparison⟩ := t
  rw [AttributeTest.isPlain, Bool.and_eq_true] at hp
  have hname := all_isCompatible_of_isName hp.1
  cases comparison with
  | none =>
    simp only [AttributeTest.predicate, List.all_append, List.all_cons, hname]
    decide
  | some c =>
    obtain ⟨operator, value⟩ := c
    have hvalue : value.all isCompatible = true := hw
    rw [AttributeTest.predicate]
    simp only
    split
    · decide
    · have hdigits : (Nat.toDigits 10 (value.length - 1)).all isCompatible = true :=
        List.all_eq_true.2 fun c hc =>
          isCompatible_of_isDigit (Nat.isDigit_of_mem_toDigits (by decide) (by decide) hc)
      cases operator <;>
      · simp only [literal, List.all_append, List.all_cons, hname, hvalue, hdigits]
        decide

theorem StaticPseudo.all_isCompatible_predicate (s : StaticPseudo) :
    s.predicate.all isCompatible = true := by
  cases s <;> exact Text.of_literal (P := fun t => t.all isCompatible = true) (by decide)

namespace Pattern

theorem chainsWritable_cons (c : Chain) (r : List Chain) :
    chainsWritable (c :: r) = (c.isWritable && chainsWritable r) := rfl

theorem relativesWritable_cons (direct : Bool) (c : Chain) (r : List Relative) :
    relativesWritable (.mk direct c :: r) = (c.isWritable && relativesWritable r) := rfl

theorem conditionsWritable_cons (c : Condition) (r : List Condition) :
    conditionsWritable (c :: r) = (c.isWritable && conditionsWritable r) := rfl

theorem Element.isWritable_mk (tag : Text) (tests : List AttributeTest)
    (conditions : List Condition) : (mk tag tests conditions).isWritable =
      (tests.all AttributeTest.isWritable && conditionsWritable conditions) := rfl

theorem Chain.isWritable_link (b : Chain) (o : Option Combinator) (e : Element) :
    (link b o e).isWritable = (b.isWritable && e.isWritable) := rfl

/-! ## Paths

The lemmas follow the functions that write paths, one for each member of the mutual recursion. As an
expression is taken apart again when it is made to begin at the context node, the property is also
shown to hold of the parts if it holds of the whole. -/

theorem all_isCompatible_intercalate {a : Text} (ha : a.all isCompatible = true) {ts : List Text}
    (h : ∀ t ∈ ts, t.all isCompatible = true) :
    (List.intercalate a ts).all isCompatible = true := by
  cases ts with
  | nil => rfl
  | cons t r =>
    rw [XPath.Expr.intercalate_cons, List.all_append, h t (List.mem_cons_self ..), Bool.true_and,
      List.all_flatMap, List.all_eq_true]
    intro u hu
    rw [List.all_append, ha, h u (List.mem_cons_of_mem _ hu)]
    rfl

/-- What holds of all characters holds of those of each part. -/
theorem all_isCompatible_of_intercalate {a : Text} {ts : List Text}
    (h : (List.intercalate a ts).all isCompatible = true) :
    ∀ t ∈ ts, t.all isCompatible = true := by
  cases ts with
  | nil => exact nofun
  | cons t r =>
    rw [XPath.Expr.intercalate_cons, List.all_append, List.all_flatMap, Bool.and_eq_true,
      List.all_eq_true (l := r)] at h
    refine List.forall_mem_cons.2 ⟨h.1, fun u hu => ?_⟩
    have hboth := h.2 u hu
    rw [List.all_append, Bool.and_eq_true] at hboth
    exact hboth.2

/-- Nothing but points is put into an expression to make it begin at the context node. -/
theorem all_isCompatible_anchorAll {x : Text} (h : x.all isCompatible = true) :
    (XPath.anchorAll x).all isCompatible = true := by
  rw [← XPath.join_branches x] at h
  refine all_isCompatible_intercalate rfl (List.forall_mem_map.2 fun b hb => ?_)
  have hbranch := all_isCompatible_of_intercalate h b hb
  rw [← List.takeWhile_append_dropWhile (p := (· == '(')) (l := b), List.all_append,
    Bool.and_eq_true] at hbranch
  rw [XPath.anchor]
  split
  · next r hr =>
    rw [hr] at hbranch
    rw [List.all_append, hbranch.1, Bool.true_and, List.all_cons, hbranch.2]
    rfl
  · rw [List.all_append, hbranch.1, hbranch.2]
    rfl

theorem all_isCompatible_unrooted {t : Text} (h : t.all isCompatible = true) :
    (unrooted t).all isCompatible = true :=
  List.all_eq_true.2 fun c hc =>
    List.all_eq_true.1 h c ((List.dropWhile_suffix _).subset hc)

theorem all_isCompatible_nameTest {tag : Text} (h : isPlainTag tag = true) :
    (nameTest tag).all isCompatible = true := by
  rw [nameTest]
  split
  · decide
  · next hne =>
    rw [isPlainTag, Bool.or_eq_true, Bool.or_eq_true, beq_iff_eq] at h
    rcases h with (h | rfl) | h
    · exact absurd h hne
    · decide
    · exact all_isCompatible_of_isName h

theorem all_isCompatible_axis (o : Option Combinator) : (axis o).all isCompatible = true := by
  cases o with
  | none => decide
  | some o => cases o <;> decide

mutual

theorem Condition.all_isCompatible_predicate : ∀ c : Condition, c.isPlain = true →
    c.isWritable = true → c.predicate.all isCompatible = true
  | .static s, _, _ => s.all_isCompatible_predicate
  | .contains t, _, hw => by
    have hw : t.all isCompatible = true := hw
    rw [Condition.predicate_contains, List.all_append, List.all_append, hw]
    decide
  | .not cs, hp, hw => by
    rw [Condition.isPlain_not, Bool.and_eq_true] at hp
    have := all_isCompatible_intercalate (a := " or ".toList) (by decide)
      (all_isCompatible_selfPaths cs hp.2 hw)
    rw [Condition.predicate_not, List.all_append, List.all_append, this]
    decide
  | .has rs, hp, hw => by
    rw [Condition.isPlain_has, Bool.and_eq_true] at hp
    have := all_isCompatible_intercalate (a := " or ".toList) (by decide)
      (all_isCompatible_relativePaths rs hp.2 hw)
    rw [Condition.predicate_has, List.all_append, List.all_cons, this]
    decide

theorem all_isCompatible_selfPaths : ∀ cs : List Chain, chainsPlain cs = true →
    chainsWritable cs = true → ∀ t ∈ selfPaths cs, t.all isCompatible = true
  | [], _, _ => nofun
  | c :: r, hp, hw => by
    rw [chainsPlain_cons, Bool.and_eq_true, Bool.and_eq_true] at hp
    rw [chainsWritable_cons, Bool.and_eq_true] at hw
    intro t ht
    rcases List.mem_cons.1 ht with rfl | ht
    · rw [List.all_append, all_isCompatible_unrooted (c.all_isCompatible_xpath hp.1.1 hw.1)]
      decide
    · exact all_isCompatible_selfPaths r hp.2 hw.2 t ht

theorem all_isCompatible_relativePaths : ∀ rs : List Relative, relativesPlain rs = true →
    relativesWritable rs = true → ∀ t ∈ relativePaths rs, t.all isCompatible = true
  | [], _, _ => nofun
  | .mk direct c :: r, hp, hw => by
    rw [relativesPlain_cons, Bool.and_eq_true, Bool.and_eq_true] at hp
    rw [relativesWritable_cons, Bool.and_eq_true] at hw
    intro t ht
    rcases List.mem_cons.1 ht with rfl | ht
    · rw [List.all_append, all_isCompatible_unrooted (c.all_isCompatible_xpath hp.1.1 hw.1)]
      cases direct <;> decide
    · exact all_isCompatible_relativePaths r hp.2 hw.2 t ht

theorem all_isCompatible_withConditions : ∀ (cs : List Condition) {path : Text},
    conditionsPlain cs = true → conditionsWritable cs = true → path.all isCompatible = true →
    (withConditions path cs).all isCompatible = true
  | [], _, _, _, h => h
  | c :: r, path, hp, hw, h => by
    rw [conditionsPlain_cons, Bool.and_eq_true] at hp
    rw [conditionsWritable_cons, Bool.and_eq_true] at hw
    have hinner : (if c.isResultScoped then '(' :: path ++ [')'] else path).all isCompatible =
        true := by
      split
      · rw [List.all_append, List.all_cons, h]
        decide
      · exact h
    refine all_isCompatible_withConditions r hp.2 hw.2 ?_
    rw [List.all_append, hinner, c.all_isCompatible_predicate hp.1 hw.1]
    rfl

theorem Element.all_isCompatible_appendTo : ∀ (e : Element) {path nearest : Text},
    e.isPlain = true → e.isWritable = true → path.all isCompatible = true →
    nearest.all isCompatible = true → (e.appendTo path nearest).all isCompatible = true
  | .mk tag tests conditions, path, nearest, hp, hw, h, hn => by
    rw [Element.isPlain_mk, Bool.and_eq_true, Bool.and_eq_true] at hp
    rw [Element.isWritable_mk, Bool.and_eq_true] at hw
    have htests : (tests.flatMap AttributeTest.predicate).all isCompatible = true := by
      rw [List.all_flatMap, List.all_eq_true]
      exact fun t ht => AttributeTest.all_isCompatible_predicate
        (List.all_eq_true.1 hp.1.2 t ht) (List.all_eq_true.1 hw.1 t ht)
    refine all_isCompatible_withConditions conditions hp.2 hw.2 ?_
    rw [List.all_append, List.all_append, List.all_append, h, hn, htests,
      all_isCompatible_nameTest hp.1.1]
    rfl

/-- Neither do paths bring in other characters. -/
theorem Chain.all_isCompatible_xpath : ∀ c : Chain, c.isPlain = true → c.isWritable = true →
    c.xpath.all isCompatible = true
  | .start o e, hp, hw => e.all_isCompatible_appendTo hp hw (all_isCompatible_axis o) rfl
  | .link b o e, hp, hw => by
    rw [Chain.isPlain_link, Bool.and_eq_true] at hp
    rw [Chain.isWritable_link, Bool.and_eq_true] at hw
    have hb := b.all_isCompatible_xpath hp.1 hw.1
    have hnext : (b.xpath ++ axis o).all isCompatible = true := by
      rw [List.all_append, hb, all_isCompatible_axis]
      rfl
    have hxpath : (Chain.link b o e).xpath = if o = some .adjacent then
        if b.last.isResultScoped then
          e.appendTo (b.xpath ++ "/following-sibling::*[1]/self::".toList) []
        else
          e.appendTo (b.xpath ++ axis o)
            ("[preceding-sibling::*[1][self::".toList ++ b.lastTest ++ "]]".toList)
      else e.appendTo (b.xpath ++ axis o) [] := rfl
    rw [hxpath]
    split
    · split
      · refine e.all_isCompatible_appendTo hp.2 hw.2 ?_ rfl
        rw [List.all_append, hb]
        decide
      · refine e.all_isCompatible_appendTo hp.2 hw.2 hnext ?_
        rw [List.all_append, List.all_append, b.all_isCompatible_lastTest hp.1 hw.1]
        decide
    · exact e.all_isCompatible_appendTo hp.2 hw.2 hnext rfl

theorem Chain.all_isCompatible_lastTest : ∀ c : Chain, c.isPlain = true → c.isWritable = true →
    c.lastTest.all isCompatible = true
  | .start _ e, hp, hw =>
    all_isCompatible_unrooted
      (e.all_isCompatible_appendTo hp hw (all_isCompatible_axis none) rfl)
  | .link b o e, hp, hw => by
    rw [Chain.isPlain_link, Bool.and_eq_true] at hp
    rw [Chain.isWritable_link, Bool.and_eq_true] at hw
    exact all_isCompatible_unrooted
      (e.all_isCompatible_appendTo hp.2 hw.2 (all_isCompatible_axis none) rfl)

end

/-- All characters of the expression of a plain pattern have a place in markup if those of the
values and texts have. -/
theorem all_isCompatible_xpath {p : Pattern} (hp : isPlain p = true)
    (hw : p.all Chain.isWritable = true) : (xpath p).all isCompatible = true := by
  refine all_isCompatible_intercalate rfl fun t ht => ?_
  obtain ⟨c, hc, rfl⟩ := List.mem_map.1 ht
  have hplain := ((forall_of_isPlain hp).2 c hc).1
  exact c.all_isCompatible_xpath hplain (List.all_eq_true.1 hw c hc)

end Pattern

end TreeQuery
