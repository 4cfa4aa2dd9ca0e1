import TreeQuery.Proofs.Compilation.Levels
import TreeQuery.Proofs.Written.Reading

/-!
# Compiling written selectors

What a written selector means can be said along its tree, with no regard to texts, tokens and
escapes: the expression of its pattern. That is what its text is compiled to, however it is nested,
as long as the limit allows for it.

Main statement: `compile_print`.
-/

namespace TreeQuery

namespace Written

open Compilation

/-- The text of a written selector is compiled to the expression of its pattern. -/
theorem compile_print (w : Written) {settings : Settings}
    (h : (w.pattern.nesting : Int) ≤ settings.maxDepth) (events : List Event) :
    (Selector.compile settings w.print).outcome { cache := .empty, events := events } =
      .ok w.pattern.xpath :=
  Selector.outcome_of_nesting_le w.pattern_print h Cache.sound_empty

/-- The selector `*:not(.x\,y) + a, > b`; the comma is part of the name of the class. -/
def sample : Written where
  first := .link (.start none (.tagged .any [.not (.start none (.untagged (.className
    ⟨"x,y".toList, by decide, eq_false_of_all (by decide), eq_false_of_all (by decide)⟩) [])) []])) (some .adjacent)
    (.tagged (.named ⟨"a".toList, by decide, eq_false_of_all (by decide)⟩) [])
  others := [.start (some .child) (.tagged (.named ⟨"b".toList, by decide, eq_false_of_all (by decide)⟩) [])]

/-- The sample is nested two levels deep. The comma in the name of the class separates nothing, and
the next sibling is asked for in a predicate. -/
theorem compile_print_sample :
    ((sample.pattern.nesting : Int) ≤ ({ maxDepth := 2 } : Settings).maxDepth) ∧
    sample.print = "*:not(.x\\,y) + a, > b".toList ∧
    (Selector.compile { maxDepth := 2 } sample.print).outcome { cache := .empty, events := [] } =
      .ok ("//*[not(self::*[contains(concat(' ', normalize-space(@class), ' '), ' x,y ')])]".toList ++
        "/following-sibling::a[preceding-sibling::*[1][self::".toList ++
        "*[not(self::*[contains(concat(' ', normalize-space(@class), ' '), ' x,y ')])]]]|/b".toList) := by
  have hnesting : (sample.pattern.nesting : Int) ≤ ({ maxDepth := 2 } : Settings).maxDepth := by
    decide
  have hcompile := compile_print sample hnesting []
  have hxpath : sample.pattern.xpath =
      "//*[not(self::*[contains(concat(' ', normalize-space(@class), ' '), ' x,y ')])]".toList ++
        "/following-sibling::a[preceding-sibling::*[1][self::".toList ++
        "*[not(self::*[contains(concat(' ', normalize-space(@class), ' '), ' x,y ')])]]]|/b".toList := by
    decide +kernel
  exact ⟨hnesting, by decide, hcompile.trans (congrArg Except.ok hxpath)⟩

end Written

end TreeQuery
