import TreeQuery.Proofs.Compound.Escaped
import TreeQuery.Proofs.Written.Splitting

/-!
# A pseudo-class with an argument behind a tag

Behind a tag stands a pseudo-class with an argument in which each parenthesis has its counterpart.
Whatever else the argument holds, white space, commas, brackets or escapes, the whole is one token,
and the argument is read from it as it is written.

Main statements: `Selector.readChain_applied` and `Selector.pattern_applied`.
-/

namespace TreeQuery

open Pattern

/-- A tag with a pseudo-class behind it that has an argument. -/
def Layout.applied (tag : TagPart) (f : FunctionalPseudo) (a : Argument) : Layout where
  tag := tag
  items := [.functional ⟨Written.signs f.name, f, by cases f <;> decide⟩ a]

theorem Layout.spans_applied (tag : TagPart) (f : FunctionalPseudo) (a : Argument) :
    (applied tag f a).spans =
      tag.spans ++ (Written.signs (':' :: f.name ++ ['(']) ++ a.spans ++ Written.signs [')']) := by
  simp [spans, applied, Item.spans, Written.signs]

namespace Selector

/-- A text with a pseudo-class behind it that has another one in its parentheses. -/
def applied (t : Text) (f : FunctionalPseudo) (s : Text) : Text :=
  t ++ ':' :: f.name ++ '(' :: s ++ [')']

section

variable (tag : Layout.TagPart) (f : FunctionalPseudo) (a : Layout.Argument)

/-! The spans of the layout and the text of the selector are written down separately, and agree. So
the selector can be given as a text with an argument in it, while it is read as a layout. -/

/-- The layout is written as the tag, the pseudo-class and the argument in parentheses. -/
theorem source_applied : Span.source (Layout.applied tag f a).spans =
    applied (Span.source tag.spans) f (Span.source a.spans) := by
  rw [Layout.spans_applied, Span.source_append, Span.source_append, Span.source_append,
    Written.source_signs, Written.source_signs, applied]
  simp

/-- The parentheses of the argument close, so that all of it is one token. -/
theorem readChain_applied (htag : Balanced Written.isTokenChar tag.spans) :
    (alternatives (applied (Span.source tag.spans) f (Span.source a.spans))).length = 1 ∧
      Compound.readChain (tokens (applied (Span.source tag.spans) f (Span.source a.spans))) =
        .ok [(Layout.applied tag f a).compound .unstated] := by
  have hbalanced : Balanced Written.isTokenChar (Layout.applied tag f a).spans := by
    rw [Layout.spans_applied]
    exact htag.append (Written.balanced_argument (by cases f <;> decide) a.nested)
  -- Neither a separator nor a comma stands outside of the parentheses.
  have hseparator : ∀ c, Written.isTokenChar c = true → isSeparator c = false := by
    intro c hc
    simpa using (Bool.and_eq_true_iff.1 hc).2
  have hcomma : ∀ c, Written.isTokenChar c = true → (c == ',') = false := by
    intro c hc
    simpa using (Bool.and_eq_true_iff.1 hc).1
  -- The signs around the argument make up more than the one character of a combinator.
  have hlength : 1 < (applied (Span.source tag.spans) f (Span.source a.spans)).length := by
    simp only [applied, List.length_append, List.length_cons, List.length_nil]
    omega
  have hne : applied (Span.source tag.spans) f (Span.source a.spans) ≠ [] := by
    intro h
    rw [h] at hlength
    cases hlength
  have htoken := Compound.ofToken?_eq_none_of_length hlength
  have htokens := tokens_source hbalanced hseparator (by rwa [source_applied])
  have halternatives := length_alternatives_source hbalanced hcomma
  have hresolve := hbalanced.resolve?_source
  rw [source_applied] at htokens halternatives hresolve
  refine ⟨halternatives, ?_⟩
  have hscan := Layout.scan_spans hresolve (Compound.relationAfter none)
  rw [htokens, Compound.readChain, Compound.readAfter, Compound.read_eq, htoken, hscan]
  rfl

variable {spans : List Span}

/-- The tag with an argument behind it is read as one element with one condition. -/
theorem pattern_applied (htag : Balanced Written.isTokenChar tag.spans)
    (hs : Balanced (fun _ => true) spans) (hblank : Text.isAllBlank (Span.source spans) = false) :
    pattern (applied (Span.source tag.spans) f (Span.source spans)) =
      (Condition.read chain (f.name ++ '(' :: Span.source spans ++ [')'])).map
        fun c => [.start none (.mk (Span.text tag.spans) [] [c])] := by
  obtain ⟨halternatives, hread⟩ := readChain_applied tag f ⟨spans, hs, hblank⟩ htag
  have happlied :
      Text.isAllBlank (applied (Span.source tag.spans) f (Span.source spans)) = false := by
    have hcolon : Text.isBlank ':' = false := by decide
    simp [applied, Text.isAllBlank, hcolon]
  -- The compound has the one fragment, and no tests.
  have hpseudos : ((Layout.applied tag f ⟨spans, hs, hblank⟩).compound .unstated).pseudos =
      [f.name ++ '(' :: Span.source spans ++ [')']] := rfl
  have hattributes : ((Layout.applied tag f ⟨spans, hs, hblank⟩).compound .unstated).attributes =
      [] := rfl
  rw [pattern, happlied, if_neg Bool.false_ne_true, halternatives, if_neg (Nat.lt_irrefl 1),
    chain_eq, Chain.ofText, happlied, if_neg Bool.false_ne_true, hread]
  simp only [bind, Except.bind, Chain.read, Element.read, hpseudos, hattributes, List.mapM_cons,
    List.mapM_nil]
  cases Condition.read chain (f.name ++ '(' :: Span.source spans ++ [')']) <;> rfl

end

end Selector

end TreeQuery
