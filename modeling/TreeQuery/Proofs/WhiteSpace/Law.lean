import TreeQuery.Proofs.Compilation.Threshold
import TreeQuery.Proofs.WhiteSpace.Arguments

/-!
# White space only separates

Wherever white space separates tokens, in a selector or in the arguments of its pseudo-classes,
other white space can stand in its place. There are two limits to that. The parentheses that keep
white space together are counted without regard to brackets, so that a test with an open parenthesis
in it makes the white space behind it part of a name. And an alternative of `:has` begins among the
children only if its text begins with a child sign and a space.

Main statement: `Selector.outcome_respaced`.
-/

namespace TreeQuery

open Pattern SelectorError

namespace Selector

/-! ## Alternatives

One alternative in the place of another, among others that stay. The whole selector may be that
alternative, and then it is not trimmed. -/

section

variable {s t p q : Text} {l r : List Text}

/-- A text with several alternatives is not blank. -/
theorem isAllBlank_of_cut (h : (Pieces.cut (· == ',') 0 s).ended ≠ []) :
    Text.isAllBlank s = false := by
  by_contra hblank
  exact h (uncut_of_blank (Text.isAllBlank_iff.1 (eq_true_of_ne_false hblank)) 0)

/-- A selector that agrees with another one can stand in its place among the alternatives. -/
theorem Agrees.alternative (hs : (Pieces.cut (· == ',') 0 s).toList = l ++ p :: r)
    (ht : (Pieces.cut (· == ',') 0 t).toList = l ++ q :: r) (h : Agrees p q) : Agrees s t := by
  have hp : p ∈ (Pieces.cut (· == ',') 0 s).toList := by rw [hs]; simp
  have hq : q ∈ (Pieces.cut (· == ',') 0 t).toList := by rw [ht]; simp
  have hparts := h.parts
  rw [alternatives_of_uncut (Pieces.uncut_of_mem hp), alternatives_of_uncut (Pieces.uncut_of_mem hq),
    List.forall₂_cons] at hparts
  have hlength : (Pieces.cut (· == ',') 0 t).toList.length =
      (Pieces.cut (· == ',') 0 s).toList.length := by
    rw [hs, ht]
    simp
  by_cases hended : (Pieces.cut (· == ',') 0 s).ended = []
  · -- There is one alternative only, which is the whole text.
    have hone : (Pieces.cut (· == ',') 0 s).toList.length = 1 := by
      rw [Pieces.toList_of_uncut hended]
      rfl
    rw [Pieces.toList_of_uncut hended] at hp
    rw [Pieces.toList_of_uncut (Pieces.uncut_of_toList (hlength.trans hone))] at hq
    rwa [List.mem_singleton.1 hp, List.mem_singleton.1 hq] at h
  · have hended' : (Pieces.cut (· == ',') 0 t).ended ≠ [] := by
      intro hnil
      rw [Pieces.toList_of_uncut hnil] at hlength
      exact hended (Pieces.uncut_of_toList hlength.symm)
    refine ⟨?_, ?_, ?_⟩
    · rw [isAllBlank_of_cut hended, isAllBlank_of_cut hended']
    · rw [alternatives, alternatives, hs, ht, List.map_append, List.map_append]
      apply List.rel_append (List.forall₂_same.2 fun _ _ => .refl _)
      exact .cons hparts.1 (List.forall₂_same.2 fun _ _ => .refl _)
    · intro hsingle
      have hpos : 0 < (Pieces.cut (· == ',') 0 s).ended.length := List.length_pos_iff.2 hended
      rw [alternatives, List.length_map, Pieces.toList, List.length_append, List.length_map,
        List.length_singleton] at hsingle
      omega

end

/-! ## Replacing white space

The relation has one constructor for each place at which white space can stand: at the top, in an
argument and in an alternative. A replacement at any depth is a row of the last two that ends in the
first, which is what the induction goes along. -/

/-- One text with another run of white space in the place of one of its runs. Only runs at which
tokens are separated are replaced, and what stands around them is where it was. -/
inductive Respaced : Text → Text → Prop where
  /-- Between two tokens, or at an end. -/
  | run {x y w w' : Text} {k : Int} (gap : Gap x k y) (old : IsRun w) (new : IsRun w') :
      Respaced (x ++ w ++ y) (x ++ w' ++ y)
  /-- In the argument of a `:not` or a `:has`, whose alternatives begin along the same axes. -/
  | argument {x y : Text} {k : Int} {front a b : List Span} {n : Layout.FunctionName}
      (selects : n.pseudo ≠ .contains) (old : Balanced (fun _ => true) a)
      (new : Balanced (fun _ => true) b) (inside : Respaced (Span.source a) (Span.source b))
      (axes : n.pseudo = .has → (alternatives (Span.source a)).map Pseudo.axisOf =
        (alternatives (Span.source b)).map Pseudo.axisOf)
      (stands : Stands x k front (Layout.call n a) y)
      (stands' : Stands x k front (Layout.call n b) y) :
      Respaced (x ++ Span.source (Layout.call n a) ++ y) (x ++ Span.source (Layout.call n b) ++ y)
  /-- In one of the alternatives. -/
  | alternative {s t p q : Text} {l r : List Text}
      (old : (Pieces.cut (· == ',') 0 s).toList = l ++ p :: r)
      (new : (Pieces.cut (· == ',') 0 t).toList = l ++ q :: r) (inside : Respaced p q) :
      Respaced s t

namespace Respaced

variable {s t : Text}

/-- What has been replaced can be put back. -/
theorem symm (h : Respaced s t) : Respaced t s := by
  induction h with
  | run gap old new => exact .run gap new old
  | argument selects old new _ axes stands stands' ih =>
    exact .argument selects new old ih (fun hn => (axes hn).symm) stands' stands
  | alternative old new _ ih => exact .alternative new old ih

/-- Each replacement, at whatever depth, leaves the alternatives what they are. -/
theorem agrees (h : Respaced s t) : Agrees s t := by
  induction h with
  | run gap old new => exact gap.agrees old new
  | argument selects old new _ axes stands stands' ih =>
    exact Stands.agrees old new selects ih axes stands stands'
  | alternative old new _ ih => exact .alternative old new ih

end Respaced

/-- Any number of replacements leave the expression of a selector what it is. -/
theorem entails_expression {s t : Text} (h : Relation.ReflTransGen Respaced s t) :
    Entails (expression s) (expression t) := by
  induction h with
  | refl => exact .refl _
  | tail _ step ih =>
    intro x hx
    exact step.agrees.entails_pattern.map _ x (ih x hx)

/-- White space only separates: two selectors that differ in runs of white space at which tokens are
separated come to the same expression, or both are at fault, unless a limit is reached. -/
theorem outcome_respaced {settings settings' : Settings} {m m' : Memory} (hm : m.cache.Sound)
    (hm' : m'.cache.Sound) {s t : Text} (h : Relation.ReflTransGen Respaced s t)
    (hs : ¬ TooDeep ((compile settings s).outcome m))
    (ht : ¬ TooDeep ((compile settings' t).outcome m')) (x : Text) :
    (compile settings s).outcome m = .ok x ↔ (compile settings' t).outcome m' = .ok x := by
  rw [outcome_of_not_tooDeep hm hs, outcome_of_not_tooDeep hm' ht]
  constructor
  · exact entails_expression h x
  · apply entails_expression
    exact Relation.ReflTransGen.mono (fun _ _ => Respaced.symm) _ _ h.swap

def hasName : Layout.FunctionName := ⟨Written.signs "has".toList, .has, by decide⟩

def notName : Layout.FunctionName := ⟨Written.signs "NOT".toList, .not, by decide⟩

def spacedPart (w : Text) : List Span := Written.signs ("> d".toList ++ w ++ "e".toList)

def spacedParts (w : Text) : List Span :=
  Written.signs "c, ".toList ++ Layout.call hasName (spacedPart w)

/-- A selector with two runs of white space, one of them in an argument in an argument. -/
def spaced (v w : Text) : Text :=
  "a".toList ++ v ++ ("b:NOT(c, :has(> d".toList ++ w ++ "e)).f".toList)

theorem balanced_spacedPart {w : Text} (hw : w.all (Written.isSign fun _ => true) = true) :
    Balanced (fun _ => true) (spacedPart w) := by
  apply Written.balanced_signs
  rw [List.all_append, List.all_append, hw]
  decide

theorem balanced_spacedParts {w : Text} (hw : w.all (Written.isSign fun _ => true) = true) :
    Balanced (fun _ => true) (spacedParts w) := by
  apply (Written.balanced_signs (by decide)).append
  exact Layout.balanced_call hasName (balanced_spacedPart hw)

/-- The run in the argument of `:has` can be another one. -/
theorem respaced_spacedParts : Respaced (Span.source (spacedParts ['\t']))
    (Span.source (spacedParts [' ', '\x0c'])) := by
  have hpart : Respaced (Span.source (spacedPart ['\t']))
      (Span.source (spacedPart [' ', '\x0c'])) := by
    rw [spacedPart, spacedPart, Written.source_signs, Written.source_signs]
    exact .run (k := 0) ⟨by decide +kernel, by decide, by decide +kernel, by decide +kernel⟩
      ⟨by decide, by simp [isSeparator]⟩ ⟨by decide, by simp [isSeparator]⟩
  have hstands (w : Text) (hw : w = ['\t'] ∨ w = [' ', '\x0c']) :
      Stands [' '] 0 [] (Layout.call hasName (spacedPart w)) [] := by
    rcases hw with rfl | rfl <;>
    exact ⟨by decide, by decide, by decide +kernel,
      Layout.uncrossed_of_unclosed (by decide) (by decide), by decide, by decide⟩
  have hhas := Respaced.argument (by decide) (balanced_spacedPart (by decide))
    (balanced_spacedPart (by decide)) hpart (fun _ => by decide +kernel) (hstands _ (.inl rfl))
    (hstands _ (.inr rfl))
  exact .alternative (l := ["c".toList]) (r := []) (by decide +kernel) (by decide +kernel) hhas

/-- Two runs are replaced, one of them in the argument of an argument. -/
theorem outcome_respaced_nested :
    Relation.ReflTransGen Respaced (spaced [' '] ['\t']) (spaced ['\r', '\n'] [' ', '\x0c']) ∧
    (compile {} (spaced [' '] ['\t'])).outcome {} =
      .ok ("//a//b[contains(concat(' ', normalize-space(@class), ' '), ' f ')]".toList ++
        "[not(self::c or self::*[child::d//e])]".toList) ∧
    (compile {} (spaced ['\r', '\n'] [' ', '\x0c'])).outcome {} =
      .ok ("//a//b[contains(concat(' ', normalize-space(@class), ' '), ' f ')]".toList ++
        "[not(self::c or self::*[child::d//e])]".toList) := by
  have hm : (({} : Memory).cache).Sound := Cache.sound_empty
  -- First the run in front of the compound is replaced, then the one in its argument.
  have hfirst : Respaced (spaced [' '] ['\t']) (spaced ['\r', '\n'] ['\t']) :=
    .run (k := 0) ⟨by decide +kernel, by decide, by decide +kernel, by decide +kernel⟩
      ⟨by decide, by simp [isSeparator]⟩ ⟨by decide, by simp [isSeparator]⟩
  have hstands (w : Text) (hw : w = ['\t'] ∨ w = [' ', '\x0c']) :
      Stands "a\r\nb".toList 0 [.plain 'b'] (Layout.call notName (spacedParts w))
        ".f".toList := by
    rcases hw with rfl | rfl <;>
    exact ⟨by decide, by decide, by decide +kernel,
      Layout.uncrossed_of_unclosed (by decide) (by decide), by decide, by decide⟩
  have htext (w : Text) (hw : w = ['\t'] ∨ w = [' ', '\x0c']) : spaced ['\r', '\n'] w =
      "a\r\nb".toList ++ Span.source (Layout.call notName (spacedParts w)) ++ ".f".toList := by
    rcases hw with rfl | rfl <;> decide +kernel
  -- The pseudo-class stands in a token of its own, and nothing closes behind it.
  have hsecond : Respaced (spaced ['\r', '\n'] ['\t']) (spaced ['\r', '\n'] [' ', '\x0c']) := by
    rw [htext _ (.inl rfl), htext _ (.inr rfl)]
    exact .argument (by decide) (balanced_spacedParts (by decide))
      (balanced_spacedParts (by decide)) respaced_spacedParts nofun (hstands _ (.inl rfl))
      (hstands _ (.inr rfl))
  have hspaced := Relation.ReflTransGen.tail (.single hfirst) hsecond
  have hold : (compile {} (spaced [' '] ['\t'])).outcome {} =
      .ok ("//a//b[contains(concat(' ', normalize-space(@class), ' '), ' f ')]".toList ++
        "[not(self::c or self::*[child::d//e])]".toList) := by decide +kernel
  refine ⟨hspaced, hold, ?_⟩
  apply (outcome_respaced hm hm hspaced _ _ _).1 hold
  · rintro ⟨_, _, hdeep⟩
    rw [hold] at hdeep
    cases hdeep
  · apply not_tooDeep_of_length_le _ hm
    decide +kernel

/-- A child sign with another white-space character than a space behind it begins no step to the
children; and behind a parenthesis in brackets white space is part of a name. -/
theorem outcome_respaced_fails :
    (compile {} ":has(> b)".toList).outcome {} = .ok "//*[child::b]".toList ∧
    (compile {} ":has(>\tb)".toList).outcome {} = .ok "//*[descendant::b]".toList ∧
    (compile {} "[x=(].a b".toList).outcome {} = .ok
      "//*[@x='('][contains(concat(' ', normalize-space(@class), ' '), ' a b ')]".toList ∧
    (compile {} "[x=(].a\tb".toList).outcome {} = .ok
      "//*[@x='('][contains(concat(' ', normalize-space(@class), ' '), ' a\tb ')]".toList := by
  refine ⟨?_, ?_, ?_, ?_⟩ <;> decide +kernel

end Selector

end TreeQuery
