import TreeQuery.Proofs.Compilation.Threshold
import TreeQuery.Proofs.Condition.Reading

/-!
# Arguments compiled by themselves

A word with a pseudo-class behind it is compiled from the alternatives that stand in the
parentheses, each of which comes to what it comes to by itself. If some of them are at fault, the
fault of the first one is that of the whole. The text in the parentheses of `:contains` is not
compiled; only its escapes are resolved.

Main statement: `Selector.outcome_applied`.
-/

namespace TreeQuery

open Pattern SelectorError

/-- What is done to each result may depend on the member that it is the result of. -/
theorem Except.mapM_map_zipWith {ε α β γ : Type} (l : List α) (f : α → Except ε β)
    (g : α → β → γ) :
    (l.mapM fun a => (f a).map (g a)) = (l.mapM f).map (List.zipWith g l) := by
  induction l with
  | nil => rfl
  | cons a r ih =>
    rw [List.mapM_cons, List.mapM_cons, ih]
    cases f a with
    | error e => rfl
    | ok b => cases r.mapM f <;> rfl

namespace Selector

variable {t s : Text}

/-! ## Words as tags

A word is what the program takes as a tag without scanning it. Its characters stand for themselves
in a token, so that a word with an argument behind it is one of the selectors of which it is known
what they are read as. -/

/-- What stands in a tag stands for itself in a token. -/
theorem isSign_of_isTagChar {c : Char} (h : Compound.isTagChar c = true) :
    Written.isSign Written.isTokenChar c = true := by
  have hne {d : Char} (hd : Compound.isTagChar d = false) : c ≠ d := by
    rintro rfl
    rw [h] at hd
    cases hd
  have h1 : c ≠ '\\' := hne (by decide)
  have h2 : c ≠ '(' := hne (by decide)
  have h3 : c ≠ ')' := hne (by decide)
  have h4 : c ≠ ',' := hne (by decide)
  have h5 : isSeparator c = false := by
    by_contra hc
    simp only [isSeparator, Bool.not_eq_false, Bool.or_eq_true, decide_eq_true_eq] at hc
    rcases hc with (((rfl | rfl) | rfl) | rfl) | rfl <;> exact hne (by decide) rfl
  simp [Written.isSign, Written.isTokenChar, h1, h2, h3, h4, h5]

/-- A word with a pseudo-class behind it comes to the step to an element of that name with the
predicate of the condition. -/
theorem expression_applied (ht : Compound.isWord t = true) (hs : IsBalanced s)
    (hblank : Text.isAllBlank s = false) (f : FunctionalPseudo) :
    expression (applied t f s) =
      (Condition.read chain (f.name ++ '(' :: s ++ [')'])).map fun c =>
        withConditions ("//".toList ++ t) [c] := by
  obtain ⟨spans, hspans, rfl⟩ := hs
  rw [Compound.isWord, Bool.and_eq_true, List.all_eq_true] at ht
  have htag : ∀ c ∈ t, Compound.isTagChar c = true := fun c hc =>
    Compound.isTagChar_of_isLetter (ht.2 c hc)
  have hsigns : t.all (Written.isSign Written.isTokenChar) = true :=
    List.all_eq_true.2 fun c hc => isSign_of_isTagChar (htag c hc)
  have htext : Span.text (Written.signs t) = t := by
    simp [Span.text, Written.signs, Span.plain, Function.comp_def]
  have hname : nameTest t = t := by
    have hne : t.isEmpty = false := by simpa using ht.1
    rw [nameTest, hne, if_neg Bool.false_ne_true]
  -- A word is a tag that is written without escapes.
  have hpattern := pattern_applied ⟨Written.signs t, .inr fun u hu _ => by
    obtain ⟨c, hc, rfl⟩ := List.mem_map.1 hu
    exact htag c hc⟩ f (Written.balanced_signs hsigns) hspans hblank
  rw [Written.source_signs, htext] at hpattern
  rw [expression, hpattern, Except.map_map]
  congr 1
  funext c
  have hstep : Chain.xpath (.start none (.mk t [] [c])) =
      withConditions ("//".toList ++ nameTest t ++ [] ++ []) [c] := rfl
  show List.intercalate ['|'] [Chain.xpath (.start none (.mk t [] [c]))] = _
  rw [List.intercalate_singleton, hstep, hname, List.append_nil, List.append_nil]

/-! ## Parts

The predicate of `:not` or `:has` is made of the paths of the chains that are read from the
argument. To say the same of expressions that are compiled one by one, each path has to be seen as
what an alternative comes to by itself, less its slashes. The faults are compared by the same
equation: reading the alternatives in a row stops at the first fault, as compiling them does. -/

/-- An alternative of a selector comes to the expression of its chain. -/
theorem expression_of_mem_alternatives {part : Text} (h : part ∈ alternatives s) :
    expression part = (chain part).map Chain.xpath := by
  rw [expression, pattern_of_alternatives (alternatives_of_mem h), map_xpath_singleton]

variable (ht : Compound.isWord t = true) (hs : IsBalanced s) (hblank : Text.isAllBlank s = false)

include ht hs hblank

/-- `:not` is made of the expressions of the parts, each from the element itself. -/
theorem expression_not : expression (applied t .not s) =
    ((alternatives s).mapM expression).map fun xs =>
      "//".toList ++ t ++ "[not(".toList ++ List.intercalate " or ".toList
        (xs.map fun x => "self::".toList ++ Text.dropLeading '/' x) ++ ")]".toList := by
  have hne : s ≠ [] := by
    rintro rfl
    cases hblank
  rw [Except.mapM_congr fun part hpart => expression_of_mem_alternatives hpart, Except.mapM_map,
    Except.map_map, expression_applied ht hs hblank, Condition.read,
    FunctionalPseudo.ofFragment?_fragment _ hne]
  show Except.map _ (do return Condition.not (← (alternatives s).mapM chain)) = _
  rw [Except.map_bind_pure]
  congr 1
  funext cs
  show "//".toList ++ t ++ (Condition.not cs).predicate = _
  rw [Condition.predicate_not, selfPaths_eq_map, List.map_map]
  simp only [List.append_assoc]
  rfl

/-- `:has` is made of the expressions of the parts, each from below the element. Whether it is
looked for among the children is told by the text of the part. -/
theorem expression_has : expression (applied t .has s) =
    ((alternatives s).mapM expression).map fun xs =>
      "//".toList ++ t ++ ['['] ++ List.intercalate " or ".toList
        (List.zipWith (fun part x =>
          (if ['>', ' '] <+: part then "child::".toList else "descendant::".toList) ++
            Text.dropLeading '/' x) (alternatives s) xs) ++ [']'] := by
  have hne : s ≠ [] := by
    rintro rfl
    cases hblank
  -- The path of a part depends on its text, and not only on what it comes to.
  have hpart : ∀ part ∈ alternatives s, (Relative.read chain part).map Relative.path =
      (expression part).map fun x =>
        (if ['>', ' '] <+: part then "child::".toList else "descendant::".toList) ++
          Text.dropLeading '/' x := by
    intro part hmem
    rw [Pseudo.path_of_read, ← expression_of_mem_alternatives hmem]
    simp only [Pseudo.axisOf, Text.isSome_after?_iff]
  rw [expression_applied ht hs hblank, Condition.read,
    FunctionalPseudo.ofFragment?_fragment _ hne]
  show Except.map _ (do return Condition.has (← (alternatives s).mapM (Relative.read chain))) = _
  rw [Except.map_bind_pure]
  -- The paths are those of the parts, and the rest of the predicate is put around them.
  have hpaths := congrArg (Except.map fun paths =>
    "//".toList ++ t ++ ['['] ++ List.intercalate " or ".toList paths ++ [']'])
    (Except.mapM_congr hpart)
  rw [Except.mapM_map, Except.mapM_map_zipWith, Except.map_map, Except.map_map] at hpaths
  rw [← hpaths]
  congr 1
  funext rs
  show "//".toList ++ t ++ (Condition.has rs).predicate = _
  rw [Condition.predicate_has, relativePaths_eq_map]
  simp only [List.append_assoc]
  rfl

/-- `:contains` is made of the text of its argument, which is not read as a selector. -/
theorem expression_contains : ∃ spans, Span.resolve? s = some spans ∧
    expression (applied t .contains s) =
      .ok ("//".toList ++ t ++ "[text()[contains(.,'".toList ++ Span.text spans ++
        "')]]".toList) := by
  have hne : s ≠ [] := by
    rintro rfl
    cases hblank
  obtain ⟨spans, hspans, rfl⟩ := id hs
  refine ⟨spans, hspans.resolve?_source, ?_⟩
  rw [expression_applied ht hs hblank, Condition.read,
    FunctionalPseudo.ofFragment?_fragment _ hne]
  simp only [hspans.resolve?_source]
  show Except.ok ("//".toList ++ t ++ (Condition.contains (Span.text spans)).predicate) = _
  rw [Condition.predicate_contains]
  simp only [List.append_assoc]

/-- A word with `:not`, `:has` or `:contains` behind it, whatever stands in the parentheses. Unless
the limit is reached, `:not` and `:has` come to what is made of the outcomes of the parts, or to the
fault of the first part at fault, and `:contains` to its text without the escapes. -/
theorem outcome_applied {settings settings' : Settings} {m m' : Memory} (hm : m.cache.Sound)
    (hm' : m'.cache.Sound)
    (hparts : ∀ part ∈ alternatives s, ¬ TooDeep ((compile settings' part).outcome m')) :
    (¬ TooDeep ((compile settings (applied t .not s)).outcome m) →
      (compile settings (applied t .not s)).outcome m =
        (((alternatives s).mapM fun part => (compile settings' part).outcome m').map fun xs =>
          "//".toList ++ t ++ "[not(".toList ++ List.intercalate " or ".toList
            (xs.map fun x => "self::".toList ++ Text.dropLeading '/' x) ++ ")]".toList)) ∧
    (¬ TooDeep ((compile settings (applied t .has s)).outcome m) →
      (compile settings (applied t .has s)).outcome m =
        (((alternatives s).mapM fun part => (compile settings' part).outcome m').map fun xs =>
          "//".toList ++ t ++ ['['] ++ List.intercalate " or ".toList
            (List.zipWith (fun part x =>
              (if ['>', ' '] <+: part then "child::".toList else "descendant::".toList) ++
                Text.dropLeading '/' x) (alternatives s) xs) ++ [']'])) ∧
    (¬ TooDeep ((compile settings (applied t .contains s)).outcome m) →
      ∃ spans, Span.resolve? s = some spans ∧
        (compile settings (applied t .contains s)).outcome m =
          .ok ("//".toList ++ t ++ "[text()[contains(.,'".toList ++ Span.text spans ++
            "')]]".toList)) := by
  -- The outcomes of the parts are their expressions, whatever is in the cache.
  have houtcome : ((alternatives s).mapM fun part => (compile settings' part).outcome m') =
      (alternatives s).mapM expression :=
    Except.mapM_congr fun part hpart => outcome_of_not_tooDeep hm' (hparts part hpart)
  refine ⟨fun hnot => ?_, fun hhas => ?_, fun hcontains => ?_⟩
  · rw [outcome_of_not_tooDeep hm hnot, houtcome, expression_not ht hs hblank]
  · rw [outcome_of_not_tooDeep hm hhas, houtcome, expression_has ht hs hblank]
  · rw [outcome_of_not_tooDeep hm hcontains]
    exact expression_contains ht hs hblank

omit ht hs hblank

def twoParts : Text := "> a, b:not(c,\n.d\\))".toList

theorem outcome_applied_div :
    (compile { maxDepth := 40 } (applied "div".toList .not twoParts)).outcome {} = .ok
      ("//div[not(self::a or self::b[not(self::c or ".toList ++
        "self::*[contains(concat(' ', normalize-space(@class), ' '), ' d) ')])])]".toList) ∧
    (compile { maxDepth := 40 } (applied "div".toList .has twoParts)).outcome {} = .ok
      ("//div[child::a or descendant::b[not(self::c or ".toList ++
        "self::*[contains(concat(' ', normalize-space(@class), ' '), ' d) ')])]]".toList) ∧
    (compile { maxDepth := 40 } (applied "div".toList .contains twoParts)).outcome {} = .ok
      "//div[text()[contains(.,'> a, b:not(c,\n.d))')]]".toList := by
  have hm : (({} : Memory).cache).Sound := Cache.sound_empty
  have hinner : IsBalanced "c,\n.d\\)".toList :=
    ⟨Written.signs "c,\n.d".toList ++ [⟨')', true⟩],
      (Written.balanced_signs (by decide)).append (.escaped ')' .nil), by decide⟩
  have hs : IsBalanced twoParts := IsBalanced.argument (s := "> a, b:not".toList) (by decide) hinner
  -- No limit is reached, as everything is shorter than the limits are.
  have hparts : ∀ part ∈ alternatives twoParts, ¬ TooDeep ((compile {} part).outcome {}) := by
    intro part hpart
    apply not_tooDeep_of_length_le _ hm
    have hlength := length_le_of_mem_alternatives hpart
    have hshort : twoParts.length ≤ 32 := by decide
    show (part.length : Int) ≤ 32
    omega
  have hwhole (f : FunctionalPseudo) :
      ¬ TooDeep ((compile { maxDepth := 40 } (applied "div".toList f twoParts)).outcome {}) :=
    not_tooDeep_of_length_le (by cases f <;> decide) hm
  obtain ⟨hnot, hhas, hcontains⟩ := @outcome_applied "div".toList _ (by decide) hs (by decide)
    { maxDepth := 40 } {} {} {} hm hm hparts
  -- What the two parts come to, each by itself.
  have hresult : ((alternatives twoParts).mapM fun part => (compile {} part).outcome {}) =
      .ok ["/a".toList,
        "//b[not(self::c or self::*[contains(concat(' ', normalize-space(@class), ' '), ".toList ++
          "' d) ')])]".toList] := by decide +kernel
  refine ⟨?_, ?_, ?_⟩
  · rw [hnot (hwhole .not), hresult]
    decide +kernel
  · rw [hhas (hwhole .has), hresult]
    decide +kernel
  · obtain ⟨spans, hspans, h⟩ := hcontains (hwhole .contains)
    obtain rfl : _ = spans := Option.some.inj hspans
    rw [h]
    decide +kernel

end Selector

end TreeQuery
