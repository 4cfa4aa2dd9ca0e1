import TreeQuery.Proofs.Written.Parsing

/-!
# The pattern of a written selector

What is read from the text of a written selector is its pattern. The induction is on the written
selector: the text in the argument of an item is the text of smaller selectors, and it has come out
as it was put in.

Main statement: `pattern_print`.
-/

namespace TreeQuery

/-! ## Tests

A test is read from a fragment with the name in front, which ends where the comparison begins; a
class and an identifier have a fragment of their own making, with the value in quotes. -/

namespace AttributeTest

/-- A name is read up to the first character that it cannot go on with. -/
theorem splitName?_append {n rest : Text} {c : Char} {r : Text} (hn : n = c :: r)
    (hc : isNameStart c = true) (hr : ∀ d ∈ r, isNamePart d = true)
    (hrest : rest.takeWhile isNamePart = []) : splitName? (n ++ rest) = some (n, rest) := by
  have hd : rest.dropWhile isNamePart = rest := by
    have := List.takeWhile_append_dropWhile (p := isNamePart) (l := rest)
    rwa [hrest, List.nil_append] at this
  subst hn
  rw [List.cons_append, splitName?, if_pos hc, List.takeWhile_append_of_pos hr,
    List.dropWhile_append_of_pos hr, hrest, hd, List.append_nil]

/-- The value between quotes. -/
theorem readValue?_quoted {v : Text} (hne : v ≠ []) (h : ∀ c ∈ v, isQuote c = false) :
    readValue? ('"' :: v ++ ['"']) = some v := by
  have hd : ('"' :: v ++ ['"']).dropWhile isQuote = v ++ ['"'] := by
    obtain ⟨c, r, rfl⟩ := List.exists_cons_of_ne_nil hne
    simp [show isQuote '"' = true by decide, h c (by simp)]
  have hv : ∀ c ∈ v, (!isQuote c) = true := fun c hc => by simp [h c hc]
  rw [readValue?]
  simp only [hd, List.takeWhile_append_of_pos hv, List.dropWhile_append_of_pos hv]
  simp [show isQuote '"' = true by decide]

end AttributeTest

namespace Written

open TreeQuery.Pattern (readTest)

/-- The test that a class stands for. -/
theorem readTest_className (n : Name) :
    readTest ("class~=\"".toList ++ n.text ++ ['"']) =
      .ok ⟨"class".toList, some (.word, n.text)⟩ := by
  have h1 : AttributeTest.splitName? ("class~=\"".toList ++ n.text ++ ['"']) =
      some ("class".toList, "~=".toList ++ ('"' :: n.text ++ ['"'])) := rfl
  have h2 : AttributeTest.splitOperator? ("~=".toList ++ ('"' :: n.text ++ ['"'])) =
      some (.word, '"' :: n.text ++ ['"']) := rfl
  have h3 : Text.lower "class".toList = "class".toList := rfl
  rw [readTest, AttributeTest.ofFragment?, h1]
  simp only [h2, AttributeTest.readValue?_quoted n.ne_nil n.noQuote, h3, Option.map_some]

/-- The test that an identifier stands for. -/
theorem readTest_identifier (n : Name) :
    readTest ("id=\"".toList ++ n.text ++ ['"']) = .ok ⟨"id".toList, some (.equals, n.text)⟩ := by
  have h1 : AttributeTest.splitName? ("id=\"".toList ++ n.text ++ ['"']) =
      some ("id".toList, '=' :: ('"' :: n.text ++ ['"'])) := rfl
  have h2 : AttributeTest.splitOperator? ('=' :: ('"' :: n.text ++ ['"'])) =
      some (.equals, '"' :: n.text ++ ['"']) := rfl
  have h3 : Text.lower "id".toList = "id".toList := rfl
  rw [readTest, AttributeTest.ofFragment?, h1]
  simp only [h2, AttributeTest.readValue?_quoted n.ne_nil n.noQuote, h3, Option.map_some]

/-- The name of an attribute is read up to the comparison. -/
theorem splitName?_attribute (n : AttributeName) {rest : Text}
    (hrest : rest.takeWhile AttributeTest.isNamePart = []) :
    AttributeTest.splitName? (n.text ++ rest) = some (n.text, rest) := by
  have hpart : ∀ c, isAttributeChar c = true → AttributeTest.isNamePart c = true := by
    intro c hc
    simp only [isAttributeChar, Bool.or_eq_true] at hc
    rcases hc with (hc | hc) | hc
    · simp [AttributeTest.isNamePart, AttributeTest.isNameStart, hc]
    · simp [AttributeTest.isNamePart, AttributeTest.isNameStart, of_decide_eq_true hc]
    · simp [AttributeTest.isNamePart, of_decide_eq_true hc]
  obtain ⟨c, r, hn⟩ := List.exists_cons_of_ne_nil n.ne_nil
  have hp := n.isPlain
  have hh := n.noHyphen
  rw [hn] at hp hh
  apply AttributeTest.splitName?_append hn
  · have hc := hp c List.mem_cons_self
    have hne : c ≠ '-' := fun he => hh (congrArg some he)
    simp only [isAttributeChar, Bool.or_eq_true, decide_eq_true_eq] at hc
    rcases hc with (hc | hc) | hc
    · simp [AttributeTest.isNameStart, hc]
    · simp [AttributeTest.isNameStart, hc]
    · exact absurd hc hne
  · exact fun d hd => hpart d (hp d (List.mem_cons_of_mem _ hd))
  · exact hrest

/-- A test that is written is read as it is meant. -/
theorem readTest_attribute (n : AttributeName) (c : Option (AttributeOperator × Value)) :
    readTest (n.text ++ comparisonText c) =
      .ok ⟨Text.lower n.text, c.map fun (o, v) => (o, v.text)⟩ := by
  cases c with
  | none =>
    rw [readTest, AttributeTest.ofFragment?, splitName?_attribute n rfl]
    rfl
  | some c =>
    obtain ⟨o, v⟩ := c
    have ht : (operatorSigns o ++ v.text).takeWhile AttributeTest.isNamePart = [] := by
      cases o <;> rfl
    have ho : AttributeTest.splitOperator? (operatorSigns o ++ v.text) = some (o, v.text) := by
      cases o <;> rfl
    rw [readTest, AttributeTest.ofFragment?, comparisonText, splitName?_attribute n ht]
    simp only [ho, AttributeTest.readValue?_of_noQuote v.noQuote, Option.map_some]

/-- The tests among some items are read from their fragments. -/
theorem mapM_readTest (r : List Item) :
    (TreeQuery.Compound.Item.attributes (r.map Item.item)).mapM readTest =
      .ok (r.filterMap Item.test?) := by
  induction r with
  | nil => rfl
  | cons i r ih =>
    have hcons : ∀ {f : Text} {t : AttributeTest}, readTest f = .ok t →
        (f :: TreeQuery.Compound.Item.attributes (r.map Item.item)).mapM readTest =
          .ok (t :: r.filterMap Item.test?) := by
      intro f t hf
      rw [List.mapM_cons, hf, ih]
      rfl
    cases i with
    | className n => exact hcons (readTest_className n)
    | identifier n => exact hcons (readTest_identifier n)
    | attributeTest n c => exact hcons (readTest_attribute n c)
    | static _ | contains _ | not _ _ | has _ _ => exact ih

/-! ## Conditions

Whether an alternative of `:has` begins among the children is told from its first two characters. In
what is written a child sign in front is always followed by a space, and nothing else begins with a
child sign. -/

open Pattern (Condition.read Relative.read Element.read Chain.read)

/-- A chain begins with a child sign and a space if a child sign opens it. -/
theorem Chain.print_direct : (c : Chain) →
    (c.opensDirectly = true ∧ ∃ r, c.print = '>' :: ' ' :: r) ∨
      (c.opensDirectly = false ∧ ∃ d r, c.print = d :: r ∧ d ≠ '>')
  | .start none c => by
    obtain ⟨d, u, he, -, hd⟩ := c.opens
    refine .inr ⟨rfl, d, u, ?_, hd .child⟩
    rw [← he]
    exact congrArg Span.source (by simp [Chain.spans, Chain.tokens, combinatorTokens, inRow])
  | .start (some k) c => by
    have hp : (Chain.start (some k) c).print = k.symbol :: ' ' :: Span.source c.spans := by
      show Span.source (inRow [signs [k.symbol], c.spans]) = _
      rw [inRow_cons, Span.source_append, source_flatMap, source_signs]
      simp
    rw [hp]
    cases k with
    | child => exact .inl ⟨rfl, _, rfl⟩
    | sibling => exact .inr ⟨rfl, _, _, rfl, by decide⟩
    | adjacent => exact .inr ⟨rfl, _, _, rfl, by decide⟩
  | .link b o c => by
    -- What is linked behind a chain does not change how it begins.
    have hp : ∃ u, (Chain.link b o c).print = b.print ++ u := by
      obtain ⟨t, r, ht, -⟩ := b.exists_first_token
      rw [Chain.print, Chain.print, Chain.spans, Chain.spans, Chain.tokens, ht, List.cons_append,
        List.cons_append, inRow_cons, inRow_cons, List.append_assoc, List.flatMap_append,
        ← List.append_assoc, Span.source_append]
      exact ⟨_, rfl⟩
    obtain ⟨u, hu⟩ := hp
    rw [hu]
    rcases b.print_direct with ⟨hd, r, hr⟩ | ⟨hd, d, r, hr, hne⟩
    · exact .inl ⟨hd, r ++ u, by rw [hr]; rfl⟩
    · exact .inr ⟨hd, d, r ++ u, by rw [hr]; rfl, hne⟩

/-- The reader sees that a chain is opened by a child sign. -/
theorem Chain.isSome_after? (c : Chain) :
    (Text.after? ['>', ' '] c.print).isSome = c.opensDirectly := by
  rcases c.print_direct with ⟨hd, r, hr⟩ | ⟨hd, d, r, hr, hne⟩
  · rw [hd, hr]
    rfl
  · rw [hd, hr, Text.after?, if_neg (Ne.symm hne)]
    rfl

theorem Chain.read_relative {nested : Text → Except SelectorError Pattern.Chain} {c : Chain}
    {p : Pattern.Chain} (h : nested c.print = .ok p) :
    Relative.read nested c.print = .ok (.mk c.opensDirectly p) := by
  rw [Relative.read, h, c.isSome_after?]
  rfl

section

variable {nested : Text → Except SelectorError Pattern.Chain}

theorem read_contains (t : Passage) :
    Condition.read nested
        (FunctionalPseudo.contains.name ++ '(' :: Span.source (literal t.text) ++ [')']) =
      .ok (.contains t.text) := by
  have hne : Span.source (literal t.text) ≠ [] := by
    obtain ⟨c, r, he, -⟩ := opens_literal t.ne_nil
    rw [he]
    simp
  rw [Condition.read, FunctionalPseudo.ofFragment?_fragment _ hne]
  simp only [(balanced_literal t.text).resolve?_source, text_literal]

theorem source_alternatives_ne_nil (c : Chain) (r : List Chain) :
    Span.source (alternativeSpans c r) ≠ [] := by
  intro h
  have := isAllBlank_alternatives c r
  rw [h] at this
  cases this

/-- What is read from a `:not`, if its alternatives are read. -/
theorem read_not {c : Chain} {r : List Chain} {ps : List Pattern.Chain}
    (h : (c.print :: r.map Chain.print).mapM nested = .ok ps) :
    Condition.read nested
        (FunctionalPseudo.not.name ++ '(' :: Span.source (alternativeSpans c r) ++ [')']) =
      .ok (.not ps) := by
  rw [Condition.read, FunctionalPseudo.ofFragment?_fragment _ (source_alternatives_ne_nil c r)]
  simp only [alternatives_source, h]
  rfl

/-- What is read from a `:has`, if its alternatives are read. -/
theorem read_has {c : Chain} {r : List Chain} {ps : List Pattern.Relative}
    (h : (c.print :: r.map Chain.print).mapM (Relative.read nested) = .ok ps) :
    Condition.read nested
        (FunctionalPseudo.has.name ++ '(' :: Span.source (alternativeSpans c r) ++ [')']) =
      .ok (.has ps) := by
  rw [Condition.read, FunctionalPseudo.ofFragment?_fragment _ (source_alternatives_ne_nil c r)]
  simp only [alternatives_source, h]
  rfl

/-- The elements of compounds in a row make up a chain; one more extends it. -/
theorem extend_append {before ch : Pattern.Chain} {cs : List TreeQuery.Compound}
    {c : TreeQuery.Compound} {e : Pattern.Element}
    (h : Pattern.Chain.extend nested before cs = .ok ch) (he : Element.read nested c = .ok e) :
    Pattern.Chain.extend nested before (cs ++ [c]) =
      .ok (.link ch (Pattern.combinator? c.relation) e) := by
  induction cs generalizing before with
  | nil =>
    cases h
    rw [List.nil_append, Pattern.Chain.extend, he]
    rfl
  | cons d r ih =>
    obtain ⟨e', he', h⟩ := Except.bind_eq_ok h
    rw [List.cons_append, Pattern.Chain.extend, he']
    exact ih h

theorem read_append {ch : Pattern.Chain} {cs : List TreeQuery.Compound}
    {c : TreeQuery.Compound} {e : Pattern.Element}
    (h : Chain.read nested cs = .ok (some ch)) (he : Element.read nested c = .ok e) :
    Chain.read nested (cs ++ [c]) =
      .ok (some (.link ch (Pattern.combinator? c.relation) e)) := by
  cases cs with
  | nil => cases h
  | cons d r =>
    obtain ⟨e', he', h⟩ := Except.bind_eq_ok h
    obtain ⟨ch', hx, h⟩ := Except.bind_eq_ok h
    cases h
    rw [List.cons_append, Chain.read, he']
    show (do return some (← Pattern.Chain.extend nested _ (r ++ [c]))) = _
    rw [extend_append hx he]
    rfl

end

/-! ## Selectors

The induction goes along what is written and needs six statements at once, one for each kind of
part. The text of an argument is the text of smaller selectors with commas between them; it is split
into them again, and for each the induction hypothesis tells what it is read as. -/

theorem combinator?_stated (o : Option Combinator) :
    Pattern.combinator? ((o.map Relation.stated).getD .unstated) = o := by
  cases o <;> rfl

/-- The text of a chain is read as the chain, if its compounds are. -/
theorem Chain.chain_print_of {c : Chain}
    (h : Chain.read Selector.chain c.compounds = .ok (some c.pattern)) :
    Selector.chain c.print = .ok c.pattern := by
  have hb := c.isAllBlank_print
  rw [Selector.chain_eq, Pattern.Chain.ofText, if_neg (by simp [hb]), tokens_print,
    c.readChain_tokens]
  simp only [bind, Except.bind, h]

theorem pseudos_cons (i : TreeQuery.Compound.Item) (r : List TreeQuery.Compound.Item) :
    TreeQuery.Compound.Item.pseudos (i :: r) =
      TreeQuery.Compound.Item.pseudos [i] ++ TreeQuery.Compound.Item.pseudos r :=
  List.filterMap_append (l := [i])

/-- What a compound asks for, whether it has a tag or not. -/
theorem Compound.pattern_eq (c : Compound) :
    c.pattern = .mk c.tag (c.items.filterMap Item.test?) (itemConditions c.items) := by
  cases c <;> rfl

/-- A compound is read as what it asks for, if its conditions are. -/
theorem read_element {nested : Text → Except SelectorError Pattern.Chain} {c : Compound}
    {relation : Relation}
    (h : (TreeQuery.Compound.Item.pseudos (c.items.map Item.item)).mapM (Condition.read nested) =
      .ok (itemConditions c.items)) :
    Element.read nested (c.compound relation) = .ok c.pattern := by
  rw [Element.read, c.pattern_eq]
  show (do
    let tests ← (TreeQuery.Compound.Item.attributes (c.items.map Item.item)).mapM readTest
    let conditions ←
      (TreeQuery.Compound.Item.pseudos (c.items.map Item.item)).mapM (Condition.read nested)
    return Pattern.Element.mk c.tag tests conditions) = _
  rw [mapM_readTest, h]
  rfl

mutual

/-- The condition that an item is, if it is no test, is read from its fragment. -/
theorem Item.mapM_read : (i : Item) →
    (TreeQuery.Compound.Item.pseudos [i.item]).mapM (Condition.read Selector.chain) =
      .ok i.condition?.toList
  | .className _ => rfl
  | .identifier _ => rfl
  | .attributeTest _ _ => rfl
  | .static p => by
    show [p.name].mapM (Condition.read Selector.chain) = _
    rw [List.mapM_cons, Pattern.Condition.read_name]
    rfl
  | .contains t => by
    show [_].mapM (Condition.read Selector.chain) = _
    rw [List.mapM_cons, read_contains]
    rfl
  | .not c r => by
    have h : (c.print :: r.map Chain.print).mapM Selector.chain =
        .ok (c.pattern :: chainPatterns r) := by
      rw [List.mapM_cons, Chain.chain_print_of c.read_compounds, mapM_chain r]
      rfl
    show [_].mapM (Condition.read Selector.chain) = _
    rw [List.mapM_cons, read_not h]
    rfl
  | .has c r => by
    have h : (c.print :: r.map Chain.print).mapM (Relative.read Selector.chain) =
        .ok (.mk c.opensDirectly c.pattern :: relativePatterns r) := by
      rw [List.mapM_cons, Chain.read_relative (Chain.chain_print_of c.read_compounds),
        mapM_relative r]
      rfl
    show [_].mapM (Condition.read Selector.chain) = _
    rw [List.mapM_cons, read_has h]
    rfl

theorem mapM_chain : (r : List Chain) →
    (r.map Chain.print).mapM Selector.chain = .ok (chainPatterns r)
  | [] => rfl
  | c :: r => by
    rw [List.map_cons, List.mapM_cons, Chain.chain_print_of c.read_compounds, mapM_chain r]
    rfl

theorem mapM_relative : (r : List Chain) →
    (r.map Chain.print).mapM (Relative.read Selector.chain) = .ok (relativePatterns r)
  | [] => rfl
  | c :: r => by
    rw [List.map_cons, List.mapM_cons,
      Chain.read_relative (Chain.chain_print_of c.read_compounds), mapM_relative r]
    rfl

theorem mapM_condition : (r : List Item) →
    (TreeQuery.Compound.Item.pseudos (r.map Item.item)).mapM (Condition.read Selector.chain) =
      .ok (itemConditions r)
  | [] => rfl
  | i :: r => by
    rw [List.map_cons, pseudos_cons, List.mapM_append, i.mapM_read, mapM_condition r]
    rfl

/-- A compound is read as what it asks for. -/
theorem Compound.read_compound : (c : Compound) → (relation : Relation) →
    Element.read Selector.chain (c.compound relation) = .ok c.pattern
  | .tagged t r, relation => read_element (mapM_condition r)
  | .untagged i r, relation => by
    apply read_element (c := .untagged i r)
    show (TreeQuery.Compound.Item.pseudos (i.item :: r.map Item.item)).mapM _ = _
    rw [pseudos_cons, List.mapM_append, i.mapM_read, mapM_condition r]
    rfl

/-- The compounds of a chain are read as the elements of its pattern. -/
theorem Chain.read_compounds : (c : Chain) →
    Chain.read Selector.chain c.compounds = .ok (some c.pattern)
  | .start o c => by
    have he := c.read_compound ((o.map Relation.stated).getD .unstated)
    rw [Chain.compounds, Chain.read, he, Compound.compound, combinator?_stated]
    rfl
  | .link b o c => by
    have he := c.read_compound ((o.map Relation.stated).getD .unstated)
    rw [Chain.compounds, read_append b.read_compounds he, Compound.compound, combinator?_stated]
    rfl

end

/-- The text of a written selector is read as its pattern. -/
theorem pattern_print (w : Written) : Selector.pattern w.print = .ok w.pattern := by
  have ha := alternatives_source w.first w.others
  have hb := isAllBlank_alternatives w.first w.others
  rw [Selector.pattern, print, if_neg (by simp [hb]), ha]
  cases hr : w.others with
  | nil =>
    have hp : Span.source (alternativeSpans w.first []) = w.first.print := by
      rw [alternativeSpans, furtherSpans, List.append_nil]
      rfl
    rw [if_neg (by simp), hp, Chain.chain_print_of w.first.read_compounds, pattern, hr]
    rfl
  | cons c r =>
    rw [if_pos (by simp), List.mapM_cons, Chain.chain_print_of w.first.read_compounds,
      mapM_chain (c :: r), pattern, hr]
    rfl

end Written

end TreeQuery
