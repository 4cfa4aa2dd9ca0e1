import TreeQuery.Proofs.Compound.Scanning
import TreeQuery.Proofs.Written.Splitting

/-!
# Reading written compounds

A compound is read from its end, so each of its items is found behind what stands in front of it,
whatever that is. The items come out in their order, and what is left is the tag.

Main statements: `readItem?_append`, a written item is found, and `read_source`, a written compound
is read as what it says.
-/

namespace TreeQuery

namespace Written

open TreeQuery.Compound (readItem? readItems)

/-! ## Items

For each kind of item the reader looks for what begins it, going backwards from its end: a bracket
for a test, the parenthesis that matches for an argument, and otherwise the sign in front of a name.
What is escaped in the item is never taken for such a sign. -/

def comparisonText : Option (AttributeOperator × Value) → Text
  | none => []
  | some (o, v) => operatorSigns o ++ v.text

def Item.item : Item → TreeQuery.Compound.Item
  | .className n => .attribute ("class~=\"".toList ++ n.text ++ ['"'])
  | .identifier n => .attribute ("id=\"".toList ++ n.text ++ ['"'])
  | .attributeTest n c => .attribute (n.text ++ comparisonText c)
  | .static p => .pseudo p.name
  | .contains t =>
    .pseudo (FunctionalPseudo.contains.name ++ '(' :: Span.source (literal t.text) ++ [')'])
  | .not c r =>
    .pseudo (FunctionalPseudo.not.name ++ '(' :: Span.source (alternativeSpans c r) ++ [')'])
  | .has c r =>
    .pseudo (FunctionalPseudo.has.name ++ '(' :: Span.source (alternativeSpans c r) ++ [')'])

/-- What is written with backslashes stands for itself. -/
theorem text_literal (t : Text) : Span.text (literal t) = t := by
  simp [Span.text, literal, Function.comp_def]

theorem text_signs (t : Text) : Span.text (signs t) = t := by
  simp [Span.text, signs, Span.plain, Function.comp_def]

theorem text_append (a b : List Span) : Span.text (a ++ b) = Span.text a ++ Span.text b := by
  simp [Span.text]

/-- No character of a name that is written delimits anything. -/
theorem not_delimits_literal (t : Text) : ∀ s ∈ literal t, TreeQuery.Compound.delimits s = false := by
  intro s hs
  obtain ⟨c, -, rfl⟩ := List.mem_map.1 hs
  cases h : isSpecial c with
  | true => rfl
  | false =>
    have hd : ".#:[]()".toList.contains c = false := by
      rw [List.contains_eq_mem, decide_eq_false_iff_not]
      intro hm
      have : ".#:[]()".toList.all isSpecial = true := by decide
      exact ne_of_not_special h (List.all_eq_true.1 this c hm) rfl
    show (!false && ".#:[]()".toList.contains c) = false
    rw [hd]
    rfl

/-- A text that is written is not blank, even where it has only blanks in it. -/
theorem isAllBlank_literal {t : Text} (h : t ≠ []) :
    Text.isAllBlank (Span.source (literal t)) = false := by
  obtain ⟨c, r, he, hc, -⟩ := opens_literal h
  simp [Text.isAllBlank, he, hc]

theorem isAllBlank_alternatives (c : Chain) (r : List Chain) :
    Text.isAllBlank (Span.source (alternativeSpans c r)) = false := by
  obtain ⟨d, u, he, hd⟩ := c.print_head
  have : Span.source (alternativeSpans c r) = c.print ++ Span.source (furtherSpans r) :=
    Span.source_append _ _
  simp [Text.isAllBlank, this, he, hd]

theorem balanced_alternatives (c : Chain) (r : List Chain) :
    Balanced (fun _ => true) (alternativeSpans c r) :=
  c.balanced_spans.inside.append (balanced_further r)

theorem lower_name (f : FunctionalPseudo) : Text.lower (Span.text (signs f.name)) = f.name := by
  cases f <;> rfl

/-- A written item is found behind whatever stands in front of it. -/
theorem readItem?_append (token : Text) (i : Item) (before : List Span) :
    readItem? token (before ++ i.spans).reverse = .ok (some (i.item, before.reverse)) := by
  cases i with
  | className n =>
    have hne : literal n.text ≠ [] := by simp [literal, n.ne_nil]
    have := TreeQuery.Compound.readItem?_named token before hne
      (not_delimits_literal n.text) (d := '.') (by decide)
    rw [text_literal] at this
    have hn : n.text.isEmpty = false := by simp [n.ne_nil]
    simp only [TreeQuery.Compound.namedItem, hn] at this
    exact this
  | identifier n =>
    have hne : literal n.text ≠ [] := by simp [literal, n.ne_nil]
    have := TreeQuery.Compound.readItem?_named token before hne
      (not_delimits_literal n.text) (d := '#') (by decide)
    rw [text_literal] at this
    have hn : n.text.isEmpty = false := by simp [n.ne_nil]
    simp only [TreeQuery.Compound.namedItem, hn] at this
    exact this
  | attributeTest n c =>
    -- An opening bracket in the name or the value has a backslash in front, so that the one that
    -- begins the test is found.
    have hl : ∀ t : Text, ∀ s ∈ literal t, s ≠ Span.plain '[' := fun t s hs =>
      TreeQuery.Compound.ne_of_not_delimits (not_delimits_literal t s hs) (by decide)
    have hb : ∀ s ∈ literal n.text ++ comparisonSpans c, s ≠ Span.plain '[' := by
      intro s hs
      rcases List.mem_append.1 hs with hs | hs
      · exact hl _ s hs
      · cases c with
        | none => cases hs
        | some c =>
          obtain ⟨o, v⟩ := c
          rcases List.mem_append.1 hs with hs | hs
          · have ho : ∀ s ∈ signs (operatorSigns o), s ≠ Span.plain '[' := by cases o <;> decide
            exact ho s hs
          · exact hl _ s hs
    have ht : Span.text (literal n.text ++ comparisonSpans c) = n.text ++ comparisonText c := by
      rw [text_append, text_literal]
      cases c with
      | none => rfl
      | some c => rw [comparisonSpans, comparisonText, text_append, text_signs, text_literal]
    have := TreeQuery.Compound.readItem?_bracket token before hb
    rw [ht] at this
    exact this
  | static p =>
    have hne : signs p.name ≠ [] := by cases p <;> decide
    have := TreeQuery.Compound.readItem?_named token before hne (by cases p <;> decide) (d := ':')
      (by decide)
    rw [text_signs] at this
    have hn : TreeQuery.Compound.namedItem token ':' p.name = .ok (.pseudo p.name) := by
      cases p <;> rfl
    rw [hn] at this
    exact this
  | contains t =>
    exact TreeQuery.Compound.readItem?_functional token before (lower_name .contains)
      (balanced_literal t.text) (isAllBlank_literal t.ne_nil)
  | not c r =>
    exact TreeQuery.Compound.readItem?_functional token before (lower_name .not)
      (balanced_alternatives c r) (isAllBlank_alternatives c r)
  | has c r =>
    exact TreeQuery.Compound.readItem?_functional token before (lower_name .has)
      (balanced_alternatives c r) (isAllBlank_alternatives c r)

/-! ## Compounds

When all items have been taken off, what is left has to be read as a tag. A star stands for itself
there, and an empty tag is one that is missing. -/

theorem itemSpans_eq_flatMap (r : List Item) : itemSpans r = r.flatMap Item.spans := by
  induction r with
  | nil => rfl
  | cons i r ih => rw [itemSpans, ih, List.flatMap_cons]

def Compound.tagSpans : Compound → List Span
  | .tagged t _ => t.spans
  | .untagged _ _ => []

def Compound.tag : Compound → Text
  | .tagged t _ => t.text
  | .untagged _ _ => []

def Compound.items : Compound → List Item
  | .tagged _ r => r
  | .untagged i r => i :: r

/-- A compound is a tag and items. -/
theorem Compound.spans_eq (c : Compound) : c.spans = c.tagSpans ++ itemSpans c.items := by
  cases c <;> rfl

theorem Tag.not_delimits (t : Tag) : ∀ s ∈ t.spans, TreeQuery.Compound.delimits s = false := by
  cases t with
  | any => decide
  | named n => exact not_delimits_literal _

theorem Compound.not_delimits (c : Compound) :
    ∀ s ∈ c.tagSpans, TreeQuery.Compound.delimits s = false := by
  cases c with
  | tagged t _ => exact t.not_delimits
  | untagged _ _ => simp [Compound.tagSpans]

/-- A tag that is written is read as it is meant. -/
theorem tagOf_literal (token : Text) (t : Text) :
    TreeQuery.Compound.tagOf token (literal t) = .ok t := by
  rw [TreeQuery.Compound.tagOf, text_literal]
  split
  · next h => rw [h]
  · rw [if_pos]
    rw [List.all_eq_true]
    intro s hs
    obtain ⟨c, -, rfl⟩ := List.mem_map.1 hs
    cases h : isSpecial c with
    | true => rfl
    | false =>
      simp only [isSpecial, Bool.or_eq_false_iff, Bool.not_eq_false'] at h
      simp [h.1]

theorem Compound.tagOf_tagSpans (token : Text) (c : Compound) :
    TreeQuery.Compound.tagOf token c.tagSpans = .ok c.tag := by
  match c with
  | .tagged .any _ => rfl
  | .tagged (.named n) _ => exact tagOf_literal token n.text
  | .untagged _ _ => rfl

def Compound.compound (relation : Relation) (c : Compound) : TreeQuery.Compound where
  tag := c.tag
  relation := relation
  attributes := TreeQuery.Compound.Item.attributes (c.items.map Item.item)
  pseudos := TreeQuery.Compound.Item.pseudos (c.items.map Item.item)

/-- A written compound is read as what it says. -/
theorem Compound.read_source (before : Option Text) (c : Compound) :
    TreeQuery.Compound.read before (Span.source c.spans) =
      .ok (some (c.compound (TreeQuery.Compound.relationAfter before))) := by
  have hi : readItems (Span.source c.spans) c.spans.reverse [] =
      .ok (c.tagSpans.reverse, c.items.map Item.item) := by
    have ht := TreeQuery.Compound.readItem?_tag (Span.source c.spans) c.not_delimits
    have hspans : c.spans = c.tagSpans ++ c.items.flatMap Item.spans := by
      rw [c.spans_eq, itemSpans_eq_flatMap]
    generalize Span.source c.spans = token at ht ⊢
    rw [hspans, TreeQuery.Compound.readItems_flatMap (readItem?_append token), List.append_nil,
      TreeQuery.Compound.readItems_of_none ht]
  rw [TreeQuery.Compound.read_eq, c.opens.ofToken?_eq_none, TreeQuery.Compound.scan,
    c.balanced.resolve?_source]
  simp only [hi, List.reverse_reverse, c.tagOf_tagSpans, bind, Except.bind]
  rfl

/-! ## Chains

How a token is read depends on the one in front of it, which may be a combinator. The tokens of a
chain are therefore read two at a time, a combinator and a compound, or one. -/

def Chain.compounds : Chain → List TreeQuery.Compound
  | .start o c => [c.compound ((o.map Relation.stated).getD .unstated)]
  | .link b o c => b.compounds ++ [c.compound ((o.map Relation.stated).getD .unstated)]

/-- The tokens behind some others are read like tokens behind the last of those. -/
theorem readAfter_append {before : Option Text} {ts us : List Text}
    {cs ds : List TreeQuery.Compound} (ht : TreeQuery.Compound.readAfter before ts = .ok cs)
    (hu : TreeQuery.Compound.readAfter (ts.getLast?.or before) us = .ok ds) :
    TreeQuery.Compound.readAfter before (ts ++ us) = .ok (cs ++ ds) := by
  induction ts generalizing before cs with
  | nil => cases ht; exact hu
  | cons t r ih =>
    obtain ⟨c, hc, ht⟩ := Except.bind_eq_ok ht
    obtain ⟨others, hr, ht⟩ := Except.bind_eq_ok ht
    cases ht
    -- Behind the first token, the last of the others is what is in front of the rest.
    have hl : ((t :: r).getLast?.or before) = (r.getLast?.or (some t)) := by
      cases r with
      | nil => rfl
      | cons u r => rw [List.getLast?_cons_cons]; simp [List.getLast?_cons]
    rw [hl] at hu
    rw [List.cons_append, TreeQuery.Compound.readAfter, hc]
    show (do return c.toList ++ (← TreeQuery.Compound.readAfter (some t) (r ++ us))) = _
    rw [ih hr hu, List.append_assoc]
    rfl

/-- A compound and the combinator in front of it, behind a token that is none. -/
theorem readAfter_combinator (o : Option Combinator) (c : Compound) {before : Option Text}
    (hb : before.bind Combinator.ofToken? = none) :
    TreeQuery.Compound.readAfter before ((combinatorTokens o ++ [c.spans]).map Span.source) =
      .ok [c.compound ((o.map Relation.stated).getD .unstated)] := by
  cases o with
  | none =>
    have hr : TreeQuery.Compound.relationAfter before = .unstated := by
      rw [TreeQuery.Compound.relationAfter, hb]
    show TreeQuery.Compound.readAfter before [Span.source c.spans] = _
    rw [TreeQuery.Compound.readAfter, c.read_source, hr]
    rfl
  | some k =>
    have hk : TreeQuery.Compound.read before [k.symbol] = .ok none := by
      rw [TreeQuery.Compound.read, Combinator.ofToken?_symbol]
      rfl
    have hr : TreeQuery.Compound.relationAfter (some [k.symbol]) = .stated k := by
      rw [TreeQuery.Compound.relationAfter, Option.bind_some, Combinator.ofToken?_symbol]
    show TreeQuery.Compound.readAfter before [[k.symbol], Span.source c.spans] = _
    rw [TreeQuery.Compound.readAfter, hk, TreeQuery.Compound.readAfter, c.read_source, hr]
    rfl

/-- The tokens of a chain are read as its compounds. -/
theorem Chain.readChain_tokens (c : Chain) :
    TreeQuery.Compound.readChain (c.tokens.map Span.source) = .ok c.compounds := by
  cases c with
  | start o c => exact readAfter_combinator o c rfl
  | link b o c =>
    rw [Chain.tokens, List.append_assoc, List.map_append]
    apply readAfter_append b.readChain_tokens
    apply readAfter_combinator o c
    obtain ⟨r, d, hd⟩ := b.exists_last_token
    rw [hd, List.map_append, List.map_singleton, List.getLast?_concat, Option.some_or,
      Option.bind_some]
    exact d.opens.ofToken?_eq_none

end Written

end TreeQuery
