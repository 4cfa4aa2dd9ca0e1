import Mathlib.Data.List.Induction
import TreeQuery.Proofs.Compound.Scanning

/-!
# The layout of a compound

What a compound may look like, read from its beginning: a tag part, then items, each of them with
the proof that it can be one. The reader works the other way round, from the end, and takes off
one item after the other. Both ways lead to the same items.

* **Completeness** (`scan_spans`): every layout is read, as what it says.
* **Soundness** (`exists_layout_of_scan`): whatever is read has a layout.
* **Uniqueness** (`spans_injective`): no two layouts look alike. What stands at the end of the spans
  decides which kind of item ends there, and the span that begins it is the last one that could.
-/

namespace TreeQuery

namespace Layout

/-! ## Parts

Each part carries the property that makes it readable, so that there is no layout that could not be
read. What a name may have in it is the same for classes and identifiers; the names of
pseudo-classes are either letters or, up to their case, one of three words. -/

/-- The name of a class or an identifier: not empty, and no unescaped character delimits in it. -/
@[ext] structure Label where
  spans : List Span
  ne_nil : spans ≠ []
  undelimited : ∀ s ∈ spans, Compound.delimits s = false

@[ext] structure PlainName where
  spans : List Span
  names : Compound.namesPseudoClass (Span.text spans) = true

/-- What an attribute test has between its brackets: anything but an unescaped opening bracket. -/
@[ext] structure Body where
  spans : List Span
  unopened : Span.plain '[' ∉ spans

/-- The name of a pseudo-class with an argument, up to letter case. -/
structure FunctionName where
  spans : List Span
  pseudo : FunctionalPseudo
  lower : Text.lower (Span.text spans) = pseudo.name

/-- What stands in the parentheses of a pseudo-class: not blank, with its own unescaped parentheses
well nested. Resolved spans have no unescaped backslash. -/
@[ext] structure Argument where
  spans : List Span
  nested : Balanced (fun _ => true) spans
  notBlank : Text.isAllBlank (Span.source spans) = false

/-- What stands in front of the items: a star, or a text whose unescaped characters are all such as
stand in names. It may be empty. -/
@[ext] structure TagPart where
  spans : List Span
  isTag : Span.text spans = ['*'] ∨
    ∀ s ∈ spans, s.escaped = false → Compound.isTagChar s.char = true

inductive Item where
  | className (name : Label)
  | identifier (name : Label)
  | static (name : PlainName)
  | attributeTest (body : Body)
  | functional (name : FunctionName) (argument : Argument)

def Item.spans : Item → List Span
  | .className n => .plain '.' :: n.spans
  | .identifier n => .plain '#' :: n.spans
  | .static n => .plain ':' :: n.spans
  | .attributeTest b => .plain '[' :: (b.spans ++ [.plain ']'])
  | .functional n a => .plain ':' :: (n.spans ++ .plain '(' :: (a.spans ++ [.plain ')']))

/-- The test that an item is, as a fragment; none if it is a pseudo-class. -/
def Item.attribute? : Item → Option Text
  | .className n => some ("class~=\"".toList ++ Span.text n.spans ++ ['"'])
  | .identifier n => some ("id=\"".toList ++ Span.text n.spans ++ ['"'])
  | .attributeTest b => some (Span.text b.spans)
  | .static _ => none
  | .functional _ _ => none

/-- The pseudo-class that an item is, as a fragment; none if it is a test. An argument keeps its
escapes. -/
def Item.pseudo? : Item → Option Text
  | .className _ => none
  | .identifier _ => none
  | .attributeTest _ => none
  | .static n => some (Text.lower (Span.text n.spans))
  | .functional n a => some (n.pseudo.name ++ '(' :: Span.source a.spans ++ [')'])

end Layout

structure Layout where
  tag : Layout.TagPart
  items : List Layout.Item

namespace Layout

def spans (l : Layout) : List Span := l.tag.spans ++ l.items.flatMap Item.spans

/-- What a layout says, of an element that stands in some relation. -/
def compound (relation : Relation) (l : Layout) : Compound where
  tag := Span.text l.tag.spans
  relation := relation
  attributes := l.items.filterMap Item.attribute?
  pseudos := l.items.filterMap Item.pseudo?

/-! ## Completeness

The reader takes items off the end. That it finds the item of a layout there, whatever is in front,
is one lemma for each kind of item; the rest is an induction along the row. -/

/-- What the reader makes of an item. -/
def Item.item : Item → Compound.Item
  | .className n => .attribute ("class~=\"".toList ++ Span.text n.spans ++ ['"'])
  | .identifier n => .attribute ("id=\"".toList ++ Span.text n.spans ++ ['"'])
  | .static n => .pseudo (Text.lower (Span.text n.spans))
  | .attributeTest b => .attribute (Span.text b.spans)
  | .functional n a => .pseudo (n.pseudo.name ++ '(' :: Span.source a.spans ++ [')'])

theorem attributes_map_item (r : List Item) :
    Compound.Item.attributes (r.map Item.item) = r.filterMap Item.attribute? := by
  rw [Compound.Item.attributes, List.filterMap_map]
  congr 1
  funext i
  cases i <;> rfl

theorem pseudos_map_item (r : List Item) :
    Compound.Item.pseudos (r.map Item.item) = r.filterMap Item.pseudo? := by
  rw [Compound.Item.pseudos, List.filterMap_map]
  congr 1
  funext i
  cases i <;> rfl

theorem Label.isEmpty_text (n : Label) : (Span.text n.spans).isEmpty = false := by
  simp [Span.text, n.ne_nil]

theorem PlainName.ne_nil (n : PlainName) : n.spans ≠ [] := by
  intro h
  have := n.names
  rw [h] at this
  cases this

theorem PlainName.isEmpty_text (n : PlainName) : (Span.text n.spans).isEmpty = false := by
  simp [Span.text, n.ne_nil]

/-- An item is found behind whatever stands in front of it. -/
theorem Item.readItem?_append (token : Text) (i : Item) (before : List Span) :
    Compound.readItem? token (before ++ i.spans).reverse = .ok (some (i.item, before.reverse)) := by
  cases i with
  | className n =>
    rw [Item.spans, Compound.readItem?_named token before n.ne_nil n.undelimited (by decide)]
    simp [Compound.namedItem, n.isEmpty_text, Item.item, Except.map]
  | identifier n =>
    rw [Item.spans, Compound.readItem?_named token before n.ne_nil n.undelimited (by decide)]
    simp [Compound.namedItem, n.isEmpty_text, Item.item, Except.map]
  | static n =>
    rw [Item.spans, Compound.readItem?_named token before n.ne_nil
      (Compound.not_delimits_of_namesPseudoClass n.names) (by decide)]
    simp [Compound.namedItem, n.isEmpty_text, n.names, Item.item, Except.map]
  | attributeTest b =>
    apply Compound.readItem?_bracket
    exact fun s hs he => b.unopened (he ▸ hs)
  | functional n a => exact Compound.readItem?_functional token before n.lower a.nested a.notBlank

/-- No character of a tag delimits: it is one of names, or escaped, or the star. -/
theorem TagPart.undelimited (t : TagPart) : ∀ s ∈ t.spans, Compound.delimits s = false := by
  intro s hs
  rcases t.isTag with h | h
  · have hm : s.char ∈ Span.text t.spans := List.mem_map_of_mem hs
    rw [h, List.mem_singleton] at hm
    by_contra hd
    have := (Compound.delimits_iff.1 (eq_true_of_ne_false hd)).2
    rw [hm] at this
    exact absurd this (by decide)
  · exact Compound.not_delimits_of_isTagChar (h s hs)

/-- In front of the first item nothing ends. -/
theorem TagPart.readItem? (token : Text) (t : TagPart) :
    Compound.readItem? token t.spans.reverse = .ok none :=
  Compound.readItem?_tag token t.undelimited

/-- What is left in front of the items is a tag under the condition of the layout. -/
theorem tagOf_eq_ok_iff {token : Text} {spans : List Span} {text : Text} :
    Compound.tagOf token spans = .ok text ↔
      text = Span.text spans ∧ (Span.text spans = ['*'] ∨
        ∀ s ∈ spans, s.escaped = false → Compound.isTagChar s.char = true) := by
  have hall : (spans.all fun s => s.escaped || Compound.isTagChar s.char) = true ↔
      ∀ s ∈ spans, s.escaped = false → Compound.isTagChar s.char = true := by
    rw [List.all_eq_true]
    refine forall₂_congr fun s _ => ?_
    cases s.escaped <;> simp
  rw [← hall]
  unfold Compound.tagOf
  constructor
  · intro h
    split at h
    · next hstar => cases h; exact ⟨hstar.symm, .inl hstar⟩
    · split at h
      · next htag => cases h; exact ⟨rfl, .inr htag⟩
      · cases h
  · rintro ⟨rfl, h⟩
    by_cases hstar : Span.text spans = ['*']
    · rw [if_pos hstar, hstar]
    · rw [if_neg hstar, if_pos (h.resolve_left hstar)]

/-- Every layout is read as what it says. -/
theorem scan_spans {token : Text} {l : Layout} (h : Span.resolve? token = some l.spans)
    (relation : Relation) : Compound.scan relation token = .ok (l.compound relation) := by
  have hitems : Compound.readItems token l.spans.reverse [] =
      .ok (l.tag.spans.reverse, l.items.map Item.item) := by
    rw [spans, Compound.readItems_flatMap (Item.readItem?_append token),
      Compound.readItems_of_none (l.tag.readItem? token), List.append_nil]
  have htag : Compound.tagOf token l.tag.spans = .ok (Span.text l.tag.spans) :=
    tagOf_eq_ok_iff.2 ⟨rfl, l.tag.isTag⟩
  rw [Compound.scan, h]
  simp only [hitems, List.reverse_reverse, htag, attributes_map_item, pseudos_map_item, bind,
    Except.bind]
  rfl

/-! ## Soundness

What the reader takes off has to be shown to be an item. For names and tests this is read off the
code. An argument is found by counting parentheses backwards, and that it is well nested is an
invariant of the count: what has been passed closes as many parentheses as the count says, with
nested text between them. -/

section

variable {l a b t : List Span}

/-- Spans in which `depth` closing parentheses lack their counterpart. -/
def Closes : (depth : Nat) → List Span → Prop
  | 0, t => Balanced (fun _ => true) t
  | depth + 1, t => ∃ a r, t = a ++ .plain ')' :: r ∧ Balanced (fun _ => true) a ∧ Closes depth r

theorem Closes.append (ha : Balanced (fun _ => true) a) {depth : Nat} (ht : Closes depth t) :
    Closes depth (a ++ t) := by
  cases depth with
  | zero => exact Balanced.append ha ht
  | succ depth =>
    obtain ⟨b, r, rfl, hb, hr⟩ := ht
    exact ⟨a ++ b, r, by simp, ha.append hb, hr⟩

/-- The argument that is split off is well nested. The induction carries along what stands behind:
the parentheses that are still to be opened are closed there. -/
theorem balanced_of_splitArgument? {depth : Nat} (hl : ∀ s ∈ l, s.escaped = false → s.char ≠ '\\')
    (h : Compound.splitArgument? depth l = some (a, b)) (ht : Closes depth t) :
    Balanced (fun _ => true) (a.reverse ++ t) := by
  induction l generalizing depth a b t with
  | nil => cases h
  | cons s r ih =>
    have hr : ∀ u ∈ r, u.escaped = false → u.char ≠ '\\' := fun u hu =>
      hl u (List.mem_cons_of_mem s hu)
    -- A closing parenthesis adds one to close, an opening one takes one away, anything else goes to
    -- the nested text in front.
    by_cases hclose : s = .plain ')'
    · subst hclose
      rw [Balanced.splitArgument?_closing] at h
      obtain ⟨⟨a', b'⟩, h', he⟩ := Option.map_eq_some_iff.1 h
      cases he
      simpa using ih hr h' (t := .plain ')' :: t) ⟨[], t, rfl, .nil, ht⟩
    · by_cases hopen : s = .plain '('
      · subst hopen
        cases depth with
        | zero => cases h; exact ht
        | succ depth =>
          rw [Balanced.splitArgument?_opening] at h
          obtain ⟨⟨a', b'⟩, h', he⟩ := Option.map_eq_some_iff.1 h
          cases he
          obtain ⟨c, u, rfl, hc, hu⟩ := ht
          have hpair : Balanced (fun _ => true) (.plain '(' :: c ++ [.plain ')']) :=
            .parentheses hc .nil
          simpa using ih hr h' (hu.append hpair)
      · rw [Balanced.splitArgument?_cons hclose hopen] at h
        obtain ⟨⟨a', b'⟩, h', he⟩ := Option.map_eq_some_iff.1 h
        cases he
        have hs : Balanced (fun _ => true) [s] := by
          obtain ⟨c, e⟩ := s
          cases e with
          | true => exact .escaped c .nil
          | false =>
            apply Balanced.plain (hl _ List.mem_cons_self rfl) _ _ rfl .nil
            · rintro rfl; exact hopen rfl
            · rintro rfl; exact hclose rfl
        simpa using ih hr h' (ht.append hs)

end

section

variable {token : Text} {l rest : List Span} {item : Compound.Item}

theorem exists_of_namedItem {name : List Span} (hname : ∀ s ∈ name, Compound.delimits s = false)
    {d : Char} (h : Compound.namedItem token d (Span.text name) = .ok item) :
    ∃ i : Item, .plain d :: name = i.spans ∧ i.item = item := by
  have hne : Span.text name ≠ [] → name ≠ [] := mt (congrArg Span.text)
  rcases Compound.of_namedItem_eq_ok h with ⟨rfl, he, rfl⟩ | ⟨rfl, he, rfl⟩ | ⟨rfl, hn, rfl⟩
  · exact ⟨.className ⟨name, hne he, hname⟩, rfl, rfl⟩
  · exact ⟨.identifier ⟨name, hne he, hname⟩, rfl, rfl⟩
  · exact ⟨.static ⟨name, hn⟩, rfl, rfl⟩

/-- Whatever is taken off is an item, and it stood at the end. -/
theorem exists_of_readItem? (hl : ∀ s ∈ l, s.escaped = false → s.char ≠ '\\')
    (h : Compound.readItem? token l = .ok (some (item, rest))) :
    ∃ i : Item, l.reverse = rest.reverse ++ i.spans ∧ i.item = item := by
  rcases Compound.of_readItem?_eq_ok h with ⟨before, rfl, hf⟩ | ⟨before, rfl, hb⟩ |
    ⟨name, d, rfl, hname, hi⟩
  · obtain ⟨argument, name, p, ha, hp, hblank, rfl⟩ := Compound.of_takeFunctional_eq_ok hf
    have hnested := balanced_of_splitArgument? (fun s hs => hl s (List.mem_cons_of_mem _ hs)) ha
      (t := []) .nil
    obtain rfl := Compound.eq_of_splitArgument? ha
    exact ⟨.functional ⟨name.reverse, p, hp⟩ ⟨argument.reverse, by simpa using hnested, hblank⟩,
      by simp [Item.spans], rfl⟩
  · obtain ⟨body, rfl, hbody, rfl⟩ := Compound.of_takeBracket_eq_ok hb
    exact ⟨.attributeTest ⟨body.reverse, mt List.mem_reverse.1 hbody⟩, by simp [Item.spans], rfl⟩
  · obtain ⟨i, hspans, hitem⟩ :=
      exists_of_namedItem (fun s hs => hname s (List.mem_reverse.1 hs)) hi
    exact ⟨i, by simp [← hspans], hitem⟩

/-- Whatever is taken off, one item after the other, are items in a row. -/
theorem exists_of_readItems {tag : List Span} {read items : List Compound.Item}
    (hl : ∀ s ∈ l, s.escaped = false → s.char ≠ '\\')
    (h : Compound.readItems token l read = .ok (tag, items)) :
    ∃ r : List Item, l.reverse = tag.reverse ++ r.flatMap Item.spans ∧
      items = r.map Item.item ++ read := by
  fun_induction Compound.readItems token l read with
  | case1 => cases h
  | case2 => cases h; exact ⟨[], by simp, rfl⟩
  | case3 spans read item rest hitem ih =>
    obtain ⟨i, hi, rfl⟩ := exists_of_readItem? hl hitem
    have hrest : ∀ s ∈ rest, s.escaped = false → s.char ≠ '\\' := by
      intro s hs
      have hm : s ∈ spans.reverse := hi ▸ List.mem_append_left _ (List.mem_reverse.2 hs)
      exact hl s (List.mem_reverse.1 hm)
    obtain ⟨r, hr, rfl⟩ := ih hrest h
    exact ⟨r ++ [i], by simp [hi, hr], by simp⟩

end

/-- Resolved spans have no unescaped backslash. -/
theorem ne_backslash_of_resolve? {t : Text} {spans : List Span} (h : Span.resolve? t = some spans) :
    ∀ s ∈ spans, s.escaped = false → s.char ≠ '\\' := by
  fun_induction Span.resolve? t generalizing spans with
  | case1 => cases h; simp
  | case2 => cases h
  | case3 c r ih =>
    obtain ⟨u, hu, rfl⟩ := Option.map_eq_some_iff.1 h
    intro s hs he
    rcases List.mem_cons.1 hs with rfl | hs
    · cases he
    · exact ih hu s hs he
  | case4 c r h1 h2 ih =>
    obtain ⟨u, hu, rfl⟩ := Option.map_eq_some_iff.1 h
    intro s hs he
    rcases List.mem_cons.1 hs with rfl | hs
    · -- A backslash would be the last character or take the next one literally.
      rintro (rfl : c = '\\')
      cases r with
      | nil => exact h1 rfl rfl
      | cons d r => exact h2 d r rfl rfl
    · exact ih hu s hs he

/-- Whatever is read has a layout. -/
theorem exists_layout_of_scan {token : Text} {relation : Relation} {c : Compound}
    (h : Compound.scan relation token = .ok c) :
    ∃ l : Layout, Span.resolve? token = some l.spans := by
  rw [Compound.scan] at h
  split at h
  · cases h
  · next spans hs =>
    obtain ⟨⟨tag, items⟩, hitems, h⟩ := Except.bind_eq_ok h
    obtain ⟨text, htag, -⟩ := Except.bind_eq_ok h
    obtain ⟨r, hr, -⟩ := exists_of_readItems
      (fun s hm => ne_backslash_of_resolve? hs s (List.mem_reverse.1 hm)) hitems
    refine ⟨⟨⟨tag.reverse, (tagOf_eq_ok_iff.1 htag).2⟩, r⟩, ?_⟩
    rw [List.reverse_reverse] at hr
    rw [hs, hr]
    rfl

/-! ## Uniqueness

Two layouts with the same spans end in the same item, since both are read and the reader gives one
answer; then the rows in front of it have the same spans. Two items with the same spans are the same
because the first span tells the kind, except for pseudo-classes, where the parenthesis does. -/

/-- Names are told apart from what stands behind their first delimiter. -/
theorem eq_of_append_delimiter {n n' r r' : List Span} {d : Span} (hd : Compound.delimits d = true)
    (hn : ∀ s ∈ n, Compound.delimits s = false) (hn' : ∀ s ∈ n', Compound.delimits s = false)
    (h : n ++ d :: r = n' ++ d :: r') : n = n' ∧ r = r' := by
  induction n generalizing n' with
  | nil =>
    cases n' with
    | nil => exact ⟨rfl, (List.cons.inj h).2⟩
    | cons s n' =>
      obtain ⟨rfl, -⟩ := List.cons.inj h
      rw [hn' d List.mem_cons_self] at hd
      cases hd
  | cons s n ih =>
    cases n' with
    | nil =>
      obtain ⟨rfl, -⟩ := List.cons.inj h
      rw [hn s List.mem_cons_self] at hd
      cases hd
    | cons s' n' =>
      obtain ⟨rfl, hrest⟩ := List.cons.inj h
      obtain ⟨rfl, hr⟩ := ih (fun u hu => hn u (List.mem_cons_of_mem _ hu))
        (fun u hu => hn' u (List.mem_cons_of_mem _ hu)) hrest
      exact ⟨rfl, hr⟩

theorem FunctionName.eq_of_spans {n n' : FunctionName} (h : n.spans = n'.spans) : n = n' := by
  obtain ⟨spans, f, hf⟩ := n
  obtain ⟨spans', f', hf'⟩ := n'
  obtain rfl : spans = spans' := h
  obtain rfl : f = f' := by
    have hnames : f.name = f'.name := hf.symm.trans hf'
    cases f <;> cases f' <;> first | rfl | exact absurd hnames (by decide)
  rfl

/-- An item without an argument has no parenthesis behind its colon. -/
theorem PlainName.cons_ne (n : PlainName) (m : FunctionName) (a : Argument) :
    (Item.static n).spans ≠ (Item.functional m a).spans := by
  intro h
  have hm : Span.plain '(' ∈ n.spans := by
    rw [(List.cons.inj h).2]
    simp
  have := Compound.not_delimits_of_namesPseudoClass n.names _ hm
  exact absurd this (by decide)

/-- No two items look alike. -/
theorem Item.spans_injective : Function.Injective Item.spans := by
  intro i i' h
  -- The first span tells the kinds apart, except the two that begin with a colon.
  cases i with
  | className n =>
    cases i' with
    | className n' => rw [Label.ext (List.cons.inj h).2]
    | _ => exact absurd (List.cons.inj h).1 (by decide)
  | identifier n =>
    cases i' with
    | identifier n' => rw [Label.ext (List.cons.inj h).2]
    | _ => exact absurd (List.cons.inj h).1 (by decide)
  | static n =>
    cases i' with
    | static n' => rw [PlainName.ext (List.cons.inj h).2]
    | functional m a => exact absurd h (n.cons_ne m a)
    | _ => exact absurd (List.cons.inj h).1 (by decide)
  | attributeTest b =>
    cases i' with
    | attributeTest b' => rw [Body.ext (List.append_cancel_right (List.cons.inj h).2)]
    | _ => exact absurd (List.cons.inj h).1 (by decide)
  | functional n a =>
    cases i' with
    | functional n' a' =>
      obtain ⟨hname, hargument⟩ := eq_of_append_delimiter (by decide)
        (Compound.not_delimits_of_lower n.lower) (Compound.not_delimits_of_lower n'.lower)
        (List.cons.inj h).2
      rw [FunctionName.eq_of_spans hname, Argument.ext (List.append_cancel_right hargument)]
    | static m => exact absurd h.symm (m.cons_ne n a)
    | _ => exact absurd (List.cons.inj h).1 (by decide)

/-- No two layouts look alike: from the end of the same spans the same item is taken off. -/
theorem eq_of_append {t t' : TagPart} {r r' : List Item}
    (h : t.spans ++ r.flatMap Item.spans = t'.spans ++ r'.flatMap Item.spans) : t = t' ∧ r = r' := by
  -- Both layouts are read from their end, and one reader gives one result.
  have hlast : ∀ (t : TagPart) (r : List Item) (i : Item),
      Compound.readItem? [] (t.spans ++ (r ++ [i]).flatMap Item.spans).reverse =
        .ok (some (i.item, (t.spans ++ r.flatMap Item.spans).reverse)) := by
    intro t r i
    rw [List.flatMap_append, List.flatMap_singleton, ← List.append_assoc, i.readItem?_append]
  induction r using List.reverseRecOn generalizing r' with
  | nil =>
    rw [List.flatMap_nil, List.append_nil] at h
    rcases List.eq_nil_or_concat r' with rfl | ⟨r', i', rfl⟩
    · rw [List.flatMap_nil, List.append_nil] at h
      exact ⟨TagPart.ext h, rfl⟩
    · have hread := t.readItem? []
      rw [h, List.concat_eq_append, hlast] at hread
      cases hread
  | append_singleton r i ih =>
    have hread := hlast t r i
    rw [h] at hread
    rcases List.eq_nil_or_concat r' with rfl | ⟨r', i', rfl⟩
    · rw [List.flatMap_nil, List.append_nil, t'.readItem?] at hread
      cases hread
    · rw [List.concat_eq_append] at h hread ⊢
      rw [hlast] at hread
      have hfront : t.spans ++ r.flatMap Item.spans = t'.spans ++ r'.flatMap Item.spans := by
        have := (Prod.mk.inj (Option.some.inj (Except.ok.inj hread))).2
        exact (List.reverse_injective this).symm
      obtain ⟨rfl, rfl⟩ := ih hfront
      rw [List.flatMap_append, List.flatMap_append, List.flatMap_singleton, List.flatMap_singleton,
        ← List.append_assoc, ← List.append_assoc] at h
      rw [Item.spans_injective (List.append_cancel_left h)]
      exact ⟨rfl, rfl⟩

theorem spans_injective : Function.Injective spans := by
  rintro ⟨t, r⟩ ⟨t', r'⟩ h
  obtain ⟨rfl, rfl⟩ := eq_of_append h
  rfl

/-! ## The reader and the layouts

A single token has no relation, and combinators are not compounds; every other token is scanned. -/

/-- A token that is no combinator is read exactly if it has a layout. It has at most one, and it is
read as what that says. -/
theorem readAt_exactly {token : Text} (h : Combinator.ofToken? token = none) :
    ((∃ result, Compound.readAt [token] 0 = .ok result) ↔
        ∃ l : Layout, Span.resolve? token = some l.spans) ∧
      (∀ l : Layout, Span.resolve? token = some l.spans →
        Compound.readAt [token] 0 = .ok (some (l.compound .unstated))) ∧
      ∀ l l' : Layout, Span.resolve? token = some l.spans → Span.resolve? token = some l'.spans →
        l = l' := by
  have hread : Compound.readAt [token] 0 = (Compound.scan .unstated token).map some := by
    show Compound.read none token = _
    rw [Compound.read_eq, h]
    rfl
  have hcomplete : ∀ l : Layout, Span.resolve? token = some l.spans →
      Compound.readAt [token] 0 = .ok (some (l.compound .unstated)) := by
    intro l hl
    rw [hread, scan_spans hl]
    rfl
  refine ⟨⟨?_, ?_⟩, hcomplete, ?_⟩
  · rintro ⟨result, hresult⟩
    rw [hread] at hresult
    obtain ⟨c, hc, -⟩ := Except.map_eq_ok hresult
    exact exists_layout_of_scan hc
  · rintro ⟨l, hl⟩
    exact ⟨_, hcomplete l hl⟩
  · intro l l' hl hl'
    exact spans_injective (Option.some.inj (hl.symm.trans hl'))

theorem readAt_exactly_note :
    Combinator.ofToken? "p.note:Not(.a)".toList = none ∧
      Compound.readAt ["p.note:Not(.a)".toList] 0 = .ok (some {
        tag := "p".toList
        attributes := ["class~=\"note\"".toList]
        pseudos := ["not(.a)".toList] }) := by
  have h : Combinator.ofToken? "p.note:Not(.a)".toList = none := rfl
  have hargument : Balanced (fun _ => true) [Span.plain '.', Span.plain 'a'] :=
    .plain (by decide) (by decide) (by decide) rfl
      (.plain (by decide) (by decide) (by decide) rfl .nil)
  refine ⟨h, (readAt_exactly h).2.1
    { tag := ⟨"p".toList.map Span.plain, .inr (by decide)⟩
      items := [
        .className ⟨"note".toList.map Span.plain, by decide, by decide⟩,
        .functional ⟨"Not".toList.map Span.plain, .not, rfl⟩ ⟨_, hargument, rfl⟩] } rfl⟩

end Layout

end TreeQuery
