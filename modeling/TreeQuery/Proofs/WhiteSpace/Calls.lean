import TreeQuery.Proofs.Compound.Splitting
import TreeQuery.Proofs.WhiteSpace.Runs

/-!
# Pseudo-classes with other arguments

A pseudo-class with parentheses stands somewhere in a token. The reader comes to it from the end of
the token; what it takes off before are items, unless one of them begins inside of the pseudo-class
or in front of it, such as a test whose brackets are around it. If there is none, the pseudo-class
is taken off as one item, with whatever stands in its parentheses. The rest of the token is read
without regard to that.

Main statements: `Layout.exists_items_of_call` and `Layout.uncrossed_of_unclosed`.
-/

namespace TreeQuery

open Pattern

namespace Layout

/-! ## Items around a pseudo-class

That no item crosses is said of all items that there could be and not of those in a layout, since
the token with another argument has another layout. What is asked can be decided from the spans in
front and the text behind. -/

/-- A pseudo-class with some spans in its parentheses, whatever they are. -/
def call (n : FunctionName) (a : List Span) : List Span :=
  .plain ':' :: (n.spans ++ .plain '(' :: (a ++ [.plain ')']))

/-- No item begins in what stands in front and ends in what stands behind. -/
def Uncrossed (front : List Span) (behind : Text) : Prop :=
  ∀ (i : Item) (u v : List Span) (t : Text), u ≠ [] → u <:+ front → v ≠ [] → t <+: behind →
    Span.resolve? t = some v → i.spans ≠ u ++ v

section

variable {front back a : List Span} {behind : Text} {n : FunctionName}

theorem Uncrossed.mono {front' : List Span} {behind' : Text} (h : Uncrossed front behind)
    (hfront : front' <:+ front) (hbehind : behind' <+: behind) : Uncrossed front' behind' :=
  fun i u v t hu hsuffix hv hbegins => h i u v t hu (hsuffix.trans hfront) hv (hbegins.trans hbehind)

/-- Where no item crosses, the items are some in front and some behind. The induction is on the
items, the first of which stands in front unless nothing does. -/
theorem exists_append_of_uncrossed (hback : ∀ s ∈ back, s.escaped = false → s.char ≠ '\\')
    (h : Uncrossed front (Span.source back)) {items : List Item}
    (he : items.flatMap Item.spans = front ++ back) :
    ∃ l r, items = l ++ r ∧ l.flatMap Item.spans = front ∧ r.flatMap Item.spans = back := by
  induction items generalizing front with
  | nil =>
    obtain ⟨rfl, rfl⟩ := List.append_eq_nil_iff.1 he.symm
    exact ⟨[], [], rfl, rfl, rfl⟩
  | cons i r ih =>
    -- The first item ends in front of the place, or goes on behind it.
    rw [List.flatMap_cons, List.append_eq_append_iff] at he
    rcases he with ⟨front', rfl, hr⟩ | ⟨v, hi, rfl⟩
    · obtain ⟨l, r', rfl, rfl, hr'⟩ := ih (h.mono (List.suffix_append _ _) (List.prefix_refl _)) hr
      exact ⟨i :: l, r', rfl, rfl, hr'⟩
    · by_cases hfront : front = []
      · subst hfront
        exact ⟨[], i :: r, rfl, rfl, by rw [List.flatMap_cons, hi, List.nil_append]⟩
      by_cases hv : v = []
      · subst hv
        rw [List.append_nil] at hi
        exact ⟨[i], r, rfl, by rw [List.flatMap_singleton, hi], rfl⟩
      · -- The item would begin in front and end behind.
        have hresolve : Span.resolve? (Span.source v) = some v :=
          Span.resolve?_source fun s hs => hback s (List.mem_append_left _ hs)
        have hbegins : Span.source v <+: Span.source (v ++ r.flatMap Item.spans) := by
          rw [Span.source_append]
          exact List.prefix_append _ _
        exact absurd hi (h i front v _ hfront List.suffix_rfl hv hbegins hresolve)

/-- A pseudo-class is taken off with what stands in its parentheses only if that is not blank. -/
theorem isAllBlank_of_readItem?_call (ha : Balanced (fun _ => true) a)
    {o : Option (Compound.Item × List Span)} {token : Text}
    (h : Compound.readItem? token (front ++ call n a).reverse = .ok o) :
    Text.isAllBlank (Span.source a) = false := by
  by_contra hblank
  rw [call, Compound.readItem?_parentheses token front n.lower ha, eq_true_of_ne_false hblank,
    if_pos rfl] at h
  cases h

/-- In a layout a pseudo-class that no item crosses is an item. -/
theorem exists_items_of_call {l : Layout} (ha : Balanced (fun _ => true) a)
    (hback : ∀ s ∈ back, s.escaped = false → s.char ≠ '\\')
    (h : Uncrossed (front ++ call n a) (Span.source back))
    (hl : l.spans = front ++ call n a ++ back) :
    ∃ (hblank : Text.isAllBlank (Span.source a) = false) (r r' : List Item),
      l.items = r ++ .functional n ⟨a, ha, hblank⟩ :: r' ∧
      l.tag.spans ++ r.flatMap Item.spans = front ∧ r'.flatMap Item.spans = back := by
  have hclosing : Span.plain ')' ∈ front ++ call n a := by simp [call]
  -- The tag has no parenthesis, so that it ends in front.
  have htag : ∀ rest, l.tag.spans ≠ front ++ call n a ++ rest := by
    intro rest he
    have hm : Span.plain ')' ∈ l.tag.spans := by
      rw [he]
      exact List.mem_append_left _ hclosing
    exact absurd (l.tag.undelimited _ hm) (by decide)
  rw [spans, List.append_eq_append_iff] at hl
  rcases hl with ⟨front', hfront, hitems⟩ | ⟨rest, he, -⟩
  swap
  · exact absurd he (htag rest)
  have hcrossed : Uncrossed front' (Span.source back) := by
    apply h.mono _ (List.prefix_refl _)
    rw [hfront]
    exact List.suffix_append _ _
  obtain ⟨p, r', hp, rfl, hr'⟩ := exists_append_of_uncrossed hback hcrossed hitems
  rcases List.eq_nil_or_concat p with rfl | ⟨r, i, rfl⟩
  · rw [List.flatMap_nil, List.append_nil] at hfront
    exact absurd (by rw [hfront, List.append_nil]) (htag [])
  rw [List.concat_eq_append, List.flatMap_append, List.flatMap_singleton, ← List.append_assoc]
    at hfront
  -- The last item in front is what the reader finds there, which is the pseudo-class.
  have hread := i.readItem?_append [] (l.tag.spans ++ r.flatMap Item.spans)
  rw [← hfront] at hread
  have hblank := isAllBlank_of_readItem?_call ha hread
  have hcall := (Item.functional n ⟨a, ha, hblank⟩).readItem?_append [] front
  have hbefore : front = l.tag.spans ++ r.flatMap Item.spans := by
    have he := Option.some.inj (Except.ok.inj (hcall.symm.trans hread))
    exact List.reverse_injective (Prod.mk.inj he).2
  refine ⟨hblank, r, r', ?_, hbefore.symm, hr'⟩
  rw [hbefore] at hfront
  have hi : i = .functional n ⟨a, ha, hblank⟩ :=
    Item.spans_injective (List.append_cancel_left hfront).symm
  rw [hp, hi, List.concat_eq_append, List.append_assoc, List.singleton_append]

end

/-- What ends with the last of some spans, and goes on behind them, has that last span inside. -/
theorem mem_of_suffix {s : Span} {u r : List Span} (hu : u ≠ []) (h : u <:+ r ++ [s]) :
    s ∈ u := by
  obtain ⟨z, hz⟩ := h
  have hlast := congrArg List.getLast? hz
  rw [List.getLast?_append_of_ne_nil _ hu, List.getLast?_concat] at hlast
  exact List.mem_of_getLast? hlast

/-- Where nothing closes behind a pseudo-class, no item crosses it: what begins in front would have
the closing parenthesis of the pseudo-class in its name. -/
theorem uncrossed_of_unclosed (hparenthesis : ')' ∉ behind) (hbracket : ']' ∉ behind) :
    Uncrossed (front ++ call n a) behind := by
  intro i u v t hu hsuffix hv hbegins hresolve he
  have hclosing : Span.plain ')' ∈ u := by
    have hcall : front ++ call n a =
        (front ++ .plain ':' :: (n.spans ++ .plain '(' :: a)) ++ [.plain ')'] := by simp [call]
    rw [hcall] at hsuffix
    exact mem_of_suffix hu hsuffix
  have hbehind : ∀ s ∈ v, s.char ∈ behind := by
    intro s hs
    apply hbegins.subset
    rw [← Span.source_of_resolve? hresolve]
    exact List.mem_flatMap.2 ⟨s, hs, by rw [Span.written]; split <;> simp⟩
  have hname {d : Char} {name : List Span} (hd : d ≠ ')')
      (hname : ∀ s ∈ name, Compound.delimits s = false) (hi : .plain d :: name = u ++ v) :
      False := by
    have hm : Span.plain ')' ∈ .plain d :: name := by
      rw [hi]
      exact List.mem_append_left _ hclosing
    rcases List.mem_cons.1 hm with hc | hm
    · exact hd (congrArg Span.char hc).symm
    · exact absurd (hname _ hm) (by decide)
  have hend {d : Char} {r : List Span} (hd : d ∉ behind) (hi : r ++ [.plain d] = u ++ v) :
      False := by
    have hm : Span.plain d ∈ v := by
      apply mem_of_suffix hv (r := r)
      rw [hi]
      exact List.suffix_append _ _
    exact hd (hbehind _ hm)
  -- An item with a name has no parenthesis in it; a test ends with a bracket and a pseudo-class
  -- with a parenthesis, neither of which stands behind.
  cases i with
  | className n => exact hname (by decide) n.undelimited he
  | identifier n => exact hname (by decide) n.undelimited he
  | static n =>
    exact hname (by decide) (Compound.not_delimits_of_namesPseudoClass n.names) he
  | attributeTest body =>
    apply hend hbracket (r := .plain '[' :: body.spans)
    rw [← he]
    rfl
  | functional m arg =>
    apply hend hparenthesis (r := .plain ':' :: (m.spans ++ .plain '(' :: arg.spans))
    rw [← he]
    simp [Item.spans]

/-! ## Names

Nothing in a pseudo-class but its argument could divide a selector, so that with a balanced argument
it is balanced. -/

/-- The name of a pseudo-class with an argument has no backslash. -/
theorem FunctionName.ne_backslash (n : FunctionName) : ∀ s ∈ n.spans, s.char ≠ '\\' := by
  intro s hs hc
  have hm : '\\' ∈ Text.lower (Span.text n.spans) := by
    apply Text.mem_lowerFrom (by decide) (by decide)
    rw [← hc]
    exact List.mem_map_of_mem hs
  rw [n.lower] at hm
  cases hp : n.pseudo <;> rw [hp] at hm <;> exact absurd hm (by decide)

/-- Spans of a name are balanced. -/
theorem balanced_of_not_delimits {a : List Span} (h : ∀ s ∈ a, Compound.delimits s = false)
    (hb : ∀ s ∈ a, s.char ≠ '\\') : Balanced (fun _ => true) a := by
  induction a with
  | nil => exact .nil
  | cons s r ih =>
    obtain ⟨hs, hr⟩ := List.forall_mem_cons.1 h
    obtain ⟨hsb, hrb⟩ := List.forall_mem_cons.1 hb
    obtain ⟨c, escaped⟩ := s
    cases escaped with
    | true => exact .escaped c (ih hr hrb)
    | false =>
      apply Balanced.plain hsb _ _ rfl (ih hr hrb)
      · rintro rfl
        exact absurd hs (by decide)
      · rintro rfl
        exact absurd hs (by decide)

/-- A pseudo-class with a balanced argument is balanced. -/
theorem balanced_call (n : FunctionName) {a : List Span} (ha : Balanced (fun _ => true) a) :
    Balanced (fun _ => true) (call n a) := by
  have hname : Balanced (fun _ => true) n.spans :=
    balanced_of_not_delimits (Compound.not_delimits_of_lower n.lower) n.ne_backslash
  exact .plain (by decide) (by decide) (by decide) rfl (hname.append (.parentheses ha .nil))

end Layout

end TreeQuery
