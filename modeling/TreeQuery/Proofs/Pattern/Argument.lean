import TreeQuery.Proofs.Pattern.Reading

/-!
# Arguments

The selectors that stand in a selector, as its alternatives or in the arguments of its
pseudo-classes, are shorter than the selector itself. Hence the recursion of reading ends on its
own, and the bound on its depth makes no difference.

Main statements: `Compound.length_lt_of_read`, the argument of a pseudo-class is shorter than the
compound that it belongs to, and `Selector.chain_eq`, a selector is read by reading the selectors in
its arguments.
-/

namespace TreeQuery

/-! ## Pieces of a text

The pieces of a text and the separators between them make up the text. This bounds the length of
each piece, strictly if there is a separator. -/

namespace Pieces

theorem length_le_of_mem_toList {p : Pieces} {t : Text} (h : t ∈ p.toList) :
    t.length ≤ p.join.length := by
  simp only [toList, List.mem_append, List.mem_map, List.mem_singleton] at h
  obtain ⟨⟨u, s⟩, hu, rfl⟩ | rfl := h
  · obtain ⟨a, b, hab⟩ := List.append_of_mem hu
    rw [join, hab]
    simp only [List.flatMap_append, List.flatMap_cons, List.length_append, List.length_cons]
    omega
  · simp [join]

/-- Of several pieces each is shorter than the whole, since there is a separator besides. -/
theorem length_lt_of_mem_toList {p : Pieces} {t : Text} (h : t ∈ p.toList)
    (hp : 1 < p.toList.length) : t.length < p.join.length := by
  obtain ⟨ended, last⟩ := p
  simp only [toList, List.length_append, List.length_map, List.length_singleton] at hp
  simp only [toList, List.mem_append, List.mem_map, List.mem_singleton] at h
  obtain ⟨⟨u, s⟩, hu, rfl⟩ | rfl := h
  · obtain ⟨a, b, rfl⟩ := List.append_of_mem hu
    simp only [join, List.flatMap_append, List.flatMap_cons, List.length_append,
      List.length_singleton]
    omega
  · cases ended with
    | nil => simp at hp
    | cons e r =>
      simp only [join, List.flatMap_cons, List.length_append, List.length_singleton]
      omega

end Pieces

/-- Trimming makes nothing longer. -/
theorem Text.length_trim_le (s : Text) : (Text.trim s).length ≤ s.length := by
  have h : (Text.trimEnd (Text.trimStart s)).length ≤ (Text.trimStart s).length := by
    have := (List.dropWhile_suffix Text.isBlank (l := (Text.trimStart s).reverse)).length_le
    rwa [List.length_reverse, ← List.length_reverse] at this
  exact Nat.le_trans h (List.dropWhile_suffix _).length_le

namespace Selector

/-- An alternative is no longer than the selector. -/
theorem length_le_of_mem_alternatives {s t : Text} (h : t ∈ alternatives s) :
    t.length ≤ s.length := by
  obtain ⟨u, hu, rfl⟩ := List.mem_map.1 h
  have := Pieces.length_le_of_mem_toList hu
  rw [Pieces.join_cut] at this
  exact Nat.le_trans (Text.length_trim_le u) this

/-- Of several alternatives each is shorter. -/
theorem length_lt_of_mem_alternatives {s t : Text} (h : t ∈ alternatives s)
    (hs : 1 < (alternatives s).length) : t.length < s.length := by
  obtain ⟨u, hu, rfl⟩ := List.mem_map.1 h
  have := Pieces.length_lt_of_mem_toList hu (by simpa [alternatives] using hs)
  rw [Pieces.join_cut] at this
  exact Nat.lt_of_le_of_lt (Text.length_trim_le u) this

/-- A token is no longer than the selector. -/
theorem length_le_of_mem_tokens {s t : Text} (h : t ∈ tokens s) : t.length ≤ s.length := by
  have := Pieces.length_le_of_mem_toList (List.mem_filter.1 h).1
  rwa [Pieces.join_cut] at this

end Selector

/-! ## Fragments of pseudo-classes

The scanner puts a name and an argument together to a fragment, and the reader divides the fragment
again. `ofFragment?_fragment` says that this gives back what was put together, and
`ofFragment?_eq_none` that nothing without a parenthesis is taken for such a fragment. -/

namespace FunctionalPseudo

/-- What stands in parentheses is found there. -/
theorem argument?_parentheses {argument : Text} (h : argument ≠ []) :
    argument? ('(' :: argument ++ [')']) = some argument := by
  have hr : argument.reverse ≠ [] := by simpa using h
  obtain ⟨c, r, hcr⟩ := List.exists_cons_of_ne_nil hr
  have ha : argument = (c :: r).reverse := by rw [← hcr, List.reverse_reverse]
  simp [argument?, ha]

/-- The name in front is found. -/
theorem splitWord?_name (p : FunctionalPseudo) (s : Text) :
    splitWord? p.name (p.name ++ s) = some (p.name, s) := by
  cases p <;> rfl

/-- The name and the argument are found. -/
theorem split?_name (p : FunctionalPseudo) {argument : Text} (h : argument ≠ []) :
    split? p.name (p.name ++ '(' :: argument ++ [')']) = some (p.name, argument) := by
  have ha := argument?_parentheses h
  rw [List.cons_append] at ha
  rw [split?, List.append_assoc, splitWord?_name]
  simp only [List.cons_append, ha, Option.map_some]

/-- The fragment of a pseudo-class with an argument is understood as that pseudo-class. -/
theorem ofFragment?_fragment (p : FunctionalPseudo) {argument : Text} (h : argument ≠ []) :
    ofFragment? (p.name ++ '(' :: argument ++ [')']) = some (p, argument) := by
  have hp := split?_name p h
  unfold ofFragment?
  cases p with
  | not => rw [hp]; rfl
  | contains =>
    have hn : split? not.name (contains.name ++ '(' :: argument ++ [')']) = none := rfl
    rw [hn, hp]; rfl
  | has =>
    have hn : split? not.name (has.name ++ '(' :: argument ++ [')']) = none := rfl
    have hc : split? contains.name (has.name ++ '(' :: argument ++ [')']) = none := rfl
    rw [hn, hc, hp]; rfl

/-- An argument begins at a parenthesis. -/
theorem mem_of_argument? {s a : Text} (h : argument? s = some a) : '(' ∈ s := by
  cases s with
  | nil => cases h
  | cons c r =>
    by_cases hc : c = '('
    · simp [hc]
    · simp [argument?, hc] at h

/-- What is behind a word belongs to the text. -/
theorem mem_of_splitWord? {word s a b : Text} (h : splitWord? word s = some (a, b)) {c : Char}
    (hc : c ∈ b) : c ∈ s := by
  induction word generalizing s a b with
  | nil => simp [splitWord?] at h; simpa [h] using hc
  | cons l w ih =>
    cases s with
    | nil => simp [splitWord?] at h
    | cons d s =>
      simp only [splitWord?] at h
      split at h
      · obtain ⟨⟨a', b'⟩, h', he⟩ := Option.map_eq_some_iff.1 h
        cases he
        exact List.mem_cons_of_mem _ (ih h' hc)
      · cases h

theorem mem_of_split? {word s : Text} {x : Text × Text} (h : split? word s = some x) : '(' ∈ s := by
  unfold split? at h
  split at h
  · next w r hw =>
    obtain ⟨a, ha, -⟩ := Option.map_eq_some_iff.1 h
    exact mem_of_splitWord? hw (mem_of_argument? ha)
  · cases h

/-- Without an opening parenthesis there is no argument. -/
theorem ofFragment?_eq_none {f : Text} (h : '(' ∉ f) : ofFragment? f = none := by
  have hn : ∀ word : Text, split? word f = none := by
    intro word
    cases hs : split? word f with
    | none => rfl
    | some x => exact absurd (mem_of_split? hs) h
  simp [ofFragment?, hn]

end FunctionalPseudo

/-! ## Small forms

The name of a pseudo-class without an argument is turned into small letters, by a table of Unicode.
That no parenthesis comes out of this has to be told from the table: a run of the table that leads
beyond the parenthesis does not lead to it. -/

namespace Text

theorem ofNat_ne {n : Nat} {d : Char} (h : d.toNat < n) (hd : d ≠ '\x00') : Char.ofNat n ≠ d := by
  intro he
  by_cases hv : n.isValidChar
  · have : (Char.ofNat n).toNat = n := by
      rw [Char.ofNat, dif_pos hv]; rfl
    rw [he] at this
    omega
  · rw [Char.ofNat, dif_neg hv] at he
    exact hd he.symm

/-- Runs that lead beyond a character do not lead to it. -/
theorem shift_ne {runs : Runs} {c d : Char} (hd : d ≠ '\x00')
    (h : ∀ r ∈ runs, (d.toNat : Int) < r.1 + r.2.2.2) (hc : c ≠ d) : runs.shift c ≠ d := by
  induction runs with
  | nil => exact hc
  | cons r rest ih =>
    obtain ⟨first, last, step, offset⟩ := r
    have hr := h _ List.mem_cons_self
    simp only at hr
    rw [Runs.shift]
    split
    · next hin =>
      simp only [Bool.and_eq_true, decide_eq_true_eq] at hin
      exact ofNat_ne (by omega) hd
    · exact ih fun r hr => h r (List.mem_cons_of_mem _ hr)

/-- Among the first characters it is told from each. -/
theorem toLower_ne_parenthesis {c : Char} (hc : c.toNat < 0x80) (h : c ≠ '(') :
    c.toLower ≠ '(' := by
  have hall : ∀ n < 0x80, Char.ofNat n ≠ '(' → (Char.ofNat n).toLower ≠ '(' := by decide
  have := hall c.toNat hc
  rw [Char.ofNat_toNat] at this
  exact this h

/-- No small form of another character is an opening parenthesis. -/
theorem notMem_smallForm {before after : Text} {c : Char} (h : c ≠ '(') :
    '(' ∉ smallForm before c after := by
  unfold smallForm
  split
  · next hc => simpa using (toLower_ne_parenthesis hc h).symm
  · split
    · split <;> decide
    · split
      · decide
      · have : smallRuns.shift c ≠ '(' := shift_ne (by decide) (by decide +kernel) h
        simpa using this.symm

/-- No small form of a text without an opening parenthesis has one. -/
theorem notMem_lowerFrom {s : Text} (h : '(' ∉ s) (before : Text) : '(' ∉ lowerFrom before s := by
  induction s generalizing before with
  | nil => exact h
  | cons c r ih =>
    rw [List.mem_cons, not_or] at h
    rw [lowerFrom, List.mem_append, not_or]
    exact ⟨notMem_smallForm (Ne.symm h.1), ih h.2 _⟩

end Text

/-- Nor has the name of a pseudo-class. -/
theorem Compound.notMem_of_namesPseudoClass {n : Text} (h : namesPseudoClass n = true) :
    '(' ∉ Text.lower n := by
  apply Text.notMem_lowerFrom
  unfold namesPseudoClass at h
  split at h
  · next c d r =>
    simp only [Bool.and_eq_true, List.all_eq_true] at h
    intro hm
    rcases List.mem_cons.1 hm with rfl | hm
    · exact absurd h.1 (by decide)
    · exact absurd (h.2 _ hm) (by decide)
  · cases h

/-! ## Arguments are shorter

The reader goes through the spans of a token from the end. What it has read is kept as items and
what is left is a suffix of the spans, so that an argument is at most as long as what has been taken
off. Lengths are those of the source, with backslashes, as the argument is source again. -/

/-- Sources are put together. -/
theorem Span.length_source_append (a b : List Span) :
    (source (a ++ b)).length = (source a).length + (source b).length := by
  simp [source]

theorem Span.length_source_reverse (a : List Span) :
    (source a.reverse).length = (source a).length := by
  induction a with
  | nil => rfl
  | cons s r ih =>
    rw [List.reverse_cons, length_source_append, ih, ← List.singleton_append (l := r),
      length_source_append]
    omega

theorem Span.length_source_le_of_suffix {a b : List Span} (h : a <:+ b) :
    (source a).length ≤ (source b).length := by
  obtain ⟨c, rfl⟩ := h
  rw [length_source_append]; omega

namespace Compound

def Item.IsWithin (n : Nat) : Item → Prop
  | .attribute _ => True
  | .pseudo f => '(' ∉ f ∨ ∃ (p : FunctionalPseudo) (argument : Text),
      f = p.name ++ '(' :: argument ++ [')'] ∧ argument ≠ [] ∧ argument.length < n

theorem Item.IsWithin.mono {n k : Nat} (h : n ≤ k) {i : Item} (hi : i.IsWithin n) :
    i.IsWithin k := by
  match i, hi with
  | .attribute _, _ => trivial
  | .pseudo _, .inl hf => exact .inl hf
  | .pseudo _, .inr ⟨p, a, hf, ha, hl⟩ => exact .inr ⟨p, a, hf, ha, by omega⟩

theorem isWithin_of_readItem? {token : Text} {spans rest : List Span} {item : Item}
    (h : readItem? token spans = .ok (some (item, rest))) :
    item.IsWithin (Span.source spans).length ∧ rest <:+ spans := by
  -- An argument, a bracket, or a name.
  rcases of_readItem?_eq_ok h with ⟨before, rfl, hf⟩ | ⟨before, rfl, hb⟩ | ⟨name, d, rfl, -, hi⟩
  · obtain ⟨argument, name, p, ha, -, hblank, rfl⟩ := of_takeFunctional_eq_ok hf
    obtain rfl := eq_of_splitArgument? ha
    refine ⟨.inr ⟨p, Span.source argument.reverse, rfl, ?_, ?_⟩, ?_⟩
    · intro he
      rw [he] at hblank
      cases hblank
    · -- The parenthesis that closes the argument does not belong to it.
      have hclosing : (Span.source [Span.plain ')']).length = 1 := rfl
      rw [Span.length_source_reverse, ← List.singleton_append, Span.length_source_append, hclosing,
        Span.length_source_append]
      omega
    · have hrest : rest <:+ Span.plain '(' :: (name ++ Span.plain ':' :: rest) :=
        (List.suffix_append_of_suffix (List.suffix_cons _ _)).trans (List.suffix_cons _ _)
      exact (List.suffix_append_of_suffix hrest).trans (List.suffix_cons _ _)
  · obtain ⟨body, rfl, -, rfl⟩ := of_takeBracket_eq_ok hb
    exact ⟨trivial, (List.suffix_append_of_suffix (List.suffix_cons _ _)).trans
      (List.suffix_cons _ _)⟩
  · refine ⟨?_, List.suffix_append_of_suffix (List.suffix_cons _ _)⟩
    rcases of_namedItem_eq_ok hi with ⟨-, -, rfl⟩ | ⟨-, -, rfl⟩ | ⟨-, hn, rfl⟩
    · trivial
    · trivial
    · exact .inl (notMem_of_namesPseudoClass hn)

theorem isWithin_of_readItems {token : Text} {spans tag : List Span} {read items : List Item}
    (h : readItems token spans read = .ok (tag, items)) :
    ∀ i ∈ items, i ∈ read ∨ i.IsWithin (Span.source spans).length := by
  fun_induction readItems token spans read with
  | case1 => cases h
  | case2 => cases h; exact fun i hi => .inl hi
  | case3 spans read item rest hitem ih =>
    obtain ⟨hw, hr⟩ := isWithin_of_readItem? hitem
    intro i hi
    rcases ih h i hi with hm | hm
    · rcases List.mem_cons.1 hm with rfl | hm
      · exact .inr hw
      · exact .inl hm
    · exact .inr (hm.mono (Span.length_source_le_of_suffix hr))

/-- What a pseudo-class of a scanned compound has as its argument is shorter than the compound. -/
theorem length_lt_of_scan {relation : Relation} {token : Text} {c : Compound}
    (h : scan relation token = .ok c) {f : Text} (hf : f ∈ c.pseudos) {p : FunctionalPseudo}
    {argument : Text} (ha : FunctionalPseudo.ofFragment? f = some (p, argument)) :
    argument.length < token.length := by
  unfold scan at h
  split at h
  · cases h
  · next spans hs =>
    obtain ⟨⟨tag, items⟩, hi, h⟩ := Except.bind_eq_ok h
    obtain ⟨text, -, h⟩ := Except.bind_eq_ok h
    cases h
    obtain ⟨i, him, hif⟩ := List.mem_filterMap.1 hf
    have hw := (isWithin_of_readItems hi _ him).resolve_left (by simp)
    rw [Span.length_source_reverse, Span.source_of_resolve? hs] at hw
    -- A fragment without a parenthesis is not one with an argument; the others are divided as they
    -- were put together.
    match i, hif, hw with
    | .pseudo _, hif, .inl hn =>
      cases hif
      rw [FunctionalPseudo.ofFragment?_eq_none hn] at ha; cases ha
    | .pseudo _, hif, .inr ⟨p', a', hf, hne, hl⟩ =>
      cases hif
      rw [hf, FunctionalPseudo.ofFragment?_fragment p' hne] at ha
      cases ha; exact hl

/-- What a pseudo-class of a compound has as its argument is shorter than the compound. -/
theorem length_lt_of_read {before : Option Text} {token : Text} {c : Compound}
    (h : read before token = .ok (some c)) {f : Text} (hf : f ∈ c.pseudos) {p : FunctionalPseudo}
    {argument : Text} (ha : FunctionalPseudo.ofFragment? f = some (p, argument)) :
    argument.length < token.length := by
  unfold read at h
  split at h
  · cases h
  · split at h
    · cases h
      cases hf
    · obtain ⟨d, hs, he⟩ := Except.map_eq_ok h
      cases he
      exact length_lt_of_scan hs hf ha

/-- The relation of a compound is told by the token in front. -/
theorem relation_of_read {before : Option Text} {token : Text} {c : Compound}
    (h : read before token = .ok (some c)) : c.relation = relationAfter before := by
  unfold read at h
  split at h
  · cases h
  · split at h
    · cases h
      rfl
    · obtain ⟨d, hs, he⟩ := Except.map_eq_ok h
      cases he
      unfold scan at hs
      split at hs
      · cases hs
      · obtain ⟨⟨tag, items⟩, -, hs⟩ := Except.bind_eq_ok hs
        obtain ⟨text, -, hs⟩ := Except.bind_eq_ok hs
        cases hs
        rfl

/-- Each compound is read from some token. -/
theorem exists_of_mem_readAfter {before : Option Text} {tokens : List Text} {cs : List Compound}
    (h : readAfter before tokens = .ok cs) {c : Compound} (hc : c ∈ cs) :
    ∃ b token, token ∈ tokens ∧ read b token = .ok (some c) := by
  induction tokens generalizing before cs with
  | nil => cases h; simp at hc
  | cons token rest ih =>
    obtain ⟨first, hr, h⟩ := Except.bind_eq_ok h
    obtain ⟨others, hs, h⟩ := Except.bind_eq_ok h
    cases h
    rcases List.mem_append.1 hc with hm | hm
    · exact ⟨before, token, List.mem_cons_self, by rw [hr, Option.mem_toList.1 hm]⟩
    · obtain ⟨b, t, ht, hb⟩ := ih hs hm
      exact ⟨b, t, List.mem_cons_of_mem _ ht, hb⟩

/-- A token that is a combinator is never empty, so that no compound is read with a blank relation.
-/
theorem relation_ne_blank_of_mem_readAfter {before : Option Text} {tokens : List Text}
    {cs : List Compound} (h : readAfter before tokens = .ok cs) {c : Compound} (hc : c ∈ cs) :
    c.relation ≠ .blank := by
  obtain ⟨b, token, -, hread⟩ := exists_of_mem_readAfter h hc
  rw [relation_of_read hread, relationAfter]
  split <;> nofun

/-- Every relation but the blank one begins a step, as its combinator does. -/
theorem axis?_of_ne_blank {r : Relation} (h : r ≠ .blank) :
    axis? r = some (Pattern.axis (Pattern.combinator? r)) := by
  cases r with
  | unstated => rfl
  | blank => exact absurd rfl h
  | stated k => cases k <;> rfl

end Compound

/-! ## Reading depends on the arguments alone

How a selector is read is a function of how the selectors in its arguments are. Each level of the
reading has a lemma that says so, and the last one puts them together with what is known about
lengths. -/

theorem Except.mapM_congr {ε α β : Type} {l : List α} {f g : α → Except ε β}
    (h : ∀ a ∈ l, f a = g a) : l.mapM f = l.mapM g := by
  induction l with
  | nil => rfl
  | cons a r ih =>
    rw [List.mapM_cons, List.mapM_cons, h a List.mem_cons_self,
      ih fun b hb => h b (List.mem_cons_of_mem _ hb)]

namespace Pattern

variable {f g : Text → Except SelectorError Chain}

/-- A condition depends on the alternatives of its argument. -/
theorem Condition.read_congr {fragment : Text}
    (h : ∀ p argument, FunctionalPseudo.ofFragment? fragment = some (p, argument) →
      ∀ t ∈ Selector.alternatives argument, f t = g t) :
    Condition.read f fragment = Condition.read g fragment := by
  unfold Condition.read
  split
  · next a ha => rw [Except.mapM_congr (h _ _ ha)]
  · rfl
  · next a ha =>
    have : ∀ t ∈ Selector.alternatives a, Relative.read f t = Relative.read g t := by
      intro t ht
      rw [Relative.read, Relative.read, h _ _ ha t ht]
    rw [Except.mapM_congr this]
  · rfl

/-- An element depends on its conditions. -/
theorem Element.read_congr {c : TreeQuery.Compound}
    (h : ∀ fragment ∈ c.pseudos, ∀ p argument,
      FunctionalPseudo.ofFragment? fragment = some (p, argument) →
      ∀ t ∈ Selector.alternatives argument, f t = g t) :
    Element.read f c = Element.read g c := by
  rw [Element.read, Element.read,
    Except.mapM_congr fun fragment hf => Condition.read_congr (h fragment hf)]

/-- The rest of a chain depends on its elements. -/
theorem Chain.extend_congr {cs : List TreeQuery.Compound}
    (h : ∀ c ∈ cs, Element.read f c = Element.read g c) (before : Chain) :
    Chain.extend f before cs = Chain.extend g before cs := by
  induction cs generalizing before with
  | nil => rfl
  | cons c r ih =>
    have hr := ih fun d hd => h d (List.mem_cons_of_mem _ hd)
    rw [Chain.extend, Chain.extend, h c List.mem_cons_self]
    cases Element.read g c with
    | error e => rfl
    | ok e => exact hr _

/-- A chain depends on its elements. -/
theorem Chain.read_congr {cs : List TreeQuery.Compound}
    (h : ∀ c ∈ cs, Element.read f c = Element.read g c) : Chain.read f cs = Chain.read g cs := by
  cases cs with
  | nil => rfl
  | cons c r =>
    rw [Chain.read, Chain.read, h c List.mem_cons_self]
    cases Element.read g c with
    | error e => rfl
    | ok e =>
      show (do return some (← Chain.extend f _ r)) = (do return some (← Chain.extend g _ r))
      rw [Chain.extend_congr fun d hd => h d (List.mem_cons_of_mem _ hd)]

/-- How a selector is read depends on how shorter selectors are. -/
theorem Chain.ofText_congr {s : Text} (h : ∀ t : Text, t.length < s.length → f t = g t) :
    Chain.ofText f s = Chain.ofText g s := by
  unfold Chain.ofText
  split
  · rfl
  · cases hc : TreeQuery.Compound.readChain (Selector.tokens s) with
    | error e => rfl
    | ok cs =>
      have : Chain.read f cs = Chain.read g cs := by
        apply Chain.read_congr
        intro c hm
        apply Element.read_congr
        intro fragment hf p argument ha t ht
        obtain ⟨b, token, htoken, hb⟩ := Compound.exists_of_mem_readAfter hc hm
        have h1 := Selector.length_le_of_mem_tokens htoken
        have h2 := Compound.length_lt_of_read hb hf ha
        have h3 := Selector.length_le_of_mem_alternatives ht
        exact h t (by omega)
      simp only [bind, Except.bind, this]

end Pattern

/-! ## The bound makes no difference

By induction on the bound: a selector that is shorter than both bounds is read in the same way with
either, as the selectors in its arguments are shorter than what is left of them. -/

namespace Selector

open Pattern

theorem chainWithin_eq {s : Text} {n k : Nat} (hn : s.length < n) (hk : s.length < k) :
    chainWithin n s = chainWithin k s := by
  induction n generalizing s k with
  | zero => omega
  | succ n ih =>
    cases k with
    | zero => omega
    | succ k => exact Chain.ofText_congr fun t ht => ih (by omega) (by omega)

/-- A selector is read by reading the selectors in its arguments. -/
theorem chain_eq (s : Text) : chain s = Chain.ofText chain s :=
  Chain.ofText_congr fun t ht => chainWithin_eq (by omega) (by omega)

end Selector

end TreeQuery
