import TreeQuery.Proofs.Pattern.Balanced

/-!
# Scanning a compound

A compound is read from its end. Each kind of item is found behind whatever stands in front of it,
because the span that begins it is the last one that could: no name contains a delimiter, no body of
a test an opening bracket, and the parentheses of an argument have their counterparts. A word has no
item, so that it makes no difference that words are not scanned.

Main statements: `readItem?_named`, `readItem?_bracket` and `readItem?_functional`, the kinds of
items, and `read_eq`, every token but a combinator may be scanned.
-/

namespace TreeQuery

/-! ## Characters of names

The names of pseudo-classes are compared in small letters, while the spans have the letters as
written. That no delimiter is in such a name is seen after lowering: a delimiter stays what it is
when letters are lowered, and none is in the names to compare with. -/

namespace Text

/-- A small ASCII character stays where it is. -/
theorem mem_lowerFrom {c : Char} (hc : c.toNat < 0x80) (hl : c.toLower = c) {s : Text} (h : c ∈ s)
    (before : Text) : c ∈ lowerFrom before s := by
  induction s generalizing before with
  | nil => cases h
  | cons d r ih =>
    rw [lowerFrom, List.mem_append]
    rcases List.mem_cons.1 h with rfl | h
    · left
      rw [smallForm, if_pos hc, hl]
      exact List.mem_singleton.2 rfl
    · exact .inr (ih h _)

end Text

namespace Compound

theorem delimits_iff {s : Span} :
    delimits s = true ↔ s.escaped = false ∧ s.char ∈ ".#:[]()".toList := by
  simp [delimits]

/-- No character of a delimiter is a letter, a hyphen or a character of a tag. -/
theorem not_delimits_of_isTagChar {s : Span} (h : s.escaped = false → isTagChar s.char = true) :
    delimits s = false := by
  by_contra hd
  obtain ⟨he, hm⟩ := delimits_iff.1 (eq_true_of_ne_false hd)
  have hall : ".#:[]()".toList.all (!isTagChar ·) = true := by decide
  have hc := List.all_eq_true.1 hall _ hm
  rw [h he] at hc
  cases hc

/-- Letters may stand in a tag. -/
theorem isTagChar_of_isLetter {c : Char} (h : Text.isLetter c = true) : isTagChar c = true := by
  by_cases hc : c.toNat < 0x80
  · rw [Text.isLetter_eq_isAlpha hc] at h
    simp [isTagChar, Char.isAlphanum, h]
  · simp [isTagChar, Nat.le_of_not_lt hc]

/-- The name of a pseudo-class has no delimiter. -/
theorem not_delimits_of_namesPseudoClass {name : List Span}
    (h : namesPseudoClass (Span.text name) = true) : ∀ s ∈ name, delimits s = false := by
  intro s hs
  apply not_delimits_of_isTagChar
  intro _
  have hm : s.char ∈ Span.text name := List.mem_map_of_mem hs
  unfold namesPseudoClass at h
  split at h
  · next c d r he =>
    rw [Bool.and_eq_true, List.all_eq_true] at h
    rw [he] at hm
    rcases List.mem_cons.1 hm with hc | hm
    · exact isTagChar_of_isLetter (hc ▸ h.1)
    · have := h.2 _ hm
      rw [Bool.or_eq_true, decide_eq_true_iff] at this
      rcases this with hl | hl
      · exact isTagChar_of_isLetter hl
      · rw [hl]; decide
  · cases h

/-- The name of a pseudo-class with an argument has no delimiter. -/
theorem not_delimits_of_lower {name : List Span} {f : FunctionalPseudo}
    (h : Text.lower (Span.text name) = f.name) : ∀ s ∈ name, delimits s = false := by
  intro s hs
  by_contra hd
  obtain ⟨-, hm⟩ := delimits_iff.1 (eq_true_of_ne_false hd)
  have hsmall : ".#:[]()".toList.all
      (fun c => decide (c.toNat < 0x80 ∧ c.toLower = c ∧ c ∉ f.name)) = true := by
    cases f <;> decide
  obtain ⟨h1, h2, h3⟩ := of_decide_eq_true (List.all_eq_true.1 hsmall _ hm)
  apply h3
  rw [← h]
  exact Text.mem_lowerFrom h1 h2 (List.mem_map_of_mem hs) []

end Compound

/-! ## Kinds of items

The reader looks at the last span and then goes back to a span that begins the item. For each kind
the lemma says which spans may stand between, and that anything may stand in front. Spans are taken
from the end of the reversed list, so that the lemmas on its beginning come first. -/

namespace Compound

section

variable {before name : List Span}

theorem dropWhile_reverse {p : Span → Bool} {s : Span} (hn : ∀ t ∈ name, p t = true)
    (hs : p s = false) :
    (before ++ s :: name).reverse.dropWhile p = s :: before.reverse := by
  rw [List.reverse_append, List.reverse_cons, List.append_assoc,
    List.dropWhile_append_of_pos fun t ht => hn t (List.mem_reverse.1 ht)]
  simp [hs]

/-- From the end, a name reaches back to what stands in front of it. -/
theorem takeWhile_reverse {p : Span → Bool} {s : Span} (hn : ∀ t ∈ name, p t = true)
    (hs : p s = false) :
    ((before ++ s :: name).reverse.takeWhile p).reverse = name := by
  rw [List.reverse_append, List.reverse_cons, List.append_assoc,
    List.takeWhile_append_of_pos fun t ht => hn t (List.mem_reverse.1 ht)]
  simp [hs]

end

/-- A span in which nothing ends. -/
theorem ne_of_not_delimits {s : Span} (h : delimits s = false) {c : Char}
    (hc : delimits (Span.plain c) = true) : s ≠ Span.plain c := by
  rintro rfl
  rw [h] at hc
  cases hc

section

/-! What stands in front of an item makes no difference. -/

variable (token : Text) (before : List Span) {name a : List Span}

/-- A name is found behind its delimiter. -/
theorem readItem?_named (hne : name ≠ []) (hn : ∀ s ∈ name, delimits s = false) {d : Char}
    (hd : delimits (Span.plain d) = true) :
    readItem? token (before ++ Span.plain d :: name).reverse =
      (namedItem token d (Span.text name)).map fun item => some (item, before.reverse) := by
  have hn' : ∀ s ∈ name, (!delimits s) = true := fun s hs => by simp [hn s hs]
  have hdrop : (before ++ Span.plain d :: name).reverse.dropWhile (!delimits ·) =
      Span.plain d :: before.reverse := dropWhile_reverse hn' (by simp [hd])
  have htake : ((before ++ Span.plain d :: name).reverse.takeWhile (!delimits ·)).reverse = name :=
    takeWhile_reverse hn' (by simp [hd])
  obtain ⟨s, r, hr⟩ : ∃ s r, (before ++ Span.plain d :: name).reverse = s :: r := by
    cases h : (before ++ Span.plain d :: name).reverse with
    | nil => simp at h
    | cons s r => exact ⟨s, r, rfl⟩
  -- The last span belongs to the name, so that no bracket and no parenthesis ends there.
  have hs : delimits s = false := by
    obtain ⟨n, t, ht⟩ := List.exists_cons_of_ne_nil (l := name.reverse) (by simpa using hne)
    rw [List.reverse_append, List.reverse_cons, ht] at hr
    simp only [List.cons_append] at hr
    rw [← (List.cons.inj hr).1]
    exact hn n (List.mem_reverse.1 (ht ▸ List.mem_cons_self))
  rw [hr] at hdrop htake ⊢
  rw [readItem?, if_neg (ne_of_not_delimits hs (by decide)),
    if_neg (ne_of_not_delimits hs (by decide)), hdrop]
  simp only
  rw [htake]
  rfl

/-- An attribute test is found between its brackets. -/
theorem readItem?_bracket (ha : ∀ s ∈ a, s ≠ Span.plain '[') :
    readItem? token (before ++ Span.plain '[' :: (a ++ [Span.plain ']'])).reverse =
      .ok (some (.attribute (Span.text a), before.reverse)) := by
  have hr : (before ++ Span.plain '[' :: (a ++ [Span.plain ']'])).reverse =
      Span.plain ']' :: (before ++ Span.plain '[' :: a).reverse := by simp
  have ha' : ∀ s ∈ a, decide (s ≠ Span.plain '[') = true := fun s hs => by simp [ha s hs]
  rw [hr, readItem?, if_neg (by decide), if_pos rfl, takeBracket,
    dropWhile_reverse ha' (by simp), takeWhile_reverse ha' (by simp)]
  rfl

/-- A pseudo-class with parentheses is found between its colon and its closing parenthesis, whatever
stands between the parentheses; it is at fault if nothing does. -/
theorem readItem?_parentheses {p : Char → Bool} {f : FunctionalPseudo}
    (hf : Text.lower (Span.text name) = f.name) (ha : Balanced p a) :
    readItem? token (before ++ Span.plain ':' :: (name ++
        Span.plain '(' :: (a ++ [Span.plain ')']))).reverse =
      if Text.isAllBlank (Span.source a) then .error (.missingPseudoArgument token)
      else .ok (some (.pseudo (f.name ++ '(' :: Span.source a ++ [')']), before.reverse)) := by
  -- From the end: the closing parenthesis, the argument, the opening one, the name.
  have hr : (before ++ Span.plain ':' :: (name ++
      Span.plain '(' :: (a ++ [Span.plain ')']))).reverse =
      Span.plain ')' :: (a.reverse ++
        Span.plain '(' :: (before ++ Span.plain ':' :: name).reverse) := by
    simp
  have hn : ∀ s ∈ name, (!delimits s) = true := fun s hs => by
    simp [not_delimits_of_lower hf s hs]
  have hne : (Span.text name).isEmpty = false := by
    cases name with
    | nil => cases f <;> cases hf
    | cons s r => rfl
  rw [hr, readItem?, if_pos rfl, takeFunctional, ha.splitArgument?_opened]
  simp only
  rw [dropWhile_reverse hn (by decide), takeWhile_reverse hn (by decide)]
  simp only [hf, hne, FunctionalPseudo.ofName?_name, List.reverse_reverse]
  cases Text.isAllBlank (Span.source a) <;> rfl

/-- A pseudo-class with an argument is found. -/
theorem readItem?_functional {p : Char → Bool} {f : FunctionalPseudo}
    (hf : Text.lower (Span.text name) = f.name) (ha : Balanced p a)
    (hb : Text.isAllBlank (Span.source a) = false) :
    readItem? token (before ++ Span.plain ':' :: (name ++
        Span.plain '(' :: (a ++ [Span.plain ')']))).reverse =
      .ok (some (.pseudo (f.name ++ '(' :: Span.source a ++ [')']), before.reverse)) := by
  rw [readItem?_parentheses token before hf ha, hb, if_neg Bool.false_ne_true]

end

section

variable {token : Text} {a : List Span}

/-- Nothing but a tag is left where nothing ends. -/
theorem readItem?_tag (token : Text) (ha : ∀ s ∈ a, delimits s = false) :
    readItem? token a.reverse = .ok none := by
  cases hr : a.reverse with
  | nil => rfl
  | cons s r =>
    have hs : delimits s = false := ha s (List.mem_reverse.1 (hr ▸ List.mem_cons_self))
    have hd : (s :: r).dropWhile (!delimits ·) = [] := by
      rw [← hr, List.dropWhile_eq_nil_iff]
      exact fun t ht => by simp [ha t (List.mem_reverse.1 ht)]
    rw [readItem?, if_neg (ne_of_not_delimits hs (by decide)),
      if_neg (ne_of_not_delimits hs (by decide)), hd]

/-- An item at the end is taken off. -/
theorem readItems_of_some {spans rest : List Span} {item : Item} {read : List Item}
    (h : readItem? token spans = .ok (some (item, rest))) :
    readItems token spans read = readItems token rest (item :: read) := by
  rw [readItems]
  split <;> simp_all

/-- Where no item ends, the rest is the tag. -/
theorem readItems_of_none {spans : List Span} {read : List Item}
    (h : readItem? token spans = .ok none) : readItems token spans read = .ok (spans, read) := by
  rw [readItems]
  split <;> simp_all

/-- Items in a row are read one after the other, from the last one. -/
theorem readItems_flatMap {α : Type} {spans : α → List Span} {item : α → Item}
    (h : ∀ i before, readItem? token (before ++ spans i).reverse =
      .ok (some (item i, before.reverse))) (r : List α) (read : List Item) :
    readItems token (a ++ r.flatMap spans).reverse read =
      readItems token a.reverse (r.map item ++ read) := by
  induction r generalizing a with
  | nil => rw [List.flatMap_nil, List.append_nil, List.map_nil, List.nil_append]
  | cons i r ih =>
    rw [List.flatMap_cons, ← List.append_assoc, ih, readItems_of_some (h i a)]
    rfl

end

end Compound

/-! ## Words

A token of letters is taken as a tag at once by the program. Scanning it would have come to the
same, so that a compound can be taken as scanned in all proofs. -/

namespace Compound

/-- Without backslashes every character is plain. -/
theorem resolve?_plain {t : Text} (h : '\\' ∉ t) :
    Span.resolve? t = some (t.map Span.plain) := by
  induction t with
  | nil => rfl
  | cons c r ih =>
    obtain ⟨hc, hr⟩ := not_or.1 (List.mem_cons.not.1 h)
    rw [Span.resolve?_plain_cons (Ne.symm hc), ih hr]
    rfl

/-- A word is scanned as its own tag. -/
theorem scan_of_isWord {token : Text} (h : isWord token = true) (relation : Relation) :
    scan relation token = .ok { tag := token, relation } := by
  rw [isWord, Bool.and_eq_true, List.all_eq_true] at h
  have htag : ∀ c ∈ token, isTagChar c = true := fun c hc => isTagChar_of_isLetter (h.2 c hc)
  have hplain : '\\' ∉ token := fun hm => absurd (htag _ hm) (by decide)
  have hspans : ∀ s ∈ token.map Span.plain, delimits s = false := by
    intro s hs
    obtain ⟨c, hc, rfl⟩ := List.mem_map.1 hs
    exact not_delimits_of_isTagChar fun _ => htag c hc
  have htext : Span.text (token.map Span.plain) = token := by
    simp [Span.text, Span.plain, Function.comp_def]
  have htagOf : tagOf token (token.map Span.plain) = .ok token := by
    rw [tagOf, htext]
    split
    · next he => rw [he]
    · rw [if_pos]
      rw [List.all_eq_true]
      intro s hs
      obtain ⟨c, hc, rfl⟩ := List.mem_map.1 hs
      simp [Span.plain, htag c hc]
  rw [scan, resolve?_plain hplain]
  simp only [readItems_of_none (readItem?_tag token hspans), List.reverse_reverse, htagOf, bind,
    Except.bind]
  rfl

/-- A combinator is a single character. -/
theorem ofToken?_eq_none_of_length {token : Text} (h : 1 < token.length) :
    Combinator.ofToken? token = none := by
  cases hk : Combinator.ofToken? token with
  | none => rfl
  | some k =>
    rw [Combinator.ofToken?_eq_some_iff.1 hk] at h
    exact absurd h (Nat.lt_irrefl 1)

/-- Every token but a combinator may be scanned. -/
theorem read_eq (before : Option Text) (token : Text) :
    read before token =
      if (Combinator.ofToken? token).isSome then .ok none
      else (scan (relationAfter before) token).map some := by
  rw [read]
  split
  · rfl
  · split
    · next hw => rw [scan_of_isWord hw]; rfl
    · rfl

end Compound

end TreeQuery
