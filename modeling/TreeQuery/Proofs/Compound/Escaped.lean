import Mathlib.Data.List.DropRight
import TreeQuery.Proofs.Compilation.Calls
import TreeQuery.Proofs.Compilation.Levels
import TreeQuery.Proofs.Compound.Layout

/-!
# Escaped names

A backslash in front of every character of a name takes all of them literally, so that the name is
one item of one compound, whatever its characters are. The item is a fragment with the name between
quotes, and that fragment is read again: the quotes at the ends of the name are taken for quotes
around it, and a quote inside of it ends it.

Main statements: `Selector.outcome_escaped`, what a selector of one escaped name is compiled to, and
`Selector.outcome_escaped_fails`, a name that loses a quotation mark.
-/

namespace TreeQuery

open SelectorError

/-! ## Values and quotes

A value is read by taking quotes off in front, then the characters that are no quotes, then quotes
again. For a text that ends in a quotation mark this is the same as taking off the quotes at both
ends, and asking whether one is left inside. The second form is the one in which the outcome can be
stated: it does not mention how the reader goes along. -/

namespace AttributeTest

/-- A text without the quotes at its ends. -/
def unquoted (t : Text) : Text := (t.dropWhile isQuote).rdropWhile isQuote

/-- The value that a text has between the quotes at its ends; none if a quote is left in it. -/
def unquoted? (t : Text) : Option Text :=
  if (unquoted t).any isQuote then none else some (unquoted t)

/-- There is nothing to take off a text without quotes. -/
theorem unquoted_of_noQuote {t : Text} (h : ∀ c ∈ t, isQuote c = false) : unquoted t = t := by
  have hfront : t.dropWhile isQuote = t := by
    cases t with
    | nil => rfl
    | cons c r => rw [List.dropWhile_cons_of_neg (by simp [h c List.mem_cons_self])]
  rw [unquoted, hfront, List.rdropWhile_eq_self_iff]
  intro hne
  simp [h _ (List.getLast_mem hne)]

/-- A text is its own value exactly if it has no quotes. -/
theorem unquoted?_eq_self_iff {t : Text} : unquoted? t = some t ↔ ∀ c ∈ t, isQuote c = false := by
  rw [unquoted?]
  constructor
  · intro h c hc
    split at h
    · cases h
    · next hany =>
      rw [Option.some.inj h] at hany
      by_contra hq
      exact hany (List.any_eq_true.2 ⟨c, hc, eq_true_of_ne_false hq⟩)
  · intro h
    have hany : ¬ t.any isQuote = true := by simpa using h
    rw [unquoted_of_noQuote h, if_neg hany]

/-- More quotes around a text make no difference. -/
theorem unquoted_between (t : Text) : unquoted ('"' :: t ++ ['"']) = unquoted t := by
  have hquote : isQuote '"' = true := by decide
  rw [unquoted, List.cons_append, List.dropWhile_cons_of_pos hquote, List.dropWhile_append]
  split
  · next h =>
    have h : t.dropWhile isQuote = [] := by simpa using h
    rw [unquoted, h]
    rfl
  · rw [List.rdropWhile_concat_pos _ _ _ hquote]
    rfl

/-- Where the quotes of a text are all behind its other characters, both ways to tell them apart
come to the same. -/
theorem parts_of_append {v k : Text} (hv : ∀ c ∈ v, isQuote c = false)
    (hk : ∀ c ∈ k, isQuote c = true) :
    (v ++ k).takeWhile (!isQuote ·) = v ∧ (v ++ k).dropWhile (!isQuote ·) = k ∧
      (v ++ k).rdropWhile isQuote = v := by
  have hv' : ∀ c ∈ v, (!isQuote c) = true := fun c hc => by simp [hv c hc]
  refine ⟨?_, ?_, ?_⟩
  · rw [List.takeWhile_append_of_pos hv']
    cases k with
    | nil => exact List.append_nil v
    | cons c r => simp [hk c List.mem_cons_self]
  · rw [List.dropWhile_append_of_pos hv']
    cases k with
    | nil => rfl
    | cons c r => simp [hk c List.mem_cons_self]
  · rw [List.rdropWhile, List.reverse_append,
      List.dropWhile_append_of_pos fun c hc => hk c (List.mem_reverse.1 hc)]
    show v.rdropWhile isQuote = v
    rw [List.rdropWhile_eq_self_iff]
    intro hne
    simp [hv _ (List.getLast_mem hne)]

/-- A value is what stands between the quotes at the ends. That a line feed may stand behind them
matters only where the last character is one. -/
theorem readValue?_eq {t : Text} (h : t.getLast? ≠ some '\n') : readValue? t = unquoted? t := by
  rw [readValue?, unquoted?, unquoted]
  have hsuffix := List.dropWhile_suffix isQuote (l := t)
  generalize t.dropWhile isQuote = s at hsuffix ⊢
  by_cases hrest : (s.dropWhile (!isQuote ·)).dropWhile isQuote = []
  · have hk := List.dropWhile_eq_nil_iff.1 hrest
    have hv : ∀ c ∈ s.takeWhile (!isQuote ·), isQuote c = false := by
      intro c hc
      simpa using List.mem_takeWhile_imp hc
    have hparts := (parts_of_append hv hk).2.2
    rw [List.takeWhile_append_dropWhile] at hparts
    have hany : ¬ (s.takeWhile (!isQuote ·)).any isQuote = true := by simpa using hv
    rw [hparts, hrest, if_neg hany]
    rfl
  · have hfeed : (s.dropWhile (!isQuote ·)).dropWhile isQuote ≠ ['\n'] := by
      intro hfeed
      obtain ⟨front, hfront⟩ := ((List.dropWhile_suffix _).trans (List.dropWhile_suffix _)).trans hsuffix
      rw [hfeed] at hfront
      exact h (by rw [← hfront]; simp)
    -- Otherwise all quotes would be at the end, and there would be no rest.
    have hany : (s.rdropWhile isQuote).any isQuote = true := by
      by_contra hany
      have hv : ∀ c ∈ s.rdropWhile isQuote, isQuote c = false := by simpa using hany
      have hk : ∀ c ∈ s.rtakeWhile isQuote, isQuote c = true := fun c => List.mem_rtakeWhile_imp
      have hparts := (parts_of_append hv hk).2.1
      rw [List.rdropWhile_append_rtakeWhile] at hparts
      rw [hparts, List.dropWhile_eq_nil_iff] at hrest
      exact hrest hk
    rw [if_pos hany]
    simp [hrest, hfeed]

/-- What is read from between quotation marks. -/
theorem readValue?_between (t : Text) : readValue? ('"' :: t ++ ['"']) = unquoted? t := by
  have hlast : ('"' :: t ++ ['"']).getLast? = some '"' := List.getLast?_concat
  rw [readValue?_eq (by rw [hlast]; decide), unquoted?, unquoted_between]
  rfl

end AttributeTest

/-! ## A name with its escapes

Every character of an escaped name is taken literally, by the splitter as well as by the reader of
compounds. So whatever the characters are, nothing separates in it, nothing delimits, and no
parenthesis is opened or closed. -/

namespace Span

/-- The spans of a name of which every character is escaped. -/
def shielded (n : Text) : List Span := n.map fun c => ⟨c, true⟩

def escape (n : Text) : Text := n.flatMap fun c => ['\\', c]

theorem source_shielded (n : Text) : source (shielded n) = escape n := by
  rw [source, shielded, List.flatMap_map]
  rfl

theorem text_shielded (n : Text) : text (shielded n) = n := by
  rw [text, shielded, List.map_map]
  exact List.map_id n

/-- Nothing in an escaped name is a parenthesis, a separator or a delimiter. -/
theorem balanced_shielded (p : Char → Bool) (n : Text) : Balanced p (shielded n) := by
  induction n with
  | nil => exact .nil
  | cons c n ih => exact .escaped c ih

end Span

namespace Layout

/-- An escaped name is the name of a class or an identifier. -/
def Label.ofName (n : Text) (hn : n ≠ []) : Label where
  spans := Span.shielded n
  ne_nil := by
    intro h
    exact hn (List.map_eq_nil_iff.1 h)
  undelimited := by
    intro s hs
    obtain ⟨c, -, rfl⟩ := List.mem_map.1 hs
    rfl

def single (i : Item) : Layout where
  tag := ⟨[], .inr nofun⟩
  items := [i]

theorem spans_single (i : Item) : (single i).spans = i.spans := by
  simp [single, spans]

end Layout

/-! ## One compound alone

The selector is a layout of one item without a tag. It is one alternative, one token, and one
compound; and it is compiled without any other selector, at every level alike. -/

namespace Selector

variable {spans : List Span} {p : Char → Bool}

/-- Balanced spans outside of whose parentheses nothing separates are one token. -/
theorem tokens_source (h : Balanced p spans) (hp : ∀ c, p c = true → isSeparator c = false)
    (hne : Span.source spans ≠ []) : tokens (Span.source spans) = [Span.source spans] := by
  have hcut := h.cut_append hp (Int.le_refl 0) []
  rw [List.append_nil] at hcut
  rw [tokens, hcut]
  show [Span.source spans ++ []].filter (!·.isEmpty) = _
  simp [hne]

/-- If none of them is a comma, they are one alternative. -/
theorem length_alternatives_source (h : Balanced p spans)
    (hp : ∀ c, p c = true → (c == ',') = false) :
    (alternatives (Span.source spans)).length = 1 := by
  have hcut := h.cut_append hp (Int.le_refl 0) []
  rw [List.append_nil] at hcut
  rw [alternatives, hcut]
  rfl

end Selector

namespace Compound

/-- A compound that is one attribute test is the step to any element with the predicate of the test.
-/
theorem locationPath_test (compile : Text → Compilation Text) (f : Text) :
    locationPath compile [{ attributes := [f] }] =
      Compilation.ofExcept ((attributePredicate f).map ("//*".toList ++ ·)) := by
  cases h : attributePredicate f with
  | error e =>
    simp only [locationPath, appendChain, appendStep, axis?, appendItems, appendTests, h]
    rfl
  | ok x =>
    simp only [locationPath, appendChain, appendStep, axis?, appendItems, appendTests, h]
    have hjoin : ["//".toList, ['*'], x].flatten = "//*".toList ++ x := by simp
    exact congrArg (pure (f := Compilation)) hjoin

end Compound

namespace Selector

section

variable {i : Layout.Item} {sign : Char} {f n : Text}

/-- A name behind a sign is compiled without any other selector. -/
theorem compileUncached_escaped (hspans : i.spans = .plain sign :: Span.shielded n)
    (hattribute : i.attribute? = some f) (hpseudo : i.pseudo? = none)
    (hsign : sign = '#' ∨ sign = '.') (hn : n ≠ []) (compile : Text → Compilation Text) :
    compileUncached compile (sign :: Span.escape n) =
      Compilation.ofExcept ((attributePredicate f).map ("//*".toList ++ ·)) := by
  have hsource : Span.source (Layout.single i).spans = sign :: Span.escape n := by
    rw [Layout.spans_single, hspans, Span.source_cons, Span.source_shielded]
    rfl
  -- The sign in front separates nothing either.
  have hbalanced : Balanced (fun c => c == '#' || c == '.') (Layout.single i).spans := by
    rw [Layout.spans_single, hspans]
    have hrest := Span.balanced_shielded (fun c => c == '#' || c == '.') n
    rcases hsign with rfl | rfl
    · exact .plain (by decide) (by decide) (by decide) rfl hrest
    · exact .plain (by decide) (by decide) (by decide) rfl hrest
  have htokens := tokens_source hbalanced (by simp [isSeparator]) (by simp [hsource])
  have halternatives := length_alternatives_source hbalanced (by simp)
  rw [hsource] at htokens halternatives
  have hblank : Text.isAllBlank (sign :: Span.escape n) = false := by
    rcases hsign with rfl | rfl <;> rfl
  have htoken : Combinator.ofToken? (sign :: Span.escape n) = none := by
    obtain ⟨c, r, rfl⟩ := List.exists_cons_of_ne_nil hn
    rcases hsign with rfl | rfl <;> rfl
  have hresolve : Span.resolve? (sign :: Span.escape n) = some (Layout.single i).spans :=
    hsource ▸ hbalanced.resolve?_source
  have hcompound : (Layout.single i).compound .unstated = { attributes := [f] } := by
    simp [Layout.compound, Layout.single, hattribute, hpseudo, Span.text]
  have hread : Compound.readChain [sign :: Span.escape n] = .ok [{ attributes := [f] }] := by
    have hscan := Layout.scan_spans hresolve (Compound.relationAfter none)
    rw [Compound.readChain, Compound.readAfter, Compound.read_eq, htoken, hscan]
    show Except.ok ((some ((Layout.single i).compound .unstated)).toList ++ []) = _
    rw [hcompound]
    rfl
  rw [compileUncached_single hblank halternatives, htokens, hread]
  exact Compound.locationPath_test compile f

end

end Selector

/-! ## The fragments of names

The fragment is the name between quotation marks, behind the name of an attribute and its operator.
It is read by the reader of all attribute tests, to which the quotes of the name look like quotes
around it. -/

section

variable (n : Text)

/-- The predicate for an identifier compares with what is left of the name. -/
theorem attributePredicate_identifier :
    attributePredicate ("id=\"".toList ++ n ++ ['"']) =
      match AttributeTest.unquoted? n with
      | none => .error (.malformedAttribute ("id=\"".toList ++ n ++ ['"']))
      | some v => .ok ("[@id='".toList ++ v ++ "']".toList) := by
  have hsplit : AttributeTest.splitName? ("id=\"".toList ++ n ++ ['"']) =
      some ("id".toList, '=' :: ('"' :: n ++ ['"'])) := rfl
  have hoperator : AttributeTest.splitOperator? ('=' :: ('"' :: n ++ ['"'])) =
      some (.equals, '"' :: n ++ ['"']) := rfl
  rw [attributePredicate, AttributeTest.ofFragment?, hsplit]
  simp only [hoperator, AttributeTest.readValue?_between]
  cases AttributeTest.unquoted? n with
  | none => rfl
  | some v =>
    have hpredicate : AttributeTest.predicate ⟨"id".toList, some (.equals, v)⟩ =
        "[@id='".toList ++ v ++ "']".toList := by
      simp [AttributeTest.predicate, AttributeOperator.failsOnEmpty, AttributeTest.literal]
    exact congrArg Except.ok hpredicate

/-- The predicate for a class asks for what is left of the name as a word; the empty word is in no
list. -/
theorem attributePredicate_className :
    attributePredicate ("class~=\"".toList ++ n ++ ['"']) =
      match AttributeTest.unquoted? n with
      | none => .error (.malformedAttribute ("class~=\"".toList ++ n ++ ['"']))
      | some [] => .ok "[false()]".toList
      | some v => .ok ("[contains(concat(' ', normalize-space(@class), ' '), ' ".toList ++ v ++
          " ')]".toList) := by
  have hsplit : AttributeTest.splitName? ("class~=\"".toList ++ n ++ ['"']) =
      some ("class".toList, "~=".toList ++ ('"' :: n ++ ['"'])) := rfl
  have hoperator : AttributeTest.splitOperator? ("~=".toList ++ ('"' :: n ++ ['"'])) =
      some (.word, '"' :: n ++ ['"']) := rfl
  rw [attributePredicate, AttributeTest.ofFragment?, hsplit]
  simp only [hoperator, AttributeTest.readValue?_between]
  cases AttributeTest.unquoted? n with
  | none => rfl
  | some v =>
    cases v with
    | nil => rfl
    | cons c r =>
      have hpredicate : AttributeTest.predicate ⟨"class".toList, some (.word, c :: r)⟩ =
          "[contains(concat(' ', normalize-space(@class), ' '), ' ".toList ++ (c :: r) ++
            " ')]".toList := by
        simp [AttributeTest.predicate, AttributeOperator.failsOnEmpty, AttributeTest.literal]
      exact congrArg Except.ok hpredicate

end

/-! ## What is compiled

The predicate is put behind the step to any element, and the limit is met only if it is negative. -/

namespace Selector

open AttributeTest (unquoted? isQuote)

variable {n : Text} {m : Memory}

theorem outcome_identifier (hn : n ≠ []) (settings : Settings) (hm : m.cache.Sound) :
    (compile settings ('#' :: Span.escape n)).outcome m =
      if settings.maxDepth < 0 then .error (.nestingTooDeep ('#' :: Span.escape n) 0)
      else (attributePredicate ("id=\"".toList ++ n ++ ['"'])).map ("//*".toList ++ ·) := by
  have hitem : (Layout.Item.identifier (.ofName n hn)).attribute? =
      some ("id=\"".toList ++ n ++ ['"']) := by
    show some ("id=\"".toList ++ Span.text (Span.shielded n) ++ ['"']) = _
    rw [Span.text_shielded]
  apply outcome_of_uncached
  · exact ((Compound.ofText_attributePredicate _).map _).not_tooDeep
  · exact compileUncached_escaped rfl hitem rfl (.inl rfl) hn
  · exact hm

theorem outcome_className (hn : n ≠ []) (settings : Settings) (hm : m.cache.Sound) :
    (compile settings ('.' :: Span.escape n)).outcome m =
      if settings.maxDepth < 0 then .error (.nestingTooDeep ('.' :: Span.escape n) 0)
      else (attributePredicate ("class~=\"".toList ++ n ++ ['"'])).map ("//*".toList ++ ·) := by
  have hitem : (Layout.Item.className (.ofName n hn)).attribute? =
      some ("class~=\"".toList ++ n ++ ['"']) := by
    show some ("class~=\"".toList ++ Span.text (Span.shielded n) ++ ['"']) = _
    rw [Span.text_shielded]
  apply outcome_of_uncached
  · exact ((Compound.ofText_attributePredicate _).map _).not_tooDeep
  · exact compileUncached_escaped rfl hitem rfl (.inr rfl) hn
  · exact hm

/-- An identifier or a class with an escaped name is compiled to the comparison with that name less
the quotes at its ends, and has no expression if a quote is left. So the comparison is with the name
itself exactly if there are no quotes in it. -/
theorem outcome_escaped (hn : n ≠ []) (settings : Settings) (hm : m.cache.Sound) :
    ((compile settings ('#' :: Span.escape n)).outcome m =
      if settings.maxDepth < 0 then .error (.nestingTooDeep ('#' :: Span.escape n) 0)
      else match unquoted? n with
        | none => .error (.malformedAttribute ("id=\"".toList ++ n ++ ['"']))
        | some v => .ok ("//*[@id='".toList ++ v ++ "']".toList)) ∧
    ((compile settings ('.' :: Span.escape n)).outcome m =
      if settings.maxDepth < 0 then .error (.nestingTooDeep ('.' :: Span.escape n) 0)
      else match unquoted? n with
        | none => .error (.malformedAttribute ("class~=\"".toList ++ n ++ ['"']))
        | some [] => .ok "//*[false()]".toList
        | some v => .ok ("//*[contains(concat(' ', normalize-space(@class), ' '), ' ".toList ++ v ++
            " ')]".toList)) ∧
    (unquoted? n = some n ↔ ∀ c ∈ n, isQuote c = false) := by
  refine ⟨?_, ?_, AttributeTest.unquoted?_eq_self_iff⟩
  · rw [outcome_identifier hn settings hm, attributePredicate_identifier]
    cases unquoted? n <;> rfl
  · rw [outcome_className hn settings hm, attributePredicate_className]
    rcases unquoted? n with _ | _ | _ <;> rfl

theorem outcome_escaped_dot :
    "a.b".toList ≠ [] ∧ (compile {} "#\\a\\.\\b".toList).outcome {} = .ok "//*[@id='a.b']".toList := by
  have hne : "a.b".toList ≠ [] := by decide
  have hread : unquoted? "a.b".toList = some "a.b".toList := by decide
  have h := (outcome_escaped hne {} (m := {}) Cache.sound_empty).1
  rw [hread] at h
  exact ⟨hne, h⟩

/-- A name that begins with a quotation mark loses it, and nothing is left of a name that is one. -/
theorem outcome_escaped_fails :
    (compile {} ('#' :: Span.escape "\"x".toList)).outcome {} = .ok "//*[@id='x']".toList ∧
      (compile {} ('.' :: Span.escape "\"".toList)).outcome {} = .ok "//*[false()]".toList := by
  have hfront : unquoted? "\"x".toList = some "x".toList := by decide
  have hnothing : unquoted? "\"".toList = some [] := by decide
  rw [outcome_identifier (by decide) {} Cache.sound_empty, attributePredicate_identifier, hfront,
    outcome_className (by decide) {} Cache.sound_empty, attributePredicate_className, hnothing]
  exact ⟨rfl, rfl⟩

end Selector

end TreeQuery
