import TreeQuery.Proofs.Expression.Reading
import TreeQuery.Proofs.Expression.TestNames
import TreeQuery.Proofs.Pattern.Everywhere
import TreeQuery.Proofs.XPath.Astray

/-!
# What is read at all is read as it is meant

Without escapes in tags, and without apostrophes in texts, a selector cannot put anything into an
expression that means something else there. It can put in what means nothing: a tag that is no name,
an attribute whose name begins with a digit, a chain in an argument that begins among siblings or in
parentheses. Then the reader gets stuck there, however deep inside it is. So an expression that can
be read at all is the one that the pattern stands for. The one exception is a name behind the slash
that begins a path; what is read then is no set of nodes.

Main statements: `Chain.tracks_or_jams`, `isRead_of_ofText?` and `Chain.isRead_of_ofText?`.
-/

namespace TreeQuery

open XPath XPath.Expr

/-! ## Tags

A tag in a selector may have characters that a name in an expression has not: a hyphen or a digit in
front, or characters beyond ASCII that no name goes on with. In each case the reader of the
expression stops inside of the tag and meets a character with which nothing goes on. The text jams
there: whatever stands behind it, nothing is read. -/

namespace Pattern

section

variable {tag : Text}

/-- A character of a tag goes on with a name or is beyond ASCII. -/
theorem isNamePart_or_le {c : Char} (h : Compound.isTagChar c = true) :
    Text.isNamePart c = true ∨ 0x80 ≤ c.toNat := by
  by_cases hc : c.toNat < 0x80
  · have hall : ∀ n < 0x80, Compound.isTagChar (Char.ofNat n) = true →
        Text.isNamePart (Char.ofNat n) = true := by decide +kernel
    exact .inl (AttributeTest.forall_ascii
      (p := fun c => Compound.isTagChar c = true → Text.isNamePart c = true) hall hc h)
  · exact .inr (by omega)

/-- A tag that is no name does not begin with one, or goes on behind one with a character beyond
ASCII. -/
theorem jamsName_tag (h : ∀ c ∈ tag, Compound.isTagChar c = true) (hne : tag ≠ [])
    (hn : Text.isName tag = false) : JamsName tag := by
  obtain ⟨c, t, rfl⟩ := List.exists_cons_of_ne_nil hne
  refine ⟨?_⟩
  rintro r r' m ⟨p, hp⟩
  rw [readName?] at hp
  split at hp
  · next m' s hm =>
    cases hp
    rw [List.cons_append, Text.readName?] at hm
    split at hm
    · next hc =>
      cases hm
      rw [Text.isName, hc, Bool.true_and, List.all_eq_false] at hn
      have hdrop : t.dropWhile Text.isNamePart ≠ [] := by
        rw [ne_eq, List.dropWhile_eq_nil_iff]
        obtain ⟨d, hd, hpart⟩ := hn
        exact fun hall => hpart (hall d hd)
      -- The name is read up to the first character that is no part of one.
      obtain ⟨d, u, hu⟩ := List.exists_cons_of_ne_nil hdrop
      have hd : Text.isNamePart d = false := by
        have := List.head?_dropWhile_not Text.isNamePart t
        rwa [hu] at this
      have hmem : d ∈ t := (List.dropWhile_suffix _).mem (hu ▸ List.mem_cons_self)
      have hle := (isNamePart_or_le (h d (List.mem_cons_of_mem c hmem))).resolve_left (by simp [hd])
      rw [List.dropWhile_append, hu]
      simpa [isStuck] using hle
    · cases hm
  · cases hp

/-- A tag that means nothing but a tag: plain, or made of characters that stand in a compound
without escapes. -/
def IsBareTag (tag : Text) : Prop :=
  isPlainTag tag = true ∨ ∀ c ∈ tag, Compound.isTagChar c = true

/-- What a tag that is not plain is made of. -/
theorem IsBareTag.of_not_plain (h : IsBareTag tag) (hn : isPlainTag tag = false) :
    nameTest tag = tag ∧ ∃ c t, tag = c :: t ∧ Compound.isTagChar c = true ∧ JamsName tag := by
  have hall := h.resolve_left (by simp [hn])
  rw [isPlainTag, Bool.or_eq_false_iff, Bool.or_eq_false_iff] at hn
  obtain ⟨⟨hempty, -⟩, hname⟩ := hn
  have hne : tag ≠ [] := by simpa using hempty
  refine ⟨if_neg (by simp [hempty]), ?_⟩
  obtain ⟨c, t, rfl⟩ := List.exists_cons_of_ne_nil hne
  exact ⟨c, t, rfl, hall c List.mem_cons_self, jamsName_tag hall hne hname⟩

theorem IsBareTag.jamsNodeTest (h : IsBareTag tag) (hn : isPlainTag tag = false) :
    JamsNodeTest (nameTest tag) := by
  obtain ⟨heq, c, t, rfl, hc, hjams⟩ := h.of_not_plain hn
  rw [heq]
  exact hjams.nodeTest (Text.isSpace_eq_false hc (by decide)) (Text.ne_of_kind hc (by decide))

theorem IsBareTag.jamsTest (h : IsBareTag tag) (hn : isPlainTag tag = false) :
    JamsTest (nameTest tag) := by
  obtain ⟨heq, c, t, rfl, hc, hjams⟩ := h.of_not_plain hn
  rw [heq]
  exact hjams.test (Text.isSpace_eq_false hc (by decide)) ⟨Text.ne_of_kind hc (by decide),
    Text.ne_of_kind hc (by decide), Text.ne_of_kind hc (by decide), Text.ne_of_kind hc (by decide)⟩

theorem IsBareTag.head?_nameTest (h : IsBareTag tag) (r : Text) :
    (nameTest tag ++ r).head? ≠ some '/' := by
  cases hn : isPlainTag tag with
  | true => exact Pattern.head?_nameTest hn r
  | false => exact ((h.jamsTest hn).head? r).1

end

end Pattern

/-! ## Attribute tests

The name of a test can only be at fault for a digit in front. All predicates begin with the name, or
with a function that has it as its first operand, so that each of them jams if the name does; but
for the one that nothing passes, which does not have the name in it. -/

namespace AttributeTest

theorem exists_lower_cons {c : Char} {r : Text} (hc : c.isDigit = true) :
    ∃ s, Text.lower (c :: r) = c :: s := by
  have hdigit := toNat_of_isDigit hc
  have hascii : c.toNat < 0x80 := by omega
  have hall : ∀ n < 0x80, (Char.ofNat n).isDigit = true →
      (Char.ofNat n).toLower = Char.ofNat n := by decide +kernel
  have hlower : c.toLower = c :=
    forall_ascii (p := fun c => c.isDigit = true → c.toLower = c) hall hascii hc
  refine ⟨Text.lowerFrom [c] r, ?_⟩
  rw [Text.lower, Text.lowerFrom, Text.smallForm, if_pos hascii, hlower]
  rfl

/-- A name that begins with a digit cannot stand behind the sign of an attribute. -/
theorem jamsPath_attribute {c : Char} (hc : c.isDigit = true) (s : Text) :
    JamsPath ('@' :: c :: s) := by
  have hstart : Text.isNameStart c = false := by
    rw [Bool.eq_false_iff]
    intro h
    rw [isDigit_of_isNameStart h] at hc
    cases hc
  have hother : ∀ d ∈ [' ', '\t', '\n', '\r', '*'], c ≠ d := by
    rintro d hd rfl
    revert hc
    simp only [List.mem_cons, List.not_mem_nil, or_false] at hd
    rcases hd with rfl | rfl | rfl | rfl | rfl <;> decide
  simp only [List.mem_cons, List.not_mem_nil, or_false, forall_eq_or_imp, forall_eq] at hother
  -- No name begins with the digit.
  have hname : JamsName (c :: s) := by
    refine ⟨?_⟩
    rintro r r' n ⟨p, hp⟩
    rw [readName?] at hp
    split at hp
    · next hm =>
      rw [List.cons_append, Text.readName?, hstart] at hm
      cases hm
    · cases hp
  exact (hname.nodeTest (by simp [Text.isSpace, hother]) hother.2.2.2.2).subject

/-- What a test puts into an expression is read as it is meant, or fails. -/
theorem reads_or_jams {f : Text} {t : AttributeTest} (h : ofFragment? f = some t) :
    ReadsPredicate t.predicate t.expr ∨ JamsPredicate t.predicate := by
  obtain ⟨c, r, hc, hr, hname, hvalue⟩ := exists_of_ofFragment? h
  obtain ⟨n, comparison⟩ := t
  obtain rfl : n = Text.lower (c :: r) := hname
  have hquote : ∀ o v, comparison = some (o, v) → '\'' ∉ v := fun o v hv hm =>
    absurd (hvalue o v hv _ hm) (by decide)
  cases hd : c.isDigit with
  | false =>
    -- The name is one in expressions too, and no value ends its quotes.
    refine .inl (readsPredicate ?_)
    rw [isPlain, isName_lower hc hd hr, Bool.true_and]
    cases comparison with
    | none => rfl
    | some ov => simpa using hquote _ _ rfl
  | true =>
    obtain ⟨s, hs⟩ := exists_lower_cons (r := r) hd
    have hsubject : JamsPath ('@' :: Text.lower (c :: r)) := hs ▸ jamsPath_attribute hd s
    cases comparison with
    | none => exact .inr ((hsubject.operand (Nat.zero_le 6)).predicate.append _)
    | some ov =>
      obtain ⟨o, v⟩ := ov
      by_cases he : (o.failsOnEmpty && v.isEmpty) = true
      · -- The name has no part in this predicate, which nothing passes.
        have hempty := readsPredicate (t := ⟨['a'], some (o, v)⟩)
          (by simpa [isPlain] using ⟨rfl, hquote o v rfl⟩)
        simp only [predicate, expr, he, if_true] at hempty ⊢
        exact .inl hempty
      · right
        have hoperand : Jams 0 ('@' :: Text.lower (c :: r)) := hsubject.operand (Nat.zero_le 6)
        have hfirst (u : Text) := (hoperand.append u).predicate
        have hcall (f : Text) (hf : isFunctionName f = true) (u : Text) :=
          (((JamsPath.call hf (.one hoperand)).operand (Nat.zero_le 6)).append u).predicate
        cases o with
        | equals => simpa [predicate, he] using hfirst ('=' :: (literal v ++ [']']))
        | differs => simpa [predicate, he] using hfirst ('!' :: '=' :: (literal v ++ [']']))
        | part =>
          simpa [predicate, he] using hcall "contains".toList (by decide)
            (", ".toList ++ literal v ++ ")]".toList)
        | beginning =>
          simpa [predicate, he] using hcall "starts-with".toList (by decide)
            (", ".toList ++ literal v ++ ")]".toList)
        | ending =>
          simpa [predicate, he] using hfirst (" and substring(".toList ++ '@' :: Text.lower (c :: r)
            ++ ", string-length(".toList ++ '@' :: Text.lower (c :: r) ++ ")-".toList
            ++ Nat.toDigits 10 (v.length - 1) ++ ") = ".toList ++ literal v ++ [']'])
        | dashed =>
          simpa [predicate, he] using hfirst ('=' :: (literal v ++ " or starts-with(".toList
            ++ '@' :: Text.lower (c :: r) ++ ", ".toList ++ literal (v ++ ['-']) ++ ")]".toList))
        | word =>
          have hspace := (reads_literal (v := [' ']) (by decide)).operand (Nat.zero_le 6)
          have hnormal := (JamsPath.call (f := "normalize-space".toList) (by decide)
            (.one hoperand)).operand (Nat.zero_le 6)
          have hconcat := (JamsPath.call (f := "concat".toList) (by decide)
            (.more hspace (g := [' ']) rfl (.one hnormal))).operand (Nat.zero_le 6)
          have hcontains := (JamsPath.call (f := "contains".toList) (by decide)
            (.one hconcat)).operand (Nat.zero_le 6)
          have := (hcontains.append ("), ' '), ".toList ++ literal (' ' :: v ++ [' '])
            ++ ")]".toList)).predicate
          simpa [predicate, he, literal] using this

end AttributeTest

namespace Pattern

/-! ## Elements

An element is harmless if each of its parts is either read as it is meant or jams. The parts stand
one behind the other, and the first that jams makes the whole jam: what is in front of it is read,
and the reader comes to it in a state in which the part has to follow. So for a row of predicates
there are two outcomes, and the induction goes along the row. -/

/-- A condition that puts in nothing by itself that means something else. -/
def Condition.IsBare : Condition → Prop
  | .static _ => True
  | .contains t => '\'' ∉ t
  | .not cs => cs ≠ []
  | .has rs => rs ≠ []

/-- An element that puts into an expression nothing by itself that means something else there. -/
structure Element.IsHarmless (e : Element) : Prop where
  tag : IsBareTag e.tag
  tests : ∀ t ∈ e.tests, ∃ f, AttributeTest.ofFragment? f = some t
  conditions : ∀ c ∈ e.conditions, c.IsBare

/-- A harmless element that is not selected from everything matched so far. -/
structure Element.IsBare (e : Element) : Prop extends e.IsHarmless where
  unscoped : e.isResultScoped = false

/-- A predicate that is read as it is meant, or fails. -/
abbrev ReadsOrJamsPredicate (p : Text × Expr) : Prop :=
  ReadsPredicate p.1 p.2 ∨ JamsPredicate p.1

section

variable {t : Text} {start : Expr} {a : Axis} {e : Element}

/-- Predicates behind a path are all given to it, or the path jams. -/
theorem tracks_or_jams_predicates {test : NodeTest} {es : List Expr} {ps : List (Text × Expr)}
    (h : Tracks t (.step start a test es)) (hps : ∀ p ∈ ps, ReadsOrJamsPredicate p) :
    ((∀ p ∈ ps, ReadsPredicate p.1 p.2) ∧
      Tracks (t ++ ps.flatMap (·.1)) (.step start a test (es ++ ps.map (·.2)))) ∨
    JamsPath (t ++ ps.flatMap (·.1)) := by
  induction ps generalizing t es with
  | nil => exact .inl ⟨nofun, by simpa using h⟩
  | cons p ps ih =>
    rw [List.forall_mem_cons] at hps
    rw [List.flatMap_cons, ← List.append_assoc]
    -- A predicate that is read is tracked, and the reader goes on to the next.
    rcases hps.1 with hp | hp
    · refine (ih (h.given hp) hps.2).imp_left fun ⟨hread, htracks⟩ => ?_
      refine ⟨List.forall_mem_cons.2 ⟨hp, hread⟩, ?_⟩
      rw [List.map_cons, List.append_cons]
      exact htracks
    · exact .inr ((h.jams_given hp).append _)

/-- Where a path jams, it does so with conditions behind it, and with parentheses around it. -/
theorem JamsPath.withConditions (h : JamsPath t) (cs : List Condition) :
    JamsPath (withConditions t cs) := by
  induction cs generalizing t with
  | nil => exact h
  | cons c r ih =>
    refine ih ?_
    split
    · exact ((h.enclosed).append [')']).append _
    · exact h.append _

/-- Conditions behind a path are all given to it, or the path jams. -/
theorem tracks_or_jams_withConditions {p : Stretch} {cs : List Condition} (h : Tracks t p)
    (hcs : ∀ c ∈ cs, ReadsOrJamsPredicate (c.predicate, c.expr)) :
    ((∀ c ∈ cs, ReadsPredicate c.predicate c.expr) ∧
      Tracks (withConditions t cs) (givenAll p cs)) ∨ JamsPath (withConditions t cs) := by
  induction cs generalizing t p with
  | nil => exact .inl ⟨List.forall_mem_nil _, h⟩
  | cons c r ih =>
    rw [List.forall_mem_cons] at hcs
    -- A condition that selects from the whole result has the path in parentheses in front of it.
    have hinner : Tracks (if c.isResultScoped then '(' :: t ++ [')'] else t)
        (if c.isResultScoped then .set p.expr else p) := by
      split
      · exact h.enclosed
      · exact h
    rcases hcs.1 with hc | hc
    · exact (ih (hinner.given hc) hcs.2).imp_left (.imp_left fun hread =>
        List.forall_mem_cons.2 ⟨hc, hread⟩)
    · exact .inr (JamsPath.withConditions (hinner.jams hc) r)

/-- What an element puts into an expression behind its tag, as texts and as what they mean. -/
def Element.predicates (e : Element) : List (Text × Expr) :=
  e.tests.map (fun t => (t.predicate, t.expr)) ++
    e.conditions.map (fun c => (c.predicate, c.expr))

theorem Element.stretch_eq (h : e.isResultScoped = false) (start : Expr) (a : Axis)
    (es : List Expr) : e.stretch start a es =
      .step start a (testOf e.tag) (es ++ e.predicates.map (·.2)) := by
  obtain ⟨tag, tests, conditions⟩ := e
  have h : conditions.any Condition.isResultScoped = false := h
  show givenAll _ conditions = _
  rw [givenAll_step h]
  simp [predicates, Element.tag, Element.tests, Element.conditions, Function.comp_def]

/-- A text behind which a step to a tag begins: a plain tag is read as that step, and any other bare
tag jams. -/
structure Opens (head : Text) (start : Expr) (a : Axis) (tag : Text) : Prop where
  tracks : isPlainTag tag = true → Tracks (head ++ nameTest tag) (.step start a (testOf tag) [])
  jams : IsBareTag tag → isPlainTag tag = false → JamsPath (head ++ nameTest tag)

theorem opens_anywhere (tag : Text) : Opens "//".toList (descend .root) .child tag where
  tracks h := Tracks.anywhere (readsTest_tag h)
  jams h hn := (h.jamsTest hn).anywhere

theorem opens_along (a : Axis) (tag : Text) : Opens (a.name ++ "::".toList) .here a tag where
  tracks h := Tracks.along a (readsNodeTest_tag h)
  jams h hn := (h.jamsNodeTest hn).path a

/-- What may begin behind a path that is tracked. -/
theorem opens_behind {p : Stretch} (h : Tracks t p) (tag : Text) :
    Opens (t ++ axis none) (descend p.expr) .child tag ∧
      Opens (t ++ axis (some .child)) p.expr .child tag ∧
      Opens (t ++ "/following-sibling::".toList) p.expr .followingSibling tag := by
  refine ⟨⟨fun hp => ?_, fun hb hn => ?_⟩, ⟨fun hp => ?_, fun hb hn => ?_⟩,
    ⟨fun hp => ?_, fun hb hn => ?_⟩⟩
  · rw [List.append_assoc]
    exact h.below (readsTest_tag hp)
  · rw [List.append_assoc]
    exact h.jams_below (hb.jamsTest hn)
  · rw [List.append_assoc]
    exact h.onward (readsTest_tag hp)
  · rw [List.append_assoc]
    exact h.jams_onward (hb.jamsTest hn)
  · rw [List.append_assoc]
    exact h.onward (readsTest_along .followingSibling (readsNodeTest_tag hp))
  · rw [List.append_assoc]
    exact h.jams_onward ((hb.jamsNodeTest hn).along .followingSibling)

/-- The first step of a path from the document, if the tag may follow the slash. -/
theorem opens_root {tag : Text} (hm : mayFollowRoot (nameTest tag) = true) :
    Opens ['/'] .root .child tag where
  tracks h := Tracks.root (readsTest_tag h) hm
  jams h hn := (h.jamsTest hn).root hm

/-- The siblings of the document, of which there are none. -/
theorem opens_besideRoot (tag : Text) :
    Opens "/following-sibling::".toList .root .followingSibling tag where
  tracks h := Tracks.root (readsTest_along .followingSibling (readsNodeTest_tag h)) rfl
  jams h hn := ((h.jamsNodeTest hn).along .followingSibling).root rfl

/-- The next sibling of what a path that is tracked leads to. -/
theorem opens_next {p : Stretch} (h : Tracks t p) (tag : Text) :
    Opens (t ++ "/following-sibling::*[1]/self::".toList)
      (.step p.expr .followingSibling .anyName [.number (.whole 1)]) .self tag := by
  have hone : Reads true 0 ['1'] (.number (.whole 1)) := (ReadsPath.toDigits 1).operand (by decide)
  have hfirst := (h.onward (readsTest_along .followingSibling readsNodeTest_star)).given
    ⟨['1'], rfl, hone⟩
  have htext (u : Text) : t ++ "/following-sibling::*[1]/self::".toList ++ u =
      t ++ '/' :: (Axis.followingSibling.name ++ "::".toList ++ ['*']) ++ '[' :: (['1'] ++ [']']) ++
        '/' :: (Axis.self.name ++ "::".toList ++ u) := by
    have hopen : "/following-sibling::*[1]/self::".toList =
        '/' :: (Axis.followingSibling.name ++ "::".toList ++ ['*']) ++ '[' :: (['1'] ++ [']']) ++
          '/' :: (Axis.self.name ++ "::".toList) := rfl
    rw [hopen]
    simp
  refine ⟨fun hp => ?_, fun hb hn => ?_⟩
  · rw [htext]
    exact hfirst.onward (readsTest_along .self (readsNodeTest_tag hp))
  · rw [htext]
    exact hfirst.jams_onward ((hb.jamsNodeTest hn).along .self)

/-- The step for an element is read as it is meant, or jams; `ns` are predicates that come first. -/
theorem Element.tracks_or_jams (he : e.IsHarmless)
    (hc : ∀ c ∈ e.conditions, ReadsOrJamsPredicate (c.predicate, c.expr)) {head : Text}
    (h : Opens head start a e.tag) {ns : List (Text × Expr)} (hns : ∀ p ∈ ns, ReadsPredicate p.1 p.2) :
    (e.IsRead ∧ Tracks (e.appendTo head (ns.flatMap (·.1))) (e.stretch start a (ns.map (·.2)))) ∨
      JamsPath (e.appendTo head (ns.flatMap (·.1))) := by
  obtain ⟨tag, tests, conditions⟩ := e
  -- The predicates that stand in front of the conditions.
  have hfront : ∀ p ∈ ns ++ tests.map (fun t => (t.predicate, t.expr)), ReadsOrJamsPredicate p := by
    rw [List.forall_mem_append, List.forall_mem_map]
    refine ⟨fun p hp => .inl (hns p hp), fun t ht => ?_⟩
    obtain ⟨f, hf⟩ := he.tests t ht
    exact AttributeTest.reads_or_jams hf
  have htext : (mk tag tests conditions).appendTo head (ns.flatMap (·.1)) = withConditions
      (head ++ nameTest tag ++ (ns ++ tests.map (fun t => (t.predicate, t.expr))).flatMap (·.1))
      conditions := by
    rw [List.flatMap_append, List.flatMap_map, ← List.append_assoc]
    rfl
  have hstretch : (mk tag tests conditions).stretch start a (ns.map (·.2)) = givenAll
      (.step start a (testOf tag) ([] ++ (ns ++ tests.map (fun t => (t.predicate, t.expr))).map (·.2)))
      conditions := by
    rw [List.nil_append, List.map_append, List.map_map]
    rfl
  rw [htext, hstretch]
  -- A tag that is not plain jams at once, whatever stands behind it.
  cases htag : isPlainTag tag with
  | false => exact .inr (JamsPath.withConditions ((h.jams he.tag htag).append _) conditions)
  | true =>
    rcases tracks_or_jams_predicates (h.tracks htag) hfront with ⟨hread, htracks⟩ | hjams
    · rw [List.forall_mem_append, List.forall_mem_map] at hread
      exact (tracks_or_jams_withConditions htracks hc).imp_left fun ⟨hconditions, hwhole⟩ =>
        ⟨⟨htag, hread.2, hconditions⟩, hwhole⟩
    · exact .inr (JamsPath.withConditions hjams conditions)

end

/-! ## Chains and conditions

The chains in arguments are chains again, so that reading or jamming is proved of conditions,
elements and chains together. An argument adds a cause to jam of its own: the slashes of a chain are
taken away there and an axis is put in front, and behind an axis no parenthesis and no second axis
can stand. -/

theorem Element.isResultScoped_of_isBare : ∀ e : Element, e.Everywhere Element.IsBare →
    e.isResultScoped = false
  | .mk _ _ _, h => h.1.unscoped

theorem Chain.isUnscoped_of_isBare : ∀ c : Chain, c.Everywhere Element.IsBare →
    c.isUnscoped = true
  | .start _ e, h => by
    rw [isUnscoped, e.isResultScoped_of_isBare h]
    rfl
  | .link b _ e, h => by
    rw [isUnscoped, b.isUnscoped_of_isBare h.1, e.isResultScoped_of_isBare h.2]
    rfl

theorem Chain.isBareTag_first : ∀ c : Chain, c.Everywhere Element.IsHarmless →
    IsBareTag c.first.tag
  | .start _ (.mk _ _ _), h => h.1.tag
  | .link b _ _, h => b.isBareTag_first h.1

/-! ### Parentheses around a chain

A chain with an element that selects from the whole result has parentheses in front. How many there
are does not matter, only that there are some. -/

/-- Conditions put parentheses around a path, or leave it as it is. -/
theorem exists_withConditions (path : Text) (cs : List Condition) :
    ∃ k u, withConditions path cs = List.replicate k '(' ++ (path ++ u) ∧
      (cs.any Condition.isResultScoped = true → 0 < k) := by
  induction cs generalizing path with
  | nil => exact ⟨0, [], by simp [withConditions], nofun⟩
  | cons c r ih =>
    obtain ⟨k, u, hu, hk⟩ := ih ((if c.isResultScoped then '(' :: path ++ [')'] else path) ++
      c.predicate)
    have hstep : withConditions path (c :: r) = List.replicate k '(' ++
        ((if c.isResultScoped then '(' :: path ++ [')'] else path) ++ c.predicate ++ u) := hu
    cases hc : c.isResultScoped with
    | true =>
      refine ⟨k + 1, [')'] ++ c.predicate ++ u, ?_, fun _ => Nat.succ_pos k⟩
      rw [hstep, hc, List.replicate_succ']
      simp
    | false =>
      refine ⟨k, c.predicate ++ u, ?_, fun h => hk ?_⟩
      · rw [hstep, hc]
        simp
      · rwa [List.any_cons, hc, Bool.false_or] at h

theorem Element.exists_appendTo_enclosed (path nearest : Text) (e : Element) :
    ∃ k u, e.appendTo path nearest = List.replicate k '(' ++ (path ++ (nameTest e.tag ++ u)) ∧
      (e.isResultScoped = true → 0 < k) := by
  obtain ⟨tag, tests, conditions⟩ := e
  obtain ⟨k, u, hu, hk⟩ := exists_withConditions
    (path ++ nameTest tag ++ nearest ++ tests.flatMap AttributeTest.predicate) conditions
  refine ⟨k, nearest ++ tests.flatMap AttributeTest.predicate ++ u, ?_, hk⟩
  rw [show (mk tag tests conditions).appendTo path nearest = _ from hu]
  simp [Element.tag]

/-- A chain begins as it is given to begin, except for the parentheses around it. -/
theorem Chain.exists_xpathFrom_enclosed (head : Text) : ∀ c : Chain,
    ∃ k u, c.xpathFrom head = List.replicate k '(' ++ (head ++ (nameTest c.first.tag ++ u)) ∧
      (c.isUnscoped = false → 0 < k)
  | .start _ e => by
    obtain ⟨k, u, hu, hk⟩ := e.exists_appendTo_enclosed head []
    exact ⟨k, u, hu, fun h => hk (by simpa [isUnscoped] using h)⟩
  | .link b o e => by
    obtain ⟨j, v, hv, hj⟩ := b.exists_xpathFrom_enclosed head
    -- Whatever the combinator puts in, it stands behind the first name.
    have hlink (path nearest : Text) : ∃ k u, e.appendTo (b.xpathFrom head ++ path) nearest =
        List.replicate k '(' ++ (head ++ (nameTest b.first.tag ++ u)) ∧
          ((link b o e).isUnscoped = false → 0 < k) := by
      obtain ⟨k, u, hu, hk⟩ := e.exists_appendTo_enclosed (b.xpathFrom head ++ path) nearest
      refine ⟨k + j, v ++ path ++ (nameTest e.tag ++ u), ?_, fun h => ?_⟩
      · rw [hu, hv]
        simp only [← List.replicate_append_replicate, List.append_assoc]
      · rw [isUnscoped, Bool.and_eq_false_iff, Bool.not_eq_false'] at h
        rcases h with h | h
        · exact Nat.add_pos_right k (hj h)
        · exact Nat.add_pos_left (hk h) j
    rw [xpathFrom]
    split
    · split
      · exact hlink _ _
      · exact hlink _ _
    · exact hlink _ _

/-- A chain goes on with a link as its first part does, or with parentheses around that. -/
theorem Chain.jams_link {head : Text} {b : Chain} (h : JamsPath (b.xpathFrom head))
    (o : Option Combinator) (e : Element) : JamsPath ((link b o e).xpathFrom head) := by
  have hstep (path nearest : Text) : JamsPath (e.appendTo (b.xpathFrom head ++ path) nearest) := by
    obtain ⟨tag, tests, conditions⟩ := e
    exact JamsPath.withConditions ((((h.append path).append _).append _).append _) conditions
  rw [xpathFrom]
  split
  · split
    · exact hstep _ _
    · exact hstep _ _
  · exact hstep _ _

/-! ### Chains in arguments

Behind the axis of an argument a name has to follow. A chain that is scoped has a parenthesis there,
and one that is opened by a sibling combinator the name of another axis with its colons. Both are no
tests, so that the path jams right at its beginning. -/

/-- A parenthesis is no test. -/
theorem jamsNodeTest_parenthesis : JamsNodeTest ['('] := by
  refine ⟨fun {r r' test} ht => ?_⟩
  have hskip : (skip ('(' :: r)).val = '(' :: r := skip_cons rfl r
  have hstar := next?_eq_none (c := '*') (s := '(' :: r) (by rw [hskip]; exact fun h => nomatch h)
  have hname : readName? ('(' :: r) = none := by
    rw [readName?]
    split
    · next hm => cases hm
    · rfl
  have ht : Gives (readTest? ('(' :: r)) test r' := ht
  obtain ⟨q, hq⟩ := ht
  rcases hk : skip ('(' :: r) with ⟨t, htl⟩
  rw [hk] at hskip
  subst hskip
  rw [readTest?, hstar, hk] at hq
  simp only [hname] at hq
  cases hq

/-- An axis is no test: behind an axis no path begins among siblings. -/
theorem jamsNodeTest_sibling : JamsNodeTest "following-sibling::".toList := by
  refine ⟨fun {r r' test} ht => ?_⟩
  have hshape : "following-sibling::".toList = Axis.followingSibling.name ++ "::".toList := by decide
  have hcolons : "::".toList ++ r = ':' :: ':' :: r := rfl
  rw [hshape, List.append_assoc, hcolons] at ht
  have hskip : (skip (Axis.followingSibling.name ++ ':' :: ':' :: r)).val =
      Axis.followingSibling.name ++ ':' :: ':' :: r := skip_cons rfl _
  have hstar := next?_eq_none (c := '*') (s := Axis.followingSibling.name ++ ':' :: ':' :: r)
    (by rw [hskip]; rintro ⟨⟩)
  obtain ⟨p, hname⟩ := gives_readName? (n := Axis.followingSibling.name) (r := ':' :: ':' :: r)
    (by decide) rfl
  have hafter : readTestAfter? Axis.followingSibling.name (':' :: ':' :: r) = none := by
    obtain ⟨q, hq⟩ := take?_cons ':' (':' :: r)
    have hname : readName? (':' :: r) = none := by
      rw [readName?]
      split
      · next hm => cases hm
      · rfl
    rw [readTestAfter?, next?_eq_none (c := '(') (by rw [skip_cons rfl]; rintro ⟨⟩), hq]
    simp only [take?_eq_none (c := '*') (s := ':' :: r) (by rintro ⟨⟩), hname]
  obtain ⟨q, hq⟩ := ht
  rcases hk : skip (Axis.followingSibling.name ++ ':' :: ':' :: r) with ⟨t, htl⟩
  rw [hk] at hskip
  subst hskip
  rw [readTest?, hstar, hk] at hq
  simp only [hname, hafter] at hq
  cases hq

/-- A chain in an argument begins at the element and is read, or its path jams. -/
theorem Chain.begins_or_jams {c : Chain} (hc : c.Everywhere Element.IsHarmless) (a : Axis)
    (h : c.IsRead ∨ JamsPath (c.xpathFrom (a.name ++ "::".toList))) :
    (c.IsRead ∧ c.beginsInside = true) ∨
      JamsPath (a.name ++ "::".toList ++ unrooted c.xpath) := by
  -- A chain is scoped, or opened by a sibling combinator, or it begins with its first name.
  cases hunscoped : c.isUnscoped with
  | false =>
    -- The parenthesis that a scoped chain begins with stands behind the axis.
    obtain ⟨k, u, hu, hk⟩ := c.exists_xpathFrom_enclosed (axis c.opening)
    obtain ⟨k, rfl⟩ := Nat.exists_eq_succ_of_ne_zero (Nat.ne_of_gt (hk hunscoped))
    have hpath : unrooted c.xpath = ['('] ++ (List.replicate k '(' ++
        (axis c.opening ++ (nameTest c.first.tag ++ u))) := by
      rw [c.xpath_eq, hu]
      rfl
    rw [hpath, ← List.append_assoc]
    exact .inr ((jamsNodeTest_parenthesis.path a).append _)
  | true =>
    have hinside (ho : (c.opening == none || c.opening == some .child) = true) :
        (c.IsRead ∧ c.beginsInside = true) ∨
          JamsPath (a.name ++ "::".toList ++ unrooted c.xpath) := by
      have hbegins : c.beginsInside = true := by rw [beginsInside, hunscoped, ho]; rfl
      rw [c.append_unrooted _ (c.isBareTag_first hc).head?_nameTest hbegins]
      exact h.imp_left fun hread => ⟨hread, hbegins⟩
    have houtside (ho : axis c.opening = '/' :: "following-sibling::".toList) :
        JamsPath (a.name ++ "::".toList ++ unrooted c.xpath) := by
      have haxis := c.xpathFrom_append (axis c.opening) [] hunscoped
      rw [List.append_nil] at haxis
      have hpath : unrooted c.xpath = "following-sibling::".toList ++ c.xpathFrom [] := by
        rw [c.xpath_eq, haxis, ho]
        rfl
      rw [hpath, ← List.append_assoc]
      exact (jamsNodeTest_sibling.path a).append _
    -- Behind a slash that is taken away, the axis of siblings is left.
    cases ho : c.opening with
    | none => exact hinside (by rw [ho]; rfl)
    | some o =>
      cases o with
      | child => exact hinside (by rw [ho]; rfl)
      | sibling => exact .inr (houtside (by rw [ho]; rfl))
      | adjacent => exact .inr (houtside (by rw [ho]; rfl))

/-- If not all paths in an argument are read, the reader gets stuck on the condition. -/
theorem jamsPredicate_not {cs : List Chain}
    (hall : List.Forall₂ (ReadsOrJams 1) (selfPaths cs) (selfExprs cs))
    (hno : ¬ List.Forall₂ (Reads true 1) (selfPaths cs) (selfExprs cs)) :
    JamsPredicate (Condition.not cs).predicate := by
  have hcall := JamsPath.call (f := "not".toList) (by decide) (.one (jams_anyOf hall hno))
  have := (hcall.operand (Nat.zero_le 6)).predicate.append ")]".toList
  simpa [Condition.predicate_not] using this

theorem jamsPredicate_has {rs : List Relative}
    (hall : List.Forall₂ (ReadsOrJams 1) (relativePaths rs) (relativeExprs rs))
    (hno : ¬ List.Forall₂ (Reads true 1) (relativePaths rs) (relativeExprs rs)) :
    JamsPredicate (Condition.has rs).predicate :=
  (jams_anyOf hall hno).predicate.append [']']

mutual

/-- A condition is read as it is meant, or fails. -/
theorem Condition.reads_or_jams : ∀ c : Condition, c.IsBare → c.Everywhere Element.IsHarmless →
    ReadsOrJamsPredicate (c.predicate, c.expr)
  | .static p, _, _ => .inl p.readsPredicate
  | .contains _, h, _ => .inl (readsPredicate_contains h)
  | .not cs, hne, h => by
    have hall := selfPaths_read_or_jam cs h
    by_cases hread : List.Forall₂ (Reads true 1) (selfPaths cs) (selfExprs cs)
    · exact .inl (readsPredicate_not hne hread)
    · exact .inr (jamsPredicate_not hall hread)
  | .has rs, hne, h => by
    have hall := relativePaths_read_or_jam rs h
    by_cases hread : List.Forall₂ (Reads true 1) (relativePaths rs) (relativeExprs rs)
    · exact .inl (readsPredicate_has hne hread)
    · exact .inr (jamsPredicate_has hall hread)

theorem selfPaths_read_or_jam : ∀ cs : List Chain, chainsEverywhere Element.IsHarmless cs →
    List.Forall₂ (ReadsOrJams 1) (selfPaths cs) (selfExprs cs)
  | [], _ => .nil
  | c :: r, h => by
    refine .cons ?_ (selfPaths_read_or_jam r h.2)
    have hc := c.tracks_or_jams h.1 (opens_along .self _)
    rcases c.begins_or_jams h.1 .self (hc.imp_left And.left) with ⟨hread, hinside⟩ | hjams
    · exact .inl (reads_selfPath hread hinside)
    · exact .inr (hjams.operand (by decide))

/-- Chains below an element are read as they are meant, or jam. -/
theorem relativePaths_read_or_jam : ∀ rs : List Relative, relativesEverywhere Element.IsHarmless rs →
    List.Forall₂ (ReadsOrJams 1) (relativePaths rs) (relativeExprs rs)
  | [], _ => .nil
  | .mk direct c :: r, h => by
    refine .cons ?_ (relativePaths_read_or_jam r h.2)
    have hc (a : Axis) := c.begins_or_jams h.1 a
      ((c.tracks_or_jams h.1 (opens_along a _)).imp_left And.left)
    cases direct with
    | true =>
      rcases hc .child with ⟨hread, hinside⟩ | hjams
      · exact .inl (reads_relativePath hread hinside true)
      · exact .inr (hjams.operand (by decide))
    | false =>
      rcases hc .descendant with ⟨hread, hinside⟩ | hjams
      · exact .inl (reads_relativePath hread hinside false)
      · exact .inr (hjams.operand (by decide))

theorem conditions_read_or_jam : ∀ cs : List Condition, (∀ c ∈ cs, c.IsBare) →
    conditionsEverywhere Element.IsHarmless cs → ∀ c ∈ cs, ReadsOrJamsPredicate (c.predicate, c.expr)
  | [], _, _ => nofun
  | c :: r, hbare, h => by
    rw [List.forall_mem_cons] at hbare ⊢
    exact ⟨c.reads_or_jams hbare.1 h.1, conditions_read_or_jam r hbare.2 h.2⟩

theorem Element.step_read_or_jam : ∀ (e : Element) (ns : List (Text × Expr)) {head : Text}
    {start : Expr} {a : Axis}, e.Everywhere Element.IsHarmless → Opens head start a e.tag →
    (∀ p ∈ ns, ReadsPredicate p.1 p.2) →
    (e.IsRead ∧ Tracks (e.appendTo head (ns.flatMap (·.1))) (e.stretch start a (ns.map (·.2)))) ∨
      JamsPath (e.appendTo head (ns.flatMap (·.1)))
  | .mk _ _ conditions, _, _, _, _, h, hopens, hns =>
    Element.tracks_or_jams h.1 (conditions_read_or_jam conditions h.1.conditions h.2) hopens hns

/-- The path of a chain is read as it is meant, or jams. -/
theorem Chain.tracks_or_jams : ∀ (c : Chain) {head : Text} {start : Expr} {a : Axis},
    c.Everywhere Element.IsHarmless → Opens head start a c.first.tag →
    (c.IsRead ∧ Tracks (c.xpathFrom head) (c.stretch start a)) ∨ JamsPath (c.xpathFrom head)
  | .start _ e, _, _, _, h, hopens => e.step_read_or_jam [] h hopens nofun
  | .link b o e, head, _, _, h, hopens => by
    rcases b.tracks_or_jams h.1 hopens with ⟨hb, htracks⟩ | hb
    · obtain ⟨hbelow, hchild, hsibling⟩ := opens_behind htracks e.tag
      cases o with
      | none =>
        exact (e.step_read_or_jam [] h.2 hbelow nofun).imp_left fun he => ⟨⟨hb, he.1⟩, he.2⟩
      | some o =>
        cases o with
        | child =>
          exact (e.step_read_or_jam [] h.2 hchild nofun).imp_left
            fun he => ⟨⟨hb, he.1⟩, he.2⟩
        | sibling =>
          exact (e.step_read_or_jam [] h.2 hsibling nofun).imp_left
            fun he => ⟨⟨hb, he.1⟩, he.2⟩
        | adjacent =>
          rw [Chain.xpathFrom_adjacent, Chain.stretch_adjacent]
          by_cases hscoped : b.last.isResultScoped = true
          · rw [if_pos hscoped, if_pos hscoped]
            exact (e.step_read_or_jam [] h.2 (opens_next htracks e.tag) nofun).imp_left
              fun he => ⟨⟨hb, he.1⟩, he.2⟩
          · rw [if_neg hscoped, if_neg hscoped]
            -- The element in front is asked for in a predicate, by its own test.
            have hnearest := readsPredicate_nearest (hb.leads_last (by simpa using hscoped))
            have he := e.step_read_or_jam [(_, _)] h.2 hsibling
              (List.forall_mem_singleton.2 hnearest)
            rw [List.flatMap_cons, List.flatMap_nil, List.append_nil] at he
            exact he.imp_left fun he => ⟨⟨hb, he.1⟩, he.2⟩
    · exact .inr (Chain.jams_link hb o e)

end

/-! ### Conditions that are read

A condition that is read as it is meant cannot jam. So what is known of a condition that has been
read, that its chains begin at the element, is known by excluding the other outcome. -/

/-- A predicate is not read and a cause to get stuck at once. -/
theorem not_readsPredicate {v : Text} {e : Expr} (h : JamsPredicate v) : ¬ ReadsPredicate v e := by
  intro hread
  have hjams := (Tracks.anywhere readsTest_star).jams_given h
  exact hjams.not_reads ((Leads.anywhere readsTest_star).given hread).path

/-- Paths in an argument that are read belong to chains that begin at the element. -/
theorem begins_of_selfPaths : ∀ {cs : List Chain}, chainsEverywhere Element.IsHarmless cs →
    List.Forall₂ (Reads true 1) (selfPaths cs) (selfExprs cs) →
    ∀ c ∈ cs, c.IsRead ∧ c.beginsInside = true
  | [], _, _ => nofun
  | c :: r, h, .cons hread hrest => by
    refine List.forall_mem_cons.2 ⟨?_, begins_of_selfPaths h.2 hrest⟩
    have hc := c.tracks_or_jams h.1 (opens_along .self _)
    refine (c.begins_or_jams h.1 .self (hc.imp_left And.left)).resolve_right fun hjams => ?_
    exact (hjams.operand (k := 1) (by decide)).not_reads hread

theorem begins_of_relativePaths : ∀ {rs : List Relative},
    relativesEverywhere Element.IsHarmless rs →
    List.Forall₂ (Reads true 1) (relativePaths rs) (relativeExprs rs) →
    ∀ direct c, .mk direct c ∈ rs → c.IsRead ∧ c.beginsInside = true
  | [], _, _, _, _, hmem => nomatch hmem
  | .mk direct c :: r, h, .cons hread hrest, direct', c', hmem => by
    rcases List.mem_cons.1 hmem with he | hmem
    · cases he
      have hc (a : Axis) := c.begins_or_jams h.1 a
        ((c.tracks_or_jams h.1 (opens_along a _)).imp_left And.left)
      cases direct with
      | true =>
        exact (hc .child).resolve_right fun hjams =>
          (hjams.operand (k := 1) (by decide)).not_reads hread
      | false =>
        exact (hc .descendant).resolve_right fun hjams =>
          (hjams.operand (k := 1) (by decide)).not_reads hread
    · exact begins_of_relativePaths h.2 hrest direct' c' hmem

/-- The chains of a condition that is read begin at the element, and are read. -/
theorem begins_of_not {cs : List Chain} (h : chainsEverywhere Element.IsHarmless cs)
    (hread : ReadsPredicate (Condition.not cs).predicate (Condition.not cs).expr) :
    ∀ c ∈ cs, c.IsRead ∧ c.beginsInside = true := by
  apply begins_of_selfPaths h
  by_contra hno
  exact not_readsPredicate (jamsPredicate_not (selfPaths_read_or_jam cs h) hno) hread

theorem begins_of_has {rs : List Relative} (h : relativesEverywhere Element.IsHarmless rs)
    (hread : ReadsPredicate (Condition.has rs).predicate (Condition.has rs).expr) :
    ∀ direct c, .mk direct c ∈ rs → c.IsRead ∧ c.beginsInside = true := by
  apply begins_of_relativePaths h
  by_contra hno
  exact not_readsPredicate (jamsPredicate_has (relativePaths_read_or_jam rs h) hno) hread

/-! ## Patterns

An expression that has been read does not jam, so that the other outcome is left: all elements are
read as they are meant. Only the slash that begins a path leaves an exception. Behind a single slash
the reader looks for a letter of ASCII before it reads a step, and takes the slash for the document
if there is none; what follows then is an operator with the document in front of it, and no set of
nodes. -/

/-- If the expression of a pattern can be read at all, all elements of its chains are read as they
are meant. -/
theorem isRead_of_ofText? {p : Pattern} (hp : ∀ c ∈ p, c.Everywhere Element.IsHarmless)
    (hopening : ∀ c ∈ p, c.opening = none) {e : Expr} (h : Expr.ofText? p.xpath = some e) :
    ∀ c ∈ p, c.IsRead := by
  have heither : ∀ c ∈ p, c.IsRead ∨ JamsPath c.xpath := by
    intro c hc
    rw [c.xpath_eq, hopening c hc]
    exact (c.tracks_or_jams (hp c hc) (opens_anywhere _)).imp_left And.left
  have hall : List.Forall₂ ReadsPathOrJams (p.map Chain.xpath) (p.map Chain.pathExpr) := by
    rw [List.forall₂_map_left_iff, List.forall₂_map_right_iff, List.forall₂_same]
    intro c hc
    refine (heither c hc).imp_left fun hread => c.readsPath hread ?_
    rw [Chain.beginsAtRoot, hopening c hc]
    rfl
  -- If one chain were not read, its path would jam, and with it the union.
  by_contra hno
  simp only [not_forall] at hno
  obtain ⟨c, hc, hread⟩ := hno
  have hjams := (heither c hc).resolve_left hread
  have hnot : ¬ List.Forall₂ (ReadsPath true) (p.map Chain.xpath) (p.map Chain.pathExpr) := by
    rw [List.forall₂_map_left_iff, List.forall₂_map_right_iff, List.forall₂_same]
    exact fun hpaths => hjams.not_reads (hpaths c hc)
  have hnone := ((jams_union hall hnot).loose (Nat.zero_le 6) (Nat.le_refl 6)).ofText?
  cases hnone.symm.trans h

/-! ### Chains that a combinator opens -/

/-- A bare tag that may not follow the slash of a path makes the path stray. -/
theorem IsBareTag.strays {tag : Text} (h : IsBareTag tag)
    (hm : mayFollowRoot (nameTest tag) = false) (u : Text) : Strays ('/' :: (nameTest tag ++ u)) := by
  cases hplain : isPlainTag tag with
  | false =>
    obtain ⟨heq, c, t, rfl, hc, -⟩ := h.of_not_plain hplain
    rw [heq] at hm ⊢
    exact strays_root (Text.isSpace_eq_false hc (by decide)) ⟨Text.ne_of_kind hc (by decide),
      Text.ne_of_kind hc (by decide), Text.ne_of_kind hc (by decide)⟩ hm
  | true =>
    rcases nameTest_cases hplain with ⟨heq, -⟩ | ⟨heq, -, hname⟩
    · rw [heq] at hm
      cases hm
    · rw [heq] at hm ⊢
      cases tag with
      | nil => cases hname
      | cons c t =>
        rw [Text.isName, Bool.and_eq_true] at hname
        exact strays_root (Text.isSpace_eq_false hname.1 (by decide)) ⟨Text.ne_of_kind hname.1 (by decide),
          Text.ne_of_kind hname.1 (by decide), Text.ne_of_kind hname.1 (by decide)⟩ hm

/-- If the expression of a chain can be read at all, the elements of the chain are read as they are
meant, or what is read is no set of nodes. -/
theorem Chain.isRead_of_ofText? {c : Chain} (hc : c.Everywhere Element.IsHarmless) {e : Expr}
    (h : Expr.ofText? c.xpath = some e) :
    (c.IsRead ∧ c.beginsAtRoot = true) ∨ e.isOperation = true := by
  -- A path that jams would leave nothing to be read.
  have hread {head : Text} {start : Expr} {a : Axis} (hhead : c.xpath = c.xpathFrom head)
      (hopens : Opens head start a c.first.tag) : c.IsRead := by
    refine (c.tracks_or_jams hc hopens).elim And.left fun hjams => ?_
    have hnone := (hjams.operand (Nat.zero_le 6)).ofText?
    rw [← hhead, h] at hnone
    cases hnone
  have hxpath := c.xpath_eq
  cases ho : c.opening with
  | none =>
    rw [ho] at hxpath
    exact .inl ⟨hread hxpath (opens_anywhere _), by rw [beginsAtRoot, ho]; rfl⟩
  | some o =>
    rw [ho] at hxpath
    cases o with
    | sibling | adjacent =>
      exact .inl ⟨hread hxpath (opens_besideRoot _), by rw [beginsAtRoot, ho]; rfl⟩
    | child =>
      cases hm : mayFollowRoot (nameTest c.first.tag) with
      | true => exact .inl ⟨hread hxpath (opens_root hm), by rw [beginsAtRoot, hm, Bool.or_true]⟩
      | false =>
        obtain ⟨k, u, hu, -⟩ := c.exists_xpathFrom_enclosed ['/']
        have hstrays (k : Nat) : Strays (List.replicate k '(' ++ '/' :: (nameTest c.first.tag ++ u)) := by
          induction k with
          | zero => exact c.isBareTag_first hc |>.strays hm u
          | succ k ih => exact ih.enclosed
        refine .inr ((hstrays k).isOperation ?_)
        rw [← h, hxpath]
        exact congrArg Expr.ofText? hu.symm

end Pattern

end TreeQuery
