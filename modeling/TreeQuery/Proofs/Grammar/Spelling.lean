import TreeQuery.Proofs.Grammar.Productions
import TreeQuery.Proofs.XPath.Names

/-!
# Texts that spell parts of expressions

A text spells a part of the grammar if its tokens are such a part, whatever stands behind it as long
as its last token ends there. The texts that spell larger parts are put together from those that
spell smaller ones, as the productions say.
-/

namespace TreeQuery.XPath.Grammar

open XPath.Expr (endsName)

/-- A text that is divided into given tokens where an operand has to stand. If it ends in a name,
the name has to end there. -/
def Divides (named : Bool) (t : Text) (ts : List Token) : Prop :=
  ∀ r us, (named = true → endsName r = true) → Tokens false r us → Tokens true (t ++ r) (ts ++ us)

/-- A text whose tokens are a part of the grammar. -/
def Spells (named : Bool) (part : Part) (t : Text) : Prop :=
  ∃ ts, Derives part ts ∧ Divides named t ts

/-- A text that is an operator of a level if it stands behind an operand. -/
def SpellsOperator (k : Nat) (sign : Text) : Prop :=
  ∃ o ∈ operators k, ∀ r us, Tokens true r us → Tokens false (sign ++ r) (o :: us)

section

variable {named named' : Bool} {part part' : Part} {k : Nat} {t u n r : Text} {ts us : List Token}

/-- A text that spells a part spells every part that the first one can be. -/
theorem Spells.imp (h : Spells named part t) (hpart : ∀ ts, Derives part ts → Derives part' ts) :
    Spells named part' t := by
  obtain ⟨ts, hts, hdiv⟩ := h
  exact ⟨ts, hpart ts hts, hdiv⟩

/-- What is divided whatever stands behind it is so where a name has to end. -/
theorem Spells.toNamed (h : Spells named part t) : Spells true part t := by
  obtain ⟨ts, hts, hdiv⟩ := h
  exact ⟨ts, hts, fun r us hr => hdiv r us fun _ => hr rfl⟩

/-- A text that spells an expression is one if its characters are those of documents. -/
theorem Spells.isExpression (h : Spells named (.operand 0) t) (hc : t.all isChar = true) :
    IsExpression t := by
  obtain ⟨ts, hts, hdiv⟩ := h
  have := hdiv [] [] (fun _ => rfl) .nil
  rw [List.append_nil, List.append_nil] at this
  exact ⟨hc, ts, this, hts⟩

/-! ## Operators

An operator with a name needs white space before it where a name could go on, and the compiler
writes it so. A sign needs none behind a name, but the name has to end in front of it, which is the
condition on what follows. -/

/-- An operator without white space around it. -/
theorem SpellsOperator.close (sign : String) (ho : operator sign ∈ operators k)
    (h : ∀ r, token? false (sign.toList ++ r) = some (operator sign, r)) :
    SpellsOperator k sign.toList :=
  ⟨operator sign, ho, fun r _ hus => .token (h r) hus⟩

/-- An operator between two spaces. -/
theorem SpellsOperator.spaced (sign : String) (ho : operator sign ∈ operators k)
    (h : ∀ r, token? false (sign.toList ++ ' ' :: r) = some (operator sign, ' ' :: r)) :
    SpellsOperator k (' ' :: (sign.toList ++ [' '])) := by
  refine ⟨operator sign, ho, fun r us hus => .space rfl ?_⟩
  have : Tokens false (sign.toList ++ ' ' :: r) _ := .token (h r) (.space rfl hus)
  simpa using this

/-- Two operands with an operator between them are an operand of its level. -/
theorem Spells.binary {sign : Text} (hsign : SpellsOperator k sign)
    (hends : ∀ r, named = true → endsName (sign ++ r) = true) (ht : Spells named (.operand k) t)
    (hu : Spells named' (.operand (k + 1)) u) : Spells named' (.operand k) (t ++ sign ++ u) := by
  obtain ⟨ts, hts, ht⟩ := ht
  obtain ⟨us, hus, hu⟩ := hu
  obtain ⟨o, ho, hsign⟩ := hsign
  refine ⟨ts ++ o :: us, .binary ho hts hus, fun r vs hr hvs => ?_⟩
  have := ht _ _ (hends (u ++ r)) (hsign _ _ (hu r vs hr hvs))
  simpa using this

/-- A union and a path with a bar between them are a union. -/
theorem Spells.joined (ht : Spells true .union t) (hu : Spells named .path u) :
    Spells named .union (t ++ ['|'] ++ u) := by
  obtain ⟨ts, hts, ht⟩ := ht
  obtain ⟨us, hus, hu⟩ := hu
  refine ⟨ts ++ operator "|" :: us, .joined hts hus, fun r vs hr hvs => ?_⟩
  have := ht ('|' :: (u ++ r)) _ (fun _ => rfl) (.token (t := operator "|") rfl (hu r vs hr hvs))
  simpa using this

/-! ## Names

A name is the longest row of characters that it can be, and what it is depends on the character
behind it and white space: a parenthesis makes it the name of a function, two colons that of an
axis. The lemmas fix both by a condition on what follows. -/

theorem dropWhile_isSpace (s : Text) : s.dropWhile Text.isSpace = (Expr.skip s).val := by
  induction s with
  | nil => rfl
  | cons c s ih =>
    cases h : Text.isSpace c with
    | true => rw [List.dropWhile_cons_of_pos h, ih, Expr.skip_space_cons h]
    | false => rw [List.dropWhile_cons_of_neg (by simp [h]), Expr.skip_cons h]

/-- A name that ends where the text does, or in front of a sign that ends it, is a test. -/
theorem kindOf?_of_endsName (n : Text) (h : endsName r = true) : kindOf? n r = some .nameTest := by
  obtain ⟨-, hopen, hcolon⟩ := Expr.of_endsName h
  rw [kindOf?, dropWhile_isSpace]
  split
  · next hr => rw [hr] at hopen; exact absurd rfl hopen
  · next hr => rw [hr] at hcolon; exact absurd rfl hcolon
  · rfl

/-- A name that is followed by neither a colon nor more characters of a name. -/
theorem token?_name (hn : Text.isName n = true) (hr : r.head?.all (!Expr.isQNamePart ·) = true) :
    token? true (n ++ r) = (kindOf? n r).map fun k => (⟨k, n⟩, r) := by
  obtain ⟨hpart, hcolon⟩ := Expr.namePart_of_qNamePart hr
  rw [token?, Text.readName?_append hn hpart]
  simp only [readNamed?, if_true]
  split
  · exact absurd rfl hcolon
  · exact absurd rfl hcolon
  · rfl

theorem Spells.nameTest (hn : Text.isName n = true) : Spells true .nodeTest n := by
  refine ⟨[⟨.nameTest, n⟩], .nameTest n, fun r us hr hus => .token ?_ hus⟩
  rw [token?_name hn (Expr.of_endsName (hr rfl)).1, kindOf?_of_endsName n (hr rfl)]
  rfl

theorem Spells.star : Spells named .nodeTest ['*'] :=
  ⟨_, .nameTest ['*'], fun _ _ _ hus => .token rfl hus⟩

/-! ## Tests

A test with an axis in front of it, written or understood. -/

theorem Spells.child (h : Spells named .nodeTest t) : Spells named .axisTest t :=
  h.imp fun _ => .child

theorem Spells.attribute (h : Spells named .nodeTest t) : Spells named .axisTest ('@' :: t) := by
  obtain ⟨ts, hts, ht⟩ := h
  exact ⟨mark "@" :: ts, .attribute hts, fun r us hr hus => .token rfl (ht r us hr hus)⟩

theorem Spells.text : Spells named .nodeTest "text()".toList :=
  ⟨_, .nodeType "text".toList, fun _ _ _ hus => .token rfl (.token rfl (.token rfl hus))⟩

/-- The name of an axis with two colons behind it, and a test. -/
theorem Spells.along {axis : Text} (haxis : axis ∈ Axis.all.map Axis.name)
    (hn : Text.isName axis = true) (h : Spells named .nodeTest t) :
    Spells named .axisTest (axis ++ "::".toList ++ t) := by
  obtain ⟨ts, hts, ht⟩ := h
  refine ⟨⟨.axisName, axis⟩ :: mark "::" :: ts, .along axis hts, fun r us hr hus => ?_⟩
  have htoken : token? true (axis ++ ':' :: ':' :: (t ++ r)) =
      some (⟨.axisName, axis⟩, ':' :: ':' :: (t ++ r)) := by
    rw [token?, Text.readName?_append hn rfl]
    show (kindOf? axis (':' :: ':' :: (t ++ r))).map _ = _
    have hkind : kindOf? axis (':' :: ':' :: (t ++ r)) = some .axisName := if_pos haxis
    rw [hkind]
    rfl
  have hshape : axis ++ "::".toList ++ t ++ r = axis ++ ':' :: ':' :: (t ++ r) := by simp
  rw [hshape]
  exact .token htoken (.token rfl (ht r us hr hus))

/-! ## Operands

The parts that operators join. Digits and a name have to end where the part does; a text between
apostrophes ends by itself, whatever follows. -/

theorem Spells.ofPath (h : Spells named .path t) (hk : k ≤ 6) : Spells named (.operand k) t :=
  h.imp fun _ h => h.ofPath hk

theorem Spells.ofPrimary (h : Spells named .primary t) : Spells named .path t :=
  h.imp fun _ h => .ofFilter (.ofPrimary h)

/-- A text between apostrophes. -/
theorem Spells.literal (h : '\'' ∉ t) : Spells named .primary ('\'' :: (t ++ ['\''])) := by
  refine ⟨_, .literal ('\'' :: t ++ ['\'']), fun r us _ hus => .token ?_ hus⟩
  have hall : t.all (· != '\'') = true := List.all_eq_true.2 fun c hc => by
    rw [bne_iff_ne]
    rintro rfl
    exact h hc
  obtain ⟨htake, hdrop⟩ := Text.takeWhile_of_all (r := '\'' :: r) hall rfl
  have hshape : '\'' :: (t ++ ['\'']) ++ r = '\'' :: (t ++ '\'' :: r) := by simp
  rw [hshape]
  show readLiteral? '\'' (t ++ '\'' :: r) = _
  rw [readLiteral?, htake, hdrop]

/-- A text that begins with a digit begins with no name, so that a number is read. -/
theorem token?_of_isDigit {c : Char} (h : c.isDigit = true) (operand : Bool) (s : Text) :
    token? operand (c :: s) = (readNumber? (c :: s)).or (readSign? (c :: s)) := by
  have hname : Text.readName? (c :: s) = none := by
    rw [Text.readName?, if_neg]
    intro hn
    rw [Expr.isDigit_of_isNameStart hn] at h
    cases h
  rw [token?, hname]
  show readOther? operand (c :: s) = _
  rw [readOther?]
  · exact List.cons_ne_nil c s
  all_goals
    intro r hr
    cases hr
    exact absurd h (by decide)

/-- Digits. -/
theorem Spells.number (ht : t.all Char.isDigit = true) (hne : t ≠ []) : Spells true .primary t := by
  refine ⟨[⟨.number, t⟩], .number t, fun r us hr hus => .token ?_ hus⟩
  obtain ⟨c, t, rfl⟩ := List.exists_cons_of_ne_nil hne
  have hc : c.isDigit = true := by
    rw [List.all_cons, Bool.and_eq_true] at ht
    exact ht.1
  have hpart := (Expr.of_endsName (hr rfl)).1
  have hdigit : r.head?.all (!Char.isDigit ·) = true := Expr.head?_not_isDigit hpart
  obtain ⟨htake, hdrop⟩ := Text.takeWhile_of_all ht hdigit
  have hnumber : readNumber? (c :: t ++ r) = some (⟨.number, c :: t⟩, r) := by
    rw [readNumber?, htake, hdrop]
    -- Only a point could make the number longer, and a point would go on with a name.
    split
    · have hpoint : Expr.isQNamePart '.' = false := by simpa using hpart
      exact absurd hpoint (by decide)
    · rfl
  rw [List.cons_append] at hnumber ⊢
  rw [token?_of_isDigit hc, hnumber]
  rfl

/-! ## Functions

The name of a function is read as one because of the parenthesis behind it, unless it is the name of
a type of nodes. -/

theorem Spells.one (h : Spells named (.operand 0) t) : Spells named .arguments t :=
  h.imp fun _ => .one

/-- One more argument in front of others, with white space behind the comma or not. -/
theorem Spells.more {g : Text} (ht : Spells true (.operand 0) t) (hg : g.all Text.isSpace = true)
    (hu : Spells named .arguments u) : Spells named .arguments (t ++ ',' :: (g ++ u)) := by
  obtain ⟨ts, hts, ht⟩ := ht
  obtain ⟨us, hus, hu⟩ := hu
  refine ⟨ts ++ mark "," :: us, .more hts hus, fun r vs hr hvs => ?_⟩
  have := ht (',' :: (g ++ (u ++ r))) _ (fun _ => rfl) (.token (t := mark ",") rfl
    (.spaces hg (hu r vs hr hvs)))
  simpa using this

/-- The name of a function with a parenthesis behind it. -/
theorem token?_function (hn : Text.isName n = true) (ht : Expr.isNodeType n = false) (r : Text) :
    token? true (n ++ '(' :: r) = some (⟨.functionName, n⟩, '(' :: r) := by
  have hmem : n ∉ nodeTypes := by
    simp only [Expr.isNodeType, Bool.or_eq_false_iff, decide_eq_false_iff_not] at ht
    simp only [nodeTypes, List.mem_cons, List.not_mem_nil, or_false, not_or]
    exact ⟨ht.1.2, ht.1.1.2, ht.2, ht.1.1.1⟩
  rw [token?_name hn rfl]
  show (some (if n ∈ nodeTypes then Kind.nodeType else Kind.functionName)).map _ = _
  rw [if_neg hmem]
  rfl

theorem Spells.callNil (hn : Text.isName n = true) (ht : Expr.isNodeType n = false) :
    Spells named .primary (n ++ "()".toList) := by
  refine ⟨_, .callNil n, fun r us _ hus => ?_⟩
  rw [List.append_assoc]
  exact .token (token?_function hn ht _) (.token rfl (.token rfl hus))

theorem Spells.call (hn : Text.isName n = true) (ht : Expr.isNodeType n = false)
    (h : Spells true .arguments t) : Spells named .primary (n ++ '(' :: (t ++ [')'])) := by
  obtain ⟨ts, hts, hdiv⟩ := h
  refine ⟨_, .call n hts, fun r us _ hus => ?_⟩
  have hrest := hdiv (')' :: r) _ (fun _ => rfl) (.token (t := mark ")") rfl hus)
  have := Tokens.token (token?_function hn ht _) (.token (t := mark "(") rfl hrest)
  simpa using this

/-! ## Paths

A path that steps or predicates will be added to has to keep how it was divided: `Spells` says that
there are tokens and a derivation, but not where the last step of the path begins. `SpellsFront` and
`SpellsStep` keep this. -/

/-- A text whose tokens are a path that steps can be added to. -/
def SpellsFront (t : Text) : Prop :=
  ∃ ts, Derives .path ts ∧ Trail (ts ++ [operator "/"]) ∧ Trail (ts ++ [operator "//"]) ∧
    Divides true t ts

/-- A text whose tokens are a path with a step at its end, which predicates can be added to. -/
def SpellsStep (t : Text) : Prop :=
  ∃ front ts us, Trail front ∧ Derives .axisTest ts ∧ Derives .predicates us ∧
    Divides true t (front ++ (ts ++ us))

theorem SpellsFront.path (h : SpellsFront t) : Spells true .path t := by
  obtain ⟨ts, hts, -, -, hdiv⟩ := h
  exact ⟨ts, hts, hdiv⟩

/-- A path with a step at its end can go on with steps. -/
theorem SpellsStep.front (h : SpellsStep t) : SpellsFront t := by
  obtain ⟨front, ts, us, hfront, hts, hus, hdiv⟩ := h
  have hstep := Derives.step hts hus
  exact ⟨_, hfront.derives hstep, hfront.onward hstep, hfront.downward hstep, hdiv⟩

/-- So can what stands in parentheses. -/
theorem SpellsFront.of_filter (h : Spells true .filter t) : SpellsFront t := by
  obtain ⟨ts, hts, hdiv⟩ := h
  exact ⟨ts, .ofFilter hts, .inFilter hts, .belowFilter hts, hdiv⟩

/-- The context node itself. -/
theorem SpellsFront.here : SpellsFront ['.'] := by
  refine ⟨[mark "."], .ofLocation (.ofRelative (.ofStep .here)), Trail.start.onward .here,
    Trail.start.downward .here, fun r us hr hus => .token ?_ hus⟩
  have hpart := (Expr.of_endsName (hr rfl)).1
  -- A point is a number if a digit follows, and two points are the step to the parent.
  cases r with
  | nil => rfl
  | cons c r =>
    have hpoint : c ≠ '.' := by
      rintro rfl
      have hpart : Expr.isQNamePart '.' = false := by simpa using hpart
      exact absurd hpart (by decide)
    have hdigit : c.isDigit = false := by simpa using Expr.head?_not_isDigit hpart
    have hnumber : readNumber? ('.' :: c :: r) = none := by
      show (if [].isEmpty && ((c :: r).takeWhile Char.isDigit).isEmpty then none else _) = none
      rw [List.takeWhile_cons_of_neg (by simp [hdigit])]
      rfl
    show (readNumber? ('.' :: c :: r)).or (readSign? ('.' :: c :: r)) = _
    rw [hnumber]
    simp [readSign?, signs, Text.after?, hpoint.symm]

/-! ## Predicates

Predicates are added to the last step of a path or to a filter. The tokens in the brackets are an
expression of their own, whose last token ends at the bracket, so that it may end in a name or not.
-/

/-- The tokens of a predicate behind those of what it is given to. -/
theorem Divides.given {named : Bool} (ht : Divides true t ts) (hu : Divides named u us) :
    Divides true (t ++ '[' :: (u ++ [']'])) (ts ++ (mark "[" :: us ++ [mark "]"])) := by
  intro r vs _ hvs
  have hinner := hu (']' :: r) _ (fun _ => rfl) (.token (t := mark "]") rfl hvs)
  have := ht ('[' :: (u ++ ']' :: r)) _ (fun _ => rfl) (.token (t := mark "[") rfl hinner)
  simpa using this

/-- A predicate behind a path is one of its last step. -/
theorem SpellsStep.given (ht : SpellsStep t) (hu : Spells named (.operand 0) u) :
    SpellsStep (t ++ '[' :: (u ++ [']'])) := by
  obtain ⟨front, ts, us, hfront, hts, hus, ht⟩ := ht
  obtain ⟨vs, hvs, hu⟩ := hu
  refine ⟨front, ts, _, hfront, hts, .predicate hus hvs, ?_⟩
  have := ht.given hu
  rwa [List.append_assoc, List.append_assoc] at this

/-- A predicate behind a filter is one of the filter. -/
theorem Spells.given (ht : Spells true .filter t) (hu : Spells named (.operand 0) u) :
    Spells true .filter (t ++ '[' :: (u ++ [']'])) := by
  obtain ⟨ts, hts, ht⟩ := ht
  obtain ⟨us, hus, hu⟩ := hu
  refine ⟨_, .given hts hus, ?_⟩
  have := ht.given hu
  rwa [← List.append_assoc] at this

/-- An expression in parentheses is a filter. -/
theorem Spells.enclosed (h : Spells named (.operand 0) t) :
    Spells true .filter ('(' :: (t ++ [')'])) := by
  obtain ⟨ts, hts, ht⟩ := h
  refine ⟨_, .ofPrimary (.enclosed hts), fun r us _ hus => ?_⟩
  have hinner := ht (')' :: r) _ (fun _ => rfl) (.token (t := mark ")") rfl hus)
  have : Tokens true ('(' :: (t ++ ')' :: r)) _ := .token (t := mark "(") rfl hinner
  simpa using this

/-! ## Steps

One slash and two are different tokens, and the longer one is taken where both are possible. A step
that is to stand behind one slash must therefore not begin with another. -/

/-- One slash, in front of a step. -/
theorem token?_slash (h : r.head? ≠ some '/') (operand : Bool) :
    token? operand ('/' :: r) = some (operator "/", r) := by
  show (readNumber? ('/' :: r)).or (readSign? ('/' :: r)) = _
  cases r with
  | nil => rfl
  | cons c r =>
    have hc : c ≠ '/' := by simpa using h
    simp [readNumber?, readSign?, signs, Text.after?, hc.symm]

/-- A step is the last one of a path, without predicates yet. -/
theorem SpellsStep.of_axisTest {front : List Token} (hfront : Trail front)
    (hts : Derives .axisTest ts) (hdiv : Divides true t (front ++ ts)) : SpellsStep t :=
  ⟨front, ts, [], hfront, hts, .noPredicate, by rwa [List.append_nil]⟩

/-- A test is a path of one step. -/
theorem SpellsStep.first (h : Spells true .axisTest t) : SpellsStep t := by
  obtain ⟨ts, hts, hdiv⟩ := h
  exact .of_axisTest .start hts hdiv

/-- A test behind a slash is a path from the root. -/
theorem SpellsStep.root (h : Spells true .axisTest t) (hslash : ∀ r, (t ++ r).head? ≠ some '/') :
    SpellsStep ('/' :: t) := by
  obtain ⟨ts, hts, hdiv⟩ := h
  exact .of_axisTest .root hts fun r us hr hus =>
    .token (token?_slash (hslash r) true) (hdiv r us hr hus)

/-- A test behind two slashes is a path from anywhere. -/
theorem SpellsStep.anywhere (h : Spells true .axisTest t) : SpellsStep ('/' :: '/' :: t) := by
  obtain ⟨ts, hts, hdiv⟩ := h
  exact .of_axisTest .anywhere hts fun r us hr hus => .token rfl (hdiv r us hr hus)

/-- A step behind a path and a slash. -/
theorem SpellsFront.onward (ht : SpellsFront t) (hu : Spells true .axisTest u)
    (hslash : ∀ r, (u ++ r).head? ≠ some '/') : SpellsStep (t ++ '/' :: u) := by
  obtain ⟨ts, -, htrail, -, ht⟩ := ht
  obtain ⟨us, hus, hu⟩ := hu
  refine .of_axisTest htrail hus fun r vs hr hvs => ?_
  have := ht ('/' :: (u ++ r)) _ (fun _ => rfl) (.token (token?_slash (hslash r) false)
    (hu r vs hr hvs))
  simpa using this

/-- A step behind a path and two slashes. -/
theorem SpellsFront.downward (ht : SpellsFront t) (hu : Spells true .axisTest u) :
    SpellsStep (t ++ '/' :: '/' :: u) := by
  obtain ⟨ts, -, -, htrail, ht⟩ := ht
  obtain ⟨us, hus, hu⟩ := hu
  refine .of_axisTest htrail hus fun r vs hr hvs => ?_
  have := ht ('/' :: '/' :: (u ++ r)) _ (fun _ => rfl) (.token (t := operator "//") rfl
    (hu r vs hr hvs))
  simpa using this

end

end TreeQuery.XPath.Grammar
