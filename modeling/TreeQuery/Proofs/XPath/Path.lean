import TreeQuery.Proofs.XPath.Primary

/-!
# Location paths as they are read

A path is read from the left, and what has been read can still be added to: a step takes predicates,
anything takes further steps. A text leads to a stretch of a path if reading it leaves the reader
there; then the text grows as the stretch does.

Main statements: `Leads.path`, `Leads.given`, `Leads.onward`, `Leads.below` and `Leads.enclosed`.
-/

namespace TreeQuery.XPath.Expr

open Grammar (Spells SpellsStep SpellsFront)

/-! ## Tests

A test is read up to what may follow a name. Of the tests without a name, the star and the one for
texts end by themselves; all tests are treated alike, as what follows them in expressions ends names
as well. -/

def beginsStep (t : Text) : Bool :=
  t.head?.any fun c => Text.isNameStart c || c == '*' || c == '@'

/-- A text that is read as the axis and test of a step. -/
structure ReadsTest (t : Text) (axis : Axis) (test : NodeTest) : Prop where
  begins : beginsStep t = true
  gives {r : Text} : endsName r = true → GivesTest (readAxisTest? (t ++ r)) axis test r
  spells : Spells true .axisTest t

structure ReadsNodeTest (t : Text) (test : NodeTest) : Prop where
  gives (r : Text) : endsName r = true → Gives (readTest? (t ++ r)) test r
  spells : Spells true .nodeTest t

section

variable {n t u : Text} {axis : Axis} {test : NodeTest}

theorem head?_of_beginsStep {d : Char} (h : beginsStep t = true)
    (hd : (Text.isNameStart d || d == '*' || d == '@') = false) (r : Text) :
    (t ++ r).head? ≠ some d := by
  cases t with
  | nil => cases h
  | cons c t =>
    rintro hc
    obtain rfl : c = d := by simpa using hc
    rw [beginsStep, List.head?_cons, Option.any_some, hd] at h
    cases h

theorem skip_of_beginsStep (h : beginsStep t = true) (r : Text) :
    (skip (t ++ r)).val = t ++ r := by
  cases t with
  | nil => cases h
  | cons c t =>
    exact skip_cons (Text.isSpace_eq_false (p := fun c => Text.isNameStart c || c == '*' || c == '@')
      h (by decide)) _

theorem head?_skip_of_beginsStep {d : Char} (h : beginsStep t = true)
    (hd : (Text.isNameStart d || d == '*' || d == '@') = false) (r : Text) :
    (skip (t ++ r)).val.head? ≠ some d := by
  rw [skip_of_beginsStep h]
  exact head?_of_beginsStep h hd r

theorem begins_of_step (h : beginsStep t = true) : begins t = true := by
  have hs := skip_of_beginsStep h []
  have h1 := head?_of_beginsStep (d := '-') h (by decide) []
  have h2 := head?_of_beginsStep (d := ')') h (by decide) []
  cases t with
  | nil => cases h
  | cons c t =>
    cases hc : Text.isSpace c with
    | true =>
      rw [List.append_nil, skip_space_cons hc] at hs
      have := congrArg List.length hs
      have hle := (skip t).property
      rw [List.length_cons] at this
      omega
    | false => simp_all [begins]

theorem beginsStep_name (hn : Text.isName n = true) (t : Text) : beginsStep (n ++ t) = true := by
  cases n with
  | nil => cases hn
  | cons c n =>
    rw [Text.isName, Bool.and_eq_true] at hn
    simp [beginsStep, hn.1]

/-- The star is a test. -/
theorem readsNodeTest_star : ReadsNodeTest ['*'] .anyName := by
  refine ⟨fun r _ => ?_, .star⟩
  obtain ⟨p, hp⟩ := next?_of_skip (c := '*') (s := ['*'] ++ r) (skip_cons rfl r)
  refine ⟨p, ?_⟩
  rw [readTest?, hp]

/-- What stands behind a name does not make it anything but a name. -/
theorem gives_testAfter (n : Text) {r : Text} (h : endsName r = true) :
    Gives (readTestAfter? n r) (.name ⟨[], n⟩) r := by
  obtain ⟨hname, hopen, -⟩ := of_endsName h
  refine ⟨Nat.le_refl _, ?_⟩
  rw [readTestAfter?, next?_eq_none hopen, take?_eq_none (namePart_of_qNamePart hname).2]
  rfl

/-- A name is a test. -/
theorem readsNodeTest_name (hn : Text.isName n = true) : ReadsNodeTest n (.name ⟨[], n⟩) := by
  refine ⟨fun r hr => ?_, .nameTest hn⟩
  have hskip : (skip (n ++ r)).val = n ++ r := skip_of_begins (begins_name hn) r
  obtain ⟨p, hp⟩ := gives_readName? hn (namePart_of_qNamePart (of_endsName hr).1).1
  obtain ⟨p', hp'⟩ := gives_testAfter n hr
  have hstar := next?_eq_none (c := '*') (s := n ++ r)
    (by rw [hskip]; exact head?_name hn (by decide) r)
  rcases hs : skip (n ++ r) with ⟨t, ht⟩
  rw [hs] at hskip
  subst hskip
  rw [readTest?, hstar, hs]
  simp only [hp, hp']
  exact ⟨_, rfl⟩

theorem readsTest_star : ReadsTest ['*'] .child .anyName := by
  refine ⟨rfl, fun {r} _ => ?_, .child .star⟩
  obtain ⟨p, hp⟩ := take?_cons '*' r
  have : readAxisTest? ('*' :: r) = some (.child, .anyName, ⟨r, p⟩) := by rw [readAxisTest?, hp]
  exact ⟨p, this⟩

theorem readAxisTest?_name (hn : Text.isName n = true) (r : Text) :
    readAxisTest? (n ++ r) = readNamedTest? (n ++ r) := by
  rw [readAxisTest?, take?_eq_none (head?_name hn (by decide) r),
    take?_eq_none (head?_name hn (by decide) r)]

/-- A name is a test for children. -/
theorem readsTest_name (hn : Text.isName n = true) : ReadsTest n .child (.name ⟨[], n⟩) := by
  have hb := beginsStep_name hn []
  rw [List.append_nil] at hb
  refine ⟨hb, fun {r} hr => ?_, .child (.nameTest hn)⟩
  obtain ⟨hname, -, hcolon⟩ := of_endsName hr
  obtain ⟨p, hp⟩ := gives_readName? hn (namePart_of_qNamePart hname).1
  obtain ⟨p', hp'⟩ := gives_testAfter n hr
  -- The name may be that of an axis; but there are no colons behind it.
  have haxis : readAxis? n r = none := by
    rw [readAxis?, readColons?, next?_eq_none hcolon]
    cases Axis.ofName? n <;> rfl
  rw [readAxisTest?_name hn, readNamedTest?, hp]
  simp only [haxis, hp']
  exact ⟨_, rfl⟩

/-- A name with a sign in front is a test for attributes. -/
theorem readsTest_attribute (hn : Text.isName n = true) :
    ReadsTest ('@' :: n) .attributes (.name ⟨[], n⟩) := by
  refine ⟨rfl, fun {r} hr => ?_, .attribute (.nameTest hn)⟩
  obtain ⟨p, hp⟩ := take?_cons '@' (n ++ r)
  obtain ⟨p', hp'⟩ := (readsNodeTest_name hn).gives r hr
  have hstar : Text.take? '*' ('@' :: (n ++ r)) = none := take?_eq_none (by simp)
  rw [List.cons_append, readAxisTest?, hstar, hp]
  simp only [hp']
  exact ⟨_, rfl⟩

/-- The test for texts. -/
theorem readsTest_text : ReadsTest "text()".toList .child .text := by
  refine ⟨rfl, fun {r} _ => ?_, .child .text⟩
  -- It begins with a name, and the parentheses make it the type of a node.
  obtain ⟨p, hp⟩ := gives_readName? (n := "text".toList) (r := '(' :: ')' :: r) rfl rfl
  obtain ⟨q, hq⟩ := next?_of_skip (c := '(') (s := '(' :: ')' :: r) (skip_cons rfl _)
  obtain ⟨q', hq'⟩ := next?_of_skip (c := ')') (s := ')' :: r) (skip_cons rfl _)
  have hkind : readNodeType? "text".toList (')' :: r) = some (.text, ⟨r, q'⟩) := by
    rw [readNodeType?, hq']
    rfl
  have hafter : Gives (readTestAfter? "text".toList ('(' :: ')' :: r)) .text r := by
    rw [readTestAfter?, hq]
    simp only [hkind]
    exact ⟨_, rfl⟩
  obtain ⟨q'', hq''⟩ := hafter
  have hshape : "text()".toList ++ r = "text".toList ++ '(' :: ')' :: r := rfl
  rw [hshape, readAxisTest?_name rfl, readNamedTest?, hp]
  simp only [show readAxis? "text".toList ('(' :: ')' :: r) = none from rfl, hq'']
  exact ⟨_, rfl⟩

theorem ofName?_name (axis : Axis) : Axis.ofName? axis.name = some axis := by
  cases axis <;> decide

theorem isName_axis (axis : Axis) : Text.isName axis.name = true := by
  cases axis <;> decide

theorem mem_axisNames (axis : Axis) : axis.name ∈ Axis.all.map Axis.name := by
  cases axis <;> decide

theorem gives_readAxis? (axis : Axis) (r : Text) :
    Gives (readAxis? axis.name (':' :: ':' :: r)) axis r := by
  obtain ⟨p, hp⟩ := next?_of_skip (c := ':') (s := ':' :: ':' :: r) (skip_cons rfl _)
  obtain ⟨q, hq⟩ := take?_cons ':' r
  rw [readAxis?, ofName?_name, readColons?, hp]
  simp only [hq]
  exact ⟨_, rfl⟩

/-- A test on an axis that is named. -/
theorem readsTest_along (axis : Axis) (h : ReadsNodeTest u test) :
    ReadsTest (axis.name ++ "::".toList ++ u) axis test := by
  have hn := isName_axis axis
  have hspells := Spells.along (mem_axisNames axis) hn h.spells
  rw [List.append_assoc] at hspells ⊢
  refine ⟨beginsStep_name hn _, fun {r} hr => ?_, hspells⟩
  obtain ⟨p, hp⟩ := gives_readName? (r := ':' :: ':' :: (u ++ r)) hn rfl
  obtain ⟨p', hp'⟩ := h.gives r hr
  obtain ⟨q, hq⟩ := gives_readAxis? axis (u ++ r)
  have hshape : axis.name ++ ("::".toList ++ u) ++ r = axis.name ++ ':' :: ':' :: (u ++ r) := by
    simp
  rw [hshape, readAxisTest?_name hn, readNamedTest?, hp]
  simp only [hq, hp']
  exact ⟨_, rfl⟩

end

/-! ## Stretches

Reading a path is not compositional on texts: `//a` is read by other calls when `[1]` follows. A
stretch says where the reader is between the two, and what is read behind it is a continuation. The
text of a path is then extended at its end, one predicate or step at a time. -/

/-- A path as far as it has been read: a step, which can be given predicates, or a set of nodes. -/
inductive Stretch where
  | step (start : Expr) (axis : Axis) (test : NodeTest) (predicates : List Expr)
  | set (e : Expr)

namespace Stretch

/-- The path if nothing is added. -/
def expr : Stretch → Expr
  | step start axis test predicates => .step start axis test predicates
  | set e => e

def given (predicate : Expr) : Stretch → Stretch
  | step start axis test predicates => step start axis test (predicates ++ [predicate])
  | set e => set (.filter e predicate)

/-- A text whose tokens are such a stretch by the grammar. -/
def Spelled : Stretch → Text → Prop
  | step .., t => SpellsStep t
  | set _, t => Spells true .filter t

/-- A stretch by the grammar is a path that steps can be added to. -/
theorem Spelled.front {t : Text} : ∀ {p : Stretch}, p.Spelled t → SpellsFront t
  | step .., h => SpellsStep.front h
  | set _, h => .of_filter h

theorem Spelled.given {t u : Text} {named : Bool} (hu : Spells named (.operand 0) u) (e : Expr) :
    ∀ {p : Stretch}, p.Spelled t → (p.given e).Spelled (t ++ '[' :: (u ++ [']']))
  | step .., h => SpellsStep.given h hu
  | set _, h => Spells.given h hu

end Stretch

/-- What is read behind a stretch, and what is left then. -/
def Resumes (p : Stretch) (s : Text) (e : Expr) (r : Text) : Prop :=
  match p with
  | .step start axis test predicates => ∃ further s', Gives (readPredicates s) further s' ∧
      Gives (readSteps (.step start axis test (predicates ++ further)) s') e r
  | .set a => ∃ b s', Gives (readFilters a s) b s' ∧ Gives (readSlashes b s') e r

/-- A text whose reading leaves the reader behind a stretch of a path. -/
structure Leads (t : Text) (p : Stretch) : Prop where
  begins : begins t = true
  gives {s r r' : Text} {e : Expr} : (skip s).val = t ++ r → endsName r = true →
    r'.head? ≠ some '/' → Resumes p r e r' → Gives (readPath s) e r'
  spells : p.Spelled t

section

variable {t u v : Text} {p : Stretch} {axis : Axis} {test : NodeTest}

/-- Where a path ends, it is the stretch. -/
theorem resumes_stop (p : Stretch) {r : Text} (h : endsPath r = true) :
    Resumes p r p.expr (skip r).val := by
  obtain ⟨hb, hs⟩ := head?_of_endsPath h
  cases p with
  | step start axis test predicates =>
    have := gives_steps_stop (.step start axis test predicates) (s := (skip r).val)
      (by rw [skip_skip]; exact hs)
    rw [skip_skip] at this
    refine ⟨[], (skip r).val, gives_predicates_stop hb, ?_⟩
    rw [List.append_nil]
    exact this
  | set a => exact ⟨a, (skip r).val, gives_filters_stop a hb, gives_slashes_stop a hs⟩

/-- A text that leads to a stretch is read as the path that the stretch is. -/
theorem Leads.path (h : Leads t p) : ReadsPath true t p.expr :=
  ⟨h.begins, fun hs hn hr => h.gives hs (hn rfl) (head?_of_endsPath hr).2 (resumes_stop p hr),
    h.spells.front.path⟩

/-- A text that is read as a predicate, brackets included. -/
def ReadsPredicate (t : Text) (e : Expr) : Prop :=
  ∃ u, t = '[' :: (u ++ [']']) ∧ Reads true 0 u e

/-- A predicate behind a path is given to it. -/
theorem Leads.given {e : Expr} (h : Leads t p) (hv : ReadsPredicate v e) :
    Leads (t ++ v) (p.given e) := by
  obtain ⟨u, rfl, hu⟩ := hv
  refine ⟨begins_append h.begins _, fun {s r r' a} hs _ hr' hp => ?_, h.spells.given hu.spells e⟩
  have hs' : (skip s).val = t ++ '[' :: (u ++ ']' :: r) := by rw [hs]; simp
  refine h.gives hs' rfl hr' ?_
  have hopen : (skip ('[' :: (u ++ ']' :: r))).val = '[' :: (u ++ ']' :: r) := skip_cons rfl _
  have hlevel := hu.gives (skip_of_begins hu.begins (']' :: r)) (fun _ => rfl) rfl
  cases p with
  | step start axis test predicates =>
    obtain ⟨further, s', hfurther, hsteps⟩ := hp
    refine ⟨e :: further, s', gives_predicates_step hopen hlevel hfurther, ?_⟩
    rwa [List.append_assoc] at hsteps
  | set b =>
    obtain ⟨b', s', hfilters, hslashes⟩ := hp
    exact ⟨b', s', gives_filters_step hopen hlevel hfilters, hslashes⟩

/-- A test with predicates behind it is read as a step. -/
theorem gives_step_of_test (start : Expr) {r r' : Text} {predicates : List Expr}
    (ht : ReadsTest u axis test) (hr : endsName r = true)
    (h : Gives (readPredicates r) predicates r') :
    Gives (readStep start (u ++ r)) (.step start axis test predicates) r' := by
  refine gives_step start (head?_skip_of_beginsStep ht.begins (by decide) r) ?_ h
  rw [skip_of_beginsStep ht.begins]
  exact ht.gives hr

/-- A slash ends the predicates of a step and of a set, and the path goes on behind it. -/
theorem resumes_slash {a b : Expr} {r r' s : Text} (hstep : Gives (readStepAfterSlash p.expr r) b s)
    (hsteps : Gives (readSteps b s) a r') (hset : Gives (readSlashes p.expr ('/' :: r)) a r') :
    Resumes p ('/' :: r) a r' := by
  have hopen : (skip ('/' :: r)).val = '/' :: r := skip_cons rfl _
  -- The reader of a step and that of a set go on in their own ways.
  cases p with
  | step start axis test predicates =>
    refine ⟨[], _, gives_predicates_stop (by rw [hopen]; simp), ?_⟩
    rw [hopen, List.append_nil]
    exact gives_steps_step hopen hstep hsteps
  | set c =>
    refine ⟨c, _, gives_filters_stop c (by rw [hopen]; simp), ?_⟩
    rw [hopen]
    exact hset

/-- What a step behind one slash leads to. -/
theorem Leads.onward (h : Leads t p) (ht : ReadsTest u axis test) :
    Leads (t ++ '/' :: u) (.step p.expr axis test []) := by
  refine ⟨begins_append h.begins _, fun {s r r' a} hs hn hr' hp => ?_,
    h.spells.front.onward ht.spells (head?_of_beginsStep ht.begins (by decide))⟩
  have hs' : (skip s).val = t ++ '/' :: (u ++ r) := by rw [hs]; simp
  obtain ⟨further, s', hfurther, hsteps⟩ := hp
  have hslash := head?_of_beginsStep (d := '/') ht.begins (by decide) r
  have hstep := gives_step_of_test p.expr ht hn hfurther
  exact h.gives hs' rfl hr' (resumes_slash (gives_stepAfterSlash_step hslash hstep) hsteps
    (gives_slashes_step hslash hstep hsteps))

/-- What a step behind two slashes leads to. -/
theorem Leads.below (h : Leads t p) (ht : ReadsTest u axis test) :
    Leads (t ++ '/' :: '/' :: u) (.step (descend p.expr) axis test []) := by
  refine ⟨begins_append h.begins _, fun {s r r' a} hs hn hr' hp => ?_,
    h.spells.front.downward ht.spells⟩
  have hs' : (skip s).val = t ++ '/' :: '/' :: (u ++ r) := by rw [hs]; simp
  obtain ⟨further, s', hfurther, hsteps⟩ := hp
  have hslash := head?_skip_of_beginsStep (d := '/') ht.begins (by decide) r
  have hstep := gives_step_of_test (descend p.expr) ht hn hfurther
  exact h.gives hs' rfl hr' (resumes_slash (gives_stepAfterSlash_descend hstep) hsteps
    (gives_slashes_descend (gives_relative hslash hstep hsteps)))

/-- An operand in parentheses is a set. -/
theorem Reads.enclosed {e : Expr} (h : Reads true 0 t e) : Leads ('(' :: (t ++ [')'])) (.set e) := by
  refine ⟨rfl, fun {s r r' a} hs _ hr' hp => ?_, h.spells.enclosed⟩
  have hs' : (skip s).val = '(' :: (t ++ ')' :: r) := by rw [hs]; simp
  have hlevel := h.gives (skip_of_begins h.begins (')' :: r)) (fun _ => rfl) rfl
  obtain ⟨b, s', hfilters, hslashes⟩ := hp
  refine gives_path_of_primary ?_ ?_ hfilters hslashes
  · rw [hs']
    rfl
  · rw [hs']
    exact gives_primary_enclosed hlevel

/-- A path in parentheses is a set. -/
theorem Leads.enclosed (h : Leads t p) : Leads ('(' :: (t ++ [')'])) (.set p.expr) :=
  (h.path.operand (Nat.zero_le 6)).enclosed

/-- The first step of a path from the context node. -/
theorem Leads.here (ht : ReadsTest u axis test)
    (hu : ∀ r, endsName r = true → beginsWithPrimary? (u ++ r) = some false) :
    Leads u (.step .here axis test []) := by
  refine ⟨begins_of_step ht.begins, fun {s r r' a} hs hn _ hp => ?_, SpellsStep.first ht.spells⟩
  obtain ⟨further, s', hfurther, hsteps⟩ := hp
  refine gives_path_of_step ?_ ?_ ?_
  · rw [hs]
    exact hu r hn
  · rw [hs]
    exact head?_of_beginsStep ht.begins (by decide) r
  · rw [hs]
    exact gives_relative (head?_skip_of_beginsStep ht.begins (by decide) r)
      (gives_step_of_test _ ht hn hfurther) hsteps

theorem beginsWithPrimary?_axis (axis : Axis) (s : Text) :
    beginsWithPrimary? (axis.name ++ ("::".toList ++ s)) = some false := by
  have hall : (axis.name ++ "::".toList).all isQNamePart = true := by
    rw [List.all_append, all_isQNamePart (isName_axis axis)]
    rfl
  have htake : (axis.name ++ ("::".toList ++ s)).takeWhile isQNamePart =
      axis.name ++ "::".toList ++ s.takeWhile isQNamePart := by
    rw [← List.append_assoc]
    exact List.takeWhile_append_of_pos (List.all_eq_true.1 hall)
  have hholds := Text.holds_append axis.name "::".toList (s.takeWhile isQNamePart)
  rw [beginsWithPrimary?_append (isName_axis axis), beginsWithCall, htake]
  simp only [show [':', ':'] = "::".toList from rfl, hholds, if_true]

/-- The first step of a path from the context node, on an axis that is named. -/
theorem Leads.along (axis : Axis) (h : ReadsNodeTest u test) :
    Leads (axis.name ++ "::".toList ++ u) (.step .here axis test []) :=
  Leads.here (readsTest_along axis h) fun r _ => by
    rw [List.append_assoc, List.append_assoc]
    exact beginsWithPrimary?_axis axis (u ++ r)

/-- The first step of a path from the document. -/
theorem Leads.root (ht : ReadsTest u axis test)
    (hu : mayFollowRoot u = true) : Leads ('/' :: u) (.step .root axis test []) := by
  refine ⟨rfl, fun {s r r' a} hs hn hr' hp => ?_,
    SpellsStep.root ht.spells (head?_of_beginsStep ht.begins (by decide))⟩
  obtain ⟨further, s', hfurther, hsteps⟩ := hp
  have hskip := skip_of_beginsStep ht.begins r
  have hslash := head?_of_beginsStep (d := '/') ht.begins (by decide) r
  have hmay : mayFollowRoot (u ++ r) = true := by
    cases u with
    | nil => cases hu
    | cons c u => exact hu
  have hs' : (skip s).val = '/' :: (u ++ r) := hs
  refine gives_path_of_slash hs' (gives_afterSlash_step hslash ?_ ?_ hr')
  · rw [hskip]
    exact hmay
  · rw [hskip]
    exact gives_relative (head?_skip_of_beginsStep ht.begins (by decide) r)
      (gives_step_of_test _ ht hn hfurther) hsteps

/-- The first step of a path from anywhere in the document. -/
theorem Leads.anywhere (ht : ReadsTest u axis test) :
    Leads ('/' :: '/' :: u) (.step (descend .root) axis test []) := by
  refine ⟨rfl, fun {s r r' a} hs hn hr' hp => ?_, SpellsStep.anywhere ht.spells⟩
  obtain ⟨further, s', hfurther, hsteps⟩ := hp
  have hslash := head?_skip_of_beginsStep (d := '/') ht.begins (by decide) r
  exact gives_path_of_slash hs (gives_afterSlash_descend
    (gives_relative hslash (gives_step_of_test _ ht hn hfurther) hsteps) hr')

/-- The context node itself. -/
theorem readsPath_here : ReadsPath true ['.'] .here := by
  refine ⟨rfl, fun {s r} hs hn hr => ?_, SpellsFront.here.path⟩
  have hparts : r.head? ≠ some '.' ∧ beginsWithPrimary? ('.' :: r) = some false := by
    have := (of_endsName (hn rfl)).1
    cases r with
    | nil => exact ⟨by simp, rfl⟩
    | cons c r =>
      rw [List.head?_cons, Option.all_some, Bool.not_eq_true'] at this
      constructor
      · intro hc
        obtain rfl : c = '.' := by simpa using hc
        revert this
        decide
      · cases hd : c.isDigit with
        | true =>
          rw [isQNamePart_of_isDigit hd] at this
          cases this
        | false => simp [beginsWithPrimary?, hd]
  have hopen : (skip ('.' :: r)).val = '.' :: r := skip_cons rfl r
  refine gives_path_of_step ?_ ?_ ?_
  · rw [hs]
    exact hparts.2
  · rw [hs]
    simp
  · rw [hs]
    exact gives_relative (s := '.' :: r) (by rw [hopen]; simp)
      (gives_step_here .here hopen hparts.1) (gives_steps_stop .here (head?_of_endsPath hr).2)

/-- Behind a point the reader goes on with the slashes and steps of a path from the context node. -/
theorem gives_path_of_point {s r r' : Text} {e : Expr} (hs : (skip s).val = '.' :: '/' :: r)
    (h : Gives (readSteps .here ('/' :: r)) e r') : Gives (readPath s) e r' := by
  have hopen : (skip ('.' :: '/' :: r)).val = '.' :: '/' :: r := skip_cons rfl _
  refine gives_path_of_step ?_ ?_ ?_
  · rw [hs]
    rfl
  · rw [hs]
    simp
  · rw [hs]
    exact gives_relative (by rw [hopen]; simp) (gives_step_here .here hopen (by simp)) h

/-- A step behind a point and one slash. -/
theorem Leads.inPoint (ht : ReadsTest u axis test) :
    Leads ('.' :: '/' :: u) (.step .here axis test []) := by
  refine ⟨rfl, fun {s r r' a} hs hn _ hp => ?_,
    SpellsFront.here.onward ht.spells (head?_of_beginsStep ht.begins (by decide))⟩
  obtain ⟨further, s', hfurther, hsteps⟩ := hp
  have hslash := head?_of_beginsStep (d := '/') ht.begins (by decide) r
  exact gives_path_of_point hs (gives_steps_step (skip_cons rfl _)
    (gives_stepAfterSlash_step hslash (gives_step_of_test _ ht hn hfurther)) hsteps)

/-- A step behind a point and two slashes. -/
theorem Leads.belowPoint (ht : ReadsTest u axis test) :
    Leads ('.' :: '/' :: '/' :: u) (.step (descend .here) axis test []) := by
  refine ⟨rfl, fun {s r r' a} hs hn _ hp => ?_, SpellsFront.here.downward ht.spells⟩
  obtain ⟨further, s', hfurther, hsteps⟩ := hp
  exact gives_path_of_point hs (gives_steps_step (skip_cons rfl _)
    (gives_stepAfterSlash_descend (gives_step_of_test _ ht hn hfurther)) hsteps)

end

end TreeQuery.XPath.Expr
