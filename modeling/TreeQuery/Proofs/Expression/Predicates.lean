import TreeQuery.Proofs.Expression.Basic

/-!
# Predicates that are read back

The predicates of attribute tests and of the static pseudo-classes are read as what they ask for.
Each is put together from operands in the way in which its text is.
-/

namespace TreeQuery

open XPath XPath.Expr

/-! ## Attribute tests

The operands of a predicate are read first, each as a path or a function; then they are joined by
operators, from the tightest to the loosest, and put between brackets. Reading an operand says what
may stand behind it, a name being such that no character of a name follows. The text that comes out
is the template up to the order in which pieces are put together. -/

namespace AttributeTest

variable {n v : Text}

/-- The sign for an attribute and its name are read as the attribute. -/
theorem reads_attribute (hn : Text.isName n = true) :
    ReadsPath true ('@' :: n) (Expr.attribute n) :=
  (Leads.here (readsTest_attribute hn) fun _ _ => rfl).path

/-- A whole expression between brackets is a predicate. -/
theorem readsPredicate_of {t u : Text} {e e' : Expr} (hu : Reads true 0 u e')
    (ht : t = '[' :: (u ++ [']'])) (he : e = e') : ReadsPredicate t e :=
  ⟨u, ht, he ▸ hu⟩

theorem readsPath_function {f t : Text} {es : List Expr} (hf : isFunctionName f = true)
    (h : ReadsArguments t es) : ReadsPath true (f ++ '(' :: (t ++ [')'])) (.call ⟨[], f⟩ es) :=
  (ReadsPath.call hf h).toNamed

theorem readsArguments_pair {named named' : Bool} {t u g : Text} {a b : Expr}
    (ht : ReadsPath named t a) (hg : g.all Text.isSpace = true) (hu : ReadsPath named' u b) :
    ReadsArguments (t ++ ',' :: (g ++ u)) [a, b] :=
  .more (ht.toNamed.operand (by decide)) hg (.one (hu.toNamed.operand (by decide)))

/-- A text without apostrophes is read from between apostrophes. -/
theorem reads_literal (hv : '\'' ∉ v) : ReadsPath true (literal v) (.literal v) :=
  (ReadsPath.literal hv).toNamed

/-- The predicate of a plain test is read as what it asks for. -/
theorem readsPredicate {t : AttributeTest} (h : t.isPlain = true) :
    ReadsPredicate t.predicate t.expr := by
  obtain ⟨n, comparison⟩ := t
  rw [isPlain, Bool.and_eq_true] at h
  have hsubject : ReadsPath true ('@' :: n) (Expr.attribute n) := reads_attribute h.1
  have hv := h.2
  clear h
  cases comparison with
  | none => exact readsPredicate_of (hsubject.operand (by decide)) (by simp [predicate]) rfl
  | some c =>
    obtain ⟨operator, v⟩ := c
    have hquote : '\'' ∉ v := by simpa using hv
    have hvalue := reads_literal hquote
    -- On an empty value some operators have a predicate that nothing passes.
    by_cases he : (operator.failsOnEmpty && v.isEmpty) = true
    · have hfalse := ReadsPath.callNil (f := "false".toList) (by decide)
      exact readsPredicate_of (hfalse.toNamed.operand (by decide)) (by simp [predicate, he])
        (by simp [expr, he])
    · cases operator with
      | equals =>
        have := Reads.binary (by decide) joins_equal (hsubject.operand (k := 3) (by decide))
          (hvalue.operand (by decide))
        exact readsPredicate_of (this.loose (Nat.zero_le 2) (by decide)) (by simp [predicate, he])
          (by simp [expr, he])
      | differs =>
        have := Reads.binary (by decide) joins_unequal (hsubject.operand (k := 3) (by decide))
          (hvalue.operand (by decide))
        exact readsPredicate_of (this.loose (Nat.zero_le 2) (by decide)) (by simp [predicate, he])
          (by simp [expr, he])
      | word =>
        have hword : '\'' ∉ ' ' :: v ++ [' '] := by simp [hquote]
        have hspace := reads_literal (v := [' ']) (by decide)
        have hnormal := readsPath_function (f := "normalize-space".toList) (by decide)
          (.one (hsubject.operand (by decide)))
        have hconcat := readsPath_function (f := "concat".toList) (by decide)
          (.more (hspace.operand (by decide)) (g := [' ']) rfl
            (readsArguments_pair hnormal (g := [' ']) rfl hspace))
        have := readsPath_function (f := "contains".toList) (by decide)
          (readsArguments_pair hconcat (g := [' ']) rfl (reads_literal hword))
        exact readsPredicate_of (this.operand (by decide)) (by simp [predicate, he, literal])
          (by simp [expr, he])
      | part =>
        have := readsPath_function (f := "contains".toList) (by decide)
          (readsArguments_pair hsubject (g := [' ']) rfl hvalue)
        exact readsPredicate_of (this.operand (by decide)) (by simp [predicate, he])
          (by simp [expr, he])
      | beginning =>
        have := readsPath_function (f := "starts-with".toList) (by decide)
          (readsArguments_pair hsubject (g := [' ']) rfl hvalue)
        exact readsPredicate_of (this.operand (by decide)) (by simp [predicate, he])
          (by simp [expr, he])
      | ending =>
        have hlength := ReadsPath.call (f := "string-length".toList) (by decide)
          (.one (hsubject.operand (by decide)))
        have hminus := Reads.binary (by decide) joins_minus (hlength.operand (k := 5) (by decide))
          ((ReadsPath.toDigits (v.length - 1)).operand (by decide))
        have hsub := readsPath_function (f := "substring".toList) (by decide)
          (.more (hsubject.operand (by decide)) (g := [' ']) rfl
            (.one (hminus.loose (Nat.zero_le 4) (by decide))))
        have hequal := Reads.binary (by decide) joins_equal_spaced (hsub.operand (k := 3) (by decide))
          (hvalue.operand (by decide))
        have := Reads.binary (by decide) joins_and (hsubject.operand (k := 2) (by decide)) hequal
        exact readsPredicate_of (this.loose (Nat.zero_le 1) (by decide)) (by simp [predicate, he])
          (by simp [expr, he])
      | dashed =>
        have hdash : '\'' ∉ v ++ ['-'] := by simp [hquote]
        have hequal := Reads.binary (by decide) joins_equal (hsubject.operand (k := 3) (by decide))
          (hvalue.operand (by decide))
        have hstarts := readsPath_function (f := "starts-with".toList) (by decide)
          (readsArguments_pair hsubject (g := [' ']) rfl (reads_literal hdash))
        have := Reads.binary (by decide) joins_or (hequal.loose (by decide) (by decide))
          (hstarts.operand (k := 1) (by decide))
        exact readsPredicate_of this (by simp [predicate, he])
          (by simp [expr, he])

end AttributeTest

/-! ## Static pseudo-classes

The predicates of pseudo-classes without an argument are fixed texts. They are not read by
computation, but put together like the others from the operands that occur in them, since reading
any of them with something behind it is what is needed. -/

namespace StaticPseudo

open AttributeTest (readsPredicate_of readsPath_function)

/-- The star on an axis is read as any element there. -/
theorem reads_onAxis (axis : Axis) :
    ReadsPath true (axis.name ++ "::".toList ++ ['*']) (onAxis axis) :=
  (Leads.along axis readsNodeTest_star).path

theorem reads_noneOn (axis : Axis) : ReadsPath true
    ("not".toList ++ '(' :: (axis.name ++ "::".toList ++ ['*'] ++ [')'])) (noneOn axis) :=
  readsPath_function (by decide) (.one ((reads_onAxis axis).operand (by decide)))

theorem reads_childCount : ReadsPath true "count(*)".toList childCount :=
  readsPath_function (f := "count".toList) (t := ['*']) (by decide)
    (.one ((Leads.here readsTest_star fun _ _ => rfl).path.operand (by decide)))

theorem reads_textLength : ReadsPath true "string-length()".toList textLength :=
  (ReadsPath.callNil (f := "string-length".toList) (by decide)).toNamed

/-- The remainder of the position is read. -/
theorem reads_parity : Reads true 5 "position() mod 2".toList parity :=
  Reads.binary (by decide) joins_mod
    ((ReadsPath.callNil (f := "position".toList) (by decide)).toNamed.operand (by decide))
    ((ReadsPath.toDigits 2).operand (by decide))

theorem reads_isNamed {n : Text} (hn : Text.isName n = true) :
    ReadsPath true ("self::".toList ++ n) (isNamed n) :=
  (Leads.along .self (readsNodeTest_name hn)).path

/-- The predicate of a static pseudo-class is read as what it asks for. -/
theorem readsPredicate (p : StaticPseudo) : ReadsPredicate p.predicate p.expr := by
  have hzero : ReadsPath true ['0'] (.number (.whole 0)) := ReadsPath.toDigits 0
  have hone : ReadsPath true ['1'] (.number (.whole 1)) := ReadsPath.toDigits 1
  cases p with
  | disabled =>
    exact readsPredicate_of ((AttributeTest.reads_attribute (by decide)).operand (by decide)) rfl
      rfl
  | firstChild =>
    exact readsPredicate_of ((reads_noneOn .precedingSibling).operand (by decide)) rfl rfl
  | lastChild =>
    exact readsPredicate_of ((reads_noneOn .followingSibling).operand (by decide)) rfl rfl
  | onlyChild =>
    have := Reads.binary (by decide) joins_and
      ((reads_noneOn .precedingSibling).operand (k := 2) (by decide))
      ((reads_noneOn .followingSibling).operand (by decide))
    exact readsPredicate_of (this.loose (by decide) (by decide)) rfl rfl
  | empty =>
    have hcount := Reads.binary (by decide) joins_equal_spaced
      (reads_childCount.operand (k := 3) (by decide)) (hzero.operand (by decide))
    have hlength := Reads.binary (by decide) joins_equal_spaced
      (reads_textLength.operand (k := 3) (by decide)) (hzero.operand (by decide))
    have := Reads.binary (by decide) joins_and hcount hlength
    exact readsPredicate_of (this.loose (by decide) (by decide)) rfl rfl
  | notEmpty =>
    have hcount := Reads.binary (by decide) joins_greater
      (reads_childCount.operand (k := 4) (by decide)) (hzero.operand (by decide))
    have hlength := Reads.binary (by decide) joins_greater
      (reads_textLength.operand (k := 4) (by decide)) (hzero.operand (by decide))
    have := Reads.binary (by decide) joins_or (hcount.loose (by decide) (by decide))
      (hlength.loose (by decide) (by decide))
    exact readsPredicate_of this rfl rfl
  | parent =>
    have := Reads.binary (by decide) joins_greater
      (reads_childCount.operand (k := 4) (by decide)) (hzero.operand (by decide))
    exact readsPredicate_of (this.loose (by decide) (by decide)) rfl rfl
  | header =>
    have hall : List.Forall₂ (Reads true 1) (headerTags.map ("self::".toList ++ ·))
        (headerTags.map isNamed) := by
      have hnames : ∀ n ∈ headerTags, Text.isName n = true := by decide
      rw [List.forall₂_map_left_iff, List.forall₂_map_right_iff, List.forall₂_same]
      exact fun n hn => (reads_isNamed (hnames n hn)).operand (by decide)
    exact readsPredicate_of (Reads.anyOf hall (by decide)) rfl rfl
  | odd =>
    have := Reads.binary (by decide) joins_equal_spaced (reads_parity.loose (by decide) (by decide))
      (hzero.operand (k := 3) (by decide))
    exact readsPredicate_of (this.loose (by decide) (by decide)) rfl rfl
  | even =>
    have := Reads.binary (by decide) joins_equal_spaced (reads_parity.loose (by decide) (by decide))
      (hone.operand (k := 3) (by decide))
    exact readsPredicate_of (this.loose (by decide) (by decide)) rfl rfl
  | first => exact readsPredicate_of (hone.operand (by decide)) rfl rfl
  | last =>
    have := (ReadsPath.callNil (f := "last".toList) (by decide)).toNamed
    exact readsPredicate_of (this.operand (by decide)) rfl rfl
  | root => exact readsPredicate_of ((reads_noneOn .parent).operand (by decide)) rfl rfl

end StaticPseudo

end TreeQuery
