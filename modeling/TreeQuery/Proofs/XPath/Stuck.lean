import TreeQuery.Proofs.XPath.Inversion
import TreeQuery.Proofs.XPath.Path

/-!
# Where the readers get stuck

A name ends in front of a character that is no part of a name. If that is a character beyond ASCII,
no reader goes on: operators, brackets, commas and slashes are all ASCII. A text jams if, whatever
stands behind it, the reader either fails on it or is left in front of such a character. What begins
with a text that jams does so as well, and nothing that jams is an expression.

Main statements: `JamsPath.operand`, `jams_anyOf`, `jams_union`, `JamsPath.call` and
`JamsTest.anywhere`.
-/

namespace TreeQuery.XPath.Expr

/-! Each reader that goes on behind something looks for a sign of ASCII. In front of another
character it gives back what it has been given, and what is left stays the same. -/

def isStuck (r : Text) : Bool := r.head?.any (0x80 ≤ ·.toNat)

section

variable {r r' : Text}

/-- What is beyond ASCII is no sign. -/
theorem head?_of_isStuck (h : isStuck r = true) {d : Char} (hd : d.toNat < 0x80) :
    r.head? ≠ some d := by
  intro hr
  rw [isStuck, hr, Option.any_some, decide_eq_true_eq] at h
  omega

theorem skip_of_isStuck (h : isStuck r = true) : (skip r).val = r := by
  cases r with
  | nil => cases h
  | cons c r =>
    exact skip_cons (Text.isSpace_eq_false (p := (0x80 ≤ ·.toNat)) h (by decide)) r

theorem readOperator?_of_isStuck (h : isStuck r = true) {signs : List Sign}
    (hs : signs.all fun s => s.1.head?.any (·.toNat < 0x80)) : readOperator? signs r = none := by
  induction signs with
  | nil => rfl
  | cons sign signs ih =>
    obtain ⟨s, o⟩ := sign
    rw [List.all_cons, Bool.and_eq_true] at hs
    -- Each sign begins with a character of ASCII, which does not stand there.
    have hskip : Text.skip? s r = none := by
      cases s with
      | nil => cases hs.1
      | cons c s =>
        cases r with
        | nil => cases h
        | cons d r =>
          have hcd : c ≠ d := by
            rintro rfl
            exact head?_of_isStuck h (by simpa using hs.1) rfl
          have hafter : Text.after? (c :: s) (d :: r) = none := by rw [Text.after?, if_neg hcd]
          unfold Text.skip?
          split
          · next hr => cases hafter.symm.trans hr
          · rfl
    rw [readOperator?, hskip]
    exact ih hs.2

theorem readOperator?_signsOf {k : Nat} (hk : k < 6) (h : isStuck r = true) :
    readOperator? (signsOf k) r = none := by
  refine readOperator?_of_isStuck h ?_
  match k, hk with
  | 0, _ | 1, _ | 2, _ | 3, _ | 4, _ | 5, _ => decide

/-- No predicate is read there. -/
theorem stuck_predicates {es : List Expr} (h : isStuck r = true)
    (he : Gives (readPredicates r) es r') : es = [] ∧ r' = r := by
  have hskip := skip_of_isStuck h
  have hstop := gives_predicates_stop (s := r) (by rw [hskip]; exact head?_of_isStuck h (by decide))
  rw [hskip] at hstop
  exact he.unique hstop

/-- No step is read there. -/
theorem stuck_steps {a e : Expr} (h : isStuck r = true) (he : Gives (readSteps a r) e r') :
    r' = r := by
  have hskip := skip_of_isStuck h
  have hstop := gives_steps_stop a (s := r) (by rw [hskip]; exact head?_of_isStuck h (by decide))
  rw [hskip] at hstop
  exact (he.unique hstop).2

/-- No further path is read there. -/
theorem stuck_branches {a e : Expr} (h : isStuck r = true) (he : Gives (readBranches a r) e r') :
    r' = r := by
  have hskip := skip_of_isStuck h
  have hstop := gives_branches_stop a (s := r) (by rw [hskip]; exact head?_of_isStuck h (by decide))
  rw [hskip] at hstop
  exact (he.unique hstop).2

/-- No operator is read there. -/
theorem stuck_chain {k : Nat} (hk : k < 6) {ls : List (List Sign)} {a e : Expr}
    (h : isStuck r = true) (he : Gives (readChain (signsOf k) ls a r) e r') : r' = r := by
  have hskip := skip_of_isStuck h
  have hstop := gives_chain_stop (signsOf k) ls r a
    (by rw [hskip]; exact readOperator?_signsOf hk h)
  rw [hskip] at hstop
  exact (he.unique hstop).2

end

/-! ## Texts that jam

For each kind of part, what it is to jam. A path or an operand may leave the reader in front of the
character; arguments and predicates have to end with a parenthesis or a bracket, so that they fail.
-/

/-- A text on which the reader of a path gets stuck, whatever stands behind it. -/
structure JamsPath (t : Text) : Prop where
  begins : begins t = true
  stuck {s r r' : Text} {e : Expr} : (skip s).val = t ++ r → Gives (readPath s) e r' →
    isStuck r' = true

/-- A text on which the reader of the levels from `k` on gets stuck. -/
structure Jams (k : Nat) (t : Text) : Prop where
  begins : begins t = true
  stuck {s r r' : Text} {e : Expr} : (skip s).val = t ++ r →
    Gives (readLevel (levels.drop k) s) e r' → isStuck r' = true

/-- A text on which the reader of arguments fails. -/
structure JamsArguments (t : Text) : Prop where
  begins : begins t = true
  fails {s r r' : Text} {es : List Expr} : (skip s).val = t ++ r → ¬ Gives (readFurther s) es r'

/-- A text on which the reader of predicates fails, brackets included. -/
structure JamsPredicate (t : Text) : Prop where
  opens : ∃ u, t = '[' :: u
  fails {s r r' : Text} {es : List Expr} : (skip s).val = t ++ r → ¬ Gives (readPredicates s) es r'

section

variable {k : Nat} {t u : Text} {a e : Expr}

theorem JamsPath.append (h : JamsPath t) (u : Text) : JamsPath (t ++ u) :=
  ⟨begins_append h.begins u, fun hs => h.stuck (by rw [hs, List.append_assoc])⟩

/-- What jams is not read. -/
theorem JamsPath.not_reads {named : Bool} (h : JamsPath t) : ¬ ReadsPath named t e := by
  intro hread
  have hskip := skip_of_begins h.begins []
  exact absurd (h.stuck hskip (hread.gives hskip (fun _ => rfl) rfl)) (by decide)

theorem endsOperand_nil (k : Nat) : endsOperand k [] = true := by
  induction k with
  | zero => rfl
  | succ k ih => exact endsOperand_succ ih

/-- An operand that jams is not read. -/
theorem Jams.not_reads {named : Bool} (h : Jams k t) : ¬ Reads named k t e := by
  intro hread
  have hskip := skip_of_begins h.begins []
  exact absurd (h.stuck hskip (hread.gives hskip (fun _ => rfl) (endsOperand_nil k))) (by decide)

/-- What stands behind does not help. -/
theorem Jams.append (h : Jams k t) (u : Text) : Jams k (t ++ u) :=
  ⟨begins_append h.begins u, fun hs => h.stuck (by rw [hs, List.append_assoc])⟩

theorem Jams.loosen (hk : k < 6) (h : Jams (k + 1) t) : Jams k t := by
  refine ⟨h.begins, fun hs he => ?_⟩
  rw [drop_levels hk] at he
  obtain ⟨a, r, ha, he⟩ := of_gives_level_cons he
  have hr := h.stuck hs ha
  -- No sign of the level follows the first operand, so the chain of operands ends there.
  rwa [stuck_chain hk hr he]

/-- What jams at a tight level does so at looser ones. -/
theorem Jams.loose {j : Nat} (h : Jams k t) (hj : j ≤ k) (hk : k ≤ 6) : Jams j t := by
  obtain ⟨n, rfl⟩ := Nat.exists_eq_add_of_le hj
  induction n with
  | zero => exact h
  | succ n ih => exact ih (Jams.loosen (by omega) h) (by omega) (by omega)

/-- Where a path jams, so does every operand that begins with it. -/
theorem JamsPath.operand (h : JamsPath t) (hk : k ≤ 6) : Jams k t := by
  refine Jams.loose (k := 6) ⟨h.begins, fun {s r _ _} hs he => ?_⟩ hk (Nat.le_refl 6)
  have hdash : (skip s).val.head? ≠ some '-' := by
    rw [hs]
    exact (head?_of_begins h.begins r).1
  obtain ⟨a, r', ha, he⟩ := of_gives_union (of_gives_unary hdash (of_gives_level_nil he))
  have hr := h.stuck hs ha
  -- No bar follows either.
  rwa [stuck_branches hr he]

/-! ### Operands with signs between them -/

abbrev ReadsOrJams (k : Nat) (t : Text) (e : Expr) : Prop := Reads true k t e ∨ Jams k t

theorem ReadsOrJams.begins (h : ReadsOrJams k t e) : begins t = true :=
  h.elim Reads.begins Jams.begins

/-- Behind an operand that is read stands one more, if a later one is not read. -/
theorem exists_cons_of_not_reads {ts : List Text} {es : List Expr}
    (h : List.Forall₂ (ReadsOrJams k) (t :: ts) (e :: es))
    (hno : ¬ List.Forall₂ (Reads true k) (t :: ts) (e :: es)) (ht : Reads true k t e) :
    ∃ u us b bs, ts = u :: us ∧ es = b :: bs ∧ List.Forall₂ (ReadsOrJams k) (u :: us) (b :: bs) ∧
      ¬ List.Forall₂ (Reads true k) (u :: us) (b :: bs) := by
  cases h with
  | cons _ hts =>
    have hno' : ¬ List.Forall₂ (Reads true k) ts es := fun h => hno (.cons ht h)
    cases hts with
    | nil => exact absurd .nil hno'
    | cons hu hus => exact ⟨_, _, _, _, rfl, rfl, .cons hu hus, hno'⟩

/-- The reader gets stuck on operands with `or` between them if one of them is not read. The
induction goes along the operands; at each the reader has just read it. -/
theorem stuck_or {ts : List Text} {es : List Expr}
    (h : List.Forall₂ (ReadsOrJams 1) (t :: ts) (e :: es))
    (hno : ¬ List.Forall₂ (Reads true 1) (t :: ts) (e :: es)) {s r r' r'' : Text} {b c : Expr}
    (hs : (skip s).val = t ++ (ts.flatMap (" or ".toList ++ ·) ++ r))
    (hb : Gives (readLevel (levels.drop 1) s) b r'')
    (hc : Gives (readChain (signsOf 0) (levels.drop 1) a r'') c r') : isStuck r' = true := by
  induction ts generalizing t e es s a b r'' with
  | nil =>
    cases h with
    | cons ht hts =>
      cases hts
      rcases ht with ht | ht
      · -- Then all operands have been read.
        exact absurd (.cons ht .nil) hno
      · have hr := ht.stuck hs hb
        rwa [stuck_chain (by decide) hr hc]
  | cons u ts ih =>
    rcases (List.forall₂_cons.1 h).1 with ht | ht
    · obtain ⟨_, _, b', bs, he, rfl, hrest, hno'⟩ := exists_cons_of_not_reads h hno ht
      cases he
      -- What is left behind the operand begins with the sign, which is the only way on.
      obtain ⟨hname, hend, g, hg, hsign⟩ :=
        joins_or.follows (u ++ (ts.flatMap (" or ".toList ++ ·) ++ r))
      rw [List.flatMap_cons, List.append_assoc, List.append_assoc] at hs
      obtain ⟨-, rfl⟩ := hb.unique (ht.gives hs (fun _ => hname rfl) hend)
      obtain ⟨b'', r₂, hu, hc⟩ := of_gives_chain_step (by rw [skip_skip]; exact hsign) hc
      refine ih hrest hno' ?_ hu hc
      rw [skip_append hg, skip_of_begins (List.forall₂_cons.1 hrest).1.begins]
    · have hr := ht.stuck hs hb
      rwa [stuck_chain (by decide) hr hc]

/-- Where one of several operands with `or` between them jams, so do they all together. -/
theorem jams_anyOf {ts : List Text} {es : List Expr} (h : List.Forall₂ (ReadsOrJams 1) ts es)
    (hno : ¬ List.Forall₂ (Reads true 1) ts es) :
    Jams 0 (List.intercalate " or ".toList ts) := by
  cases h with
  | nil => exact absurd .nil hno
  | @cons t e ts es ht hts =>
    rw [intercalate_cons]
    refine ⟨begins_append ht.begins _, fun hs he => ?_⟩
    rw [drop_levels (by decide)] at he
    obtain ⟨b, r, hb, hc⟩ := of_gives_level_cons he
    exact stuck_or (.cons ht hts) hno (by rw [hs, List.append_assoc]) hb hc

abbrev ReadsPathOrJams (t : Text) (e : Expr) : Prop := ReadsPath true t e ∨ JamsPath t

theorem ReadsPathOrJams.begins (h : ReadsPathOrJams t e) : begins t = true :=
  h.elim ReadsPath.begins JamsPath.begins

/-- The reader gets stuck on paths with bars between them if one of them is not read. -/
theorem stuck_bars {ts : List Text} {es : List Expr}
    (h : List.Forall₂ ReadsPathOrJams (t :: ts) (e :: es))
    (hno : ¬ List.Forall₂ (ReadsPath true) (t :: ts) (e :: es)) {s r r' r'' : Text} {b c : Expr}
    (hs : (skip s).val = t ++ (ts.flatMap (['|'] ++ ·) ++ r)) (hb : Gives (readPath s) b r'')
    (hc : Gives (readBranches a r'') c r') : isStuck r' = true := by
  induction ts generalizing t e es s a b r'' with
  | nil =>
    cases h with
    | cons ht hts =>
      cases hts
      rcases ht with ht | ht
      · exact absurd (.cons ht .nil) hno
      · have hr := ht.stuck hs hb
        rwa [stuck_branches hr hc]
  | cons u ts ih =>
    cases h with
    | cons ht hts =>
      cases hts with
      | @cons _ b' _ bs hu hus =>
        -- The first path is read and the bar behind it leads to the others, or it jams.
        rcases ht with ht | ht
        · have hno' : ¬ List.Forall₂ (ReadsPath true) (u :: ts) (b' :: bs) :=
            fun h => hno (.cons ht h)
          have hbegins : begins u = true := hu.begins
          have hskip : (skip (['|'] ++ (u ++ (ts.flatMap (['|'] ++ ·) ++ r)))).val =
              '|' :: (u ++ (ts.flatMap (['|'] ++ ·) ++ r)) := skip_cons rfl _
          rw [List.flatMap_cons, List.append_assoc, List.append_assoc] at hs
          obtain ⟨-, rfl⟩ := hb.unique (ht.gives hs (fun _ => rfl) rfl)
          obtain ⟨b'', r₂, hpath, hc⟩ := of_gives_branches_step (by rw [skip_skip]; exact hskip) hc
          exact ih (.cons hu hus) hno' (skip_of_begins hbegins _) hpath hc
        · have hr := ht.stuck hs hb
          rwa [stuck_branches hr hc]

/-- Where one of several paths with bars between them jams, so do they all together. -/
theorem jams_union {ts : List Text} {es : List Expr} (h : List.Forall₂ ReadsPathOrJams ts es)
    (hno : ¬ List.Forall₂ (ReadsPath true) ts es) : Jams 6 (List.intercalate ['|'] ts) := by
  cases h with
  | nil => exact absurd .nil hno
  | @cons t e ts es ht hts =>
    rw [intercalate_cons]
    refine ⟨begins_append ht.begins _, fun {s r _ _} hs he => ?_⟩
    rw [List.append_assoc] at hs
    have hdash : (skip s).val.head? ≠ some '-' := by
      rw [hs]
      exact (head?_of_begins ht.begins _).1
    obtain ⟨b, r', hb, hc⟩ := of_gives_union (of_gives_unary hdash (of_gives_level_nil he))
    exact stuck_bars (.cons ht hts) hno hs hb hc

/-- What jams is no expression. -/
theorem Jams.ofText? (h : Jams 0 t) : ofText? t = none := by
  have hskip := skip_of_begins h.begins []
  rw [List.append_nil] at hskip
  rw [Expr.ofText?]
  split
  · next e r p hp =>
    have hr : isStuck r = true :=
      h.stuck (r := []) (by rw [List.append_nil]; exact hskip) ⟨p, hp⟩
    split
    · -- Nothing may be left behind an expression, but something is.
      next hempty =>
      rw [List.isEmpty_iff] at hempty
      subst hempty
      cases hr
    · rfl
  · rfl

/-! ### Functions and predicates -/

theorem JamsArguments.one (h : Jams 0 t) : JamsArguments t := by
  refine ⟨h.begins, fun hs hf => ?_⟩
  obtain ⟨b, r, hb, hrest⟩ := of_gives_further hf
  have hr : isStuck r = true := h.stuck hs hb
  -- An argument is followed by the parenthesis or by a comma.
  rcases hrest with rfl | ⟨u, further, rfl, -⟩
  · exact head?_of_isStuck hr (by decide) rfl
  · exact head?_of_isStuck hr (by decide) rfl

/-- Arguments fail if a later one jams. -/
theorem JamsArguments.more {g : Text} (ht : Reads true 0 t e) (hg : g.all Text.isSpace = true)
    (hu : JamsArguments u) : JamsArguments (t ++ ',' :: (g ++ u)) := by
  refine ⟨begins_append ht.begins _, fun {s r _ _} hs hf => ?_⟩
  have hs' : (skip s).val = t ++ ',' :: (g ++ (u ++ r)) := by rw [hs]; simp
  have hread := ht.gives hs' (fun _ => rfl) rfl
  have hcomma : (skip (',' :: (g ++ (u ++ r)))).val = ',' :: (g ++ (u ++ r)) := skip_cons rfl _
  obtain ⟨b, r', hb, hrest⟩ := of_gives_further hf
  obtain ⟨-, hr'⟩ := hb.unique hread
  rw [hcomma] at hr'
  rcases hrest with rfl | ⟨v, further, rfl, hfurther⟩
  · cases hr'
  · cases hr'
    refine hu.fails (r := r) ?_ hfurther
    rw [skip_append hg, skip_of_begins hu.begins]

/-- A function jams if its arguments do. -/
theorem JamsPath.call {f : Text} (hf : isFunctionName f = true) (h : JamsArguments t) :
    JamsPath (f ++ '(' :: t) := by
  obtain ⟨hname, htype⟩ := of_isFunctionName hf
  refine ⟨begins_append (begins_name hname) _, fun {s r r' e} hs he => ?_⟩
  have hs' : (skip s).val = f ++ '(' :: (t ++ r) := by rw [hs]; simp
  have hprimary : beginsWithPrimary? (skip s).val = some true := by
    rw [hs', beginsWithPrimary?_name hname rfl, skip_cons rfl]
    simpa using htype
  have hskip := skip_of_begins h.begins r
  -- A name with a parenthesis behind it can only be read as a call.
  obtain ⟨b, r₁, -, -, hb, -⟩ := of_gives_path_of_primary hprimary he
  rw [hs'] at hb
  obtain ⟨es, hes⟩ := of_gives_primary_call (gives_readQName? hname) (skip_cons rfl _)
    (readNumber?_name hname _) (readLiteral?_name hname _) (head?_name hname (by decide) _)
    (head?_name hname (by decide) _) hb
  have hfurther := of_gives_arguments (by rw [hskip]; exact (head?_of_begins h.begins r).2) hes
  exact absurd hfurther (h.fails hskip)

/-- A predicate fails if what stands in its brackets jams. -/
theorem Jams.predicate (h : Jams 0 t) : JamsPredicate ('[' :: t) := by
  refine ⟨⟨t, rfl⟩, fun {s r _ _} hs he => ?_⟩
  obtain ⟨b, u, further, hb, -, -⟩ := of_gives_predicates_step hs he
  have hr : isStuck (']' :: u) = true := h.stuck (skip_of_begins h.begins r) hb
  exact head?_of_isStuck hr (by decide) rfl

theorem JamsPredicate.append (h : JamsPredicate t) (u : Text) : JamsPredicate (t ++ u) := by
  obtain ⟨⟨v, rfl⟩, hfails⟩ := h
  exact ⟨⟨v ++ u, rfl⟩, fun hs => hfails (by rw [hs, List.append_assoc])⟩

end

/-! ## Tests that jam

A test jams if its name does: the name ends in front of the character, where the reader of the test
finds neither a colon nor a parenthesis. -/

/-- A text on which the reader of a name gets stuck or fails. -/
structure JamsName (u : Text) : Prop where
  stuck {r r' n : Text} : Gives (readName? (u ++ r)) n r' → isStuck r' = true

/-- A text on which the reader of a test behind an axis gets stuck or fails. -/
structure JamsNodeTest (u : Text) : Prop where
  stuck {r r' : Text} {test : NodeTest} : Gives (readTest? (u ++ r)) test r' → isStuck r' = true

/-- A text on which the reader of the axis and test of a step gets stuck or fails. -/
structure JamsTest (u : Text) : Prop where
  opens : u.head?.any fun c => !Text.isSpace c && c != '/' && c != '.'
  stuck {r r' : Text} {axis : Axis} {test : NodeTest} :
    GivesTest (readAxisTest? (u ++ r)) axis test r' → isStuck r' = true

section

variable {u : Text} {c : Char}

theorem stuck_testAfter {n r r' : Text} {test : NodeTest} (h : isStuck r = true)
    (ht : Gives (readTestAfter? n r) test r') : r' = r := by
  have hparen := next?_eq_none (c := '(') (s := r)
    (by rw [skip_of_isStuck h]; exact head?_of_isStuck h (by decide))
  have hstop : Gives (readTestAfter? n r) (.name ⟨[], n⟩) r := by
    refine ⟨Nat.le_refl _, ?_⟩
    rw [readTestAfter?, hparen, take?_eq_none (head?_of_isStuck h (by decide))]
    rfl
  exact (ht.unique hstop).2

theorem stuck_axis {n r r' : Text} {axis : Axis} (h : isStuck r = true) :
    ¬ Gives (readAxis? n r) axis r' := by
  have hcolon := next?_eq_none (c := ':') (s := r)
    (by rw [skip_of_isStuck h]; exact head?_of_isStuck h (by decide))
  rintro ⟨p, hp⟩
  rw [readAxis?, readColons?, hcolon] at hp
  cases hn : Axis.ofName? n with
  | none => rw [hn] at hp; cases hp
  | some a => rw [hn] at hp; cases hp

/-- A name that jams makes the test behind an axis jam. -/
theorem JamsName.nodeTest (h : JamsName (c :: u)) (hc : Text.isSpace c = false) (hs : c ≠ '*') :
    JamsNodeTest (c :: u) := by
  refine ⟨fun {r r' test} ht => ?_⟩
  have hskip : (skip (c :: u ++ r)).val = c :: u ++ r := skip_cons hc _
  have hstar := next?_eq_none (c := '*') (s := c :: u ++ r) (by rw [hskip]; simpa using hs)
  obtain ⟨p, hp⟩ := ht
  rcases hk : skip (c :: u ++ r) with ⟨t, htl⟩
  rw [hk] at hskip
  subst hskip
  rw [readTest?, hstar, hk] at hp
  simp only at hp
  split at hp
  · cases hp
  · next n v q hn =>
    have hv : isStuck v = true := h.stuck ⟨q, hn⟩
    split at hp
    · next test' w hw =>
      cases hp
      have hrest : w.val = v := stuck_testAfter hv ⟨w.property, hw⟩
      show isStuck w.val = true
      rwa [hrest]
    · cases hp

/-- It makes a step with that name jam. -/
theorem JamsName.test (h : JamsName (c :: u)) (hc : Text.isSpace c = false)
    (hs : c ≠ '*' ∧ c ≠ '@' ∧ c ≠ '/' ∧ c ≠ '.') : JamsTest (c :: u) := by
  refine ⟨by simp [hc, hs], fun {r r' axis test} ht => ?_⟩
  obtain ⟨p, hp⟩ := ht
  rw [readAxisTest?, take?_eq_none (by simpa using hs.1), take?_eq_none (by simpa using hs.2.1)] at hp
  simp only at hp
  rw [readNamedTest?] at hp
  split at hp
  · cases hp
  · next n v q hn =>
    have hv : isStuck v = true := h.stuck ⟨q, hn⟩
    -- The name is not that of an axis, as no colon follows it.
    split at hp
    · next a w q' ha => exact absurd ⟨q', ha⟩ (stuck_axis hv)
    · split at hp
      · next test' w hw =>
        cases hp
        have hrest : w.val = v := stuck_testAfter hv ⟨w.property, hw⟩
        show isStuck w.val = true
        rwa [hrest]
      · cases hp

/-- It does so behind the name of an axis. -/
theorem JamsNodeTest.along (axis : Axis) (h : JamsNodeTest u) :
    JamsTest (axis.name ++ "::".toList ++ u) := by
  refine ⟨by cases axis <;> rfl, fun {r r' a test} ht => ?_⟩
  have hn := isName_axis axis
  obtain ⟨p, hp⟩ := gives_readName? (r := ':' :: ':' :: (u ++ r)) hn rfl
  obtain ⟨q, hq⟩ := gives_readAxis? axis (u ++ r)
  have hshape : axis.name ++ "::".toList ++ u ++ r = axis.name ++ ':' :: ':' :: (u ++ r) := by simp
  rw [hshape] at ht
  obtain ⟨p', hp'⟩ := ht
  rw [readAxisTest?_name hn, readNamedTest?, hp] at hp'
  simp only [hq] at hp'
  split at hp'
  · next test' v q' hv =>
    cases hp'
    exact h.stuck ⟨q'.property, hv⟩
  · cases hp'

theorem JamsNodeTest.attribute (h : JamsNodeTest u) : JamsTest ('@' :: u) := by
  refine ⟨rfl, fun {r r' a test} ht => ?_⟩
  obtain ⟨q, hq⟩ := take?_cons '@' (u ++ r)
  rw [List.cons_append] at ht
  obtain ⟨p, hp⟩ := ht
  rw [readAxisTest?, take?_eq_none (by simp), hq] at hp
  simp only at hp
  split at hp
  · next test' v q' hv =>
    cases hp
    exact h.stuck ⟨q'.property, hv⟩
  · cases hp

/-! ## Steps that jam

A step with a test that jams is read, if at all, without predicates, and nothing follows it. -/

theorem JamsTest.skip (h : JamsTest u) (r : Text) : (Expr.skip (u ++ r)).val = u ++ r := by
  cases u with
  | nil => cases h.opens
  | cons c u =>
    have hc := h.opens
    rw [List.head?_cons, Option.any_some, Bool.and_eq_true, Bool.and_eq_true,
      Bool.not_eq_true'] at hc
    exact skip_cons hc.1.1 _

theorem JamsTest.head? (h : JamsTest u) (r : Text) :
    (u ++ r).head? ≠ some '/' ∧ (u ++ r).head? ≠ some '.' := by
  cases u with
  | nil => cases h.opens
  | cons c u =>
    have hc := h.opens
    rw [List.head?_cons, Option.any_some, Bool.and_eq_true, Bool.and_eq_true, bne_iff_ne,
      bne_iff_ne] at hc
    simpa using ⟨hc.1.2, hc.2⟩

/-- A step on whose test the reader gets stuck has nothing behind it. -/
theorem JamsTest.stuck_steps (h : JamsTest u) {r r' r'' : Text} {a b e : Expr}
    (hb : Gives (readStep a (u ++ r)) b r') (he : Gives (readSteps b r') e r'') :
    isStuck r'' = true := by
  have hskip := h.skip r
  obtain ⟨axis, test, es, v, ht, hes, rfl⟩ :=
    of_gives_step (by rw [hskip]; exact (h.head? r).2) hb
  rw [hskip] at ht
  have hv := h.stuck ht
  obtain ⟨-, rfl⟩ := stuck_predicates hv hes
  rwa [Expr.stuck_steps hv he]

/-- The reader of a relative path gets stuck on its first step. -/
theorem JamsTest.stuck_relative (h : JamsTest u) {r r' : Text} {a e : Expr}
    (he : Gives (readRelative a (u ++ r)) e r') : isStuck r' = true := by
  obtain ⟨b, v, hb, he⟩ := of_gives_relative (by rw [h.skip r]; exact (h.head? r).1) he
  exact h.stuck_steps hb he

/-- The first step of a path from anywhere in the document. -/
theorem JamsTest.anywhere (h : JamsTest u) : JamsPath ('/' :: '/' :: u) := by
  refine ⟨rfl, fun {s r _ _} hs he => ?_⟩
  have hslash : (Expr.skip (u ++ r)).val.head? ≠ some '/' := by
    rw [h.skip r]
    exact (h.head? r).1
  exact h.stuck_relative (of_gives_afterSlash_descend hslash (of_gives_path_of_slash hs he))

/-- The first step of a path from the context node. -/
theorem JamsTest.here (h : JamsTest u) (hb : begins u = true)
    (hu : ∀ r, beginsWithPrimary? (u ++ r) = some false) : JamsPath u := by
  refine ⟨hb, fun {s r _ _} hs he => ?_⟩
  have := of_gives_path_of_step (by rw [hs]; exact hu r) (by rw [hs]; exact (h.head? r).1) he
  rw [hs] at this
  exact h.stuck_relative this

/-- The first step of a path from the context node, on an axis that is named. -/
theorem JamsNodeTest.path (axis : Axis) (h : JamsNodeTest u) :
    JamsPath (axis.name ++ "::".toList ++ u) := by
  refine (h.along axis).here ?_ fun r => ?_
  · rw [List.append_assoc]
    exact begins_append (begins_name (isName_axis axis)) _
  · rw [List.append_assoc, List.append_assoc]
    exact beginsWithPrimary?_axis axis (u ++ r)

/-- A test of an attribute. -/
theorem JamsNodeTest.subject (h : JamsNodeTest u) : JamsPath ('@' :: u) :=
  h.attribute.here rfl fun _ => rfl

end

end TreeQuery.XPath.Expr
