import TreeQuery.Proofs.Compilation.Threshold
import TreeQuery.Proofs.Groups.Comma

/-!
# The order of groups

A selector is put together from groups with commas between them, and then from the same groups in
another order. Without a cache the order of the groups is that of the branches and nothing else.
With a cache the groups are compiled one after the other, and a selector that an earlier group holds
need not be compiled again where a later one holds it deeper. Therefore one order can stay within
the limit where another does not; nothing else can come of it.

Main statements: `Selector.outcome_joined_perm` and `Selector.outcome_joined_perm_fails`.
-/

namespace TreeQuery

open Compilation SelectorError

/-! ## Sequences of results

Results in a sequence stop at the first fault, so that which fault it is depends on the order, and
whether there is one does not. Both are said of `Except` first; for compilations that do not look at
the memory they follow, as such a sequence comes to what the results come to. -/

namespace Except

variable {ε α β : Type}

/-- A sequence of results comes to the list of them. -/
theorem mapM_eq_ok {l : List α} {g : α → Except ε β} {f : α → β} (h : ∀ a ∈ l, g a = .ok (f a)) :
    l.mapM g = .ok (l.map f) := by
  induction l with
  | nil => rfl
  | cons a r ih =>
    rw [List.mapM_cons, h a List.mem_cons_self, ih fun b hb => h b (List.mem_cons_of_mem _ hb)]
    rfl

/-- Whether a sequence comes to anything has nothing to do with the order. -/
theorem exists_mapM_eq_ok_iff {l : List α} {g : α → Except ε β} :
    (∃ bs, l.mapM g = .ok bs) ↔ ∀ a ∈ l, ∃ b, g a = .ok b := by
  constructor
  · rintro ⟨bs, h⟩ a ha
    obtain ⟨b, -, hb⟩ := Except.exists_of_mapM_eq_ok h ha
    exact ⟨b, hb⟩
  · intro h
    induction l with
    | nil => exact ⟨[], rfl⟩
    | cons a r ih =>
      obtain ⟨b, hb⟩ := h a List.mem_cons_self
      obtain ⟨bs, hbs⟩ := ih fun d hd => h d (List.mem_cons_of_mem _ hd)
      refine ⟨b :: bs, ?_⟩
      rw [List.mapM_cons, hb, hbs]
      rfl

theorem exists_map_eq_ok_iff {γ : Type} {x : Except ε α} {f : α → γ} :
    (∃ c, x.map f = .ok c) ↔ ∃ a, x = .ok a := by
  cases x with
  | error e => constructor <;> rintro ⟨_, h⟩ <;> cases h
  | ok a => exact ⟨fun _ => ⟨a, rfl⟩, fun _ => ⟨f a, rfl⟩⟩

/-- What does not come to a value comes to a fault. -/
theorem exists_error_of_not_ok {x : Except ε α} (h : ¬ ∃ a, x = .ok a) : ∃ e, x = .error e := by
  cases x with
  | error e => exact ⟨e, rfl⟩
  | ok a => exact absurd ⟨a, rfl⟩ h

end Except

theorem SelectorError.TooDeep.exists_error {α : Type} {r : Except SelectorError α}
    (h : TooDeep r) : ∃ e, r = .error e := by
  obtain ⟨s, d, h⟩ := h
  exact ⟨_, h⟩

/-- Compilations that do not look at what has been done before are made one after the other. -/
theorem Compilation.outcome_mapM {α β : Type} {l : List α} {f : α → Compilation β}
    {g : α → Except SelectorError β} (h : ∀ a ∈ l, ∀ m, (f a).outcome m = g a) (m : Memory) :
    (l.mapM f).outcome m = l.mapM g := by
  induction l generalizing m with
  | nil => rfl
  | cons a r ih =>
    have hr := ih fun b hb => h b (List.mem_cons_of_mem _ hb)
    rw [List.mapM_cons, List.mapM_cons, ← h a List.mem_cons_self m]
    -- A fault of the first ends the sequence; otherwise the rest goes on with the memory that the
    -- first leaves, and its results are the same whatever that is.
    cases ha : (f a).outcome m with
    | error e => exact outcome_bind_of_error ha
    | ok b =>
      rw [outcome_bind_of_ok ha]
      show (r.mapM f >>= fun bs => pure (b :: bs)).outcome _ =
        (r.mapM g >>= fun bs => Except.ok (b :: bs))
      rw [← hr ((f a).after m)]
      cases hbs : (r.mapM f).outcome ((f a).after m) with
      | error e => exact outcome_bind_of_error hbs
      | ok bs => exact outcome_bind_of_ok hbs

namespace Selector

/-! ## Groups

A group is a text that stays one alternative when it stands among others. The white space behind a
comma is trimmed, and unescaped parentheses that are not closed in the group would hide the comma
behind it. -/

/-- A selector that can stand between commas: it has a single alternative, nothing to trim, and as
many unescaped parentheses that open as there are that close. The last of its backslashes has
something to escape. -/
structure IsGroup (s : Text) : Prop where
  single : (alternatives s).length = 1
  balanced : Pieces.openAfter 0 s = some 0
  trimmed : Text.trim s = s

def joined (groups : List Text) : Text := List.intercalate ", ".toList groups

/-- The first group stands in front of a comma and a blank. -/
theorem joined_cons_cons (a b : Text) (r : List Text) :
    joined (a :: b :: r) = a ++ ',' :: ' ' :: joined (b :: r) := by
  simp [joined, List.intercalate]

/-- There is no comma in a group outside its parentheses. -/
theorem IsGroup.uncut {a : Text} (h : IsGroup a) : (Pieces.cut (· == ',') 0 a).ended = [] := by
  have := h.single
  rw [alternatives, List.length_map] at this
  exact Pieces.uncut_of_toList this

/-- The groups are the alternatives, however many there are. -/
theorem alternatives_joined {a : Text} {r : List Text} (h : ∀ g ∈ a :: r, IsGroup g) :
    alternatives (joined (a :: r)) = a :: r := by
  induction r generalizing a with
  | nil =>
    have ha := h a List.mem_cons_self
    have : joined [a] = a := by simp [joined, List.intercalate]
    rw [this, alternatives, Pieces.toList_of_uncut ha.uncut, List.map_singleton, ha.trimmed]
  | cons b r ih =>
    have ha := h a List.mem_cons_self
    have hr := ih fun g hg => h g (List.mem_cons_of_mem _ hg)
    -- The blank behind the comma stands in front of the first piece of the rest.
    have hblank : Pieces.cut (· == ',') 0 (' ' :: joined (b :: r)) =
        (Pieces.cut (· == ',') 0 (joined (b :: r))).extend [' '] := rfl
    obtain ⟨first, rest, hl, he⟩ :=
      Pieces.toList_extend [' '] (Pieces.cut (· == ',') 0 (joined (b :: r)))
    have htrim : Text.trim (' ' :: first) = Text.trim first := by
      rw [Text.trim, Text.trimStart, List.dropWhile_cons_of_pos (by decide)]
      rfl
    rw [alternatives, hl] at hr
    rw [joined_cons_cons, alternatives,
      Pieces.toList_cut_comma ha.uncut ha.balanced (Int.le_refl 0), hblank, he, List.map_cons,
      ha.trimmed, List.map_cons, List.singleton_append, htrim, ← List.map_cons, hr]

section

variable {groups : List Text}

/-- Several groups are the alternatives of what they are joined to. -/
theorem alternatives_joined_of_several (hseveral : 1 < groups.length)
    (h : ∀ g ∈ groups, IsGroup g) : alternatives (joined groups) = groups := by
  cases groups with
  | nil => cases hseveral
  | cons a r => exact alternatives_joined h

theorem isAllBlank_joined (hseveral : 1 < groups.length) :
    Text.isAllBlank (joined groups) = false := by
  match groups, hseveral with
  | a :: b :: r, _ =>
    have : Text.isBlank ',' = false := by decide
    simp [joined_cons_cons, Text.isAllBlank, this]

/-- The expression of several groups is the union of their expressions. -/
theorem expression_joined (hseveral : 1 < groups.length) (h : ∀ g ∈ groups, IsGroup g) :
    expression (joined groups) = (groups.mapM expression).map (List.intercalate ['|']) := by
  have halternatives := alternatives_joined_of_several hseveral h
  have hheld : ∀ g ∈ groups, expression g = (chain g).map Pattern.Chain.xpath := by
    intro g hg
    rw [← halternatives] at hg hseveral
    exact (Holds.alternative hseveral hg).expression_eq
  rw [expression, pattern, isAllBlank_joined hseveral, if_neg Bool.false_ne_true, halternatives,
    if_pos hseveral, Except.mapM_congr hheld, Except.mapM_map, Except.map_map]
  rfl

/-! ## Outcomes

With several alternatives the compiler enters the next level for each, so that the limit is met at
the groups and never at the whole selector. This is why the lemmas ask for more than one group. -/

/-- What groups with commas between them come to, with a new cache or without one. -/
def outcomeOfGroups (useCache : Bool) (maxDepth : Int) (groups : List Text) :
    Except SelectorError Text :=
  (compile { maxDepth, useCache } (joined groups)).outcome {}

/-- Groups come to their expression, unless the limit stops them. With a cache it does so only where
it does so without one. -/
theorem outcomeOfGroups_eq (useCache : Bool) (maxDepth : Int) (groups : List Text) :
    outcomeOfGroups useCache maxDepth groups = expression (joined groups) ∨
      TooDeep (outcomeOfGroups useCache maxDepth groups) ∧
        TooDeep (outcomeOfGroups false maxDepth groups) := by
  have hf := compileAt_follows useCache (Settings.levels { maxDepth, useCache }) 0 (joined groups)
  have hsound : ({} : Memory).cache.Sound := Cache.sound_empty
  rcases hf.outcome {} hsound with h | h
  · rw [Except.map_id] at h
    exact .inl h
  · exact .inr ⟨h, hf.tooDeep {} hsound h {}⟩

/-- Without a cache, groups come to something if there is a level for them and each of them comes to
something on the next. -/
theorem exists_outcomeOfGroups_iff {maxDepth : Int} (hseveral : 1 < groups.length)
    (h : ∀ g ∈ groups, IsGroup g) :
    (∃ x, outcomeOfGroups false maxDepth groups = .ok x) ↔
      ∃ n, Settings.levels { maxDepth } = n + 1 ∧
        ∀ g ∈ groups, ∃ x, (compileAt false n 1 g).outcome {} = .ok x := by
  unfold outcomeOfGroups compile
  show (∃ x, (compileAt false (Settings.levels { maxDepth }) 0 _).outcome {} = _) ↔ _
  cases Settings.levels { maxDepth } with
  | zero =>
    constructor
    · rintro ⟨x, hx⟩
      cases hx
    · rintro ⟨n, hn, -⟩
      cases hn
  | succ n =>
    -- The whole selector is not at the limit, and without a cache each group is compiled as if it
    -- were the first.
    have houtcome : (compileAt false (n + 1) 0 (joined groups)).outcome {} =
        (groups.mapM fun g => (compileAt false n 1 g).outcome {}).map (List.intercalate ['|']) := by
      rw [(run_compileAt_false n 0 _ {}).1, compileUncached, isAllBlank_joined hseveral,
        if_neg Bool.false_ne_true, alternatives_joined_of_several hseveral h]
      simp only [if_pos hseveral]
      have hgroups := outcome_mapM (l := groups)
        (fun g _ m => outcome_compileAt_false n 1 g m {}) {}
      rw [← hgroups]
      cases hm : (groups.mapM (compileAt false n 1)).outcome {} with
      | error e => exact outcome_bind_of_error hm
      | ok xs => exact outcome_bind_of_ok hm
    rw [houtcome, Except.exists_map_eq_ok_iff, Except.exists_mapM_eq_ok_iff]
    constructor
    · exact fun hall => ⟨n, rfl, hall⟩
    · rintro ⟨k, hk, hall⟩
      cases hk
      exact hall

end

/-! ## Another order

What the expression of a selector is does not depend on the limit or on the cache: either a
compilation comes to it or the limit stops the compilation. So two orders can differ in nothing but
the limit; and without a cache that is met at the same group in both. -/

/-- Two outcomes differ by the order of the groups only: both are unions of the expressions of the
groups, each in its own order, or both are faults. -/
def SameUpToOrder (as bs : List Text) (r r' : Except SelectorError Text) : Prop :=
  (∃ f : Text → Text, (∀ a ∈ as, expression a = .ok (f a)) ∧
    r = .ok (List.intercalate ['|'] (as.map f)) ∧
    r' = .ok (List.intercalate ['|'] (bs.map f))) ∨
  (∃ e, r = .error e) ∧ ∃ e, r' = .error e

variable {as bs : List Text}

/-- Without a cache the order makes no difference to whether groups come to anything. -/
theorem exists_outcomeOfGroups_perm (hperm : as.Perm bs) (hseveral : 1 < as.length)
    (hgroups : ∀ a ∈ as, IsGroup a) (maxDepth : Int) :
    (∃ x, outcomeOfGroups false maxDepth as = .ok x) ↔
      ∃ x, outcomeOfGroups false maxDepth bs = .ok x := by
  have hseveral' : 1 < bs.length := hperm.length_eq ▸ hseveral
  rw [exists_outcomeOfGroups_iff hseveral hgroups,
    exists_outcomeOfGroups_iff hseveral' fun b hb => hgroups b (hperm.mem_iff.2 hb)]
  simp only [hperm.mem_iff]

/-- Where groups have expressions, so has each order of them. -/
theorem exists_branches (hperm : as.Perm bs) (hseveral : 1 < as.length)
    (hgroups : ∀ a ∈ as, IsGroup a) (h : ∀ a ∈ as, ∃ x, expression a = .ok x) :
    ∃ f : Text → Text, (∀ a ∈ as, expression a = .ok (f a)) ∧
      expression (joined as) = .ok (List.intercalate ['|'] (as.map f)) ∧
      expression (joined bs) = .ok (List.intercalate ['|'] (bs.map f)) := by
  choose! f hf using h
  have hfb : ∀ b ∈ bs, expression b = .ok (f b) := fun b hb => hf b (hperm.mem_iff.2 hb)
  refine ⟨f, hf, ?_, ?_⟩
  · rw [expression_joined hseveral hgroups, Except.mapM_eq_ok hf]
    rfl
  · rw [expression_joined (hperm.length_eq ▸ hseveral)
      fun b hb => hgroups b (hperm.mem_iff.2 hb), Except.mapM_eq_ok hfb]
    rfl

/-- Where some group has no expression, no order of the groups has one. -/
theorem not_exists_expression (hperm : as.Perm bs) (hseveral : 1 < as.length)
    (hgroups : ∀ a ∈ as, IsGroup a) (h : ¬ ∀ a ∈ as, ∃ x, expression a = .ok x) :
    ¬ (∃ x, expression (joined as) = .ok x) ∧ ¬ ∃ x, expression (joined bs) = .ok x := by
  have hseveral' : 1 < bs.length := hperm.length_eq ▸ hseveral
  rw [expression_joined hseveral hgroups, expression_joined hseveral'
    fun b hb => hgroups b (hperm.mem_iff.2 hb), Except.exists_map_eq_ok_iff,
    Except.exists_map_eq_ok_iff, Except.exists_mapM_eq_ok_iff, Except.exists_mapM_eq_ok_iff]
  simp only [← hperm.mem_iff]
  exact ⟨h, h⟩

/-- Groups that have no expression come to a fault. -/
theorem exists_error_of_expression {useCache : Bool} {maxDepth : Int} {groups : List Text}
    (h : ¬ ∃ x, expression (joined groups) = .ok x) :
    ∃ e, outcomeOfGroups useCache maxDepth groups = .error e := by
  rcases outcomeOfGroups_eq useCache maxDepth groups with ho | ⟨⟨s, d, ho⟩, -⟩
  · rw [ho]
    exact Except.exists_error_of_not_ok h
  · exact ⟨_, ho⟩

/-- Groups that have an expression come to it without a cache, unless the limit stops them. -/
theorem tooDeep_iff {maxDepth : Int} {groups : List Text}
    (h : ∃ x, expression (joined groups) = .ok x) :
    TooDeep (outcomeOfGroups false maxDepth groups) ↔
      ¬ ∃ x, outcomeOfGroups false maxDepth groups = .ok x := by
  constructor
  · rintro ⟨s, d, hd⟩ ⟨x, hx⟩
    cases hd.symm.trans hx
  · intro hn
    rcases outcomeOfGroups_eq false maxDepth groups with ho | ⟨hd, -⟩
    · rw [ho] at hn
      exact absurd h hn
    · exact hd

/-- Groups that are compiled in two orders, without a cache or with a new one for each order, come
to the union of their branches, each in its own order, or in both orders to a fault. With a cache
there is one exception: the limit stops one order and not the other. That can only be where without
a cache it stops both. -/
theorem outcome_joined_perm (hperm : as.Perm bs) (hseveral : 1 < as.length)
    (hgroups : ∀ a ∈ as, IsGroup a) (maxDepth : Int) :
    SameUpToOrder as bs (outcomeOfGroups false maxDepth as) (outcomeOfGroups false maxDepth bs) ∧
    (SameUpToOrder as bs (outcomeOfGroups true maxDepth as) (outcomeOfGroups true maxDepth bs) ∨
      ((∃ x, outcomeOfGroups true maxDepth as = .ok x) ∧
          TooDeep (outcomeOfGroups true maxDepth bs) ∨
        TooDeep (outcomeOfGroups true maxDepth as) ∧
          ∃ x, outcomeOfGroups true maxDepth bs = .ok x) ∧
      TooDeep (outcomeOfGroups false maxDepth as) ∧
      TooDeep (outcomeOfGroups false maxDepth bs)) := by
  -- A group without an expression is a fault in both orders, whatever the limit.
  by_cases h : ∀ a ∈ as, ∃ x, expression a = .ok x
  case neg =>
    obtain ⟨ha, hb⟩ := not_exists_expression hperm hseveral hgroups h
    exact ⟨.inr ⟨exists_error_of_expression ha, exists_error_of_expression hb⟩,
      .inl (.inr ⟨exists_error_of_expression ha, exists_error_of_expression hb⟩)⟩
  case pos =>
    obtain ⟨f, hf, hfa, hfb⟩ := exists_branches hperm hseveral hgroups h
    -- Without a cache the limit stops both orders or none, as each group is at the same level in
    -- both.
    have hdeep : TooDeep (outcomeOfGroups false maxDepth as) ↔
        TooDeep (outcomeOfGroups false maxDepth bs) := by
      rw [tooDeep_iff ⟨_, hfa⟩, tooDeep_iff ⟨_, hfb⟩,
        exists_outcomeOfGroups_perm hperm hseveral hgroups]
    have hsame {useCache : Bool}
        (ha : outcomeOfGroups useCache maxDepth as = expression (joined as))
        (hb : outcomeOfGroups useCache maxDepth bs = expression (joined bs)) :
        SameUpToOrder as bs (outcomeOfGroups useCache maxDepth as)
          (outcomeOfGroups useCache maxDepth bs) :=
      .inl ⟨f, hf, ha.trans hfa, hb.trans hfb⟩
    refine ⟨?_, ?_⟩
    · rcases outcomeOfGroups_eq false maxDepth as with ha | ⟨ha, -⟩
      · rcases outcomeOfGroups_eq false maxDepth bs with hb | ⟨hb, -⟩
        · exact hsame ha hb
        · exact .inr ⟨(hdeep.2 hb).exists_error, hb.exists_error⟩
      · exact .inr ⟨ha.exists_error, (hdeep.1 ha).exists_error⟩
    · -- With a cache one order may enter what lets it come to an end, and the other may not.
      rcases outcomeOfGroups_eq true maxDepth as with ha | ⟨ha, ha'⟩
      · rcases outcomeOfGroups_eq true maxDepth bs with hb | ⟨hb, hb'⟩
        · exact .inl (hsame ha hb)
        · exact .inr ⟨.inl ⟨⟨_, ha.trans hfa⟩, hb⟩, hdeep.2 hb', hb'⟩
      · rcases outcomeOfGroups_eq true maxDepth bs with hb | ⟨hb, -⟩
        · exact .inr ⟨.inr ⟨ha, _, hb.trans hfb⟩, ha', hdeep.1 ha'⟩
        · exact .inl (.inr ⟨ha.exists_error, hb.exists_error⟩)

/-- A class and an argument that holds a comma, in both orders. -/
theorem outcome_joined_perm_two :
    SameUpToOrder [":not(a, b)".toList, ".c".toList] [".c".toList, ":not(a, b)".toList]
        (outcomeOfGroups false 2 [":not(a, b)".toList, ".c".toList])
        (outcomeOfGroups false 2 [".c".toList, ":not(a, b)".toList]) ∧
      SameUpToOrder [":not(a, b)".toList, ".c".toList] [".c".toList, ":not(a, b)".toList]
        (outcomeOfGroups true 2 [":not(a, b)".toList, ".c".toList])
        (outcomeOfGroups true 2 [".c".toList, ":not(a, b)".toList]) := by
  have hgroups : ∀ a ∈ [":not(a, b)".toList, ".c".toList], IsGroup a := by
    intro a ha
    rcases List.mem_pair.1 ha with rfl | rfl
    · exact ⟨by decide +kernel, by decide +kernel, by decide +kernel⟩
    · exact ⟨by decide +kernel, by decide +kernel, by decide +kernel⟩
  have h := outcome_joined_perm (.swap ".c".toList ":not(a, b)".toList []) (by decide) hgroups 2
  refine ⟨h.1, h.2.resolve_right ?_⟩
  rintro ⟨-, ⟨s, d, hd⟩, -⟩
  have hok : outcomeOfGroups false 2 [":not(a, b)".toList, ".c".toList] =
      .ok ("//*[not(self::a or self::b)]|".toList ++
        "//*[contains(concat(' ', normalize-space(@class), ' '), ' c ')]".toList) := by
    decide +kernel
  cases hd.symm.trans hok

/-- Two orders of groups, of which the limit stops one only: the argument in the second group has
been compiled before, as a group, and behind it there is a level less. -/
theorem outcome_joined_perm_fails :
    [":not(b)".toList, ":not(:not(b))".toList].Perm [":not(:not(b))".toList, ":not(b)".toList] ∧
    (∀ a ∈ [":not(b)".toList, ":not(:not(b))".toList],
      (alternatives a).length = 1 ∧ Pieces.openAfter 0 a = some 0 ∧ Text.trim a = a) ∧
    outcomeOfGroups true 2 [":not(b)".toList, ":not(:not(b))".toList] =
      .ok "//*[not(self::b)]|//*[not(self::*[not(self::b)])]".toList ∧
    outcomeOfGroups true 2 [":not(:not(b))".toList, ":not(b)".toList] =
      .error (.nestingTooDeep "b".toList 3) ∧
    outcomeOfGroups false 2 [":not(b)".toList, ":not(:not(b))".toList] =
      .error (.nestingTooDeep "b".toList 3) := by
  refine ⟨.swap _ _ [], ?_, ?_, ?_, ?_⟩ <;> decide +kernel

end Selector

end TreeQuery
