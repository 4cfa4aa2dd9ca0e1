import Mathlib.Data.List.Forall2
import TreeQuery.Proofs.Grammar.Spelling

/-!
# Operands

A text that is read as one operand, whatever stands behind it, as long as that is no part of it. An
operand of one level may be followed by the operators of looser levels; a name may not be followed
by more characters of a name. Operands are put together by operators, and paths by bars.

Whatever is read here is also an operand by the grammar of the language.

Main statements: `Reads.binary`, `Reads.anyOf` and `Reads.union`.
-/

namespace TreeQuery.XPath.Expr

open Grammar (Spells SpellsOperator)

/-! ## What may follow

An operand ends where no operator of its level or a tighter one follows, and no bracket, slash or
bar that would go on with a path. As the levels get looser there are more operators to be excluded,
so that what ends an operand of a loose level ends one of a tight level. -/

/-- Whether a path ends where a text begins. -/
def endsPath (r : Text) : Bool := (skip r).val.head?.all fun c => c != '[' && c != '/'

/-- Whether an operand of the levels from `k` on ends where a text begins. -/
def endsOperand (k : Nat) (r : Text) : Bool :=
  endsPath r && (skip r).val.head? != some '|' &&
    (levels.drop k).all fun signs => (readOperator? signs (skip r).val).isNone

/-- Whether a text can begin an operand. -/
def begins (t : Text) : Bool := t.head?.any fun c => !Text.isSpace c && c != '-' && c != ')'

/-- There is no white space in front of an operand. -/
theorem skip_of_begins {t : Text} (h : begins t = true) (r : Text) :
    (skip (t ++ r)).val = t ++ r := by
  cases t with
  | nil => cases h
  | cons c t =>
    simp only [begins, List.head?_cons, Option.any_some, Bool.and_eq_true, Bool.not_eq_true'] at h
    exact skip_cons h.1.1 _

theorem head?_of_begins {t : Text} (h : begins t = true) (r : Text) :
    (t ++ r).head? ≠ some '-' ∧ (t ++ r).head? ≠ some ')' := by
  cases t with
  | nil => cases h
  | cons c t =>
    simp only [begins, List.head?_cons, Option.any_some, Bool.and_eq_true, bne_iff_ne] at h
    simp [h.1.2, h.2]

theorem begins_append {t : Text} (h : begins t = true) (u : Text) : begins (t ++ u) = true := by
  cases t with
  | nil => cases h
  | cons c t => exact h

theorem endsPath_of_operand {k : Nat} {r : Text} (h : endsOperand k r = true) :
    endsPath r = true := by
  simp only [endsOperand, Bool.and_eq_true] at h
  exact h.1.1

/-- What ends an operand ends a tighter one. -/
theorem endsOperand_succ {k : Nat} {r : Text} (h : endsOperand k r = true) :
    endsOperand (k + 1) r = true := by
  simp only [endsOperand, Bool.and_eq_true] at h ⊢
  refine ⟨h.1, ?_⟩
  rw [List.all_eq_true] at h ⊢
  intro signs hs
  exact h.2 signs ((List.drop_subset_drop_left _ (Nat.le_succ k)) hs)

abbrev signsOf (k : Nat) : List Sign := levels.getD k []

theorem drop_levels {k : Nat} (hk : k < 6) :
    levels.drop k = signsOf k :: levels.drop (k + 1) := by
  match k, hk with
  | 0, _ | 1, _ | 2, _ | 3, _ | 4, _ | 5, _ => rfl

theorem readOperator?_of_ends {k : Nat} (hk : k < 6) {r : Text} (h : endsOperand k r = true) :
    readOperator? (signsOf k) (skip r).val = none := by
  simp only [endsOperand, Bool.and_eq_true, drop_levels hk, List.all_cons] at h
  simpa using h.2.1

theorem head?_of_endsPath {r : Text} (h : endsPath r = true) :
    (skip r).val.head? ≠ some '[' ∧ (skip r).val.head? ≠ some '/' := by
  rw [endsPath] at h
  constructor <;> · intro he; rw [he] at h; simp at h

/-! ## Texts that are read

How a text is read and how its tokens are derived are shown side by side, in one structure with two
fields: the conditions on what follows are the same for both, and so are the cases. -/

/-- A text that is read as an operand of the levels from `k` on. If it ends in a name, the name has
to end there. -/
structure Reads (named : Bool) (k : Nat) (t : Text) (e : Expr) : Prop where
  begins : begins t = true
  gives {s r : Text} : (skip s).val = t ++ r → (named = true → endsName r = true) →
    endsOperand k r = true → Gives (readLevel (levels.drop k) s) e (skip r).val
  spells : Spells named (.operand k) t

structure ReadsPath (named : Bool) (t : Text) (e : Expr) : Prop where
  begins : begins t = true
  gives {s r : Text} : (skip s).val = t ++ r → (named = true → endsName r = true) →
    endsPath r = true → Gives (readPath s) e (skip r).val
  spells : Spells named .path t

section

variable {named : Bool} {k : Nat} {t : Text} {e : Expr}

theorem Reads.loosen (hk : k < 6) (h : Reads named (k + 1) t e) : Reads named k t e := by
  refine ⟨h.begins, fun {s r} hs hn ho => ?_, h.spells.imp fun _ => .tighter hk⟩
  rw [drop_levels hk]
  have ha := h.gives hs hn (endsOperand_succ ho)
  have hc := gives_chain_stop (signsOf k) (levels.drop (k + 1)) (skip r).val e
    (by rw [skip_skip]; exact readOperator?_of_ends hk ho)
  rw [skip_skip] at hc
  exact gives_level_cons ha hc

/-- An operand of a tight level is one of a looser one. -/
theorem Reads.loose {j : Nat} (h : Reads named k t e) (hj : j ≤ k) (hk : k ≤ 6) :
    Reads named j t e := by
  obtain ⟨n, rfl⟩ := Nat.exists_eq_add_of_le hj
  induction n with
  | zero => exact h
  | succ n ih => exact ih (Reads.loosen (by omega) h) (by omega) (by omega)

/-- A path is an operand of every level. -/
theorem ReadsPath.operand (h : ReadsPath named t e) (hk : k ≤ 6) : Reads named k t e := by
  refine Reads.loose (k := 6) ?_ hk (Nat.le_refl 6)
  refine ⟨h.begins, fun {s r} hs hn ho => gives_level_nil ?_, h.spells.ofPath (Nat.le_refl 6)⟩
  have hp := h.gives hs hn (endsPath_of_operand ho)
  simp only [endsOperand, Bool.and_eq_true, bne_iff_ne] at ho
  have hb := gives_branches_stop (s := (skip r).val) e (by rw [skip_skip]; exact ho.1.2)
  rw [skip_skip] at hb
  exact gives_unary (by rw [hs]; exact (head?_of_begins h.begins r).1) (gives_union hp hb)

theorem ReadsPath.toNamed (h : ReadsPath named t e) : ReadsPath true t e :=
  ⟨h.begins, fun hs hn ho => h.gives hs (fun _ => hn rfl) ho, h.spells.toNamed⟩

/-! ## Operators

An operator is given with the white space around it as it is written in expressions. In front of a
sign without white space the name of the operand must end, which a hyphen would prevent. -/

/-- A sign, with white space around it or not, that joins operands of a level. -/
structure Joins (named : Bool) (k : Nat) (sign : Text) (o : Operator) : Prop where
  follows : ∀ r, (named = true → endsName (sign ++ r) = true) ∧
    endsOperand (k + 1) (sign ++ r) = true ∧ ∃ g : Text, g.all Text.isSpace = true ∧
      Gives (readOperator? (signsOf k) (skip (sign ++ r)).val) o (g ++ r)
  spells : SpellsOperator k sign

theorem joins_or : Joins true 0 " or ".toList .or :=
  ⟨fun _ => ⟨fun _ => rfl, rfl, [' '], rfl, _, rfl⟩,
    .spaced "or" (by decide) fun _ => rfl⟩

theorem joins_and : Joins true 1 " and ".toList .and :=
  ⟨fun _ => ⟨fun _ => rfl, rfl, [' '], rfl, _, rfl⟩,
    .spaced "and" (by decide) fun _ => rfl⟩

theorem joins_equal : Joins true 2 "=".toList .equal :=
  ⟨fun _ => ⟨fun _ => rfl, rfl, [], rfl, _, rfl⟩, .close "=" (by decide) fun _ => rfl⟩

theorem joins_equal_spaced : Joins true 2 " = ".toList .equal :=
  ⟨fun _ => ⟨fun _ => rfl, rfl, [' '], rfl, _, rfl⟩, .spaced "=" (by decide) fun _ => rfl⟩

theorem joins_unequal : Joins true 2 "!=".toList .unequal :=
  ⟨fun _ => ⟨fun _ => rfl, rfl, [], rfl, _, rfl⟩, .close "!=" (by decide) fun _ => rfl⟩

theorem joins_greater : Joins true 3 " > ".toList .greater :=
  ⟨fun _ => ⟨fun _ => rfl, rfl, [' '], rfl, _, rfl⟩, .spaced ">" (by decide) fun _ => rfl⟩

theorem joins_minus : Joins false 4 "-".toList .subtract :=
  ⟨fun _ => ⟨nofun, rfl, [], rfl, _, rfl⟩, .close "-" (by decide) fun _ => rfl⟩

theorem joins_mod : Joins true 5 " mod ".toList .modulo :=
  ⟨fun _ => ⟨fun _ => rfl, rfl, [' '], rfl, _, rfl⟩, .spaced "mod" (by decide) fun _ => rfl⟩

/-- Two operands with an operator between them. -/
theorem Reads.binary {named' : Bool} {a b sign : Text} {ea eb : Expr} {o : Operator} (hk : k < 6)
    (ho : Joins named k sign o) (ha : Reads named (k + 1) a ea) (hb : Reads named' (k + 1) b eb) :
    Reads named' k (a ++ sign ++ b) (.binary o ea eb) := by
  refine ⟨begins_append (begins_append ha.begins _) _, fun {s r} hs hn hr => ?_,
    Spells.binary ho.spells (fun r => (ho.follows r).1) (ha.spells.imp fun _ => .tighter hk)
      hb.spells⟩
  obtain ⟨hname, hend, g, hg, hsign⟩ := ho.follows (b ++ r)
  rw [drop_levels hk]
  have hs' : (skip s).val = a ++ (sign ++ (b ++ r)) := by rw [hs]; simp
  have hskip : (skip (g ++ (b ++ r))).val = b ++ r := by
    rw [skip_append hg, skip_of_begins hb.begins]
  have hb' := hb.gives hskip hn (endsOperand_succ hr)
  have hc := gives_chain_stop (signsOf k) (levels.drop (k + 1)) (skip r).val
    (.binary o ea eb) (by rw [skip_skip]; exact readOperator?_of_ends hk hr)
  rw [skip_skip] at hc
  refine gives_level_cons (ha.gives hs' hname hend) (gives_chain_step ?_ hb' hc)
  rw [skip_skip]
  exact hsign

/-- Operands with `or` between them, taken together from the left. -/
def anyOf : List Expr → Expr
  | [] => .call ⟨[], "false".toList⟩ []
  | e :: es => es.foldl (.binary .or) e

theorem ends_further (ts : List Text) {r : Text} (hn : endsName r = true)
    (hr : endsOperand 0 r = true) :
    endsName (ts.flatMap (" or ".toList ++ ·) ++ r) = true ∧
      endsOperand 1 (ts.flatMap (" or ".toList ++ ·) ++ r) = true := by
  cases ts with
  | nil => exact ⟨hn, endsOperand_succ hr⟩
  | cons t ts =>
    rw [List.flatMap_cons, List.append_assoc, List.append_assoc]
    exact ⟨(joins_or.follows _).1 rfl, (joins_or.follows _).2.1⟩

/-- Operands with `or` between them are read one after another. -/
theorem gives_or {ts : List Text} {es : List Expr} (h : List.Forall₂ (Reads true 1) ts es)
    (a : Expr) {s r : Text} (hs : (skip s).val = (skip (ts.flatMap (" or ".toList ++ ·) ++ r)).val)
    (hn : endsName r = true) (hr : endsOperand 0 r = true) :
    Gives (readChain (signsOf 0) (levels.drop 1) a s) (es.foldl (.binary .or) a) (skip r).val := by
  induction h generalizing a s with
  | nil =>
    have hc := gives_chain_stop (signsOf 0) (levels.drop 1) s a
      (by rw [hs]; exact readOperator?_of_ends (by decide) hr)
    rw [hs] at hc
    exact hc
  | @cons t e ts es ht hts ih =>
    have hrest := ends_further ts hn hr
    obtain ⟨-, -, g, hg, hsign⟩ := joins_or.follows (t ++ (ts.flatMap (" or ".toList ++ ·) ++ r))
    have hskip : (skip (g ++ (t ++ (ts.flatMap (" or ".toList ++ ·) ++ r)))).val =
        t ++ (ts.flatMap (" or ".toList ++ ·) ++ r) := by
      rw [skip_append hg, skip_of_begins ht.begins]
    refine gives_chain_step ?_ (ht.gives hskip (fun _ => hrest.1) hrest.2) (ih _ (skip_skip _))
    rw [hs, List.flatMap_cons, List.append_assoc, List.append_assoc]
    exact hsign

theorem spells_or {ts : List Text} {es : List Expr} (h : List.Forall₂ (Reads true 1) ts es)
    {t : Text} (ht : Spells true (.operand 0) t) :
    Spells true (.operand 0) (t ++ ts.flatMap (" or ".toList ++ ·)) := by
  induction h generalizing t with
  | nil => rwa [List.flatMap_nil, List.append_nil]
  | @cons u e ts es hu _ ih =>
    have := ih (Spells.binary joins_or.spells (fun r => (joins_or.follows r).1) ht hu.spells)
    rwa [List.append_assoc, List.append_assoc, ← List.append_assoc " or ".toList] at this

/-- A row is its first member and the others with a separator in front of each. -/
theorem intercalate_cons (sep t : Text) (ts : List Text) :
    List.intercalate sep (t :: ts) = t ++ ts.flatMap (sep ++ ·) := by
  induction ts generalizing t with
  | nil => simp [List.intercalate]
  | cons u ts ih =>
    have : List.intercalate sep (t :: u :: ts) = t ++ sep ++ List.intercalate sep (u :: ts) := by
      simp [List.intercalate]
    rw [this, ih]
    simp

/-- They are an operand of the loosest level. -/
theorem Reads.anyOf {ts : List Text} {es : List Expr} (h : List.Forall₂ (Reads true 1) ts es)
    (hne : ts ≠ []) : Reads true 0 (List.intercalate " or ".toList ts) (anyOf es) := by
  cases h with
  | nil => exact absurd rfl hne
  | @cons t e ts es ht hts =>
    rw [intercalate_cons]
    refine ⟨begins_append ht.begins _, fun {s r} hs hn hr => ?_,
      spells_or hts (ht.spells.imp fun _ => .tighter (by decide))⟩
    have hrest := ends_further ts (hn rfl) hr
    rw [drop_levels (by decide)]
    rw [List.append_assoc] at hs
    exact gives_level_cons (ht.gives hs (fun _ => hrest.1) hrest.2)
      (gives_or hts e (skip_skip _) (hn rfl) hr)

/-- Paths with bars between them, taken together from the left. -/
theorem gives_bars {ts : List Text} {es : List Expr} (h : List.Forall₂ (ReadsPath true) ts es)
    (a : Expr) {s r : Text} (hs : (skip s).val = (skip (ts.flatMap (['|'] ++ ·) ++ r)).val)
    (hn : endsName r = true) (hr : endsOperand 6 r = true) :
    Gives (readBranches a s) (es.foldl (.binary .union) a) (skip r).val := by
  induction h generalizing a s with
  | nil =>
    simp only [endsOperand, Bool.and_eq_true, bne_iff_ne] at hr
    have hc := gives_branches_stop a (s := s) (by rw [hs]; exact hr.1.2)
    rwa [hs] at hc
  | @cons t e ts es ht hts ih =>
    have hrest : endsName (ts.flatMap (['|'] ++ ·) ++ r) = true ∧
        endsPath (ts.flatMap (['|'] ++ ·) ++ r) = true := by
      cases ts with
      | nil => exact ⟨hn, endsPath_of_operand hr⟩
      | cons u ts => exact ⟨rfl, rfl⟩
    have hskip := skip_of_begins ht.begins (ts.flatMap (['|'] ++ ·) ++ r)
    have hbar : (skip s).val = '|' :: (t ++ (ts.flatMap (['|'] ++ ·) ++ r)) := by
      rw [hs, List.flatMap_cons, List.append_assoc, List.append_assoc]
      exact skip_cons rfl _
    exact gives_branches_step hbar (ht.gives hskip (fun _ => hrest.1) hrest.2)
      (ih _ (skip_skip _))

theorem spells_bars {ts : List Text} {es : List Expr} (h : List.Forall₂ (ReadsPath true) ts es)
    {t : Text} (ht : Spells true .union t) :
    Spells true .union (t ++ ts.flatMap (['|'] ++ ·)) := by
  induction h generalizing t with
  | nil => rwa [List.flatMap_nil, List.append_nil]
  | @cons u e ts es hu _ ih =>
    have := ih (ht.joined hu.spells)
    rwa [List.append_assoc, List.append_assoc, ← List.append_assoc ['|']] at this

/-- Paths with bars between them are a union. -/
theorem Reads.union {ts : List Text} {es : List Expr} {t : Text} {e : Expr}
    (h : List.Forall₂ (ReadsPath true) (t :: ts) (e :: es)) :
    Reads true 6 (List.intercalate ['|'] (t :: ts)) (es.foldl (.binary .union) e) := by
  cases h with
  | @cons _ _ _ _ ht hts =>
    rw [intercalate_cons]
    refine ⟨begins_append ht.begins _, fun {s r} hs hn hr => gives_level_nil ?_,
      (spells_bars hts (ht.spells.imp fun _ => .single)).imp fun _ => .unsigned⟩
    rw [List.append_assoc] at hs
    have hrest : endsName (ts.flatMap (['|'] ++ ·) ++ r) = true ∧
        endsPath (ts.flatMap (['|'] ++ ·) ++ r) = true := by
      cases ts with
      | nil => exact ⟨hn rfl, endsPath_of_operand hr⟩
      | cons u ts => exact ⟨rfl, rfl⟩
    refine gives_unary ?_ (gives_union (ht.gives hs (fun _ => hrest.1) hrest.2)
      (gives_bars hts e (skip_skip _) (hn rfl) hr))
    rw [hs]
    exact (head?_of_begins ht.begins _).1

/-- An operand of any level is an expression by itself. -/
theorem Reads.ofText? (h : Reads named 0 t e) : ofText? t = some e := by
  have hskip := skip_of_begins h.begins []
  rw [List.append_nil] at hskip
  obtain ⟨p, hp⟩ := h.gives (r := []) (by rw [List.append_nil]; exact hskip) (fun _ => rfl) rfl
  have hlevels : levels.drop 0 = levels := rfl
  rw [hlevels] at hp
  rw [Expr.ofText?, hp]
  rfl

/-- An operand with something behind it that does not go on with it is no expression. -/
theorem Reads.ofText?_append (h : Reads named 0 t e) {r : Text}
    (hn : named = true → endsName r = true) (ho : endsOperand 0 r = true)
    (hr : (skip r).val ≠ []) : Expr.ofText? (t ++ r) = none := by
  obtain ⟨p, hp⟩ := h.gives (skip_of_begins h.begins r) hn ho
  have hlevels : levels.drop 0 = levels := rfl
  rw [hlevels] at hp
  rw [Expr.ofText?, hp]
  have : (skip r).val.isEmpty = false := by rwa [List.isEmpty_eq_false_iff]
  simp [this]

end

end TreeQuery.XPath.Expr
