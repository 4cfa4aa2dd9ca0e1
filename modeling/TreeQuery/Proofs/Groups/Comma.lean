import TreeQuery.Proofs.Adjacency.Reading
import TreeQuery.Proofs.Compilation.Levels

/-!
# Two selectors with a comma between them

Two selectors are put into one, with a comma between them. The comma separates them if the first
leaves no parenthesis open, which is told by a running count of parentheses that knows nothing of
brackets. Each is then trimmed before it is read, so that it is read as before only if what trimming
takes off would have separated tokens anyway; white space that does not is part of a name where a
selector stands alone, and is lost in a group.

Main statements: `Selector.outcome_comma` and `Selector.outcome_comma_fails`.
-/

namespace TreeQuery

/-! ## Cutting at the comma

A selector that ends in the middle of an escape would take the comma, and no count of parentheses is
left behind it. Such a selector cannot be read, so that the case is excluded by what is supposed of
the two. -/

namespace Pieces

/-- A text is cut at a comma behind a part that has no comma and leaves no parenthesis open. -/
theorem toList_cut_comma {a : Text} {k : Int} (ha : (cut (· == ',') 0 a).ended = [])
    (hk : openAfter 0 a = some k) (hk0 : k ≤ 0) (b : Text) :
    (cut (· == ',') 0 (a ++ ',' :: b)).toList = a :: (cut (· == ',') k b).toList := by
  have hcomma : cut (· == ',') k (',' :: b) = (cut (· == ',') k b).separate ',' := by
    rw [cut_cons (by decide) (by decide) (by decide)]
    simp [hk0]
  have hlast : (cut (· == ',') 0 a).last = a := by
    have := toList_of_uncut ha
    rw [toList, ha] at this
    exact List.singleton_inj.1 this
  rw [cut_append hk, hcomma, toList_append, toList_separate_extend, ha, hlast]
  rfl

/-- What resolves in front of a text makes no difference to whether the text does. -/
theorem resolve?_last_extend {front : Text} {p : Pieces}
    (hfront : ∀ l, Span.resolve? l = none → Span.resolve? (front ++ l) = none)
    (h : Span.resolve? p.last = none) : Span.resolve? (p.extend front).last = none := by
  obtain ⟨ended, last⟩ := p
  cases ended with
  | nil => exact hfront last h
  | cons => exact h

theorem resolve?_cons_eq_none {c : Char} {l : Text} (hc : c ≠ '\\')
    (h : Span.resolve? l = none) : Span.resolve? (c :: l) = none := by
  rw [Span.resolve?_plain_cons hc, h]
  rfl

/-- The last piece of a text that ends in the middle of an escape does so, too. -/
theorem resolve?_last {separates : Char → Bool} {depth : Int} {s : Text}
    (h : openAfter depth s = none) : Span.resolve? (cut separates depth s).last = none := by
  fun_induction openAfter depth s with
  | case1 => cases h
  | case2 => rfl
  | case3 depth c r ih =>
    rw [cut]
    refine resolve?_last_extend (fun l hl => ?_) (ih h)
    show (Span.resolve? l).map _ = none
    rw [hl]
    rfl
  | case4 depth r ih =>
    rw [cut]
    exact resolve?_last_extend (fun _ => resolve?_cons_eq_none (by decide)) (ih h)
  | case5 depth r ih =>
    rw [cut]
    exact resolve?_last_extend (fun _ => resolve?_cons_eq_none (by decide)) (ih h)
  | case6 depth c r h1 h2 h3 h4 ih =>
    have hc : c ≠ '\\' := ne_backslash_of_rest h1 h2
    rw [cut_cons hc h3 h4]
    split
    · exact ih h
    · exact resolve?_last_extend (fun _ => resolve?_cons_eq_none hc) (ih h)

end Pieces

namespace Selector

/-! ## Trimming

Trimming knows neither escapes nor parentheses, and it takes off more kinds of white space than
separate tokens. What it takes off in front is always at the top level; behind, it has to be asked
for. -/

/-- What trimming takes off a selector separates tokens: it is white space at which the selector is
cut, neither escaped nor behind an open parenthesis. -/
def TrimsSeparators (s : Text) : Prop :=
  ∃ front back, s = front ++ Text.trim s ++ back ∧ (∀ c ∈ front ++ back, isSeparator c = true) ∧
    (back = [] ∨ ∃ k ≤ 0, Pieces.openAfter 0 (front ++ Text.trim s) = some k)

theorem cut_separator {c : Char} (h : isSeparator c = true) {k : Int} (hk : k ≤ 0) (s : Text) :
    Pieces.cut isSeparator k (c :: s) = (Pieces.cut isSeparator k s).separate c := by
  rw [Pieces.cut_cons (Text.ne_of_kind h (by decide)) (Text.ne_of_kind h (by decide))
    (Text.ne_of_kind h (by decide))]
  simp [hk, h]

/-- Separators in front of a selector make no token. -/
theorem tokens_front {front : Text} (h : ∀ c ∈ front, isSeparator c = true) (s : Text) :
    tokens (front ++ s) = tokens s := by
  induction front with
  | nil => rfl
  | cons c r ih =>
    rw [← ih fun d hd => h d (List.mem_cons_of_mem _ hd)]
    rw [tokens, List.cons_append, cut_separator (h c List.mem_cons_self) (Int.le_refl 0)]
    rfl

/-- Between separators there is nothing. -/
theorem eq_nil_of_mem_cut {back : Text} (h : ∀ c ∈ back, isSeparator c = true) {k : Int}
    (hk : k ≤ 0) : ∀ p ∈ (Pieces.cut isSeparator k back).toList, p = [] := by
  induction back with
  | nil => simp [Pieces.cut, Pieces.toList]
  | cons c r ih =>
    have hr := ih fun d hd => h d (List.mem_cons_of_mem _ hd)
    rw [cut_separator (h c List.mem_cons_self) hk]
    intro p hp
    rcases List.mem_cons.1 hp with rfl | hp
    · rfl
    · exact hr p hp

/-- Separators behind a selector make no token. -/
theorem tokens_back {back : Text} (h : ∀ c ∈ back, isSeparator c = true) {s : Text} {k : Int}
    (hs : Pieces.openAfter 0 s = some k) (hk : k ≤ 0) : tokens (s ++ back) = tokens s := by
  obtain ⟨first, rest, hl, he⟩ :=
    Pieces.toList_extend (Pieces.cut isSeparator 0 s).last (Pieces.cut isSeparator k back)
  have hempty := eq_nil_of_mem_cut h hk
  rw [hl] at hempty
  obtain rfl := hempty first List.mem_cons_self
  have hrest : rest.filter (!·.isEmpty) = [] := by
    rw [List.filter_eq_nil_iff]
    intro p hp
    rw [hempty p (List.mem_cons_of_mem _ hp)]
    decide
  rw [tokens, Pieces.cut_append hs, Pieces.toList_append, he, List.append_nil, List.append_cons,
    List.filter_append, hrest, List.append_nil]
  rfl

/-- A selector from which only separators are trimmed keeps its tokens. -/
theorem tokens_trim {s : Text} (h : TrimsSeparators s) : tokens (Text.trim s) = tokens s := by
  obtain ⟨front, back, he, hseparators, hback⟩ := h
  have hfront : ∀ c ∈ front, isSeparator c = true :=
    fun c hc => hseparators c (List.mem_append_left _ hc)
  have htokens : tokens s = tokens (front ++ Text.trim s) := by
    rcases hback with rfl | ⟨k, hk, hopen⟩
    · rw [List.append_nil] at he
      exact congrArg tokens he
    · refine (congrArg tokens he).trans (tokens_back (fun c hc => ?_) hopen hk)
      exact hseparators c (List.mem_append_right _ hc)
  rw [htokens, tokens_front hfront]

/-! ## Reading

The tokens are all that is read of a selector of one alternative, so that a selector with the same
tokens has the same chain. -/

theorem isBlank_of_isSeparator {c : Char} (h : isSeparator c = true) : Text.isBlank c = true := by
  simp only [isSeparator, Bool.or_eq_true, decide_eq_true_eq, or_assoc] at h
  rcases h with rfl | rfl | rfl | rfl | rfl <;> decide

theorem TrimsSeparators.isAllBlank_trim {s : Text} (h : TrimsSeparators s) :
    Text.isAllBlank (Text.trim s) = Text.isAllBlank s := by
  obtain ⟨front, back, he, hseparators, -⟩ := h
  have hblank (c : Char) (hc : c ∈ front ++ back) : Text.isBlank c = true :=
    isBlank_of_isSeparator (hseparators c hc)
  have hfront : front.all Text.isBlank = true :=
    List.all_eq_true.2 fun c hc => hblank c (List.mem_append_left _ hc)
  have hback : back.all Text.isBlank = true :=
    List.all_eq_true.2 fun c hc => hblank c (List.mem_append_right _ hc)
  have hall : Text.isAllBlank s = Text.isAllBlank (front ++ Text.trim s ++ back) :=
    congrArg Text.isAllBlank he
  rw [hall, Text.isAllBlank, Text.isAllBlank, List.all_append, List.all_append, hfront, hback,
    Bool.true_and, Bool.and_true]

/-- A selector is read from its tokens. -/
theorem chain_trim {s : Text} {c : Pattern.Chain} (h : TrimsSeparators s) (hc : chain s = .ok c) :
    chain (Text.trim s) = .ok c := by
  obtain ⟨hblank, cs, hcs, hread⟩ := exists_compounds hc
  rw [chain_eq, Pattern.Chain.ofText, h.isAllBlank_trim, hblank, if_neg Bool.false_ne_true,
    tokens_trim h, hcs]
  simp only [bind, Except.bind, hread]

theorem exists_read_of_readAfter {before : Option Text} {tokens : List Text} {cs : List Compound}
    (h : Compound.readAfter before tokens = .ok cs) {token : Text} (ht : token ∈ tokens) :
    ∃ b o, Compound.read b token = .ok o := by
  induction tokens generalizing before cs with
  | nil => cases ht
  | cons t r ih =>
    obtain ⟨o, ho, h⟩ := Except.bind_eq_ok h
    obtain ⟨others, hothers, -⟩ := Except.bind_eq_ok h
    rcases List.mem_cons.1 ht with rfl | ht
    · exact ⟨before, o, ho⟩
    · exact ih hothers ht

/-- A selector that is read does not end in the middle of an escape. -/
theorem exists_openAfter {s : Text} {c : Pattern.Chain} (hc : chain s = .ok c) :
    ∃ k, Pieces.openAfter 0 s = some k := by
  obtain ⟨-, cs, hcs, -⟩ := exists_compounds hc
  rw [← Option.ne_none_iff_exists']
  intro hnone
  -- The last token would end in the middle of the escape, and a token that does is not read.
  have hresolve : Span.resolve? (Pieces.cut isSeparator 0 s).last = none :=
    Pieces.resolve?_last hnone
  have hmem : (Pieces.cut isSeparator 0 s).last ∈ tokens s := by
    refine List.mem_filter.2 ⟨by simp [Pieces.toList], ?_⟩
    cases hl : (Pieces.cut isSeparator 0 s).last with
    | nil => rw [hl] at hresolve; cases hresolve
    | cons => rfl
  obtain ⟨b, o, hread⟩ := exists_read_of_readAfter hcs hmem
  rw [Compound.read_eq] at hread
  split at hread
  · next hcombinator =>
    obtain ⟨g, hg⟩ := Option.isSome_iff_exists.1 hcombinator
    rw [Combinator.ofToken?_eq_some_iff.1 hg] at hresolve
    cases g <;> cases hresolve
  · rw [Compound.scan, hresolve] at hread
    cases hread

/-! ## The law

The depth at which the second selector begins is that at which the first one ends, which may be
below zero: where more is closed than opened, a comma in parentheses of the second can be at the top
level. -/

/-- The comma between two selectors is at the top level, and no comma of the second one is: the
first leaves no parenthesis open, and closes none that would shield a comma of the second. -/
def CommaSeparates (a b : Text) : Prop :=
  ∀ k, Pieces.openAfter 0 a = some k → k ≤ 0 ∧ (Pieces.cut (· == ',') k b).ended = []

variable {a b : Text}

/-- What two selectors with a comma between them are read as. -/
theorem pattern_comma {c d : Pattern.Chain} (ha : (alternatives a).length = 1)
    (hc : chain a = .ok c) (hd : chain b = .ok d) (hcomma : CommaSeparates a b)
    (hatrim : TrimsSeparators a) (hbtrim : TrimsSeparators b) :
    pattern (a ++ ',' :: b) = .ok [c, d] := by
  obtain ⟨k, hk⟩ := exists_openAfter hc
  obtain ⟨hk0, hb⟩ := hcomma k hk
  have huncut : (Pieces.cut (· == ',') 0 a).ended = [] := by
    rw [alternatives, List.length_map] at ha
    exact Pieces.uncut_of_toList ha
  have halternatives : alternatives (a ++ ',' :: b) = [Text.trim a, Text.trim b] := by
    rw [alternatives, Pieces.toList_cut_comma huncut hk hk0, Pieces.toList_of_uncut hb]
    rfl
  have hblank : Text.isAllBlank (a ++ ',' :: b) = false := by
    have : Text.isBlank ',' = false := by decide
    simp [Text.isAllBlank, this]
  have hseveral : 1 < [Text.trim a, Text.trim b].length := Nat.lt_succ_self 1
  rw [pattern, hblank, if_neg Bool.false_ne_true, halternatives, if_pos hseveral]
  simp only [List.mapM_cons, List.mapM_nil, chain_trim hatrim hc, chain_trim hbtrim hd]
  rfl

/-- Two selectors of one alternative each that can be compiled on their own can be compiled with a
comma between them, within a limit of the length of it all, and come to the union of what they come
to on their own. The comma must separate them, and trimming must take nothing from them that belongs
to a token. -/
theorem outcome_comma {settings : Settings} {x y : Text} (ha : (alternatives a).length = 1)
    (hb : (alternatives b).length = 1) (hx : (compile settings a).outcome {} = .ok x)
    (hy : (compile settings b).outcome {} = .ok y)
    (hdepth : (a.length : Int) + b.length + 1 ≤ settings.maxDepth) (hcomma : CommaSeparates a b)
    (hatrim : TrimsSeparators a) (hbtrim : TrimsSeparators b) :
    (compile settings (a ++ ',' :: b)).outcome {} = .ok (x ++ '|' :: y) := by
  have hempty : ({} : Memory).cache.Sound := Cache.sound_empty
  obtain ⟨p, hp, rfl⟩ := exists_pattern_of_outcome hempty hx
  obtain ⟨q, hq, rfl⟩ := exists_pattern_of_outcome hempty hy
  obtain ⟨c, hc, rfl⟩ := exists_chain_of_pattern hp (by omega)
  obtain ⟨d, hd, rfl⟩ := exists_chain_of_pattern hq (by omega)
  have hpattern := pattern_comma ha hc hd hcomma hatrim hbtrim
  have hlength : ((a ++ ',' :: b).length : Int) ≤ settings.maxDepth := by
    rw [List.length_append, List.length_cons]
    omega
  rw [outcome_of_length_le hpattern hlength hempty]
  simp [Pattern.xpath]

/-- White space around the comma does not matter, nor a comma in parentheses. -/
theorem outcome_comma_spaced :
    (compile {} ("a :not(b, c) ".toList ++ ',' :: "\t.d".toList)).outcome {} =
      .ok ("//a//*[not(self::b or self::c)]".toList ++ '|' ::
        "//*[contains(concat(' ', normalize-space(@class), ' '), ' d ')]".toList) := by
  have ha : (compile {} "a :not(b, c) ".toList).outcome {} =
      .ok "//a//*[not(self::b or self::c)]".toList := by decide +kernel
  have hb : (compile {} "\t.d".toList).outcome {} =
      .ok "//*[contains(concat(' ', normalize-space(@class), ' '), ' d ')]".toList := by
    decide +kernel
  have hcomma : CommaSeparates "a :not(b, c) ".toList "\t.d".toList := by
    intro k hk
    obtain rfl : 0 = k := Option.some.inj hk
    exact ⟨Int.le_refl 0, by decide⟩
  have hatrim : TrimsSeparators "a :not(b, c) ".toList :=
    ⟨[], [' '], by decide +kernel, by simp [isSeparator], .inr ⟨0, Int.le_refl 0, by decide +kernel⟩⟩
  have hbtrim : TrimsSeparators "\t.d".toList :=
    ⟨['\t'], [], by decide +kernel, by simp [isSeparator], .inl rfl⟩
  exact outcome_comma (by decide) (by decide) ha hb (by decide) hcomma hatrim hbtrim

/-- A parenthesis in brackets counts, so that the comma behind it separates nothing; and white space
that is part of a name is trimmed from it in a group. -/
theorem outcome_comma_fails :
    ((alternatives "[x=(]".toList).length = 1 ∧ (alternatives "b".toList).length = 1 ∧
      (compile {} "[x=(]".toList).outcome {} = .ok "//*[@x='(']".toList ∧
      (compile {} "b".toList).outcome {} = .ok "//b".toList ∧
      (compile {} "[x=(],b".toList).outcome {} =
        .error (.unexpectedCharacter "[x=(],b".toList)) ∧
    (alternatives "a\u00a0".toList).length = 1 ∧
      (compile {} "a\u00a0".toList).outcome {} = .ok "//a\u00a0".toList ∧
      (compile {} "a\u00a0,b".toList).outcome {} = .ok "//a|//b".toList := by
  decide +kernel

end Selector

end TreeQuery
