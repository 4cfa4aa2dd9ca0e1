import TreeQuery.Proofs.Pattern.Balanced
import TreeQuery.Proofs.Written.Basic

/-!
# Splitting written selectors

The text of a written selector comes apart as it has been put together: at the top level its commas
separate the alternatives, and the spaces of an alternative separate its tokens. What an item holds
in parentheses stays together.

Main statements: `alternatives_source`, `tokens_print`.
-/

namespace TreeQuery

/-! ## Rows of pieces

A row is put together with a separator in front of all pieces but the first. If every piece is
balanced and has no separator outside of its parentheses, it is cut where it was put together and
nowhere else. -/

namespace Pieces

variable {separates p : Char → Bool}

theorem toList_separate_extend (front : Text) (c : Char) (q : Pieces) :
    ((q.separate c).extend front).toList = front :: q.toList := by
  simp [separate, extend, toList]

/-- Texts in a row, with a separator between any two, are the pieces of the row. -/
theorem toList_cut_row (hp : ∀ c, p c = true → separates c = false) {c : Char}
    (hc : separates c = true) (h1 : c ≠ '\\') (h2 : c ≠ '(') (h3 : c ≠ ')') {first : List Span}
    {rest : List (List Span)} (hf : Balanced p first) (hr : ∀ t ∈ rest, Balanced p t) :
    (cut separates 0 (Span.source first ++ rest.flatMap fun t => c :: Span.source t)).toList =
      Span.source first :: rest.map Span.source := by
  induction rest generalizing first with
  | nil =>
    rw [List.flatMap_nil, hf.cut_append hp (Int.le_refl 0)]
    simp [cut, extend, toList]
  | cons t r ih =>
    rw [hf.cut_append hp (Int.le_refl 0), List.flatMap_cons, List.cons_append,
      cut_cons h1 h2 h3, if_pos (by simp [hc]), toList_separate_extend,
      ih (hr t List.mem_cons_self) fun u hu => hr u (List.mem_cons_of_mem _ hu)]
    rfl

end Pieces

namespace Written

/-! ## Spans

What is balanced at the top level of a token may hold neither white space nor commas, and at that of
an alternative no commas. Everything with a meaning is escaped in names, so that these are balanced
in the strictest sense; in an argument anything may stand. -/

/-- A character that can stand unescaped in a token. -/
def isTokenChar (c : Char) : Bool := c != ',' && !Selector.isSeparator c

def isAlternativeChar (c : Char) : Bool := c != ','

/-- The characters with a meaning of their own are written with backslashes. -/
theorem ne_of_not_special {c d : Char} (h : isSpecial c = false) (hd : isSpecial d = true) : c ≠ d := by
  rintro rfl
  rw [h] at hd
  cases hd

theorem isTokenChar_of_not_special {c : Char} (h : isSpecial c = false) : isTokenChar c = true := by
  have h1 := ne_of_not_special h (show isSpecial ',' = true by decide)
  have h2 := ne_of_not_special h (show isSpecial ' ' = true by decide)
  have h3 := ne_of_not_special h (show isSpecial '\t' = true by decide)
  have h4 := ne_of_not_special h (show isSpecial '\n' = true by decide)
  have h5 := ne_of_not_special h (show isSpecial '\r' = true by decide)
  have h6 := ne_of_not_special h (show isSpecial '\x0c' = true by decide)
  simp [isTokenChar, Selector.isSeparator, h1, h2, h3, h4, h5, h6]

/-- A name that is written is balanced. -/
theorem balanced_literal (t : Text) : Balanced isTokenChar (literal t) := by
  induction t with
  | nil => exact .nil
  | cons c r ih =>
    show Balanced isTokenChar (⟨c, isSpecial c⟩ :: literal r)
    cases h : isSpecial c with
    | true => exact .escaped c ih
    | false =>
      exact .plain (ne_of_not_special h (by decide)) (ne_of_not_special h (by decide))
        (ne_of_not_special h (by decide)) (isTokenChar_of_not_special h) ih

/-- A character that can stand for itself at the top level. -/
def isSign (p : Char → Bool) (c : Char) : Bool := c != '\\' && c != '(' && c != ')' && p c

/-- Signs are balanced if none of them is a backslash or a parenthesis. -/
theorem balanced_signs {p : Char → Bool} {t : Text} (h : t.all (isSign p) = true) :
    Balanced p (signs t) := by
  induction t with
  | nil => exact .nil
  | cons c r ih =>
    rw [List.all_cons, Bool.and_eq_true] at h
    obtain ⟨hc, hr⟩ := h
    simp only [isSign, Bool.and_eq_true, bne_iff_ne] at hc
    exact .plain hc.1.1.1 hc.1.1.2 hc.1.2 hc.2 (ih hr)

/-- Signs with an argument in parentheses. -/
theorem balanced_argument {p : Char → Bool} {t : Text} {a : List Span}
    (h : t.all (isSign p) = true) (ha : Balanced (fun _ => true) a) :
    Balanced p (signs (t ++ ['(']) ++ a ++ signs [')']) := by
  have : signs (t ++ ['(']) ++ a ++ signs [')'] =
      signs t ++ (.plain '(' :: a ++ .plain ')' :: []) := by
    simp [signs]
  rw [this]
  exact (balanced_signs h).append (.parentheses ha .nil)

theorem balanced_comparison (c : Option (AttributeOperator × Value)) :
    Balanced isTokenChar (comparisonSpans c) := by
  cases c with
  | none => exact .nil
  | some c =>
    obtain ⟨o, v⟩ := c
    exact (balanced_signs (by cases o <;> decide)).append (balanced_literal _)

theorem balanced_tag (t : Tag) : Balanced isTokenChar t.spans := by
  cases t with
  | any => exact balanced_signs (by decide)
  | named n => exact balanced_literal _

theorem balanced_combinatorTokens (o : Option Combinator) :
    ∀ t ∈ combinatorTokens o, Balanced isTokenChar t := by
  cases o with
  | none => intro t ht; cases ht
  | some c =>
    intro t ht
    rw [List.mem_singleton.1 ht]
    exact balanced_signs (by cases c <;> decide)

/-- Tokens in a row are balanced, without commas outside of parentheses. -/
theorem balanced_inRow {tokens : List (List Span)} (h : ∀ t ∈ tokens, Balanced isTokenChar t) :
    Balanced isAlternativeChar (inRow tokens) := by
  have hk : ∀ c, isTokenChar c = true → isAlternativeChar c = true := by
    intro c hc
    simp only [isTokenChar, Bool.and_eq_true] at hc
    exact hc.1
  induction tokens with
  | nil => exact .nil
  | cons t r ih =>
    have ht := (h t List.mem_cons_self).mono hk
    cases r with
    | nil => simpa [inRow] using ht
    | cons u r =>
      have hr := ih fun v hv => h v (List.mem_cons_of_mem _ hv)
      have : inRow (t :: u :: r) = t ++ (signs [' '] ++ inRow (u :: r)) := by
        simp [inRow, List.intercalate]
      rw [this]
      exact ht.append ((balanced_signs (by decide)).append hr)

mutual

theorem Item.balanced : (i : Item) → Balanced isTokenChar i.spans
  | .className n => (balanced_signs (by decide)).append (balanced_literal _)
  | .identifier n => (balanced_signs (by decide)).append (balanced_literal _)
  | .attributeTest n c =>
    ((balanced_signs (by decide)).append ((balanced_literal _).append (balanced_comparison c))).append
      (balanced_signs (by decide))
  | .static p => balanced_signs (by cases p <;> decide)
  | .contains t => balanced_argument (t := ":contains".toList) (by decide) (balanced_literal _).inside
  | .not c r => balanced_argument (t := ":not".toList) (by decide)
      ((balanced_inRow c.balanced_tokens).inside.append (balanced_further r))
  | .has c r => balanced_argument (t := ":has".toList) (by decide)
      ((balanced_inRow c.balanced_tokens).inside.append (balanced_further r))

theorem balanced_further : (r : List Chain) → Balanced (fun _ => true) (furtherSpans r)
  | [] => .nil
  | c :: r => ((balanced_signs (by decide)).append (balanced_inRow c.balanced_tokens).inside).append
      (balanced_further r)

theorem balanced_items : (r : List Item) → Balanced isTokenChar (itemSpans r)
  | [] => .nil
  | i :: r => i.balanced.append (balanced_items r)

theorem Compound.balanced : (c : Compound) → Balanced isTokenChar c.spans
  | .tagged t r => (balanced_tag t).append (balanced_items r)
  | .untagged i r => i.balanced.append (balanced_items r)

theorem Chain.balanced_tokens : (c : Chain) → ∀ t ∈ c.tokens, Balanced isTokenChar t
  | .start o c => by
    intro t ht
    rcases List.mem_append.1 ht with ht | ht
    · exact balanced_combinatorTokens o t ht
    · rw [List.mem_singleton.1 ht]
      exact c.balanced
  | .link b o c => by
    intro t ht
    rcases List.mem_append.1 ht with ht | ht
    · rcases List.mem_append.1 ht with ht | ht
      · exact b.balanced_tokens t ht
      · exact balanced_combinatorTokens o t ht
    · rw [List.mem_singleton.1 ht]
      exact c.balanced

end

/-! ## Texts without blanks around them

Alternatives are trimmed after they have been split. What is written begins and ends with characters
that are not trimmed: a backslash or a sign in front, and behind them a bracket, a parenthesis or
the last character of a name, which is no blank. -/

/-- A text that begins with a character that is neither a blank nor the sign of a combinator. -/
def Opens (t : Text) : Prop :=
  ∃ c r, t = c :: r ∧ Text.isBlank c = false ∧ ∀ k : Combinator, c ≠ k.symbol

/-- A text that ends with a character that is no blank. -/
def Closes (t : Text) : Prop := ∃ r c, t = r ++ [c] ∧ Text.isBlank c = false

/-- How a text begins does not depend on what follows. -/
theorem Opens.append {a : Text} (h : Opens a) (b : Text) : Opens (a ++ b) := by
  obtain ⟨c, r, rfl, hc⟩ := h
  exact ⟨c, r ++ b, rfl, hc⟩

/-- How it ends does not depend on what is in front. -/
theorem Closes.append {b : Text} (h : Closes b) (a : Text) : Closes (a ++ b) := by
  obtain ⟨r, c, rfl, hc⟩ := h
  exact ⟨a ++ r, c, (List.append_assoc _ _ _).symm, hc⟩

/-- No combinator begins like that. -/
theorem Opens.ofToken?_eq_none {t : Text} (h : Opens t) : Combinator.ofToken? t = none := by
  obtain ⟨c, r, rfl, -, hc⟩ := h
  cases hk : Combinator.ofToken? (c :: r) with
  | none => rfl
  | some k =>
    have := Combinator.ofToken?_eq_some_iff.1 hk
    exact absurd (List.cons.inj this).1 (hc k)

theorem opens_literal {t : Text} (h : t ≠ []) : Opens (Span.source (literal t)) := by
  obtain ⟨c, r, rfl⟩ := List.exists_cons_of_ne_nil h
  show Opens (Span.written ⟨c, isSpecial c⟩ ++ Span.source (literal r))
  apply Opens.append
  cases hc : isSpecial c with
  | true => exact ⟨'\\', [c], rfl, by decide, fun k => by cases k <;> decide⟩
  | false =>
    refine ⟨c, [], rfl, ?_, fun k => ne_of_not_special hc (by cases k <;> decide)⟩
    simp only [isSpecial, Bool.or_eq_false_iff] at hc
    exact hc.2

theorem closes_literal {t : Text} (h : t ≠ []) (hb : ∀ c ∈ t, Text.isBlank c = false) :
    Closes (Span.source (literal t)) := by
  obtain ⟨r, c, rfl⟩ : ∃ r c, t = r ++ [c] :=
    ⟨t.dropLast, t.getLast h, (List.dropLast_append_getLast h).symm⟩
  have hc := hb c (by simp)
  rw [show literal (r ++ [c]) = literal r ++ [⟨c, isSpecial c⟩] by simp [literal],
    Span.source_append]
  apply Closes.append
  cases isSpecial c with
  | true => exact ⟨['\\'], c, rfl, hc⟩
  | false => exact ⟨[], c, rfl, hc⟩

theorem source_signs (t : Text) : Span.source (signs t) = t := by
  induction t with
  | nil => rfl
  | cons c r ih =>
    show Span.written (.plain c) ++ Span.source (signs r) = c :: r
    rw [ih]
    rfl

theorem opens_signs {c : Char} {r : Text} (hc : Text.isBlank c = false)
    (hk : ∀ k : Combinator, c ≠ k.symbol) : Opens (Span.source (signs (c :: r))) := by
  rw [source_signs]
  exact ⟨c, r, rfl, hc, hk⟩

/-- An item begins with its sign. -/
theorem Item.opens (i : Item) : Opens (Span.source i.spans) := by
  cases i with
  | static p =>
    exact opens_signs (by decide) fun k => by cases k <;> decide
  | className n | identifier n =>
    rw [Item.spans, Span.source_append]
    exact (opens_signs (by decide) fun k => by cases k <;> decide).append _
  | attributeTest n c =>
    rw [Item.spans, List.append_assoc, Span.source_append]
    exact (opens_signs (by decide) fun k => by cases k <;> decide).append _
  | contains t | not c r | has c r =>
    rw [Item.spans, List.append_assoc, Span.source_append]
    exact (opens_signs (by decide) fun k => by cases k <;> decide).append _

/-- An item ends with a bracket, a parenthesis or a name. -/
theorem Item.closes (i : Item) : Closes (Span.source i.spans) := by
  cases i with
  | static p =>
    rw [Item.spans, source_signs]
    cases p <;> exact ⟨_, _, (List.dropLast_append_getLast (by decide)).symm, by decide⟩
  | className n | identifier n =>
    rw [Item.spans, Span.source_append]
    exact (closes_literal n.ne_nil n.noBlank).append _
  | attributeTest n c =>
    rw [Item.spans, Span.source_append]
    exact Closes.append ⟨[], ']', rfl, by decide⟩ _
  | contains t | not c r | has c r =>
    rw [Item.spans, Span.source_append]
    exact Closes.append ⟨[], ')', rfl, by decide⟩ _

theorem Tag.opens (t : Tag) : Opens (Span.source t.spans) := by
  cases t with
  | any => exact opens_signs (by decide) fun k => by cases k <;> decide
  | named n => exact opens_literal n.ne_nil

theorem Tag.closes (t : Tag) : Closes (Span.source t.spans) := by
  cases t with
  | any => exact ⟨[], '*', rfl, by decide⟩
  | named n => exact closes_literal n.ne_nil n.noBlank

theorem Compound.opens (c : Compound) : Opens (Span.source c.spans) := by
  cases c with
  | tagged t r =>
    rw [Compound.spans, Span.source_append]
    exact t.opens.append _
  | untagged i r =>
    rw [Compound.spans, Span.source_append]
    exact i.opens.append _

/-- Items close what they stand behind. -/
theorem closes_items {a : List Span} (h : Closes (Span.source a)) (r : List Item) :
    Closes (Span.source (a ++ itemSpans r)) := by
  induction r generalizing a with
  | nil => simpa [itemSpans] using h
  | cons i r ih =>
    rw [itemSpans, ← List.append_assoc]
    apply ih
    rw [Span.source_append]
    exact i.closes.append _

theorem Compound.closes (c : Compound) : Closes (Span.source c.spans) := by
  cases c with
  | tagged t r => exact closes_items t.closes r
  | untagged i r => exact closes_items i.closes r

/-! ## Rows of tokens

A chain begins with a combinator or a compound and always ends with a compound, so that neither end
of it is trimmed. -/

theorem inRow_cons (t : List Span) (r : List (List Span)) :
    inRow (t :: r) = t ++ r.flatMap fun u => signs [' '] ++ u := by
  induction r generalizing t with
  | nil => simp [inRow]
  | cons u r ih =>
    have h : inRow (t :: u :: r) = t ++ (signs [' '] ++ inRow (u :: r)) := by
      simp [inRow, List.intercalate]
    rw [h, ih, List.flatMap_cons, List.append_assoc (signs [' '])]

theorem source_flatMap (r : List (List Span)) (c : Char) :
    Span.source (r.flatMap fun u => signs [c] ++ u) = r.flatMap fun u => c :: Span.source u := by
  induction r with
  | nil => rfl
  | cons u r ih =>
    rw [List.flatMap_cons, List.flatMap_cons, Span.source_append, Span.source_append, ih,
      source_signs]
    rfl

/-- A chain begins with a token that begins with no blank. -/
theorem Chain.exists_first_token : (c : Chain) →
    ∃ t r, c.tokens = t :: r ∧ ∃ d u, Span.source t = d :: u ∧ Text.isBlank d = false
  | .start none c => by
    obtain ⟨d, u, he, hd, -⟩ := c.opens
    exact ⟨c.spans, [], rfl, d, u, he, hd⟩
  | .start (some k) c =>
    ⟨signs [k.symbol], [c.spans], rfl, k.symbol, [], source_signs _, by cases k <;> decide⟩
  | .link b o c => by
    obtain ⟨t, r, ht, hd⟩ := b.exists_first_token
    exact ⟨t, r ++ combinatorTokens o ++ [c.spans], by simp [Chain.tokens, ht], hd⟩

/-- A chain ends with the token of a compound. -/
theorem Chain.exists_last_token (c : Chain) :
    ∃ r d, c.tokens = r ++ [Compound.spans d] := by
  cases c with
  | start o d => exact ⟨_, d, rfl⟩
  | link b o d => exact ⟨_, d, rfl⟩

/-- No token is empty. -/
theorem Chain.source_ne_nil : (c : Chain) → ∀ t ∈ c.tokens, Span.source t ≠ []
  | .start o c => by
    intro t ht
    rcases List.mem_append.1 ht with ht | ht
    · exact combinator_ne_nil o t ht
    · rw [List.mem_singleton.1 ht]
      exact compound_ne_nil c
  | .link b o c => by
    intro t ht
    rcases List.mem_append.1 ht with ht | ht
    · rcases List.mem_append.1 ht with ht | ht
      · exact b.source_ne_nil t ht
      · exact combinator_ne_nil o t ht
    · rw [List.mem_singleton.1 ht]
      exact compound_ne_nil c
where
  combinator_ne_nil (o : Option Combinator) : ∀ t ∈ combinatorTokens o, Span.source t ≠ [] := by
    cases o with
    | none => intro t ht; cases ht
    | some k =>
      intro t ht
      rw [List.mem_singleton.1 ht, source_signs]
      simp
  compound_ne_nil (c : Compound) : Span.source c.spans ≠ [] := by
    obtain ⟨d, u, he, -⟩ := c.opens
    rw [he]
    simp

/-- The text of a chain begins with no blank. -/
theorem Chain.print_head (c : Chain) :
    ∃ d u, c.print = d :: u ∧ Text.isBlank d = false := by
  obtain ⟨t, r, ht, d, u, he, hd⟩ := c.exists_first_token
  rw [Chain.print, Chain.spans, ht, inRow_cons, Span.source_append, he]
  exact ⟨d, _, rfl, hd⟩

/-- It ends with none either. -/
theorem Chain.print_closes (c : Chain) : Closes c.print := by
  obtain ⟨r, d, ht⟩ := c.exists_last_token
  rw [Chain.print, Chain.spans, ht]
  cases r with
  | nil =>
    rw [List.nil_append, inRow_cons, List.flatMap_nil, List.append_nil]
    exact d.closes
  | cons t r =>
    rw [List.cons_append, inRow_cons, List.flatMap_append, List.flatMap_singleton,
      ← List.append_assoc, ← List.append_assoc, Span.source_append]
    exact d.closes.append _

theorem Chain.balanced_spans (c : Chain) : Balanced isAlternativeChar c.spans :=
  balanced_inRow c.balanced_tokens

theorem Chain.isAllBlank_print (c : Chain) : Text.isAllBlank c.print = false := by
  obtain ⟨d, u, he, hd⟩ := c.print_head
  simp [Text.isAllBlank, he, hd]

/-- The tokens of the text of a chain are the tokens of the chain. -/
theorem tokens_print (c : Chain) : Selector.tokens c.print = c.tokens.map Span.source := by
  obtain ⟨t, r, ht, -⟩ := c.exists_first_token
  have hb := c.balanced_tokens
  have hn := c.source_ne_nil
  rw [Selector.tokens, Chain.print, Chain.spans]
  rw [ht] at hb hn ⊢
  have hp : ∀ d, isTokenChar d = true → Selector.isSeparator d = false := by
    intro d hd
    simpa using (Bool.and_eq_true_iff.1 hd).2
  rw [inRow_cons, Span.source_append, source_flatMap,
    Pieces.toList_cut_row hp (by decide) (by decide) (by decide) (by decide)
      (hb t List.mem_cons_self) fun u hu => hb u (List.mem_cons_of_mem _ hu)]
  -- Empty pieces would be left out, and there are none.
  apply List.filter_eq_self.2
  intro u hu
  obtain ⟨v, hv, rfl⟩ := List.mem_map.1 (show u ∈ (t :: r).map Span.source from hu)
  simpa using hn v hv

/-! ## Rows of alternatives

Behind a comma there is a space, which belongs to the next piece and is trimmed off it. -/

theorem trim_eq_self {t : Text} (hf : ∃ c r, t = c :: r ∧ Text.isBlank c = false)
    (hl : Closes t) : Text.trim t = t := by
  obtain ⟨c, r, rfl, hc⟩ := hf
  obtain ⟨s, d, hs, hd⟩ := hl
  rw [Text.trim_cons hc, ← Text.trimEnd_cons hc, hs, Text.trimEnd, List.reverse_append,
    List.reverse_singleton, List.singleton_append, List.dropWhile_cons_of_neg (by simp [hd])]
  simp

/-- The text of a chain has nothing to trim. -/
theorem trim_print (c : Chain) : Text.trim c.print = c.print :=
  trim_eq_self c.print_head c.print_closes

theorem source_further (r : List Chain) :
    Span.source (furtherSpans r) =
      (r.map fun c => signs [' '] ++ c.spans).flatMap fun t => ',' :: Span.source t := by
  induction r with
  | nil => rfl
  | cons c r ih =>
    rw [furtherSpans, Span.source_append, Span.source_append, ih, source_signs, List.map_cons,
      List.flatMap_cons, Span.source_append, source_signs]
    rfl

/-- The alternatives of the text of alternatives are their texts. -/
theorem alternatives_source (c : Chain) (r : List Chain) :
    Selector.alternatives (Span.source (alternativeSpans c r)) = c.print :: r.map Chain.print := by
  have hp : ∀ d, isAlternativeChar d = true → (d == ',') = false := by
    intro d hd
    simpa [isAlternativeChar] using hd
  have hr : ∀ t ∈ r.map (fun c => signs [' '] ++ c.spans), Balanced isAlternativeChar t := by
    intro t ht
    obtain ⟨d, -, rfl⟩ := List.mem_map.1 ht
    exact (balanced_signs (by decide)).append d.balanced_spans
  rw [Selector.alternatives, alternativeSpans, Span.source_append, source_further,
    Pieces.toList_cut_row hp (by decide) (by decide) (by decide)
      (by decide) c.balanced_spans hr]
  rw [List.map_cons, List.map_map, List.map_map]
  congr 1
  · exact trim_print c
  · apply List.map_congr_left
    intro d _
    show Text.trim (Span.source (signs [' '] ++ d.spans)) = d.print
    rw [Span.source_append, source_signs, Text.trim,
      Text.trimStart_append_of_blank (List.all_eq_true.1 (show [' '].all Text.isBlank = true by decide))]
    exact trim_print d

end Written

end TreeQuery
