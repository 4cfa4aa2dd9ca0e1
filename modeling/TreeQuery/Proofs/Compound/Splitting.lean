import TreeQuery.Proofs.Compound.Layout
import TreeQuery.Proofs.Groups.Comma

/-!
# Compounds that are not split

A selector is split into alternatives and tokens before its compounds are read. The splitter counts
the parentheses in front of a character, whatever they stand in; the reader takes an argument from
its closing parenthesis to the one that opens it, and a test from its closing bracket to the opening
one, whatever parentheses are between. So the two see the same argument where the tests in front of
it do not close more parentheses than they open, or not more than the argument opens around the
places at which it could be split.

Main statement: `Layout.not_split`.
-/

namespace TreeQuery

/-! ## Open parentheses

The splitter only knows a number, by which each parenthesis moves it up or down; a negative number
counts as zero for cutting but is kept. So what a text does to the number is an integer, and adding
these along a text gives the depth at any place in it. A character is sheltered where that depth is
above zero. -/

namespace Span

variable {p : Char → Bool} {depth : Int} {a b spans : List Span}

/-- By how much a span changes the number of open parentheses. -/
def turn (s : Span) : Int := if s = plain '(' then 1 else if s = plain ')' then -1 else 0

/-- How many more parentheses some spans open than they close. -/
def excess : List Span → Int
  | [] => 0
  | s :: r => s.turn + excess r

theorem excess_cons (s : Span) (r : List Span) : excess (s :: r) = s.turn + excess r := rfl

theorem excess_append (a b : List Span) : excess (a ++ b) = excess a + excess b := by
  induction a with
  | nil => exact (Int.zero_add _).symm
  | cons s r ih => rw [List.cons_append, excess_cons, excess_cons, ih, Int.add_assoc]

/-- What does not delimit is no parenthesis. -/
theorem turn_of_not_delimits {s : Span} (h : Compound.delimits s = false) : s.turn = 0 := by
  rw [turn, if_neg, if_neg]
  · rintro rfl
    exact absurd h (by decide)
  · rintro rfl
    exact absurd h (by decide)

theorem excess_of_not_delimits (h : ∀ s ∈ spans, Compound.delimits s = false) :
    excess spans = 0 := by
  induction spans with
  | nil => rfl
  | cons s r ih =>
    rw [List.forall_mem_cons] at h
    rw [excess_cons, turn_of_not_delimits h.1, ih h.2]
    rfl

/-- Unescaped characters of a kind stand only where a parenthesis is open, if some are open in front
of the spans. -/
def IsSheltered (p : Char → Bool) (depth : Int) (spans : List Span) : Prop :=
  ∀ front c back, spans = front ++ plain c :: back → p c = true → 0 < depth + excess front

theorem isSheltered_cons_iff {s : Span} {r : List Span} : IsSheltered p depth (s :: r) ↔
    (s.escaped = false → p s.char = true → 0 < depth) ∧ IsSheltered p (depth + s.turn) r := by
  constructor
  · intro h
    constructor
    · intro he hp
      have := h [] s.char r (by rw [plain, ← he]; rfl) hp
      simpa [excess] using this
    · rintro front c back rfl hp
      have := h (s :: front) c back rfl hp
      rwa [excess_cons, ← Int.add_assoc] at this
  · rintro ⟨hs, hr⟩ front c back he hp
    -- The character in question is the first one, or one of the rest.
    cases front with
    | nil =>
      obtain ⟨rfl, rfl⟩ := List.cons.inj he
      simpa [excess] using hs rfl hp
    | cons s' front =>
      obtain ⟨rfl, hrest⟩ := List.cons.inj he
      rw [excess_cons, ← Int.add_assoc]
      exact hr front c back hrest hp

theorem isSheltered_nil : IsSheltered p depth [] := by
  intro front c back he
  cases front <;> cases he

/-- The second part begins at the depth that the first one leaves. -/
theorem isSheltered_append_iff : IsSheltered p depth (a ++ b) ↔
    IsSheltered p depth a ∧ IsSheltered p (depth + excess a) b := by
  induction a generalizing depth with
  | nil =>
    have hzero : depth + excess [] = depth := Int.add_zero depth
    rw [List.nil_append, hzero]
    exact ⟨fun h => ⟨isSheltered_nil, h⟩, fun h => h.2⟩
  | cons s r ih =>
    rw [List.cons_append, isSheltered_cons_iff, isSheltered_cons_iff, ih, excess_cons, and_assoc,
      Int.add_assoc]

instance decidableIsSheltered (p : Char → Bool) :
    (depth : Int) → (spans : List Span) → Decidable (IsSheltered p depth spans)
  | _, [] => isTrue isSheltered_nil
  | depth, s :: r =>
    have := decidableIsSheltered p (depth + s.turn) r
    decidable_of_iff _ isSheltered_cons_iff.symm

/-- Where there are none of the characters, nothing is asked. -/
theorem isSheltered_of_none (h : ∀ s ∈ spans, s.escaped = false → p s.char = false) :
    IsSheltered p depth spans := by
  rintro front c back rfl hp
  have hc := h (plain c) (by simp) rfl
  exact absurd (hp.symm.trans hc) (by decide)

/-- A text is in one piece if the characters at which it could be cut are sheltered. The induction
is along the text, with the number of parentheses that are open in front. -/
theorem cut_source (hb : ∀ s ∈ spans, s.escaped = false → s.char ≠ '\\')
    (h : IsSheltered p depth spans) :
    Pieces.cut p depth (source spans) = ⟨[], source spans⟩ := by
  induction spans generalizing depth with
  | nil => rfl
  | cons s r ih =>
    rw [List.forall_mem_cons] at hb
    rw [isSheltered_cons_iff] at h
    have hrest := ih hb.2 h.2
    obtain ⟨c, escaped⟩ := s
    cases escaped with
    | true =>
      have hturn : turn ⟨c, true⟩ = 0 := by simp [turn, plain]
      rw [hturn, Int.add_zero] at hrest
      show Pieces.cut p depth ('\\' :: c :: source r) = _
      rw [Pieces.cut, hrest]
      rfl
    | false =>
      have hbackslash : c ≠ '\\' := hb.1 rfl
      show Pieces.cut p depth (c :: source r) = _
      by_cases hopen : c = '('
      · subst hopen
        rw [Pieces.cut]
        exact congrArg (Pieces.extend ['(']) hrest
      by_cases hclose : c = ')'
      · subst hclose
        rw [Pieces.cut]
        exact congrArg (Pieces.extend [')']) hrest
      have hturn : turn ⟨c, false⟩ = 0 := by simp [turn, plain, hopen, hclose]
      rw [hturn, Int.add_zero] at hrest
      -- No parenthesis is passed here, so that the depth is still that in front.
      have hkeep : ¬ (decide (depth ≤ 0) && p c) = true := by
        rw [Bool.and_eq_true, decide_eq_true_eq]
        rintro ⟨hdepth, hp⟩
        exact absurd (h.1 rfl hp) (Int.not_lt.2 hdepth)
      rw [Pieces.cut_cons hbackslash hopen hclose, if_neg hkeep, hrest]
      rfl

end Span

/-- Balanced spans leave as many parentheses open as there are in front of them. -/
theorem Balanced.excess {p : Char → Bool} {a : List Span} (h : Balanced p a) : Span.excess a = 0 := by
  induction h with
  | nil => rfl
  | escaped c _ ih =>
    have hturn : Span.turn ⟨c, true⟩ = 0 := by simp [Span.turn, Span.plain]
    rw [Span.excess_cons, ih, hturn]
    rfl
  | @plain _ _ c _ hopen hclose _ _ ih =>
    have hturn : Span.turn (.plain c) = 0 := by simp [Span.turn, Span.plain, hopen, hclose]
    rw [Span.excess_cons, ih, hturn]
    rfl
  | parentheses _ _ ihi iht =>
    rw [List.cons_append, Span.excess_cons, Span.excess_append, Span.excess_cons, ihi, iht]
    rfl

/-! ## Arguments

In a layout only tests can move the depth for what follows: names have no parentheses, and an
argument closes what it opens. The depth in front of an argument is therefore the sum over the tests
before it, and one for the parenthesis of the argument itself. -/

namespace Layout

/-- The spans of an item that stand outside of an argument. -/
def Item.outside : Item → List Span
  | .functional n _ => .plain ':' :: (n.spans ++ [.plain '(', .plain ')'])
  | i => i.spans

/-- How many more parentheses an item opens than it closes. Only a test can open or close any
without its counterpart. -/
def Item.excess : Item → Int
  | .attributeTest b => Span.excess b.spans
  | _ => 0

/-- How many more parentheses items in a row open than they close. -/
def excess : List Item → Int
  | [] => 0
  | i :: r => i.excess + excess r

def outside (l : Layout) : List Span := l.tag.spans ++ l.items.flatMap Item.outside

/-- The unescaped characters of a kind all stand in the arguments of a compound. -/
def Encloses (p : Char → Bool) (l : Layout) : Prop :=
  ∀ s ∈ l.outside, s.escaped = false → p s.char = false

/-- The unescaped characters of a kind in an argument stand inside of some parenthesis, even if the
parentheses that the tests in front of the argument close too many are taken off. -/
def Shelters (p : Char → Bool) (l : Layout) : Prop :=
  ∀ before n a after, l.items = before ++ .functional n a :: after →
    Span.IsSheltered p (excess before + 1) a.spans

/-- What an item does to the depth is what its spans do. -/
theorem Item.excess_spans (i : Item) : Span.excess i.spans = i.excess := by
  have hlabel (c : Char) (n : List Span) (hc : Span.turn (.plain c) = 0)
      (hn : ∀ s ∈ n, Compound.delimits s = false) : Span.excess (.plain c :: n) = 0 := by
    rw [Span.excess_cons, hc, Span.excess_of_not_delimits hn]
    rfl
  cases i with
  | className n => exact hlabel '.' n.spans rfl n.undelimited
  | identifier n => exact hlabel '#' n.spans rfl n.undelimited
  | static n => exact hlabel ':' n.spans rfl (Compound.not_delimits_of_namesPseudoClass n.names)
  | attributeTest b =>
    have hopen : Span.turn (.plain '[') = 0 := rfl
    have hclose : Span.excess [.plain ']'] = 0 := rfl
    rw [Item.spans, Span.excess_cons, Span.excess_append, hopen, hclose]
    show 0 + (Span.excess b.spans + 0) = Span.excess b.spans
    omega
  | functional n a =>
    have hname := hlabel ':' n.spans rfl (Compound.not_delimits_of_lower n.lower)
    have hopen : Span.turn (.plain '(') = 1 := rfl
    have hclose : Span.excess [.plain ')'] = -1 := rfl
    rw [Item.spans, ← List.cons_append, Span.excess_append, hname, Span.excess_cons,
      Span.excess_append, a.nested.excess, hopen, hclose]
    rfl

/-- The last item adds its own. -/
theorem excess_concat (before : List Item) (i : Item) :
    excess (before ++ [i]) = excess before + i.excess := by
  induction before with
  | nil =>
    show i.excess + 0 = 0 + i.excess
    omega
  | cons j before ih =>
    show j.excess + excess (before ++ [i]) = j.excess + excess before + i.excess
    rw [ih, Int.add_assoc]

/-- An argument is sheltered in its item if it is behind its opening parenthesis. -/
theorem Item.isSheltered {p : Char → Bool} {depth : Int} (i : Item)
    (houtside : ∀ s ∈ i.outside, s.escaped = false → p s.char = false)
    (hargument : ∀ n a, i = .functional n a → Span.IsSheltered p (depth + 1) a.spans) :
    Span.IsSheltered p depth i.spans := by
  cases i with
  | functional n a =>
    have hfront : ∀ s ∈ Span.plain ':' :: n.spans, s.escaped = false → p s.char = false :=
      fun s hs => houtside s (by
        rw [Item.outside, ← List.cons_append]
        exact List.mem_append_left _ hs)
    have hopen : p '(' = false := houtside (.plain '(') (by simp [Item.outside]) rfl
    have hclose : p ')' = false := houtside (.plain ')') (by simp [Item.outside]) rfl
    -- A name opens and closes nothing, so that the parenthesis behind it is the first one.
    have hname : Span.excess (Span.plain ':' :: n.spans) = 0 := by
      rw [Span.excess_cons,
        Span.excess_of_not_delimits (Compound.not_delimits_of_lower n.lower)]
      rfl
    have hparentheses : Span.IsSheltered p depth (.plain '(' :: (a.spans ++ [.plain ')'])) := by
      rw [Span.isSheltered_cons_iff, Span.isSheltered_append_iff]
      refine ⟨fun _ hp => absurd (hp.symm.trans hopen) (by decide), hargument n a rfl, ?_⟩
      apply Span.isSheltered_of_none
      intro s hs _
      rw [List.mem_singleton.1 hs]
      exact hclose
    rw [Item.spans, ← List.cons_append, Span.isSheltered_append_iff, hname, Int.add_zero]
    exact ⟨Span.isSheltered_of_none hfront, hparentheses⟩
  | className | identifier | static | attributeTest => exact Span.isSheltered_of_none houtside

/-- Items in a row, behind others. -/
theorem isSheltered_items {p : Char → Bool} {items : List Item} (before : List Item)
    (houtside : ∀ s ∈ items.flatMap Item.outside, s.escaped = false → p s.char = false)
    (hshelters : ∀ front n a after, items = front ++ .functional n a :: after →
      Span.IsSheltered p (excess (before ++ front) + 1) a.spans) :
    Span.IsSheltered p (excess before) (items.flatMap Item.spans) := by
  induction items generalizing before with
  | nil => exact Span.isSheltered_nil
  | cons i r ih =>
    rw [List.flatMap_cons, List.forall_mem_append] at houtside
    rw [List.flatMap_cons, Span.isSheltered_append_iff, i.excess_spans]
    -- The first item at the depth in front of it, and the rest with it among those in front.
    constructor
    · refine i.isSheltered houtside.1 ?_
      rintro n a rfl
      simpa using hshelters [] n a r rfl
    · have hrest := ih (before ++ [i]) houtside.2 fun front n a after he => by
        rw [← List.append_cons]
        exact hshelters (i :: front) n a after (by rw [he]; rfl)
      rwa [excess_concat] at hrest

/-- What encloses and shelters all the characters at which it could be cut is in one piece. -/
theorem cut_source {p : Char → Bool} {l : Layout} {t : Text} (hl : Span.resolve? t = some l.spans)
    (hencloses : l.Encloses p) (hshelters : l.Shelters p) : Pieces.cut p 0 t = ⟨[], t⟩ := by
  rw [← Span.source_of_resolve? hl]
  apply Span.cut_source (ne_backslash_of_resolve? hl)
  rw [Encloses, outside, List.forall_mem_append] at hencloses
  rw [spans, Span.isSheltered_append_iff, Span.excess_of_not_delimits l.tag.undelimited]
  exact ⟨Span.isSheltered_of_none hencloses.1,
    isSheltered_items [] hencloses.2 fun front n a after he => hshelters front n a after he⟩

/-! ## Trimming

Alternatives are trimmed, tokens are not. White space in an argument is never at an end, as its item
begins and ends outside of it; escaped white space may be at the end, and is taken off from behind
its backslash. -/

/-- The first and the last span of an item are no part of an argument. -/
theorem Item.ends_outside (i : Item) : (∃ s r, i.spans = s :: r ∧ s ∈ i.outside) ∧
    ∃ r s, i.spans = r ++ [s] ∧ s ∈ i.outside := by
  have hself {l : List Span} (hl : l ≠ []) :
      (∃ s r, l = s :: r ∧ s ∈ l) ∧ ∃ r s, l = r ++ [s] ∧ s ∈ l := by
    refine ⟨⟨l.head hl, l.tail, (List.cons_head_tail hl).symm, List.head_mem hl⟩,
      l.dropLast, l.getLast hl, (List.dropLast_append_getLast hl).symm, List.getLast_mem hl⟩
  cases i with
  | functional n a =>
    refine ⟨⟨.plain ':', _, rfl, List.mem_cons_self⟩,
      .plain ':' :: (n.spans ++ .plain '(' :: a.spans), .plain ')', ?_, ?_⟩
    · simp [Item.spans]
    · simp [Item.outside]
  | className n => exact hself (List.cons_ne_nil _ n.spans)
  | identifier n => exact hself (List.cons_ne_nil _ n.spans)
  | static n => exact hself (List.cons_ne_nil _ n.spans)
  | attributeTest b => exact hself (List.cons_ne_nil _ _)

/-- The first and the last span of a compound are no part of an argument. -/
theorem ends_outside {l : Layout} (hne : l.spans ≠ []) : (∃ s r, l.spans = s :: r ∧ s ∈ l.outside) ∧
    ∃ r s, l.spans = r ++ [s] ∧ s ∈ l.outside := by
  obtain ⟨tag, items⟩ := l
  constructor
  · -- The first span is that of the tag, or that of the first item if the tag is empty.
    cases htag : tag.spans with
    | cons s r =>
      refine ⟨s, r ++ items.flatMap Item.spans, ?_, ?_⟩
      · rw [spans, htag]
        rfl
      · rw [outside, htag]
        exact List.mem_append_left _ List.mem_cons_self
    | nil =>
      cases items with
      | nil => exact absurd (by rw [spans, htag]; rfl) hne
      | cons i items =>
        obtain ⟨⟨s, r, hi, hs⟩, -⟩ := i.ends_outside
        refine ⟨s, r ++ items.flatMap Item.spans, ?_, ?_⟩
        · rw [spans, htag, List.nil_append, List.flatMap_cons, hi]
          rfl
        · rw [outside, List.flatMap_cons]
          exact List.mem_append_right _ (List.mem_append_left _ hs)
  · -- The last one is that of the last item, or that of the tag if there are no items.
    rcases List.eq_nil_or_concat items with rfl | ⟨items, i, rfl⟩
    · have hspans : spans ⟨tag, []⟩ = tag.spans := List.append_nil _
      rw [hspans] at hne ⊢
      refine ⟨_, _, (List.dropLast_append_getLast hne).symm, ?_⟩
      exact List.mem_append_left _ (List.getLast_mem hne)
    · obtain ⟨-, r, s, hi, hs⟩ := i.ends_outside
      refine ⟨tag.spans ++ items.flatMap Item.spans ++ r, s, ?_, ?_⟩
      · rw [spans, List.concat_eq_append, List.flatMap_append, List.flatMap_singleton, hi]
        simp only [List.append_assoc]
      · rw [outside, List.concat_eq_append, List.flatMap_append, List.flatMap_singleton]
        exact List.mem_append_right _ (List.mem_append_right _ hs)

/-- Trimming takes nothing off a compound whose unescaped white space stands in arguments, if it
does not end in escaped white space. -/
theorem trim_eq_self {l : Layout} {t : Text} (hl : Span.resolve? t = some l.spans)
    (hne : t ≠ []) (hencloses : l.Encloses Text.isBlank)
    (hlast : ∀ s ∈ l.spans.getLast?, s.escaped = true → Text.isBlank s.char = false) :
    Text.trim t = t := by
  have ht := Span.source_of_resolve? hl
  have hspans : l.spans ≠ [] := by
    intro h
    rw [h] at ht
    exact hne ht.symm
  obtain ⟨⟨s, r, hfirst, hs⟩, r', s', hend, hs'⟩ := ends_outside hspans
  apply Written.trim_eq_self
  · rw [hfirst, Span.source_cons, Span.written] at ht
    split at ht
    · -- An escaped character has its backslash in front.
      exact ⟨'\\', _, ht.symm, by decide⟩
    · next he => exact ⟨s.char, _, ht.symm, hencloses s hs (eq_false_of_ne_true he)⟩
  · rw [hend, Span.source_append] at ht
    have hblank : Text.isBlank s'.char = false := by
      cases he : s'.escaped with
      | false => exact hencloses s' hs' he
      | true => exact hlast s' (by rw [hend, List.getLast?_concat]; rfl) he
    have hwritten : ∃ u, Span.source [s'] = u ++ [s'.char] := by
      rw [Span.source_cons, Span.written]
      split
      · exact ⟨['\\'], rfl⟩
      · exact ⟨[], rfl⟩
    obtain ⟨u, hu⟩ := hwritten
    refine ⟨Span.source r' ++ u, s'.char, ?_, hblank⟩
    rw [← ht, hu, List.append_assoc]

/-! ## Tokens and alternatives

A token that is read is a combinator or has a layout. With a layout it is cut neither at commas nor
at separators if these are enclosed and sheltered, and it is trimmed to itself if its white space
is. -/

/-- A token alone is scanned. -/
theorem readAt_singleton {t : Text} (h : Combinator.ofToken? t = none) :
    Compound.readAt [t] 0 = (Compound.scan .unstated t).map some := by
  show Compound.read none t = _
  rw [Compound.read_eq, h]
  rfl

def divides (c : Char) : Bool := c == ',' || Selector.isSeparator c

theorem Encloses.mono {p q : Char → Bool} {l : Layout} (h : l.Encloses p)
    (hq : ∀ c, q c = true → p c = true) : l.Encloses q := by
  intro s hs he
  rw [← Bool.not_eq_true]
  intro hc
  exact absurd ((hq _ hc).symm.trans (h s hs he)) (by decide)

theorem Shelters.mono {p q : Char → Bool} {l : Layout} (h : l.Shelters p)
    (hq : ∀ c, q c = true → p c = true) : l.Shelters q :=
  fun before n a after hitems front c back hspans hc =>
    h before n a after hitems front c back hspans (hq c hc)

/-- A token that is read is not split again, if the characters at which it could be stand in its
arguments, inside of more parentheses than the tests in front of the argument close too many. It is
one alternative, but for the white space at its ends that trimming takes off. -/
theorem not_split {t : Text} (hne : t ≠ []) {o : Option Compound}
    (hread : Compound.readAt [t] 0 = .ok o)
    (hinside : ∀ l : Layout, Span.resolve? t = some l.spans →
      l.Encloses divides ∧ l.Shelters divides) :
    Selector.tokens t = [t] ∧ Selector.alternatives t = [Text.trim t] ∧
      ((∀ l : Layout, Span.resolve? t = some l.spans → l.Encloses Text.isBlank ∧
          ∀ s ∈ l.spans.getLast?, s.escaped = true → Text.isBlank s.char = false) →
        Selector.alternatives t = [t]) := by
  cases hcombinator : Combinator.ofToken? t with
  | some c =>
    -- Nothing is scanned in a combinator, and it has no characters at which it could be split.
    obtain rfl := Combinator.ofToken?_eq_some_iff.1 hcombinator
    cases c <;> exact ⟨rfl, rfl, fun _ => rfl⟩
  | none =>
    obtain ⟨l, hl⟩ : ∃ l : Layout, Span.resolve? t = some l.spans := by
      rw [readAt_singleton hcombinator] at hread
      obtain ⟨c, hc, -⟩ := Except.map_eq_ok hread
      exact exists_layout_of_scan hc
    obtain ⟨hencloses, hshelters⟩ := hinside l hl
    have hseparator : ∀ c, Selector.isSeparator c = true → divides c = true := by
      intro c hc
      rw [divides, hc, Bool.or_true]
    have hcomma : ∀ c, (c == ',') = true → divides c = true := by
      intro c hc
      rw [divides, hc, Bool.true_or]
    have htokens : Selector.tokens t = [t] := by
      rw [Selector.tokens, cut_source hl (hencloses.mono hseparator) (hshelters.mono hseparator)]
      show [t].filter (!·.isEmpty) = [t]
      simp [hne]
    have halternatives : Selector.alternatives t = [Text.trim t] := by
      rw [Selector.alternatives, cut_source hl (hencloses.mono hcomma) (hshelters.mono hcomma)]
      rfl
    refine ⟨htokens, halternatives, fun hblank => ?_⟩
    rw [halternatives, trim_eq_self hl hne (hblank l hl).1 (hblank l hl).2]

/-! ## Samples

In the first sample a test closes a parenthesis that is not open, and the comma in an argument is
still inside of another one. The failures have the same test with a separator right in the argument.
-/

open Written (signs)

/-- A token that is read, with all commas and all white space in arguments unless they are escaped.
-/
def IsEnclosed (t : Text) : Prop :=
  (∃ o, Compound.readAt [t] 0 = .ok o) ∧
    ∃ l : Layout, Span.resolve? t = some l.spans ∧ l.Encloses divides ∧ l.Encloses Text.isBlank

/-- What has a layout is read. -/
theorem exists_readAt {l : Layout} {t : Text} (ht : Combinator.ofToken? t = none)
    (hl : Span.resolve? t = some l.spans) : ∃ o, Compound.readAt [t] 0 = .ok o := by
  rw [readAt_singleton ht, scan_spans hl]
  exact ⟨_, rfl⟩

theorem isEnclosed_of_outside {l : Layout} {t : Text} (ht : Combinator.ofToken? t = none)
    (hl : Span.resolve? t = some l.spans)
    (h : ∀ s ∈ l.outside, s.escaped = false →
      divides s.char = false ∧ Text.isBlank s.char = false) : IsEnclosed t :=
  ⟨exists_readAt ht hl, l, hl, fun s hs he => (h s hs he).1, fun s hs he => (h s hs he).2⟩

def Argument.ofSigns (t : Text) (ht : t.all (Written.isSign fun _ => true) = true)
    (hblank : Text.isAllBlank (Span.source (signs t)) = false) : Argument :=
  ⟨signs t, Written.balanced_signs ht, hblank⟩

/-- There may be nothing in front of the items. -/
theorem isTag_nil : Span.text [] = ['*'] ∨
    ∀ s ∈ ([] : List Span), s.escaped = false → Compound.isTagChar s.char = true :=
  .inr (List.forall_mem_nil _)

/-- A test that closes a parenthesis, and `:not` behind it. -/
def closedBefore (a : Argument) : Layout where
  tag := ⟨[], isTag_nil⟩
  items := [.attributeTest ⟨signs "x=)".toList, by decide⟩,
    .functional ⟨signs "not".toList, .not, rfl⟩ a]

/-- The test takes back what the parenthesis of the argument opens. -/
theorem shelters_closedBefore {p : Char → Bool} {a : Argument} (h : Span.IsSheltered p 0 a.spans) :
    (closedBefore a).Shelters p := by
  intro before n a' after hitems
  cases before with
  | nil => cases (List.cons.inj hitems).1
  | cons i before =>
    obtain ⟨rfl, hrest⟩ := List.cons.inj hitems
    cases before with
    | nil =>
      obtain ⟨-, rfl⟩ := Item.functional.inj (List.cons.inj hrest).1
      exact h
    | cons j before =>
      have hlength := congrArg List.length hrest
      simp at hlength

def hasBoth : Argument :=
  ⟨signs (":has".toList ++ ['(']) ++ signs "a, b".toList ++ signs [')'],
    Written.balanced_argument rfl (Written.balanced_signs rfl), rfl⟩

/-- The comma in the inner parentheses divides nothing, although the test has closed a parenthesis
that was not open. -/
theorem not_split_inner : "[x=)]:not(:has(a, b))".toList ≠ [] ∧
    (∃ o, Compound.readAt ["[x=)]:not(:has(a, b))".toList] 0 = .ok o) ∧
    (∀ l : Layout, Span.resolve? "[x=)]:not(:has(a, b))".toList = some l.spans →
      l.Encloses divides ∧ l.Shelters divides) ∧
    Selector.tokens "[x=)]:not(:has(a, b))".toList = ["[x=)]:not(:has(a, b))".toList] ∧
    Selector.alternatives "[x=)]:not(:has(a, b))".toList = ["[x=)]:not(:has(a, b))".toList] := by
  have hl : Span.resolve? "[x=)]:not(:has(a, b))".toList = some (closedBefore hasBoth).spans := rfl
  obtain ⟨o, ho⟩ := exists_readAt rfl hl
  have hsame {l : Layout} (h : Span.resolve? "[x=)]:not(:has(a, b))".toList = some l.spans) :
      closedBefore hasBoth = l := spans_injective (Option.some.inj (hl.symm.trans h))
  have hinside : ∀ l : Layout, Span.resolve? "[x=)]:not(:has(a, b))".toList = some l.spans →
      l.Encloses divides ∧ l.Shelters divides := by
    intro l h
    obtain rfl := hsame h
    exact ⟨by unfold Encloses; decide, shelters_closedBefore (by decide)⟩
  obtain ⟨htokens, -, halternatives⟩ := not_split (List.cons_ne_nil _ _) ho hinside
  refine ⟨List.cons_ne_nil _ _, ⟨o, ho⟩, hinside, htokens, halternatives ?_⟩
  intro l h
  obtain rfl := hsame h
  exact ⟨by unfold Encloses; decide, by decide⟩

/-- A parenthesis that a test closes lets the argument behind it be split, trimming takes escaped
white space off, and the empty token is dropped. -/
theorem not_split_fails :
    (IsEnclosed "[x=)]:not(a b)".toList ∧
      Selector.tokens "[x=)]:not(a b)".toList = ["[x=)]:not(a".toList, "b)".toList]) ∧
    (IsEnclosed "[x=)]:not(a,b)".toList ∧
      Selector.alternatives "[x=)]:not(a,b)".toList = ["[x=)]:not(a".toList, "b)".toList]) ∧
    (IsEnclosed "a\\ ".toList ∧ Selector.alternatives "a\\ ".toList = ["a\\".toList]) ∧
    IsEnclosed [] ∧ Selector.tokens [] = [] := by
  have hspace := isEnclosed_of_outside (l := closedBefore (.ofSigns "a b".toList rfl rfl)) rfl rfl
    (t := "[x=)]:not(a b)".toList) (by decide)
  have hcomma := isEnclosed_of_outside (l := closedBefore (.ofSigns "a,b".toList rfl rfl)) rfl rfl
    (t := "[x=)]:not(a,b)".toList) (by decide)
  have htag := isEnclosed_of_outside (l := ⟨⟨[.plain 'a', ⟨' ', true⟩], .inr (by decide)⟩, []⟩) rfl rfl
    (t := "a\\ ".toList) (by decide)
  have hempty := isEnclosed_of_outside (l := ⟨⟨[], isTag_nil⟩, []⟩) rfl rfl (t := []) (by decide)
  exact ⟨⟨hspace, by decide⟩, ⟨hcomma, by decide⟩, ⟨htag, by decide⟩, hempty, rfl⟩

end Layout

end TreeQuery
