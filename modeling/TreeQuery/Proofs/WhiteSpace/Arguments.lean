import TreeQuery.Proofs.WhiteSpace.Calls

/-!
# A selector around an argument

A pseudo-class stands in a selector, all of it in one token, and no item of the token crosses it.
Then the selector depends on the argument by what the alternatives in it come to, and on nothing
else that is written there.

Main statement: `Selector.Stands.agrees`.
-/

namespace TreeQuery

open Pattern

/-! ## Tokens with another argument

The layout of the token with the new argument is made from that of the old one, by putting another
item in the place of the pseudo-class. It is the layout of the new token since its spans are those
of the token, and a layout is determined by its spans. -/

namespace Layout

section

variable {front a b : List Span} {n : FunctionName} {f r : Text}

/-- A token with a pseudo-class in it is no combinator. -/
theorem ofToken?_call (n : FunctionName) (a : List Span) (f r : Text) :
    Combinator.ofToken? (f ++ (Span.source (call n a) ++ r)) = none := by
  apply Compound.ofToken?_eq_none_of_length
  have hcolon : Span.source (call n a) = ':' :: Span.source (n.spans ++ .plain '(' ::
    (a ++ [.plain ')'])) := rfl
  simp only [hcolon, Span.source_append, Span.source_cons, List.length_append, List.length_cons]
  have hparenthesis : (Span.written (.plain '(')).length = 1 := rfl
  omega

/-- A pseudo-class with another argument is asked for in the place of what it was, if its
alternatives are. -/
theorem replaces_call (l : Layout) {r r' : List Item} {arg arg' : Argument}
    (hl : l.items = r ++ .functional n arg :: r') (selects : n.pseudo ≠ .contains)
    (h : Selector.Agrees (Span.source arg.spans) (Span.source arg'.spans))
    (haxes : n.pseudo = .has →
      (Selector.alternatives (Span.source arg.spans)).map Pseudo.axisOf =
        (Selector.alternatives (Span.source arg'.spans)).map Pseudo.axisOf) (relation : Relation) :
    Compound.Replaces Selector.chain (l.compound relation)
      ((Layout.mk l.tag (r ++ .functional n arg' :: r')).compound relation) := by
  have hne (arg : Argument) : Span.source arg.spans ≠ [] := by
    intro he
    have hblank := arg.notBlank
    rw [he] at hblank
    cases hblank
  refine ⟨rfl, Element.entails_read rfl ?_ ?_⟩
  · show (r ++ .functional n arg' :: r').filterMap Item.attribute? =
      l.items.filterMap Item.attribute?
    rw [hl, List.filterMap_append, List.filterMap_append]
    rfl
  · show List.Forall₂ _ (l.items.filterMap Item.pseudo?)
      ((r ++ .functional n arg' :: r').filterMap Item.pseudo?)
    rw [hl, List.filterMap_append, List.filterMap_append]
    apply List.rel_append (List.forall₂_same.2 fun _ _ => .refl _)
    exact .cons (Condition.entails_read (hne arg) (hne arg') selects h.parts haxes)
      (List.forall₂_same.2 fun _ _ => .refl _)

/-- A token is read with another argument as it is read with the one that it has, but for the
pseudo-class that the argument belongs to. -/
theorem exists_read_call (hf : Span.resolve? f = some front) (ha : Balanced (fun _ => true) a)
    (hb : Balanced (fun _ => true) b) (hcross : Uncrossed (front ++ call n a) r)
    (selects : n.pseudo ≠ .contains) (h : Selector.Agrees (Span.source a) (Span.source b))
    (haxes : n.pseudo = .has →
      (Selector.alternatives (Span.source a)).map Pseudo.axisOf =
        (Selector.alternatives (Span.source b)).map Pseudo.axisOf)
    {before : Option Text} {c : Compound}
    (hread : Compound.read before (f ++ (Span.source (call n a) ++ r)) = .ok (some c)) :
    ∃ d, Compound.read before (f ++ (Span.source (call n b) ++ r)) = .ok (some d) ∧
      Compound.Replaces Selector.chain c d := by
  obtain ⟨l, hl, rfl⟩ := Compound.exists_layout_of_read hread
  rw [Span.resolve?_append hf, Span.resolve?_append (balanced_call n ha).resolve?_source,
    Option.map_map, Option.map_eq_some_iff] at hl
  obtain ⟨back, hback, hspans⟩ := hl
  rw [← Span.source_of_resolve? hback] at hcross
  obtain ⟨hblank, p, p', hitems, hp, hp'⟩ := exists_items_of_call ha
    (ne_backslash_of_resolve? hback) hcross (by rw [← hspans]; simp)
  have hblank' : Text.isAllBlank (Span.source b) = false := h.blank.trans hblank
  refine ⟨(Layout.mk l.tag (p ++ .functional n ⟨b, hb, hblank'⟩ :: p')).compound
    (Compound.relationAfter before), ?_, ?_⟩
  · have hresolve : Span.resolve? (f ++ (Span.source (call n b) ++ r)) =
        some (Layout.mk l.tag (p ++ .functional n ⟨b, hb, hblank'⟩ :: p')).spans := by
      rw [Span.resolve?_append hf, Span.resolve?_append (balanced_call n hb).resolve?_source, hback,
        ← hp, ← hp']
      simp only [spans, List.flatMap_append, List.flatMap_cons, Option.map_some, List.append_assoc]
      rfl
    rw [Compound.read_eq, ofToken?_call, scan_spans hresolve]
    rfl
  · exact replaces_call l hitems selects h haxes _

end

end Layout

/-! ## The pieces around a pseudo-class

A selector is cut twice, into alternatives and into tokens, and the pseudo-class must be within one
piece both times. `IsSheltered` says so for white space and commas at once. -/

theorem Span.IsSheltered.mono {p q : Char → Bool} {depth : Int} {spans : List Span}
    (h : IsSheltered p depth spans) (hq : ∀ c, q c = true → p c = true) :
    IsSheltered q depth spans :=
  fun front c back he hc => h front c back he (hq c hc)

/-- Balanced spans leave as many parentheses open as there are. -/
theorem Balanced.openAfter_append {p : Char → Bool} {a : List Span} (h : Balanced p a) (depth : Int)
    (r : Text) : Pieces.openAfter depth (Span.source a ++ r) = Pieces.openAfter depth r := by
  induction h generalizing depth r with
  | nil => rfl
  | escaped c _ ih => exact ih depth r
  | @plain _ t c hbackslash hopen hclose _ _ ih =>
    show Pieces.openAfter depth (c :: (Span.source t ++ r)) = _
    rw [Pieces.openAfter_cons hbackslash hopen hclose]
    exact ih depth r
  | @parentheses _ i t _ _ ihi iht =>
    rw [List.cons_append, Span.source_cons, Span.source_append, Span.source_cons]
    show Pieces.openAfter (depth + 1) ((Span.source i ++ ')' :: Span.source t) ++ r) = _
    rw [List.append_assoc, ihi]
    show Pieces.openAfter (depth + 1 - 1) (Span.source t ++ r) = _
    rw [Int.add_sub_cancel, iht]

namespace Pieces

variable {separates : Char → Bool} {depth : Int}

/-- What is put in front of the pieces is in the last one only if there is no other. -/
theorem last_extend (front : Text) (p : Pieces) :
    (p.extend front).last = front ++ p.last ∨ (p.extend front).last = p.last := by
  obtain ⟨ended, last⟩ := p
  cases ended with
  | nil => exact .inl rfl
  | cons => exact .inr rfl

/-- Blanks in front of a text add nothing but blanks to its last piece. -/
theorem exists_last_of_blanks {b : Text} (hb : ∀ c ∈ b, Text.isBlank c = true) (s : Text) :
    ∃ b', (∀ c ∈ b', Text.isBlank c = true) ∧
      (cut separates depth (b ++ s)).last = b' ++ (cut separates depth s).last := by
  induction b with
  | nil => exact ⟨[], List.forall_mem_nil _, rfl⟩
  | cons c r ih =>
    obtain ⟨hc, hr⟩ := List.forall_mem_cons.1 hb
    obtain ⟨h1, h2, h3⟩ := Text.ne_of_isBlank hc
    obtain ⟨b', hb', hlast⟩ := ih hr
    rw [List.cons_append, cut_cons h1 h2 h3]
    split
    · exact ⟨b', hb', hlast⟩
    · rcases last_extend [c] (cut separates depth (r ++ s)) with he | he
      · refine ⟨c :: b', List.forall_mem_cons.2 ⟨hc, hb'⟩, ?_⟩
        rw [he, hlast]
        rfl
      · exact ⟨b', hb', he.trans hlast⟩

/-- The first piece of a text begins that of a longer one. -/
theorem first_begins (a b : Text) :
    (cut separates depth a).first <+: (cut separates depth (a ++ b)).first := by
  fun_induction cut separates depth a with
  | case1 => exact List.nil_prefix
  | case2 depth =>
    -- A backslash at the end takes the first character behind it.
    cases b with
    | nil => exact List.prefix_refl _
    | cons c r =>
      show _ <+: (cut separates depth ('\\' :: c :: r)).first
      rw [cut, first_extend]
      exact ⟨c :: (cut separates depth r).first, rfl⟩
  | case3 depth c r ih =>
    rw [List.cons_append, List.cons_append, cut, first_extend, first_extend]
    exact (List.prefix_append_right_inj _).2 ih
  | case4 depth r ih =>
    rw [List.cons_append, cut, first_extend, first_extend]
    exact (List.prefix_append_right_inj _).2 ih
  | case5 depth r ih =>
    rw [List.cons_append, cut, first_extend, first_extend]
    exact (List.prefix_append_right_inj _).2 ih
  | case6 depth c r h1 h2 h3 h4 hs ih => exact List.nil_prefix
  | case7 depth c r h1 h2 h3 h4 hs ih =>
    rw [List.cons_append, cut_cons (ne_backslash_of_rest h1 h2) h3 h4, if_neg hs, first_extend,
      first_extend]
    exact (List.prefix_append_right_inj _).2 ih

end Pieces

namespace Selector

/-- A pseudo-class stands between two texts, in one alternative and in one token: the first text
does not end within an escape, and it leaves as many parentheses open as it takes for the commas and
the white space in the argument not to separate anything. No item of the token crosses the
pseudo-class. -/
structure Stands (x : Text) (k : Int) (front call : List Span) (y : Text) : Prop where
  opened : Pieces.openAfter 0 x = some k
  resolved : Span.resolve? (Pieces.cut isSeparator 0 x).last = some front
  sheltered : Span.IsSheltered Layout.divides k call
  uncrossed : Layout.Uncrossed (front ++ call) (Pieces.cut isSeparator k y).first
  left : (Pieces.cut (· == ',') 0 x).ended = []
  right : (Pieces.cut (· == ',') k y).ended = []

namespace Stands

variable {x y : Text} {k : Int} {front a b : List Span} {n : Layout.FunctionName}

/-- All of the pseudo-class is in the piece that it begins in. -/
theorem cut_call {separates : Char → Bool} (hq : ∀ c, separates c = true → Layout.divides c = true)
    (ha : Balanced (fun _ => true) a) (hs : Span.IsSheltered Layout.divides k (Layout.call n a))
    (y : Text) : Pieces.cut separates k (Span.source (Layout.call n a) ++ y) =
      (Pieces.cut separates k y).extend (Span.source (Layout.call n a)) := by
  have hcall := Layout.balanced_call n ha
  have hopen : Pieces.openAfter k (Span.source (Layout.call n a)) = some k := by
    have := hcall.openAfter_append k []
    rwa [List.append_nil] at this
  rw [Pieces.cut_append hopen, Span.cut_source hcall.ne_backslash (hs.mono hq)]
  rfl

theorem divides_of_isSeparator (c : Char) (h : isSeparator c = true) : Layout.divides c = true := by
  rw [Layout.divides, h, Bool.or_true]

theorem divides_of_comma (c : Char) (h : (c == ',') = true) : Layout.divides c = true := by
  rw [Layout.divides, h, Bool.true_or]

/-- The tokens around a pseudo-class, and the one that it stands in. -/
theorem tokens_call (h : Pieces.openAfter 0 x = some k) (ha : Balanced (fun _ => true) a)
    (hs : Span.IsSheltered Layout.divides k (Layout.call n a)) (y : Text) :
    tokens (x ++ Span.source (Layout.call n a) ++ y) =
      (Pieces.cut isSeparator 0 x).earlier.filter (!·.isEmpty) ++
        ((Pieces.cut isSeparator 0 x).last ++
          (Span.source (Layout.call n a) ++ (Pieces.cut isSeparator k y).first)) ::
        (Pieces.cut isSeparator k y).later.filter (!·.isEmpty) := by
  rw [tokens, List.append_assoc, Pieces.toList_cut_append h,
    cut_call divides_of_isSeparator ha hs, Pieces.first_extend, Pieces.later_extend,
    List.filter_append, List.filter_cons_of_pos]
  simp [Layout.call, Span.source_cons, Span.written, Span.plain]

/-- No comma divides the selector. -/
theorem uncut (h : Stands x k front (Layout.call n a) y) (ha : Balanced (fun _ => true) a) :
    (Pieces.cut (· == ',') 0 (x ++ Span.source (Layout.call n a) ++ y)).ended = [] := by
  rw [List.append_assoc, Pieces.uncut_append_iff h.opened, cut_call divides_of_comma ha h.sheltered,
    Pieces.ended_extend_eq_nil]
  exact ⟨h.left, h.right⟩

/-! ### Trimming -/

theorem isAllBlank_call (n : Layout.FunctionName) (a : List Span) (x y : Text) :
    Text.isAllBlank (x ++ Span.source (Layout.call n a) ++ y) = false := by
  have hcolon : Text.isAllBlank (Span.source (Layout.call n a)) = false := rfl
  rw [Text.isAllBlank_append, Text.isAllBlank_append, hcolon, Bool.and_false, Bool.false_and]

/-- A pseudo-class begins with a colon and ends with a parenthesis, so that trimming does not reach
into it. -/
theorem trim_call (n : Layout.FunctionName) (a : List Span) (x y : Text) :
    Text.trim (x ++ Span.source (Layout.call n a) ++ y) =
      Text.trimStart x ++ Span.source (Layout.call n a) ++ Text.trimEnd y := by
  have hcall : Span.source (Layout.call n a) =
      ':' :: (Span.source (n.spans ++ .plain '(' :: a) ++ [')']) := by
    simp [Layout.call, Span.source, Span.written, Span.plain]
  rw [hcall]
  generalize Span.source (n.spans ++ .plain '(' :: a) = m
  have htext : x ++ ':' :: (m ++ [')']) ++ y = x ++ ':' :: (m ++ ')' :: y) := by simp
  have hstart : Text.trimStart x ++ ':' :: (m ++ ')' :: y) =
      (Text.trimStart x ++ ':' :: m) ++ ')' :: y := by simp
  rw [htext, Text.trim, Text.trimStart_append_cons (by decide), hstart,
    Text.trimEnd_append_cons (by decide)]
  simp

/-- Trimming the texts on both sides leaves the pseudo-class where it is. -/
theorem trim {call : List Span} (h : Stands x k front call y) :
    ∃ front', Stands (Text.trimStart x) k front' call (Text.trimEnd y) := by
  obtain ⟨b, hb, hx⟩ := Text.exists_trimStart x
  obtain ⟨back, -, hy⟩ := Text.exists_trimEnd y
  obtain ⟨b', hb', hlast⟩ :=
    @Pieces.exists_last_of_blanks isSeparator 0 b hb (Text.trimStart x)
  have hresolved := h.resolved
  -- The blanks in front of the piece are no backslashes, so that the piece is resolved without
  -- them.
  have hbackslash : '\\' ∉ b' := fun hm => (Text.ne_of_isBlank (hb' _ hm)).1 rfl
  rw [hx, hlast, Span.resolve?_append (Compound.resolve?_plain hbackslash), Option.map_eq_some_iff]
    at hresolved
  obtain ⟨front', hfront', rfl⟩ := hresolved
  refine ⟨front', openAfter_trimStart h.opened, hfront', h.sheltered, ?_, uncut_trimStart h.left,
    uncut_trimEnd h.right⟩
  apply h.uncrossed.mono
  · rw [List.append_assoc]
    exact List.suffix_append _ _
  · have hbegins := @Pieces.first_begins isSeparator k (Text.trimEnd y) back
    rwa [← hy] at hbegins

/-! ### Another argument -/

section

variable (ha : Balanced (fun _ => true) a) (hb : Balanced (fun _ => true) b)
  (selects : n.pseudo ≠ .contains) (hagrees : Agrees (Span.source a) (Span.source b))
  (haxes : n.pseudo = .has →
    (alternatives (Span.source a)).map Pseudo.axisOf =
      (alternatives (Span.source b)).map Pseudo.axisOf)

include ha hb selects hagrees haxes

/-- A chain with another argument in it is read as the chain, if the arguments agree. -/
theorem entails_chain (h : Stands x k front (Layout.call n a) y)
    (hs : Span.IsSheltered Layout.divides k (Layout.call n b)) :
    Entails (chain (x ++ Span.source (Layout.call n a) ++ y))
      (chain (x ++ Span.source (Layout.call n b) ++ y)) := by
  apply Selector.entails_chain
  · rw [isAllBlank_call, isAllBlank_call]
  · intro cs hcs
    rw [Compound.readChain, tokens_call h.opened ha h.sheltered] at hcs
    rw [Compound.readChain, tokens_call h.opened hb hs]
    apply Compound.exists_readAfter_replace (Layout.ofToken?_call ..) (Layout.ofToken?_call ..) _ hcs
    intro before c hread
    exact Layout.exists_read_call h.resolved ha hb h.uncrossed selects hagrees haxes hread

/-- A selector depends on an argument by what the alternatives in the argument come to. -/
theorem agrees (h : Stands x k front (Layout.call n a) y)
    (h' : Stands x k front (Layout.call n b) y) :
    Agrees (x ++ Span.source (Layout.call n a) ++ y)
      (x ++ Span.source (Layout.call n b) ++ y) where
  blank := by rw [isAllBlank_call, isAllBlank_call]
  parts := by
    obtain ⟨front', htrim⟩ := h.trim
    rw [alternatives_of_uncut (h.uncut ha), alternatives_of_uncut (h'.uncut hb), trim_call,
      trim_call]
    exact .cons (entails_chain ha hb selects hagrees haxes htrim h'.sheltered) .nil
  single := fun _ => entails_chain ha hb selects hagrees haxes h h'.sheltered

end

end Stands

end Selector

end TreeQuery
