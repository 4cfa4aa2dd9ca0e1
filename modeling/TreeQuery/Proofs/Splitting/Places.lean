import TreeQuery.Proofs.Compound.Splitting
import TreeQuery.Proofs.WhiteSpace.Runs

/-!
# The places of cuts

Where a selector is cut is told from the selector alone, place by place: the character there has to
separate, no backslash may take it, and the parentheses opened in front of it may not outnumber
those closed. Every such place is a cut, and no other is. The pieces of a piece are itself, since
its parentheses are counted from its own front, where none are open.

Main statement: `Selector.splits_exactly`.
-/

namespace TreeQuery

/-! ## Unescaped characters

Whether a place is escaped is told from the text in front, and the splitter goes through the text
from the left. The lemmas take an escape, or one other character, off the front; what stands behind
is then counted from its own beginning. -/

namespace Text

/-- Whether a text ends in a backslash that takes the next character. Read from the left, a
backslash takes the character behind it unless it has been taken itself. -/
def takesNext (s : Text) : Bool := s.foldl (fun taken c => !taken && c == '\\') false

/-- Whether a character stands at a place of a text, and is not escaped there. -/
def standsAt (s : Text) (i : Nat) (c : Char) : Bool := s[i]? == some c && !takesNext (s.take i)

def countBefore (s : Text) (i : Nat) (c : Char) : Nat :=
  (List.range i).countP fun j => standsAt s j c

/-- Texts with single characters between them. -/
def interleave : List Text → Text → Text
  | [], cs => cs
  | t :: ts, [] => t ++ ts.flatten
  | t :: ts, c :: cs => t ++ c :: interleave ts cs

variable {c d : Char} {r : Text} {i : Nat}

/-- An escape leaves nothing to be taken. -/
theorem takesNext_escape (c : Char) (r : Text) : takesNext ('\\' :: c :: r) = takesNext r := rfl

/-- Only a backslash takes anything. -/
theorem takesNext_cons (hc : c ≠ '\\') (r : Text) : takesNext (c :: r) = takesNext r := by
  have hbackslash : (c == '\\') = false := beq_eq_false_iff_ne.2 hc
  rw [takesNext, List.foldl_cons, hbackslash]
  rfl

/-! The place zero and the places behind it: with an escape in front, and with any other character.
-/

theorem standsAt_zero (c : Char) (r : Text) (d : Char) : standsAt (c :: r) 0 d = (c == d) := by
  simp [standsAt, takesNext]

theorem standsAt_taken (c : Char) (r : Text) (d : Char) :
    standsAt ('\\' :: c :: r) 1 d = false := by
  simp [standsAt, takesNext]

theorem standsAt_escape (c : Char) (r : Text) (i : Nat) (d : Char) :
    standsAt ('\\' :: c :: r) (i + 2) d = standsAt r i d := by
  simp [standsAt, takesNext_escape]

theorem standsAt_succ (hc : c ≠ '\\') (r : Text) (i : Nat) (d : Char) :
    standsAt (c :: r) (i + 1) d = standsAt r i d := by
  simp [standsAt, takesNext_cons hc]

theorem countBefore_zero (s : Text) (d : Char) : countBefore s 0 d = 0 := rfl

theorem countBefore_escape (hd : d ≠ '\\') (c : Char) (r : Text) (i : Nat) :
    countBefore ('\\' :: c :: r) (i + 2) d = countBefore r i d := by
  have hbackslash : ('\\' == d) = false := beq_eq_false_iff_ne.2 hd.symm
  rw [countBefore, List.range_succ_eq_map, List.range_succ_eq_map, List.map_cons, List.countP_cons,
    List.countP_cons, List.countP_map, List.countP_map, standsAt_zero, hbackslash, standsAt_taken]
  simp only [Bool.false_eq_true, if_false, Nat.add_zero]
  exact List.countP_congr fun j _ => by rw [Function.comp, Function.comp, standsAt_escape]

theorem countBefore_succ (hc : c ≠ '\\') (r : Text) (i : Nat) (d : Char) :
    countBefore (c :: r) (i + 1) d = countBefore r i d + if c = d then 1 else 0 := by
  rw [countBefore, List.range_succ_eq_map, List.countP_cons, List.countP_map, standsAt_zero]
  simp only [beq_iff_eq, Nat.add_right_cancel_iff]
  exact List.countP_congr fun j _ => by rw [Function.comp, standsAt_succ hc]

end Text

/-! ## Cuts

The places are those of the separators in the whole text, while a piece is known by its text and the
separator behind it. The first is the running sum of the lengths of the second. -/

/-- Only a parenthesis changes how many are open. -/
theorem Span.turn_plain {c : Char} (hopen : c ≠ '(') (hclose : c ≠ ')') : (plain c).turn = 0 := by
  simp [turn, plain, hopen, hclose]

/-- A place at which a text is cut: a separator stands there, not escaped, and no more parentheses
have been opened in front of it than closed. -/
def IsCutPoint (separates : Char → Bool) (s : Text) (i : Nat) : Prop :=
  ∃ c, Text.standsAt s i c = true ∧ separates c = true ∧
    Text.countBefore s i '(' ≤ Text.countBefore s i ')'

namespace Pieces

/-- The places of the separators behind pieces, the first of which begins at a place. -/
def placesFrom (i : Nat) : List (Text × Char) → List Nat
  | [] => []
  | (t, _) :: r => (i + t.length) :: placesFrom (i + t.length + 1) r

def places (p : Pieces) : List Nat := placesFrom 0 p.ended

section

variable {i k : Nat} {e : List (Text × Char)}

/-- The places move with the place at which the pieces begin. -/
theorem placesFrom_add (i k : Nat) (e : List (Text × Char)) :
    placesFrom (i + k) e = (placesFrom i e).map (· + k) := by
  induction e generalizing i with
  | nil => rfl
  | cons a r ih =>
    obtain ⟨t, c⟩ := a
    have hbehind : i + k + t.length + 1 = i + t.length + 1 + k := by omega
    have hfirst : i + k + t.length = i + t.length + k := by omega
    rw [placesFrom, placesFrom, List.map_cons, hbehind, ih, hfirst]

/-- A text in front moves the places. -/
theorem places_extend (front : Text) (p : Pieces) :
    (p.extend front).places = p.places.map (· + front.length) := by
  obtain ⟨ended, last⟩ := p
  cases ended with
  | nil => rfl
  | cons a r =>
    obtain ⟨t, c⟩ := a
    have hlength : 0 + (front ++ t).length = 0 + t.length + front.length := by
      rw [List.length_append]
      omega
    have hbehind : 0 + t.length + front.length + 1 = 0 + t.length + 1 + front.length := by omega
    show placesFrom 0 ((front ++ t, c) :: r) = (placesFrom 0 ((t, c) :: r)).map (· + front.length)
    rw [placesFrom, placesFrom, List.map_cons, hlength, hbehind, placesFrom_add]

/-- A separator in front is at place zero. -/
theorem places_separate (c : Char) (p : Pieces) :
    (p.separate c).places = 0 :: p.places.map (· + 1) := by
  show 0 :: placesFrom (0 + 1) p.ended = _
  rw [placesFrom_add]
  rfl

/-- No place is in front of the beginning. -/
theorem le_of_mem_placesFrom (h : k ∈ placesFrom i e) : i ≤ k := by
  induction e generalizing i with
  | nil => cases h
  | cons a r ih =>
    obtain ⟨t, c⟩ := a
    rcases List.mem_cons.1 h with rfl | h
    · omega
    · have := ih h
      omega

/-- The places come one behind the other. -/
theorem pairwise_placesFrom (i : Nat) (e : List (Text × Char)) :
    (placesFrom i e).Pairwise (· < ·) := by
  induction e generalizing i with
  | nil => exact .nil
  | cons a r ih =>
    obtain ⟨t, c⟩ := a
    refine List.pairwise_cons.2 ⟨fun k hk => ?_, ih _⟩
    exact le_of_mem_placesFrom hk

/-- At the places stand the separators. -/
theorem filterMap_placesFrom (front : Text) (e : List (Text × Char)) (last : Text) :
    (placesFrom front.length e).filterMap ((front ++ join ⟨e, last⟩)[·]?) = e.map (·.2) := by
  induction e generalizing front with
  | nil => rfl
  | cons a r ih =>
    obtain ⟨t, c⟩ := a
    have hjoin : front ++ join ⟨(t, c) :: r, last⟩ = (front ++ t ++ [c]) ++ join ⟨r, last⟩ := by
      simp [join]
    have hlength : (front ++ t ++ [c]).length = front.length + t.length + 1 := by
      rw [List.length_append, List.length_append, List.length_singleton]
    have hplace : (front ++ t ++ [c] ++ join ⟨r, last⟩)[front.length + t.length]? = some c := by
      rw [List.getElem?_append_left (by omega), ← List.length_append, List.getElem?_concat_length]
    rw [placesFrom, hjoin, List.filterMap_cons_some hplace, ← hlength, ih, List.map_cons]

/-- Pieces with their separators between them are the text that they come from. -/
theorem interleave_toList (p : Pieces) :
    Text.interleave p.toList (p.ended.map (·.2)) = p.join := by
  obtain ⟨ended, last⟩ := p
  induction ended with
  | nil => exact List.append_nil last
  | cons a r ih =>
    have hrest : Text.interleave (r.map (·.1) ++ [last]) (r.map (·.2)) = join ⟨r, last⟩ := ih
    show a.1 ++ a.2 :: Text.interleave (r.map (·.1) ++ [last]) (r.map (·.2)) = _
    rw [hrest]
    simp [join]

end

/-! ## Where a text is cut

Both sides of the equivalence are taken apart from the front, in the cases of the splitter. The
depth is part of the statement, since behind the first character another number of parentheses is
open. -/

/-- A place at which a text is cut where some parentheses are open in front of it. -/
def IsCutPointAt (separates : Char → Bool) (depth : Int) (s : Text) (i : Nat) : Prop :=
  ∃ c, Text.standsAt s i c = true ∧ separates c = true ∧
    depth + Text.countBefore s i '(' ≤ Text.countBefore s i ')'

section

variable {separates : Char → Bool} {depth : Int} {i : Nat}

/-- An escape is passed over. -/
theorem isCutPointAt_escape (hbackslash : separates '\\' = false) (c : Char) (r : Text) :
    IsCutPointAt separates depth ('\\' :: c :: r) i ↔
      ∃ j, j + 2 = i ∧ IsCutPointAt separates depth r j := by
  constructor
  · rintro ⟨d, hd, hsep, hcount⟩
    match i with
    | 0 =>
      rw [Text.standsAt_zero, beq_iff_eq] at hd
      rw [← hd, hbackslash] at hsep
      cases hsep
    | 1 =>
      rw [Text.standsAt_taken] at hd
      cases hd
    | j + 2 =>
      rw [Text.standsAt_escape] at hd
      rw [Text.countBefore_escape (by decide), Text.countBefore_escape (by decide)] at hcount
      exact ⟨j, rfl, d, hd, hsep, hcount⟩
  · rintro ⟨j, rfl, d, hd, hsep, hcount⟩
    refine ⟨d, ?_, hsep, ?_⟩
    · rwa [Text.standsAt_escape]
    · rwa [Text.countBefore_escape (by decide), Text.countBefore_escape (by decide)]

/-- Behind a character that is no backslash the depth has changed if it is a parenthesis. -/
theorem isCutPointAt_cons {c : Char} (hc : c ≠ '\\') (r : Text) :
    IsCutPointAt separates depth (c :: r) i ↔ (i = 0 ∧ separates c = true ∧ depth ≤ 0) ∨
      ∃ j, j + 1 = i ∧ IsCutPointAt separates (depth + (Span.plain c).turn) r j := by
  -- The count of the splitter and the difference of the two counts change together.
  have hturn (a b : Nat) : depth + (Span.plain c).turn + a ≤ b ↔
      depth + (a + if c = '(' then 1 else 0 : Nat) ≤ (b + if c = ')' then 1 else 0 : Nat) := by
    by_cases hopen : c = '('
    · subst hopen
      have : (Span.plain '(').turn = 1 := rfl
      simp [this]
      omega
    · by_cases hclose : c = ')'
      · subst hclose
        have : (Span.plain ')').turn = -1 := rfl
        simp [this]
        omega
      · simp [Span.turn_plain hopen hclose, hopen, hclose]
  constructor
  · rintro ⟨d, hd, hsep, hcount⟩
    cases i with
    | zero =>
      rw [Text.standsAt_zero, beq_iff_eq] at hd
      subst hd
      exact .inl ⟨rfl, hsep, by simpa [Text.countBefore_zero] using hcount⟩
    | succ j =>
      rw [Text.standsAt_succ hc] at hd
      rw [Text.countBefore_succ hc, Text.countBefore_succ hc, ← hturn] at hcount
      exact .inr ⟨j, rfl, d, hd, hsep, hcount⟩
  · rintro (⟨rfl, hsep, hdepth⟩ | ⟨j, rfl, d, hd, hsep, hcount⟩)
    · exact ⟨c, by simp [Text.standsAt_zero], hsep, by simpa [Text.countBefore_zero] using hdepth⟩
    · refine ⟨d, ?_, hsep, ?_⟩
      · rwa [Text.standsAt_succ hc]
      · rwa [Text.countBefore_succ hc, Text.countBefore_succ hc, ← hturn]

/-- No text is cut at a backslash that has nothing to take. -/
theorem not_isCutPointAt_backslash (hbackslash : separates '\\' = false) :
    ¬ IsCutPointAt separates depth ['\\'] i := by
  rintro ⟨d, hd, hsep, -⟩
  cases i with
  | zero =>
    rw [Text.standsAt_zero, beq_iff_eq] at hd
    rw [← hd, hbackslash] at hsep
    cases hsep
  | succ j => simp [Text.standsAt] at hd

/-- A text is cut at its cut points and nowhere else. The induction is along the text, with the
number of parentheses that are open in front. -/
theorem mem_places_cut_iff (hbackslash : separates '\\' = false) (hopen : separates '(' = false)
    (hclose : separates ')' = false) {s : Text} :
    i ∈ (cut separates depth s).places ↔ IsCutPointAt separates depth s i := by
  have hextend (p : Pieces) (front : Text) (i : Nat) : i ∈ (p.extend front).places ↔
      ∃ j, j + front.length = i ∧ j ∈ p.places := by
    simp only [places_extend, List.mem_map]
    exact exists_congr fun j => and_comm
  fun_induction cut separates depth s generalizing i with
  | case1 depth => simp [places, placesFrom, IsCutPointAt, Text.standsAt]
  | case2 depth =>
    simp [places, placesFrom, not_isCutPointAt_backslash hbackslash]
  | case3 depth c r ih =>
    rw [hextend, isCutPointAt_escape hbackslash]
    exact exists_congr fun j => and_congr_right fun _ => ih
  | case4 depth r ih =>
    rw [hextend, isCutPointAt_cons (by decide)]
    simp only [hopen, Bool.false_eq_true, false_and, and_false, false_or]
    exact exists_congr fun j => and_congr_right fun _ => ih
  | case5 depth r ih =>
    rw [hextend, isCutPointAt_cons (by decide)]
    simp only [hclose, Bool.false_eq_true, false_and, and_false, false_or]
    exact exists_congr fun j => and_congr_right fun _ => ih
  | case6 depth c r h1 h2 h3 h4 hs ih =>
    have hturn : (Span.plain c).turn = 0 := Span.turn_plain h3 h4
    rw [Bool.and_eq_true, decide_eq_true_eq] at hs
    rw [places_separate, List.mem_cons, List.mem_map,
      isCutPointAt_cons (ne_backslash_of_rest h1 h2), hturn, Int.add_zero]
    refine or_congr ⟨fun hi => ⟨hi, hs.2, hs.1⟩, And.left⟩ ?_
    exact exists_congr fun j => and_comm.trans (and_congr_right fun _ => ih)
  | case7 depth c r h1 h2 h3 h4 hs ih =>
    have hturn : (Span.plain c).turn = 0 := Span.turn_plain h3 h4
    -- A separator that is kept stands in parentheses.
    have hkeep : ¬ (i = 0 ∧ separates c = true ∧ depth ≤ 0) := by
      rintro ⟨-, hsep, hdepth⟩
      exact hs (by simp [hsep, hdepth])
    rw [hextend, isCutPointAt_cons (ne_backslash_of_rest h1 h2), hturn, Int.add_zero,
      or_iff_right hkeep]
    exact exists_congr fun j => and_congr_right fun _ => ih

/-- Behind a text that does not end in the middle of an escape there are as many parentheses open as
it opens more than it closes. -/
theorem openAfter_eq {s : Text} (h : Text.takesNext s = false) : openAfter depth s =
    some (depth + Text.countBefore s s.length '(' - Text.countBefore s s.length ')') := by
  fun_induction openAfter depth s with
  | case1 depth => simp [Text.countBefore]
  | case2 depth => cases h
  | case3 depth c r ih =>
    rw [Text.takesNext_escape] at h
    rw [ih h, List.length_cons, List.length_cons, Text.countBefore_escape (by decide),
      Text.countBefore_escape (by decide)]
  | case4 depth r ih =>
    rw [Text.takesNext_cons (by decide)] at h
    rw [ih h, List.length_cons, Text.countBefore_succ (by decide), Text.countBefore_succ (by decide)]
    simp
    omega
  | case5 depth r ih =>
    rw [Text.takesNext_cons (by decide)] at h
    rw [ih h, List.length_cons, Text.countBefore_succ (by decide), Text.countBefore_succ (by decide)]
    simp
    omega
  | case6 depth c r h1 h2 h3 h4 ih =>
    have hc : c ≠ '\\' := ne_backslash_of_rest h1 h2
    rw [Text.takesNext_cons hc] at h
    rw [ih h, List.length_cons, Text.countBefore_succ hc, Text.countBefore_succ hc, if_neg h3,
      if_neg h4]
    rfl

end

end Pieces

/-! ## Selectors

Commas and white space are treated alike; of the separators it matters only that they are neither
backslashes nor parentheses. -/

/-- Text that is cut at its cut points, each once and from left to right, into pieces that make up
the text again with the characters at these places between them. -/
structure SplitsExactly (separates : Char → Bool) (s : Text) : Prop where
  mem_places_iff : ∀ i, i ∈ (Pieces.cut separates 0 s).places ↔ IsCutPoint separates s i
  ascending : (Pieces.cut separates 0 s).places.Pairwise (· < ·)
  lossless : Text.interleave (Pieces.cut separates 0 s).toList
    ((Pieces.cut separates 0 s).places.filterMap (s[·]?)) = s

/-- What separates may be anything but a backslash or a parenthesis. -/
theorem splitsExactly_of_unmarked {separates : Char → Bool} (hbackslash : separates '\\' = false)
    (hopen : separates '(' = false) (hclose : separates ')' = false) (s : Text) :
    SplitsExactly separates s where
  mem_places_iff i := by
    rw [Pieces.mem_places_cut_iff hbackslash hopen hclose]
    refine exists_congr fun c => and_congr_right fun _ => and_congr_right fun _ => ?_
    rw [Int.zero_add, Int.ofNat_le]
  ascending := Pieces.pairwise_placesFrom 0 _
  lossless := by
    have hplaces := Pieces.filterMap_placesFrom [] (Pieces.cut separates 0 s).ended
      (Pieces.cut separates 0 s).last
    rw [List.nil_append, Pieces.join_cut] at hplaces
    show Text.interleave _ ((Pieces.placesFrom 0 (Pieces.cut separates 0 s).ended).filterMap _) = s
    rw [← List.length_nil, hplaces, Pieces.interleave_toList, Pieces.join_cut]

namespace Selector

/-- A selector is cut at commas and at white space exactly where they stand unescaped with no more
parentheses opened than closed in front of them, and nothing is lost. Its tokens are not empty, and
they and its alternatives are not split again. White space behind a text that closes as many
parentheses as it opens, and that does not end in the middle of an escape, separates the tokens of
the text from those behind. -/
theorem splits_exactly (s : Text) : SplitsExactly (· == ',') s ∧ SplitsExactly isSeparator s ∧
    (∀ t ∈ tokens s, t ≠ [] ∧ tokens t = [t]) ∧
    (∀ g ∈ alternatives s, alternatives g = [g]) ∧
    ∀ (a b : Text) (w : Char), isSeparator w = true → Text.takesNext a = false →
      Text.countBefore a a.length '(' = Text.countBefore a a.length ')' →
        tokens (a ++ w :: b) = tokens a ++ tokens b := by
  refine ⟨splitsExactly_of_unmarked rfl rfl rfl s, splitsExactly_of_unmarked rfl rfl rfl s, ?_,
    fun g hg => alternatives_of_mem hg, ?_⟩
  · intro t ht
    obtain ⟨hmem, hne⟩ := List.mem_filter.1 ht
    have huncut := Pieces.toList_of_uncut (Pieces.uncut_of_mem hmem)
    refine ⟨by simpa using hne, ?_⟩
    rw [tokens, huncut]
    exact List.filter_eq_self.2 (List.forall_mem_singleton.2 hne)
  · intro a b w hw hescape hcount
    have hopen : Pieces.openAfter 0 a = some 0 := by
      rw [Pieces.openAfter_eq hescape, hcount]
      simp
    have hrun : IsRun [w] := ⟨List.cons_ne_nil w [], List.forall_mem_singleton.2 hw⟩
    rw [List.append_cons, tokens_run hopen (Int.le_refl 0) hrun]
    rfl

/-- White space in the argument separates nothing, and behind it the count starts anew. -/
theorem splits_exactly_argumentThenChild :
    Text.takesNext "a:not(b c)".toList = false ∧
      Text.countBefore "a:not(b c)".toList "a:not(b c)".toList.length '(' =
        Text.countBefore "a:not(b c)".toList "a:not(b c)".toList.length ')' ∧
      tokens ("a:not(b c)".toList ++ '\t' :: "> d\\ e".toList) =
        ["a:not(b c)".toList, ">".toList, "d\\ e".toList] := by
  have hescape : Text.takesNext "a:not(b c)".toList = false := by decide
  have hcount : Text.countBefore "a:not(b c)".toList "a:not(b c)".toList.length '(' =
      Text.countBefore "a:not(b c)".toList "a:not(b c)".toList.length ')' := by decide
  obtain ⟨-, -, -, -, happend⟩ := splits_exactly []
  refine ⟨hescape, hcount, ?_⟩
  rw [happend _ _ _ rfl hescape hcount]
  decide

end Selector

end TreeQuery
