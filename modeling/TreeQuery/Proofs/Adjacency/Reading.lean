import TreeQuery.Proofs.Written.Reading

/-!
# A selector with a next sibling behind it

A selector that leaves no parenthesis open can be followed by a plus sign and a compound; what is
read is the chain of the selector with the element of the compound behind it.

Main statement: `Selector.pattern_plus`.
-/

namespace TreeQuery

/-! ## Cutting a text in two parts

Two texts are cut apart from each other only if the first one leaves no parenthesis open and does
not end in a backslash. The depth that the first one leaves is therefore computed from its front, as
cutting does, and the function fails where the next character would be escaped. The number may be
negative: a parenthesis that is closed too much is counted too. -/

namespace Pieces

/-- The number of parentheses that are open behind a text, less those closed too many; nothing if
the text ends in the middle of an escape. -/
def openAfter (depth : Int) : Text → Option Int
  | [] => some depth
  | ['\\'] => none
  | '\\' :: _ :: r => openAfter depth r
  | '(' :: r => openAfter (depth + 1) r
  | ')' :: r => openAfter (depth - 1) r
  | _ :: r => openAfter depth r

theorem openAfter_cons {c : Char} (h1 : c ≠ '\\') (h2 : c ≠ '(') (h3 : c ≠ ')') (depth : Int)
    (s : Text) : openAfter depth (c :: s) = openAfter depth s :=
  openAfter.eq_6 _ _ _ (fun e => absurd e h1) (fun _ _ e => absurd e h1) h2 h3

/-- The pieces of two texts, one behind the other: the last of the first and the first of the second
are one. -/
def append (p q : Pieces) : Pieces :=
  ⟨p.ended ++ (q.extend p.last).ended, (q.extend p.last).last⟩

/-- Characters in front of two texts stand in front of the first. -/
theorem extend_append (front : Text) (p q : Pieces) :
    (p.append q).extend front = (p.extend front).append q := by
  obtain ⟨ended, last⟩ := p
  cases ended with
  | nil => exact Pieces.extend_extend front last q
  | cons => rfl

/-- A text is cut as its parts are, the second part at the depth that the first one leaves. -/
theorem cut_append {separates : Char → Bool} {depth k : Int} {s : Text}
    (h : openAfter depth s = some k) (r : Text) :
    cut separates depth (s ++ r) = (cut separates depth s).append (cut separates k r) := by
  -- The induction is that of the depth, which goes the same way through the text as cutting.
  fun_induction openAfter depth s with
  | case1 depth =>
    cases h
    exact (extend_nil _).symm
  | case2 depth => cases h
  | case3 depth c s ih =>
    show cut separates depth ('\\' :: c :: (s ++ r)) = _
    rw [cut, cut, ih h, extend_append]
  | case4 depth s ih =>
    show cut separates depth ('(' :: (s ++ r)) = _
    rw [cut, cut, ih h, extend_append]
  | case5 depth s ih =>
    show cut separates depth (')' :: (s ++ r)) = _
    rw [cut, cut, ih h, extend_append]
  | case6 depth c s h1 h2 h3 h4 ih =>
    have hbackslash : c ≠ '\\' := ne_backslash_of_rest h1 h2
    show cut separates depth (c :: (s ++ r)) = _
    rw [cut_cons hbackslash h3 h4, cut_cons hbackslash h3 h4, ih h]
    split
    · rfl
    · exact extend_append ..

/-- The pieces in the middle are joined to one. -/
theorem toList_append (p q : Pieces) :
    (p.append q).toList = p.ended.map (·.1) ++ (q.extend p.last).toList := by
  simp [append, toList]

end Pieces

namespace Selector

variable {s t : Text}

/-- The tokens of a selector with a plus sign and another selector behind it. -/
theorem tokens_plus (h : Pieces.openAfter 0 s = some 0) (t : Text) :
    tokens (s ++ " + ".toList ++ t) = tokens s ++ ['+'] :: tokens t := by
  have hcut : Pieces.cut isSeparator 0 (" + ".toList ++ t) =
      (((Pieces.cut isSeparator 0 t).separate ' ').extend ['+']).separate ' ' := rfl
  have hplus : (((Pieces.cut isSeparator 0 t).separate ' ').extend ['+']).toList =
      ['+'] :: (Pieces.cut isSeparator 0 t).toList := Pieces.toList_separate_extend ..
  rw [tokens, List.append_assoc, Pieces.cut_append h, hcut, Pieces.toList_append,
    Pieces.toList_separate_extend, hplus, List.append_cons, List.filter_append]
  rfl

/-! ## A plus sign between two selectors

Tokens and alternatives of the whole are known from those of the parts. The compounds are read token
by token, and what stands in front of a token is only kept as its relation; so the compound behind
the plus sign is the one that is read from it alone, with another relation. The induction over the
tokens of the first selector is the one by which chains are read in general. -/

/-- No comma comes from the plus sign or from the spaces around it. -/
theorem alternatives_plus (h : Pieces.openAfter 0 s = some 0) (hs : (alternatives s).length = 1)
    (ht : (alternatives t).length = 1) : (alternatives (s ++ " + ".toList ++ t)).length = 1 := by
  have hcut : Pieces.cut (· == ',') 0 (" + ".toList ++ t) =
      (((Pieces.cut (· == ',') 0 t).extend [' ']).extend ['+']).extend [' '] := rfl
  rw [alternatives, List.length_map] at hs ht ⊢
  rw [List.append_assoc, Pieces.cut_append h, hcut]
  generalize Pieces.cut (· == ',') 0 s = p at hs
  generalize Pieces.cut (· == ',') 0 t = q at ht
  -- A selector of one alternative is one last piece, and joining two of them gives one.
  obtain ⟨ended, last⟩ := p
  obtain ⟨ended', last'⟩ := q
  obtain rfl : ended = [] := by simpa [Pieces.toList] using hs
  obtain rfl : ended' = [] := by simpa [Pieces.toList] using ht
  rfl

/-- What stands in front of a compound has a part in its relation only. -/
theorem read_eq_map (before before' : Option Text) (token : Text) :
    Compound.read before' token = (Compound.read before token).map
      (Option.map fun c => { c with relation := Compound.relationAfter before' }) := by
  rw [Compound.read_eq, Compound.read_eq, Compound.scan, Compound.scan]
  split
  · rfl
  · cases Span.resolve? token with
    | none => rfl
    | some spans =>
      simp only [bind, Except.bind]
      cases Compound.readItems token spans.reverse [] with
      | error e => rfl
      | ok v =>
        obtain ⟨tag, items⟩ := v
        simp only
        cases Compound.tagOf token tag.reverse <;> rfl

/-- A compound that is read alone is read behind a plus sign, which becomes its relation. -/
theorem readAfter_plus {token : Text} {c : Compound}
    (h : Compound.readAfter none [token] = .ok [c]) (before : Option Text) :
    Compound.readAfter before [['+'], token] = .ok [{ c with relation := .stated .adjacent }] := by
  obtain ⟨o, hread, h⟩ := Except.bind_eq_ok h
  obtain ⟨others, hothers, h⟩ := Except.bind_eq_ok h
  cases hothers
  have ho : o = some c := by
    cases o with
    | none => cases h
    | some c' =>
      cases h
      rfl
  subst ho
  have hplus : Compound.read before ['+'] = .ok none := rfl
  rw [Compound.readAfter, hplus, Compound.readAfter, read_eq_map none, hread]
  rfl

/-- What a selector of one alternative is read as. -/
theorem chain_of_pattern {c : Pattern.Chain} (h : pattern s = .ok [c]) :
    (alternatives s).length = 1 ∧ chain s = .ok c := by
  have hpos : 0 < (alternatives s).length := by
    rw [alternatives, List.length_map, Pieces.toList]
    simp
  rw [pattern] at h
  split at h
  · cases h
  split at h
  · -- Several alternatives would make several chains.
    next hlt =>
    have := Except.length_of_mapM_eq_ok h
    rw [List.length_singleton] at this
    omega
  · refine ⟨by omega, ?_⟩
    cases hc : chain s with
    | error e =>
      rw [hc] at h
      cases h
    | ok c' =>
      rw [hc] at h
      cases h
      rfl

/-- The compounds that a chain is read from. -/
theorem exists_compounds {c : Pattern.Chain} (h : chain s = .ok c) :
    Text.isAllBlank s = false ∧ ∃ cs, Compound.readChain (tokens s) = .ok cs ∧
      Pattern.Chain.read chain cs = .ok (some c) := by
  rw [chain_eq, Pattern.Chain.ofText] at h
  split at h
  · cases h
  · next hblank =>
    obtain ⟨cs, hcs, h⟩ := Except.bind_eq_ok h
    obtain ⟨o, ho, h⟩ := Except.bind_eq_ok h
    cases o with
    | none => cases h
    | some c' =>
      cases h
      exact ⟨by simpa using hblank, cs, hcs, ho⟩

/-- A selector of one token that is read as an element is read from one compound. -/
theorem exists_compound {e : Pattern.Element} (h : chain t = .ok (.start none e))
    (hone : (tokens t).length = 1) : ∃ token c, tokens t = [token] ∧
      Compound.readAfter none [token] = .ok [c] ∧ Pattern.Element.read chain c = .ok e := by
  obtain ⟨token, htoken⟩ := List.length_eq_one_iff.1 hone
  obtain ⟨-, cs, hcs, hread⟩ := exists_compounds h
  rw [htoken, Compound.readChain] at hcs
  refine ⟨token, ?_⟩
  obtain ⟨o, ho, h⟩ := Except.bind_eq_ok hcs
  obtain ⟨others, hothers, h⟩ := Except.bind_eq_ok h
  cases hothers
  cases h
  cases o with
  | none => cases hread
  | some c =>
    obtain ⟨e', he', hread⟩ := Except.bind_eq_ok hread
    obtain ⟨c', hc', hread⟩ := Except.bind_eq_ok hread
    cases hc'
    have hstart := Option.some.inj (Except.ok.inj hread)
    obtain rfl : e' = e := (Pattern.Chain.start.inj hstart).2
    exact ⟨c, htoken, hcs, he'⟩

/-- A selector that leaves no parenthesis open, and behind it the plus sign and a compound. -/
theorem pattern_plus {c : Pattern.Chain} {e : Pattern.Element} (hs : pattern s = .ok [c])
    (hopen : Pieces.openAfter 0 s = some 0) (ht : pattern t = .ok [.start none e])
    (hone : (tokens t).length = 1) :
    pattern (s ++ " + ".toList ++ t) = .ok [.link c (some .adjacent) e] := by
  obtain ⟨hslength, hschain⟩ := chain_of_pattern hs
  obtain ⟨htlength, htchain⟩ := chain_of_pattern ht
  obtain ⟨-, cs, hcs, hread⟩ := exists_compounds hschain
  obtain ⟨token, d, htoken, hd, he⟩ := exists_compound htchain hone
  have hlength := alternatives_plus hopen hslength htlength
  have hblank : Text.isAllBlank (s ++ " + ".toList ++ t) = false := by
    have : Text.isBlank '+' = false := by decide
    simp [Text.isAllBlank, this]
  have hcompounds : Compound.readChain (tokens (s ++ " + ".toList ++ t)) =
      .ok (cs ++ [{ d with relation := .stated .adjacent }]) := by
    rw [tokens_plus hopen, htoken]
    exact Written.readAfter_append hcs (readAfter_plus hd _)
  have hchain : chain (s ++ " + ".toList ++ t) = .ok (.link c (some .adjacent) e) := by
    rw [chain_eq, Pattern.Chain.ofText, hblank, if_neg Bool.false_ne_true, hcompounds]
    have hnew := Written.read_append hread
      (show Pattern.Element.read chain { d with relation := .stated .adjacent } = .ok e from he)
    simp only [bind, Except.bind, hnew]
    rfl
  rw [pattern, hblank, if_neg Bool.false_ne_true, hlength, if_neg (Nat.lt_irrefl 1), hchain]
  rfl

end Selector

end TreeQuery
