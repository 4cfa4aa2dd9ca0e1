import TreeQuery.Proofs.Condition.Applied
import TreeQuery.Proofs.Groups.Comma
import TreeQuery.Proofs.NodeSet.Below

/-!
# A selector as an argument

A selector can stand in the parentheses of `:not` or `:has`, behind a star. If its own parentheses
are balanced, the whole is one compound, and what is read in the parentheses are the alternatives of
the selector, each of them trimmed. They are read as the selector itself is read if trimming takes
nothing from them that belongs to a token. In a selector with several alternatives it makes no
difference, as these are trimmed there too.

Main statements: `Selector.pattern_not` and `Selector.exists_pattern_has`.
-/

namespace TreeQuery

open Pattern

/-- What is done to all members of a list with success, another function does with success too if it
follows the first on each of them. -/
theorem Except.exists_mapM_of_forall {ε α β γ : Type} {l : List α} {f : α → Except ε β}
    {g : α → Except ε γ} {R : β → γ → Prop}
    (h : ∀ a ∈ l, ∀ b, f a = .ok b → ∃ c, g a = .ok c ∧ R b c) {bs : List β}
    (hbs : l.mapM f = .ok bs) : ∃ cs, l.mapM g = .ok cs ∧ List.Forall₂ R bs cs := by
  induction l generalizing bs with
  | nil =>
    cases hbs
    exact ⟨[], rfl, .nil⟩
  | cons a r ih =>
    rw [List.forall_mem_cons] at h
    rw [List.mapM_cons] at hbs
    obtain ⟨b, hb, hbs⟩ := bind_eq_ok hbs
    obtain ⟨br, hbr, hbs⟩ := bind_eq_ok hbs
    cases hbs
    obtain ⟨c, hc, hR⟩ := h.1 b hb
    obtain ⟨cr, hcr, hRs⟩ := ih h.2 hbr
    refine ⟨c :: cr, ?_, .cons hR hRs⟩
    rw [List.mapM_cons, hc, hcr]
    rfl

/-! ## One compound

The star with an argument is a layout of one item. It is enough that the parentheses of the argument
are balanced; commas and spaces in it are in parentheses then, and neither splits the selector. -/

namespace Selector

def starred (f : FunctionalPseudo) (s : Text) : Text :=
  '*' :: ':' :: f.name ++ '(' :: s ++ [')']

/-- A text in which each unescaped parenthesis has its counterpart. -/
def IsBalanced (s : Text) : Prop :=
  ∃ spans, Balanced (fun _ => true) spans ∧ Span.source spans = s

theorem isBalanced_of_all {s : Text} (h : s.all (Written.isSign fun _ => true) = true) :
    IsBalanced s := ⟨_, Written.balanced_signs h, Written.source_signs s⟩

/-- An escaped parenthesis is not counted. -/
theorem isBalanced_escape (s : Text) : IsBalanced (Span.escape s) :=
  ⟨_, Span.balanced_shielded _ s, Span.source_shielded s⟩

/-- A balanced argument in parentheses is balanced. -/
theorem IsBalanced.argument {s t : Text} (hs : s.all (Written.isSign fun _ => true) = true)
    (ht : IsBalanced t) : IsBalanced (s ++ ['('] ++ t ++ [')']) := by
  obtain ⟨spans, hspans, rfl⟩ := ht
  refine ⟨_, Written.balanced_argument hs hspans, ?_⟩
  rw [Span.source_append, Span.source_append, Written.source_signs, Written.source_signs]

variable {s : Text} {spans : List Span} {p : Pattern}

/-- The star with an argument is read as one element with one condition. -/
theorem pattern_starred (f : FunctionalPseudo) (hs : Balanced (fun _ => true) spans)
    (hblank : Text.isAllBlank (Span.source spans) = false) :
    pattern (starred f (Span.source spans)) =
      (Condition.read chain (f.name ++ '(' :: Span.source spans ++ [')'])).map
        fun c => [.start none (.mk ['*'] [] [c])] :=
  pattern_applied ⟨[.plain '*'], .inl rfl⟩ f (Written.balanced_signs (t := ['*']) (by decide)) hs
    hblank

/-! ## Alternatives

The argument is split into alternatives even if there is only one, and these are trimmed. A selector
of one alternative is not trimmed when it is compiled by itself: white space at its ends separates
empty tokens then, which are left out. That this comes to the same is the question of
`TrimsSeparators`; it fails for white space that is no separator. -/

theorem isAllBlank_of_pattern (hp : pattern s = .ok p) : Text.isAllBlank s = false := by
  rw [pattern] at hp
  split at hp
  · cases hp
  · next h => simpa using h

/-- The alternatives of a selector are read as its pattern, if there are several or trimming takes
nothing from it but separators. -/
theorem mapM_chain_alternatives (hp : pattern s = .ok p)
    (htrim : 1 < (alternatives s).length ∨ TrimsSeparators s) :
    (alternatives s).mapM chain = .ok p := by
  -- Several alternatives are the same list in both cases.
  by_cases several : 1 < (alternatives s).length
  · exact mapM_chain_of_pattern hp several
  · obtain ⟨c, hc, rfl⟩ := exists_chain_of_pattern hp several
    have hsingle : (Pieces.cut (· == ',') 0 s).toList.length = 1 := by
      have hlength : (alternatives s).length = (Pieces.cut (· == ',') 0 s).toList.length :=
        List.length_map _
      have hpos : 0 < (Pieces.cut (· == ',') 0 s).toList.length := by simp [Pieces.toList]
      omega
    have halternatives : alternatives s = [Text.trim s] := by
      rw [alternatives, Pieces.toList_of_uncut (Pieces.uncut_of_toList hsingle)]
      rfl
    rw [halternatives, List.mapM_cons, List.mapM_nil,
      chain_trim (htrim.resolve_left several) hc]
    rfl

section

variable (hs : Balanced (fun _ => true) spans) (hp : pattern (Span.source spans) = .ok p)
  (htrim : 1 < (alternatives (Span.source spans)).length ∨ TrimsSeparators (Span.source spans))

include hp in
/-- A selector with a pattern is not empty. -/
theorem source_ne_nil_of_pattern : Span.source spans ≠ [] := by
  intro h
  have := isAllBlank_of_pattern hp
  rw [h] at this
  cases this

include hs hp htrim

/-- A selector in the parentheses of `:not` is read as its own pattern. -/
theorem pattern_not : pattern (starred .not (Span.source spans)) =
    .ok [.start none (.mk ['*'] [] [.not p])] := by
  rw [pattern_starred .not hs (isAllBlank_of_pattern hp), Condition.read,
    FunctionalPseudo.ofFragment?_fragment _ (source_ne_nil_of_pattern hp)]
  simp only [mapM_chain_alternatives hp htrim]
  rfl

/-- A selector in the parentheses of `:has` is read as its own pattern, too. Each chain begins among
the children if the text of the alternative begins with a child sign and a space. -/
theorem exists_pattern_has : ∃ rs, pattern (starred .has (Span.source spans)) =
    .ok [.start none (.mk ['*'] [] [.has rs])] ∧
      List.Forall₂ (fun c r => ∃ g ∈ alternatives (Span.source spans), chain g = .ok c ∧
        r = .mk (Text.after? ['>', ' '] g).isSome c) p rs := by
  obtain ⟨rs, hrs, hall⟩ := Except.exists_mapM_of_forall (g := Relative.read chain)
    (R := fun c r => ∃ g ∈ alternatives (Span.source spans), chain g = .ok c ∧
      r = .mk (Text.after? ['>', ' '] g).isSome c)
    (fun g hg c hc => ⟨_, by rw [Relative.read, hc]; rfl, g, hg, hc, rfl⟩)
    (mapM_chain_alternatives hp htrim)
  refine ⟨rs, ?_, hall⟩
  rw [pattern_starred .has hs (isAllBlank_of_pattern hp), Condition.read,
    FunctionalPseudo.ofFragment?_fragment _ (source_ne_nil_of_pattern hp)]
  simp only [hrs]
  rfl

end

/-! ## A combinator in front

Whether a condition looks among the children is decided by the characters of the text, before it is
read. If they are a child sign and a space, the first token is the sign, and the chain is opened by
a combinator. -/

/-- What is read behind a combinator begins with a combinator, be it this one or another. -/
theorem opening_of_readAfter {nested : Text → Except SelectorError Chain} {before : Option Text}
    {ts : List Text} {cs : List TreeQuery.Compound} (h : Compound.readAfter before ts = .ok cs)
    {k : Combinator} (hk : Compound.relationAfter before = .stated k) {c : Chain}
    (hread : Chain.read nested cs = .ok (some c)) : c.opening ≠ none := by
  induction ts generalizing before k cs with
  | nil =>
    cases h
    cases hread
  | cons t r ih =>
    obtain ⟨o, ho, h⟩ := Except.bind_eq_ok h
    obtain ⟨others, hothers, h⟩ := Except.bind_eq_ok h
    cases h
    cases o with
    | none =>
      -- The token is another combinator, which the next one is read behind.
      obtain ⟨k', hk'⟩ : ∃ k', Combinator.ofToken? t = some k' := by
        rw [Compound.read_eq] at ho
        split at ho
        · next hcombinator => exact Option.isSome_iff_exists.1 hcombinator
        · obtain ⟨d, -, hd⟩ := Except.map_eq_ok ho
          cases hd
      have hrelation : Compound.relationAfter (some t) = .stated k' := by
        rw [Compound.relationAfter, Option.bind_some, hk']
      exact ih hothers hrelation hread
    | some d =>
      obtain ⟨l, -, rfl⟩ := Compound.exists_layout_of_read ho
      obtain ⟨e, -, hread⟩ := Except.bind_eq_ok hread
      obtain ⟨c', hextend, hread⟩ := Except.bind_eq_ok hread
      cases hread
      rw [Chain.opening_of_extend hextend]
      show Pattern.combinator? (Compound.relationAfter before) ≠ none
      rw [hk]
      exact Option.some_ne_none k

/-- A chain that is read from a text with a child sign and a space in front is opened by a
combinator. -/
theorem opening_of_child {c : Chain} (h : chain s = .ok c)
    (hs : (Text.after? ['>', ' '] s).isSome = true) : c.opening ≠ none := by
  obtain ⟨r, hr⟩ := Option.isSome_iff_exists.1 hs
  obtain rfl := Text.append_of_after? hr
  have hcut : Pieces.cut isSeparator 0 (['>', ' '] ++ r) =
      ((Pieces.cut isSeparator 0 r).separate ' ').extend ['>'] := rfl
  have htokens : tokens (['>', ' '] ++ r) = ['>'] :: tokens r := by
    rw [tokens, hcut, Pieces.toList_separate_extend]
    rfl
  obtain ⟨-, cs, hcs, hread⟩ := exists_compounds h
  rw [htokens] at hcs
  obtain ⟨o, ho, hcs⟩ := Except.bind_eq_ok hcs
  obtain ⟨others, hothers, hcs⟩ := Except.bind_eq_ok hcs
  cases ho
  cases hcs
  exact opening_of_readAfter hothers (k := .child) rfl hread

end Selector

end TreeQuery
