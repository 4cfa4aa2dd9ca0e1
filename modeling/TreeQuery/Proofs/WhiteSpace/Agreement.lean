import Mathlib.Data.List.Forall2
import TreeQuery.Proofs.Compound.Combinators

/-!
# Selectors that come to the same

A selector is read from its tokens, a token from its fragments, and a fragment from the alternatives
in its argument. If each part of one selector is read as the part of another in its place, the one
selector is read as the other. Only results are compared: a fault may quote the text that it is
found in.

Main statements: `Selector.entails_chain` and `Compound.exists_readAfter_replace`.
-/

namespace TreeQuery

open Pattern

/-! ## Results

Two texts that come to the same need not fail alike: the error names the token that is at fault,
with the white space in it. `Entails` compares what comes out where something does, and is used in
both directions where the two texts play the same part. -/

section

variable {ε α β γ : Type} {x y : Except ε α}

/-- Whatever the first comes to, the second comes to as well. -/
def Entails (x y : Except ε α) : Prop := ∀ a, x = .ok a → y = .ok a

namespace Entails

theorem refl (x : Except ε α) : Entails x x := fun _ h => h

/-- A step that is entailed, and another behind it. -/
theorem bind {f g : α → Except ε β} (h : Entails x y) (hf : ∀ a, Entails (f a) (g a)) :
    Entails (x >>= f) (y >>= g) := by
  intro b hb
  obtain ⟨a, ha, hb⟩ := Except.bind_eq_ok hb
  rw [h a ha]
  exact hf a b hb

theorem map (f : α → β) (h : Entails x y) : Entails (x.map f) (y.map f) := by
  intro b hb
  obtain ⟨a, ha, rfl⟩ := Except.map_eq_ok hb
  rw [h a ha]
  rfl

/-- Sequences whose members are entailed one by one. -/
theorem mapM {f : α → Except ε γ} {g : β → Except ε γ} {as : List α} {bs : List β}
    (h : List.Forall₂ (fun a b => Entails (f a) (g b)) as bs) :
    Entails (as.mapM f) (bs.mapM g) := by
  induction h with
  | nil => exact refl _
  | cons hfirst _ ih =>
    rw [List.mapM_cons, List.mapM_cons]
    apply hfirst.bind
    intro _
    apply ih.bind
    intro _
    exact refl _

end Entails

end

/-! ## Fragments

The relation between an element and the alternatives of `:has` is told from the text of the
alternative and not from its tokens, so that two alternatives that are read alike can be looked for
in different places. The axes have to be compared on their own. -/

section

variable {nested : Text → Except SelectorError Chain} {s t : Text}

/-- Selectors along the same axis begin at the same places. -/
theorem isSome_after?_of_axisOf {p q : Text} (h : Pseudo.axisOf p = Pseudo.axisOf q) :
    (Text.after? ['>', ' '] p).isSome = (Text.after? ['>', ' '] q).isSome := by
  rw [Pseudo.axisOf, Pseudo.axisOf] at h
  split at h
  · next hp =>
    split at h
    · next hq => rw [hp, hq]
    · exact absurd h (by decide)
  · next hp =>
    split at h
    · exact absurd h (by decide)
    · next hq => rw [eq_false_of_ne_true hp, eq_false_of_ne_true hq]

/-- Alternatives along the same axes are looked for below an element alike. -/
theorem forall₂_entails_read {ps qs : List Text}
    (h : List.Forall₂ (fun p q => Entails (nested p) (nested q)) ps qs)
    (haxes : ps.map Pseudo.axisOf = qs.map Pseudo.axisOf) :
    List.Forall₂ (fun p q => Entails (Relative.read nested p) (Relative.read nested q)) ps qs := by
  induction h with
  | nil => exact .nil
  | cons hfirst _ ih =>
    obtain ⟨haxis, haxes⟩ := List.cons.inj haxes
    apply List.Forall₂.cons _ (ih haxes)
    rw [Relative.read, Relative.read, isSome_after?_of_axisOf haxis]
    exact hfirst.bind fun _ => .refl _

/-- A pseudo-class asks for what its alternatives ask for. For `:has` each of them has to begin
along the same axis. -/
theorem Pattern.Condition.entails_read {p : FunctionalPseudo} (hs : s ≠ []) (ht : t ≠ [])
    (selects : p ≠ .contains)
    (h : List.Forall₂ (fun a b => Entails (nested a) (nested b)) (Selector.alternatives s)
      (Selector.alternatives t))
    (haxes : p = .has →
      (Selector.alternatives s).map Pseudo.axisOf = (Selector.alternatives t).map Pseudo.axisOf) :
    Entails (Condition.read nested (p.name ++ '(' :: s ++ [')']))
      (Condition.read nested (p.name ++ '(' :: t ++ [')'])) := by
  rw [Condition.read, Condition.read, FunctionalPseudo.ofFragment?_fragment p hs,
    FunctionalPseudo.ofFragment?_fragment p ht]
  cases p with
  | contains => exact absurd rfl selects
  | not => exact (Entails.mapM h).bind fun _ => .refl _
  | has => exact (Entails.mapM (forall₂_entails_read h (haxes rfl))).bind fun _ => .refl _

/-- An element asks for what its tests and its pseudo-classes ask for. -/
theorem Pattern.Element.entails_read {c d : Compound} (htag : d.tag = c.tag)
    (hattributes : d.attributes = c.attributes)
    (h : List.Forall₂ (fun f g => Entails (Condition.read nested f) (Condition.read nested g))
      c.pseudos d.pseudos) : Entails (Element.read nested c) (Element.read nested d) := by
  rw [Element.read, Element.read, htag, hattributes]
  apply (Entails.refl _).bind
  intro _
  exact (Entails.mapM h).bind fun _ => .refl _

end

/-! ## Compounds

What stands in the place of a compound has the same relation to what is in front and describes the
same element, whenever the first describes one. Both are needed: the relation is stated by the token
in front, the element by the token itself. -/

namespace Compound

/-- A compound in the place of another: the relation is the same, and whatever element the one
describes, the other describes as well. -/
structure Replaces (nested : Text → Except SelectorError Chain) (c d : Compound) : Prop where
  relation : d.relation = c.relation
  element : Entails (Element.read nested c) (Element.read nested d)

section

variable {nested : Text → Except SelectorError Chain} {cs ds : List Compound}

theorem Replaces.refl (c : Compound) : Replaces nested c c := ⟨rfl, .refl _⟩

/-- The rest of a chain, with compounds in the places of others. -/
theorem entails_extend (h : List.Forall₂ (Replaces nested) cs ds) (before : Chain) :
    Entails (Chain.extend nested before cs) (Chain.extend nested before ds) := by
  induction h generalizing before with
  | nil => exact .refl _
  | cons hfirst _ ih =>
    rw [Chain.extend, Chain.extend, hfirst.relation]
    exact hfirst.element.bind fun _ => ih _

/-- A chain of compounds in the places of others is read as those are. -/
theorem entails_read (h : List.Forall₂ (Replaces nested) cs ds) :
    Entails (Chain.read nested cs) (Chain.read nested ds) := by
  cases h with
  | nil => exact .refl _
  | cons hfirst hrest =>
    rw [Chain.read, Chain.read, hfirst.relation]
    apply hfirst.element.bind
    intro _
    exact (entails_extend hrest _).bind fun _ => .refl _

/-- Of the token in front only the relation that it states matters. -/
theorem readAfter_congr {before before' : Option Text}
    (h : relationAfter before = relationAfter before') (ts : List Text) :
    readAfter before ts = readAfter before' ts := by
  cases ts with
  | nil => rfl
  | cons t r => rw [readAfter, readAfter, read_eq, read_eq, h]

theorem relationAfter_of_isCompound {t : Text} (ht : Combinator.ofToken? t = none) :
    relationAfter (some t) = .unstated := by
  rw [relationAfter, Option.bind_some, ht]

/-- Tokens are read with another one in the place of one of them. The induction is on the tokens in
front of it; those behind it cannot tell the two apart, as neither is a combinator. -/
theorem exists_readAfter_replace {t u : Text} (ht : Combinator.ofToken? t = none)
    (hu : Combinator.ofToken? u = none)
    (h : ∀ before c, read before t = .ok (some c) →
      ∃ d, read before u = .ok (some d) ∧ Replaces nested c d)
    {front back : List Text} {before : Option Text}
    (hcs : readAfter before (front ++ t :: back) = .ok cs) :
    ∃ ds, readAfter before (front ++ u :: back) = .ok ds ∧
      List.Forall₂ (Replaces nested) cs ds := by
  induction front generalizing before cs with
  | nil =>
    obtain ⟨o, hread, hcs⟩ := Except.bind_eq_ok hcs
    obtain ⟨others, hothers, hcs⟩ := Except.bind_eq_ok hcs
    cases hcs
    obtain ⟨c, rfl, -⟩ := exists_of_read ht hread
    obtain ⟨d, hd, hreplaces⟩ := h before c hread
    have hback : readAfter (some u) back = .ok others := by
      rw [← hothers]
      apply readAfter_congr
      rw [relationAfter_of_isCompound ht, relationAfter_of_isCompound hu]
    refine ⟨d :: others, ?_, .cons hreplaces (List.forall₂_same.2 fun c _ => .refl c)⟩
    rw [List.nil_append, readAfter, hd]
    show (do return Option.toList (some d) ++ (← readAfter (some u) back)) = _
    rw [hback]
    rfl
  | cons first front ih =>
    obtain ⟨o, hread, hcs⟩ := Except.bind_eq_ok hcs
    obtain ⟨others, hothers, hcs⟩ := Except.bind_eq_ok hcs
    cases hcs
    obtain ⟨ds, hds, hreplaces⟩ := ih hothers
    refine ⟨o.toList ++ ds, ?_, ?_⟩
    · rw [List.cons_append, readAfter, hread]
      show (do return o.toList ++ (← readAfter (some first) (front ++ u :: back))) = _
      rw [hds]
      rfl
    · exact List.rel_append (List.forall₂_same.2 fun c _ => .refl c) hreplaces

end

end Compound

/-! ## Selectors

A selector is trimmed before it is divided into alternatives only if there are several, so that a
single alternative has to be compared as it stands and as it is trimmed. -/

namespace Selector

variable {s t : Text}

/-- A selector is read as another one if its compounds are in the places of those of the other. -/
theorem entails_chain (hblank : Text.isAllBlank t = Text.isAllBlank s)
    (h : ∀ cs, Compound.readChain (tokens s) = .ok cs →
      ∃ ds, Compound.readChain (tokens t) = .ok ds ∧
        List.Forall₂ (Compound.Replaces chain) cs ds) : Entails (chain s) (chain t) := by
  intro c hc
  obtain ⟨hs, cs, hcs, hread⟩ := exists_compounds hc
  obtain ⟨ds, hds, hreplaces⟩ := h cs hcs
  have hread' := Compound.entails_read hreplaces _ hread
  rw [chain_eq, Chain.ofText, hblank, hs, if_neg Bool.false_ne_true, hds]
  simp only [bind, Except.bind, hread']

/-- So is one that has the same tokens. -/
theorem entails_chain_of_tokens (hblank : Text.isAllBlank t = Text.isAllBlank s)
    (h : tokens t = tokens s) : Entails (chain s) (chain t) := by
  apply entails_chain hblank
  intro cs hcs
  refine ⟨cs, ?_, List.forall₂_same.2 fun c _ => .refl c⟩
  rw [h]
  exact hcs

/-- Two selectors whose alternatives are read alike. -/
structure Agrees (s t : Text) : Prop where
  blank : Text.isAllBlank t = Text.isAllBlank s
  parts : List.Forall₂ (fun a b => Entails (chain a) (chain b)) (alternatives s) (alternatives t)
  single : ¬ 1 < (alternatives s).length → Entails (chain s) (chain t)

/-- Whatever pattern the one has, the other has as well. -/
theorem Agrees.entails_pattern (h : Agrees s t) : Entails (pattern s) (pattern t) := by
  have hlength := h.parts.length_eq
  rw [pattern, pattern, h.blank, ← hlength]
  split
  · exact .refl _
  · split
    · exact .mapM h.parts
    · next hsingle => exact (h.single hsingle).map _

end Selector

end TreeQuery
