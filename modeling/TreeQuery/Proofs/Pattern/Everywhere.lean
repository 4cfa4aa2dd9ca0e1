import Mathlib.Logic.Relation
import TreeQuery.Proofs.Compound.Layout

/-!
# Properties of all elements

Something may be asked of every element of a pattern, those in arguments included, and likewise of
every compound of a selector, by its layout. What holds of the compounds of a selector holds of the
elements that they are read as.

Main statement: `Selector.everywhere_pattern`.
-/

namespace TreeQuery

/-- Whatever a sequence comes to is the result of one of its members. -/
theorem Except.exists_of_mem_mapM {ε α β : Type} {l : List α} {f : α → Except ε β} {bs : List β}
    (h : l.mapM f = .ok bs) {b : β} (hb : b ∈ bs) : ∃ a ∈ l, f a = .ok b := by
  induction l generalizing bs with
  | nil => cases h; cases hb
  | cons a r ih =>
    rw [List.mapM_cons] at h
    obtain ⟨c, hc, h⟩ := bind_eq_ok h
    obtain ⟨cs, hcs, h⟩ := bind_eq_ok h
    cases h
    rcases List.mem_cons.1 hb with rfl | hb
    · exact ⟨a, List.mem_cons_self, hc⟩
    · obtain ⟨a', ha', hf⟩ := ih hcs hb
      exact ⟨a', List.mem_cons_of_mem _ ha', hf⟩

namespace Pattern

/-! ## Patterns

A property of elements is asked of all of them, by recursion along the tree. For the lists in the
tree it is the property of every member, which is how it is used. -/

section

variable (p : Element → Prop)

mutual

def Condition.Everywhere : Condition → Prop
  | .static _ => True
  | .contains _ => True
  | .not cs => chainsEverywhere cs
  | .has rs => relativesEverywhere rs

def chainsEverywhere : List Chain → Prop
  | [] => True
  | c :: r => c.Everywhere ∧ chainsEverywhere r

def relativesEverywhere : List Relative → Prop
  | [] => True
  | .mk _ c :: r => c.Everywhere ∧ relativesEverywhere r

def conditionsEverywhere : List Condition → Prop
  | [] => True
  | c :: r => c.Everywhere ∧ conditionsEverywhere r

def Element.Everywhere : Element → Prop
  | .mk tag tests conditions => p (.mk tag tests conditions) ∧ conditionsEverywhere conditions

def Chain.Everywhere : Chain → Prop
  | .start _ e => e.Everywhere
  | .link b _ e => b.Everywhere ∧ e.Everywhere

end

end

variable {p : Element → Prop}

/-- To be asked of some chains is to be asked of each. -/
theorem chainsEverywhere_iff {cs : List Chain} :
    chainsEverywhere p cs ↔ ∀ c ∈ cs, c.Everywhere p := by
  induction cs with
  | nil => simp [chainsEverywhere]
  | cons c r ih => rw [chainsEverywhere, ih, List.forall_mem_cons]

theorem relativesEverywhere_iff {rs : List Relative} :
    relativesEverywhere p rs ↔ ∀ direct c, .mk direct c ∈ rs → c.Everywhere p := by
  induction rs with
  | nil => simp [relativesEverywhere]
  | cons r rs ih =>
    obtain ⟨direct, c⟩ := r
    rw [relativesEverywhere, ih]
    constructor
    · rintro ⟨hc, hr⟩ direct' c' hm
      rcases List.mem_cons.1 hm with he | hm
      · cases he
        exact hc
      · exact hr direct' c' hm
    · exact fun h => ⟨h direct c List.mem_cons_self,
        fun direct' c' hm => h direct' c' (List.mem_cons_of_mem _ hm)⟩

/-- To be asked of some conditions is to be asked of each. -/
theorem conditionsEverywhere_iff {cs : List Condition} :
    conditionsEverywhere p cs ↔ ∀ c ∈ cs, c.Everywhere p := by
  induction cs with
  | nil => simp [conditionsEverywhere]
  | cons c r ih => rw [conditionsEverywhere, ih, List.forall_mem_cons]

section

variable {q : Element → Prop}

mutual

theorem Condition.Everywhere.mono (hpq : ∀ e, p e → q e) : ∀ {c : Condition}, c.Everywhere p →
    c.Everywhere q
  | .static _, h => h
  | .contains _, h => h
  | .not _, h => chainsEverywhere.mono hpq h
  | .has _, h => relativesEverywhere.mono hpq h

theorem chainsEverywhere.mono (hpq : ∀ e, p e → q e) : ∀ {cs : List Chain}, chainsEverywhere p cs →
    chainsEverywhere q cs
  | [], h => h
  | _ :: _, h => ⟨Chain.Everywhere.mono hpq h.1, chainsEverywhere.mono hpq h.2⟩

theorem relativesEverywhere.mono (hpq : ∀ e, p e → q e) : ∀ {rs : List Relative},
    relativesEverywhere p rs → relativesEverywhere q rs
  | [], h => h
  | .mk _ _ :: _, h => ⟨Chain.Everywhere.mono hpq h.1, relativesEverywhere.mono hpq h.2⟩

theorem conditionsEverywhere.mono (hpq : ∀ e, p e → q e) : ∀ {cs : List Condition},
    conditionsEverywhere p cs → conditionsEverywhere q cs
  | [], h => h
  | _ :: _, h => ⟨Condition.Everywhere.mono hpq h.1, conditionsEverywhere.mono hpq h.2⟩

theorem Element.Everywhere.mono (hpq : ∀ e, p e → q e) : ∀ {e : Element}, e.Everywhere p →
    e.Everywhere q
  | .mk _ _ _, h => ⟨hpq _ h.1, conditionsEverywhere.mono hpq h.2⟩

/-- What follows of every element from a property holds everywhere that the property does. -/
theorem Chain.Everywhere.mono (hpq : ∀ e, p e → q e) : ∀ {c : Chain}, c.Everywhere p →
    c.Everywhere q
  | .start _ _, h => Element.Everywhere.mono hpq h
  | .link _ _ _, h => ⟨Chain.Everywhere.mono hpq h.1, Element.Everywhere.mono hpq h.2⟩

end

end

/-! ## Reading

How an element is read says what is asked of it itself; what is asked of the elements in its
arguments is supposed to be known, as the arguments are read by another call. -/

section

variable {nested : Text → Except SelectorError Chain}

/-- What is asked of the chains in an argument is asked of the condition. -/
theorem Condition.everywhere_of_read {fragment : Text} {condition : Condition}
    (h : Condition.read nested fragment = .ok condition)
    (hnested : ∀ f argument, FunctionalPseudo.ofFragment? fragment = some (f, argument) →
      f ≠ .contains → ∀ t ∈ Selector.alternatives argument, ∀ c, nested t = .ok c →
        c.Everywhere p) : condition.Everywhere p := by
  rw [Condition.read] at h
  split at h
  · next argument ha =>
    obtain ⟨cs, hcs, h⟩ := Except.bind_eq_ok h
    cases h
    refine chainsEverywhere_iff.2 fun c hc => ?_
    obtain ⟨t, ht, hread⟩ := Except.exists_of_mem_mapM hcs hc
    exact hnested _ _ ha (by decide) t ht c hread
  · split at h
    · cases h
    · cases h
      trivial
  · next argument ha =>
    obtain ⟨rs, hrs, h⟩ := Except.bind_eq_ok h
    cases h
    refine relativesEverywhere_iff.2 fun direct c hc => ?_
    obtain ⟨t, ht, hread⟩ := Except.exists_of_mem_mapM hrs hc
    obtain ⟨c', hc', he⟩ := Except.bind_eq_ok hread
    cases he
    exact hnested _ _ ha (by decide) t ht c hc'
  · split at h
    · cases h
    · cases h
      trivial

/-- What is asked of an element and of its conditions is asked of all elements in it. -/
theorem Element.everywhere_of_read {c : TreeQuery.Compound} {e : Element}
    (h : Element.read nested c = .ok e) (hp : p e)
    (hc : ∀ f ∈ c.pseudos, ∀ condition, Condition.read nested f = .ok condition →
      condition.Everywhere p) : e.Everywhere p := by
  obtain ⟨tests, -, h⟩ := Except.bind_eq_ok h
  obtain ⟨conditions, hconditions, h⟩ := Except.bind_eq_ok h
  cases h
  refine ⟨hp, conditionsEverywhere_iff.2 fun condition hm => ?_⟩
  obtain ⟨f, hf, hread⟩ := Except.exists_of_mem_mapM hconditions hm
  exact hc f hf condition hread

/-- What is asked of a chain and of further compounds is asked of all. -/
theorem Chain.everywhere_of_extend {before ch : Chain} {cs : List TreeQuery.Compound}
    (h : Chain.extend nested before cs = .ok ch) (hb : before.Everywhere p)
    (he : ∀ c ∈ cs, ∀ e, Element.read nested c = .ok e → e.Everywhere p) : ch.Everywhere p := by
  induction cs generalizing before with
  | nil =>
    cases h
    exact hb
  | cons c r ih =>
    obtain ⟨e, hread, h⟩ := Except.bind_eq_ok h
    exact ih h ⟨hb, he c List.mem_cons_self e hread⟩
      fun d hd => he d (List.mem_cons_of_mem _ hd)

/-- What is asked of each compound is asked of the chain. -/
theorem Chain.everywhere_of_read {ch : Chain} {cs : List TreeQuery.Compound}
    (h : Chain.read nested cs = .ok (some ch))
    (he : ∀ c ∈ cs, ∀ e, Element.read nested c = .ok e → e.Everywhere p) : ch.Everywhere p := by
  cases cs with
  | nil => cases h
  | cons c r =>
    obtain ⟨e, hread, h⟩ := Except.bind_eq_ok h
    obtain ⟨ch', hextend, h⟩ := Except.bind_eq_ok h
    cases h
    exact Chain.everywhere_of_extend hextend (he c List.mem_cons_self e hread)
      fun d hd => he d (List.mem_cons_of_mem _ hd)

end

end Pattern

/-! ## Selectors

For a selector the property is one of layouts, as there is no element before it is read. `Holds`
leads to every selector in it; the ones with several alternatives have no compounds of their own. -/

namespace Compound

/-- A compound that is read from a token is what the layout of the token says. -/
theorem exists_layout_of_read {before : Option Text} {token : Text} {c : Compound}
    (h : read before token = .ok (some c)) :
    ∃ l : Layout, Span.resolve? token = some l.spans ∧ c = l.compound (relationAfter before) := by
  rw [read_eq] at h
  split at h
  · cases h
  · obtain ⟨d, hd, he⟩ := Except.map_eq_ok h
    cases he
    obtain ⟨l, hl⟩ := Layout.exists_layout_of_scan hd
    exact ⟨l, hl, Except.ok.inj (hd.symm.trans (Layout.scan_spans hl _))⟩

end Compound

namespace Selector

open Pattern

/-- A property that the layout of every compound has, in a selector and in the selectors that it
holds at any depth. -/
def Everywhere (q : Layout → Prop) (s : Text) : Prop :=
  ∀ t, Relation.ReflTransGen Holds s t → ¬ 1 < (alternatives t).length →
    ∀ token ∈ tokens t, ∀ l : Layout, Span.resolve? token = some l.spans → q l

section

variable {q : Layout → Prop} {p : Element → Prop} {s : Text}

/-- What is asked of a selector is asked of those that it holds. -/
theorem Everywhere.of_holds (h : Everywhere q s) {t : Text} (ht : Holds s t) : Everywhere q t :=
  fun u hu => h u (.head ht hu)

/-- A weaker property holds everywhere too. -/
theorem Everywhere.mono {q' : Layout → Prop} (h : Everywhere q s) (hq : ∀ l, q l → q' l) :
    Everywhere q' s :=
  fun t ht hs token hm l hl => hq l (h t ht hs token hm l hl)

/-- Two properties may be asked for one after the other. -/
theorem Everywhere.and {q' : Layout → Prop} (h : Everywhere q s) (h' : Everywhere q' s) :
    Everywhere (fun l => q l ∧ q' l) s :=
  fun t ht hs token hm l hl => ⟨h t ht hs token hm l hl, h' t ht hs token hm l hl⟩

/-- What holds in each of several alternatives holds in all of them. -/
theorem everywhere_of_alternatives (several : 1 < (alternatives s).length)
    (h : ∀ t ∈ alternatives s, Everywhere q t) : Everywhere q s := by
  intro u hu single
  rcases hu.cases_head with rfl | ⟨t, ht, htu⟩
  · exact absurd several single
  · cases ht with
    | alternative _ mem => exact h t mem u htu single
    | argument single' => exact absurd several single'

/-- What holds of the compounds of a selector holds everywhere if it holds no other selectors. It is
enough to look at one layout of each compound, as there is no other. -/
theorem everywhere_of_layouts (held : ∀ t, ¬ Holds s t)
    (h : ∀ token ∈ tokens s, ∃ l : Layout, Span.resolve? token = some l.spans ∧ q l) :
    Everywhere q s := by
  intro u hu _
  rcases hu.cases_head with rfl | ⟨t, ht, -⟩
  · intro token htoken l hl
    obtain ⟨l', hl', hq⟩ := h token htoken
    rwa [← Layout.spans_injective (Option.some.inj (hl'.symm.trans hl))]
  · exact absurd ht (held t)

/-- What the layouts of a selector without alternatives say is asked of the elements of its chain.
The induction is on the length of the selector, as those in its arguments are shorter. -/
theorem everywhere_chain
    (hread : ∀ nested relation l e, Element.read nested (Layout.compound relation l) = .ok e →
      q l → p e)
    (hs : Everywhere q s) (single : ¬ 1 < (alternatives s).length) {c : Chain}
    (hc : chain s = .ok c) : c.Everywhere p := by
  induction h : s.length using Nat.strong_induction_on generalizing s c with
  | _ n ih =>
    subst h
    rw [chain_eq, Chain.ofText] at hc
    split at hc
    · cases hc
    · obtain ⟨compounds, hcompounds, hc⟩ := Except.bind_eq_ok hc
      obtain ⟨o, ho, hc⟩ := Except.bind_eq_ok hc
      cases o with
      | none => cases hc
      | some ch =>
        cases hc
        refine Chain.everywhere_of_read ho fun d hd e he => ?_
        obtain ⟨before, token, htoken, hdread⟩ := Compound.exists_of_mem_readAfter hcompounds hd
        obtain ⟨l, hl, rfl⟩ := Compound.exists_layout_of_read hdread
        have hp : p e := hread _ _ l e he (hs s .refl single token htoken l hl)
        refine Element.everywhere_of_read he hp fun f hf condition hcondition => ?_
        refine Condition.everywhere_of_read hcondition fun g argument ha hg t ht c hc => ?_
        have hholds : Holds s t := .argument single hcompounds hd hf ha hg ht
        have htsingle : ¬ 1 < (alternatives t).length := by
          rw [alternatives_of_mem ht]
          exact Nat.lt_irrefl 1
        exact ih t.length hholds.length_lt (hs.of_holds hholds) htsingle hc rfl

/-- What the layouts of a selector say is asked of the elements of its pattern. -/
theorem everywhere_pattern
    (hread : ∀ nested relation l e, Element.read nested (Layout.compound relation l) = .ok e →
      q l → p e)
    (hs : Everywhere q s) {pattern : Pattern} (hp : Selector.pattern s = .ok pattern) :
    ∀ c ∈ pattern, c.Everywhere p := by
  intro c hc
  by_cases several : 1 < (alternatives s).length
  · obtain ⟨t, ht, hread'⟩ := Except.exists_of_mem_mapM (mapM_chain_of_pattern hp several) hc
    have htsingle : ¬ 1 < (alternatives t).length := by
      rw [alternatives_of_mem ht]
      exact Nat.lt_irrefl 1
    exact everywhere_chain hread (hs.of_holds (.alternative several ht)) htsingle hread'
  · obtain ⟨ch, hch, rfl⟩ := exists_chain_of_pattern hp several
    obtain rfl := List.mem_singleton.1 hc
    exact everywhere_chain hread hs several hch

end

end Selector

end TreeQuery
