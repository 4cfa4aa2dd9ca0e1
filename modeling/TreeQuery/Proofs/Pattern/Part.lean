import Mathlib.Data.List.DropRight
import Mathlib.Data.List.TakeWhile
import TreeQuery.Proofs.Pattern.Argument

/-!
# The selectors in a selector

A selector holds its alternatives, if there are several, and the alternatives in the arguments of
its pseudo-classes. None of them has several alternatives itself: what separated at the top level
has been cut. Therefore each is read into one chain, and that chain is nested less deeply than the
pattern of the selector that holds it.

Main statements: `alternatives_of_mem`, an alternative has no further alternatives, and
`Holds.exists_chain`, the chain of a selector that is held.
-/

namespace TreeQuery

/-! ## Uncut texts

A text is uncut if nothing in it separates. A piece of a text need not begin at the depth at which
the text does: the first piece does, and each other one begins where something has separated, which
is at the top level or above. This is why the statement about all pieces has two parts. -/

namespace Pieces

theorem toList_extend (front : Text) (p : Pieces) :
    ∃ first rest, p.toList = first :: rest ∧ (p.extend front).toList = (front ++ first) :: rest := by
  obtain ⟨ended, last⟩ := p
  cases ended with
  | nil => exact ⟨last, [], rfl, rfl⟩
  | cons e r => exact ⟨e.1, r.map (·.1) ++ [last], rfl, rfl⟩

/-- What is put in front of a text is put in front of its first piece. -/
theorem exists_first_extend {p : Pieces} {front : Text} {P P' Q : Text → Prop}
    (h : ∃ first rest, p.toList = first :: rest ∧ P first ∧ ∀ t ∈ rest, Q t)
    (hfront : ∀ t, P t → P' (front ++ t)) :
    ∃ first rest, (p.extend front).toList = first :: rest ∧ P' first ∧ ∀ t ∈ rest, Q t := by
  obtain ⟨first, rest, hl, hf, hr⟩ := h
  obtain ⟨first', rest', hl', he⟩ := toList_extend front p
  obtain ⟨rfl, rfl⟩ := List.cons.inj (hl.symm.trans hl')
  exact ⟨_, _, he, hfront first hf, hr⟩

/-- What is put in front cuts nothing. -/
theorem ended_extend_eq_nil {front : Text} {p : Pieces} :
    (p.extend front).ended = [] ↔ p.ended = [] := by
  obtain ⟨ended, last⟩ := p
  cases ended <;> simp [extend]

/-- A text without top-level separators is its own only piece. -/
theorem toList_of_uncut {separates : Char → Bool} {depth : Int} {s : Text}
    (h : (cut separates depth s).ended = []) : (cut separates depth s).toList = [s] := by
  have hj := join_cut separates depth s
  rw [join, h] at hj
  rw [toList, h]
  exact congrArg ([·]) hj

/-- A text of one piece is uncut. -/
theorem uncut_of_toList {separates : Char → Bool} {depth : Int} {s : Text}
    (h : (cut separates depth s).toList.length = 1) : (cut separates depth s).ended = [] := by
  simpa [toList] using h

/-- Fewer characters separate at a greater depth. -/
theorem uncut_of_le {separates : Char → Bool} {depth depth' : Int} {s : Text}
    (hd : depth ≤ depth') (h : (cut separates depth s).ended = []) :
    (cut separates depth' s).ended = [] := by
  fun_induction cut separates depth s generalizing depth' with
  | case1 => rfl
  | case2 => rfl
  | case3 depth c r ih =>
    rw [cut, ended_extend_eq_nil] at *
    exact ih hd h
  | case4 depth r ih =>
    rw [cut, ended_extend_eq_nil] at *
    exact ih (by omega) h
  | case5 depth r ih =>
    rw [cut, ended_extend_eq_nil] at *
    exact ih (by omega) h
  | case6 => cases h
  | case7 depth c r h1 h2 h3 h4 hs ih =>
    have hs' : ¬(decide (depth' ≤ 0) && separates c) = true := by
      simp only [Bool.and_eq_true, decide_eq_true_eq, not_and] at hs ⊢
      exact fun h0 => hs (by omega)
    rw [cut_cons (ne_backslash_of_rest h1 h2) h3 h4, if_neg hs', ended_extend_eq_nil]
    rw [ended_extend_eq_nil] at h
    exact ih hd h

/-- The pieces of a text are uncut, the first from the depth at which the text begins, and each
other one from the top level. -/
theorem uncut_of_cut (separates : Char → Bool) (depth : Int) (s : Text) :
    ∃ first rest, (cut separates depth s).toList = first :: rest ∧
      (cut separates depth first).ended = [] ∧ ∀ p ∈ rest, (cut separates 0 p).ended = [] := by
  fun_induction cut separates depth s with
  | case1 => exact ⟨[], [], rfl, rfl, by simp⟩
  | case2 => exact ⟨['\\'], [], rfl, rfl, by simp⟩
  | case3 depth c r ih =>
    refine exists_first_extend ih fun t ht => ?_
    rw [List.cons_append, List.singleton_append, cut, ended_extend_eq_nil]
    exact ht
  | case4 depth r ih =>
    refine exists_first_extend ih fun t ht => ?_
    rw [List.singleton_append, cut, ended_extend_eq_nil]
    exact ht
  | case5 depth r ih =>
    refine exists_first_extend ih fun t ht => ?_
    rw [List.singleton_append, cut, ended_extend_eq_nil]
    exact ht
  | case6 depth c r h1 h2 h3 h4 hs ih =>
    obtain ⟨first, rest, hl, hf, hr⟩ := ih
    simp only [Bool.and_eq_true, decide_eq_true_eq] at hs
    refine ⟨[], first :: rest, ?_, rfl, ?_⟩
    · rw [← hl]; rfl
    · intro p hp
      -- A separator ends a piece at depth zero or below; what is uncut from there is uncut from
      -- zero.
      rcases List.mem_cons.1 hp with rfl | hp
      · exact uncut_of_le hs.1 hf
      · exact hr p hp
  | case7 depth c r h1 h2 h3 h4 hs ih =>
    refine exists_first_extend ih fun t ht => ?_
    rw [List.singleton_append, cut_cons (ne_backslash_of_rest h1 h2) h3 h4, if_neg hs,
      ended_extend_eq_nil]
    exact ht

/-- The pieces of a text hold no separator at the top level. -/
theorem uncut_of_mem {separates : Char → Bool} {s p : Text}
    (h : p ∈ (cut separates 0 s).toList) : (cut separates 0 p).ended = [] := by
  obtain ⟨first, rest, hl, hfirst, hrest⟩ := uncut_of_cut separates 0 s
  rw [hl] at h
  rcases List.mem_cons.1 h with rfl | h
  · exact hfirst
  · exact hrest p h

/-- The beginning of an uncut text is uncut. -/
theorem uncut_of_append {separates : Char → Bool} {depth : Int} {a b : Text}
    (h : (cut separates depth (a ++ b)).ended = []) : (cut separates depth a).ended = [] := by
  fun_induction cut separates depth a with
  | case1 => rfl
  | case2 => rfl
  | case3 depth c r ih =>
    rw [List.cons_append, List.cons_append, cut, ended_extend_eq_nil] at h
    rw [ended_extend_eq_nil]
    exact ih h
  | case4 depth r ih =>
    rw [List.cons_append, cut, ended_extend_eq_nil] at h
    rw [ended_extend_eq_nil]
    exact ih h
  | case5 depth r ih =>
    rw [List.cons_append, cut, ended_extend_eq_nil] at h
    rw [ended_extend_eq_nil]
    exact ih h
  | case6 depth c r h1 h2 h3 h4 hs ih =>
    rw [List.cons_append, cut_cons (ne_backslash_of_rest h1 h2) h3 h4, if_pos hs] at h
    cases h
  | case7 depth c r h1 h2 h3 h4 hs ih =>
    rw [List.cons_append, cut_cons (ne_backslash_of_rest h1 h2) h3 h4, if_neg hs,
      ended_extend_eq_nil] at h
    rw [ended_extend_eq_nil]
    exact ih h

/-- White space in front is of no account. -/
theorem uncut_of_blanks {separates : Char → Bool} {depth : Int} {a b : Text}
    (ha : ∀ c ∈ a, Text.isBlank c = true) (h : (cut separates depth (a ++ b)).ended = []) :
    (cut separates depth b).ended = [] := by
  induction a with
  | nil => exact h
  | cons c r ih =>
    have hc : Text.isBlank c = true := ha c List.mem_cons_self
    apply ih fun d hd => ha d (List.mem_cons_of_mem _ hd)
    have h1 : c ≠ '\\' := by rintro rfl; exact absurd hc (by decide)
    have h2 : c ≠ '(' := by rintro rfl; exact absurd hc (by decide)
    have h3 : c ≠ ')' := by rintro rfl; exact absurd hc (by decide)
    rw [List.cons_append, cut_cons h1 h2 h3] at h
    split at h
    · cases h
    · rwa [ended_extend_eq_nil] at h

end Pieces

/-! ## Trimmed texts

Alternatives are trimmed, and to see that a trimmed piece is still uncut, what has been trimmed off
has to be put back. -/

namespace Text

/-- What is trimmed off are blanks in front and some end. -/
theorem exists_trim (s : Text) :
    ∃ front back, (∀ c ∈ front, isBlank c = true) ∧ s = front ++ (trim s ++ back) := by
  refine ⟨s.takeWhile isBlank, ((trimStart s).reverse.takeWhile isBlank).reverse, ?_, ?_⟩
  · exact fun c hc => (List.mem_takeWhile_imp hc)
  · have h : trim s ++ ((trimStart s).reverse.takeWhile isBlank).reverse = trimStart s := by
      rw [trim, trimEnd, ← List.reverse_append, List.takeWhile_append_dropWhile, List.reverse_reverse]
    rw [h, trimStart, List.takeWhile_append_dropWhile]

/-- Blanks at the end do not matter behind a character that stays. -/
theorem trimEnd_cons {c : Char} (hc : isBlank c = false) (r : Text) :
    trimEnd (c :: r) = c :: trimEnd r := by
  rw [trimEnd, List.reverse_cons, List.dropWhile_append, trimEnd]
  split
  · next h =>
    rw [List.isEmpty_iff.1 h]
    simp [hc]
  · rw [List.reverse_append]; rfl

/-- Trimming the end again changes nothing. -/
theorem trimEnd_trimEnd (s : Text) : trimEnd (trimEnd s) = trimEnd s := by
  rw [trimEnd, trimEnd, List.reverse_reverse, List.dropWhile_idempotent]

/-- A text that begins with a character other than a blank keeps it. -/
theorem trim_cons {c : Char} (hc : isBlank c = false) (r : Text) : trim (c :: r) = c :: trimEnd r := by
  rw [trim, trimStart, List.dropWhile_cons_of_neg (by simp [hc]), trimEnd_cons hc]

/-- Trimming again changes nothing. -/
theorem trim_trim (s : Text) : trim (trim s) = trim s := by
  cases h : trimStart s with
  | nil => rw [trim, trim, h]; rfl
  | cons c r =>
    have hc : isBlank c = false := by
      have := List.head?_dropWhile_not isBlank s
      rw [show List.dropWhile isBlank s = c :: r from h] at this
      simpa using this
    rw [trim.eq_1 s, h, trimEnd_cons hc, trim_cons hc, trimEnd_trimEnd]

end Text

namespace Selector

/-- An alternative of a selector has no further alternatives. -/
theorem alternatives_of_mem {s t : Text} (h : t ∈ alternatives s) : alternatives t = [t] := by
  obtain ⟨u, hu, rfl⟩ := List.mem_map.1 h
  replace hu := Pieces.uncut_of_mem hu
  obtain ⟨front, back, hfront, he⟩ := Text.exists_trim u
  rw [he] at hu
  have ht := Pieces.uncut_of_append (Pieces.uncut_of_blanks hfront hu)
  rw [alternatives, Pieces.toList_of_uncut ht, List.map_singleton, Text.trim_trim]

/-! ## What a selector holds

`Holds` leads from a selector to the selectors in it, one level down. It asks that the compounds
have been read, so that it can be used only where reading succeeds; nothing that fails is compiled
further. -/

inductive Holds (s : Text) : Text → Prop where
  | alternative {t : Text} (several : 1 < (alternatives s).length) (mem : t ∈ alternatives s) :
      Holds s t
  | argument {compounds : List Compound} {compound : Compound} {fragment argument t : Text}
      {p : FunctionalPseudo} (single : ¬ 1 < (alternatives s).length)
      (read : Compound.readChain (tokens s) = .ok compounds)
      (compound_mem : compound ∈ compounds) (fragment_mem : fragment ∈ compound.pseudos)
      (functional : FunctionalPseudo.ofFragment? fragment = some (p, argument))
      (selects : p ≠ .contains) (mem : t ∈ alternatives argument) : Holds s t

/-- What a selector holds is shorter. -/
theorem Holds.length_lt {s t : Text} (h : Holds s t) : t.length < s.length := by
  cases h with
  | alternative several mem => exact length_lt_of_mem_alternatives mem several
  | argument single read compound_mem fragment_mem functional selects mem =>
    obtain ⟨b, token, htoken, hb⟩ := Compound.exists_of_mem_readAfter read compound_mem
    have h1 := length_le_of_mem_tokens htoken
    have h2 := Compound.length_lt_of_read hb fragment_mem functional
    have h3 := length_le_of_mem_alternatives mem
    omega

/-- A selector that is its own only alternative is read into one chain. -/
theorem pattern_of_alternatives {t : Text} (ht : alternatives t = [t]) :
    pattern t = (chain t).map ([·]) := by
  rw [pattern, ht]
  split
  · next hb =>
    rw [chain_eq, Pattern.Chain.ofText, if_pos hb]
    rfl
  · rfl

/-- What a selector holds is read into one chain. -/
theorem Holds.pattern_eq {s t : Text} (h : Holds s t) : pattern t = (chain t).map ([·]) := by
  apply pattern_of_alternatives
  cases h with
  | alternative _ mem => exact alternatives_of_mem mem
  | argument _ _ _ _ _ _ mem => exact alternatives_of_mem mem

end Selector

/-! ## Results of sequences

What a sequence comes to has a member for each member of the sequence, and no others. -/

/-- Each member of a sequence has its result in the list. -/
theorem Except.exists_of_mapM_eq_ok {ε α β : Type} {l : List α} {f : α → Except ε β} {bs : List β}
    (h : l.mapM f = .ok bs) {a : α} (ha : a ∈ l) : ∃ b ∈ bs, f a = .ok b := by
  induction l generalizing bs with
  | nil => cases ha
  | cons d r ih =>
    rw [List.mapM_cons] at h
    obtain ⟨b, hb, h⟩ := bind_eq_ok h
    obtain ⟨br, hbr, h⟩ := bind_eq_ok h
    cases h
    rcases List.mem_cons.1 ha with rfl | ha
    · exact ⟨b, List.mem_cons_self, hb⟩
    · obtain ⟨b', hm, hf⟩ := ih hbr ha
      exact ⟨b', List.mem_cons_of_mem _ hm, hf⟩

/-- There are as many results as members. -/
theorem Except.length_of_mapM_eq_ok {ε α β : Type} {l : List α} {f : α → Except ε β} {bs : List β}
    (h : l.mapM f = .ok bs) : bs.length = l.length := by
  induction l generalizing bs with
  | nil => cases h; rfl
  | cons d r ih =>
    rw [List.mapM_cons] at h
    obtain ⟨b, hb, h⟩ := bind_eq_ok h
    obtain ⟨br, hbr, h⟩ := bind_eq_ok h
    cases h
    exact congrArg (· + 1) (ih hbr)

namespace Pattern

/-! ## Conditions without an argument -/

/-- Only a fragment that is a name is read as a pseudo-class without an argument. -/
theorem eq_name_of_read {nested : Text → Except SelectorError Chain} {f : Text} {p : StaticPseudo}
    (h : Condition.read nested f = .ok (.static p)) : f = p.name := by
  rw [Condition.read] at h
  split at h
  · obtain ⟨_, -, h⟩ := Except.bind_eq_ok h; cases h
  · split at h <;> cases h
  · obtain ⟨_, -, h⟩ := Except.bind_eq_ok h; cases h
  · split at h
    · cases h
    · next q hq =>
      cases h
      have := List.find?_some hq
      exact (eq_of_beq this).symm

/-- A name is read as the pseudo-class that it is the name of. -/
theorem Condition.read_name (nested : Text → Except SelectorError Chain) (p : StaticPseudo) :
    Condition.read nested p.name = .ok (.static p) := by
  have hn : FunctionalPseudo.ofFragment? p.name = none := by cases p <;> rfl
  rw [Condition.read, hn]
  simp only [StaticPseudo.ofName?_name]

/-! ## The parts of a pattern are nested no deeper

The nesting is a maximum over the parts, with one more where an argument begins. The limit of the
compiler counts the same way, so that a selector within the limit holds selectors within what is
left of it. -/

/-- A chain is nested no deeper than the row that it is in. -/
theorem nesting_le_of_mem_chains {c : Chain} {cs : List Chain} (h : c ∈ cs) :
    c.nesting ≤ nestingOfChains cs := by
  induction cs with
  | nil => cases h
  | cons d r ih =>
    rw [nestingOfChains]
    rcases List.mem_cons.1 h with rfl | h
    · omega
    · have := ih h; omega

theorem nesting_le_of_mem_relatives {direct : Bool} {c : Chain} {rs : List Relative}
    (h : .mk direct c ∈ rs) : c.nesting ≤ nestingOfRelatives rs := by
  induction rs with
  | nil => cases h
  | cons d r ih =>
    obtain ⟨d', c'⟩ := d
    rw [nestingOfRelatives]
    rcases List.mem_cons.1 h with he | h
    · cases he; omega
    · have := ih h; omega

theorem nesting_le_of_mem_conditions {c : Condition} {cs : List Condition} (h : c ∈ cs) :
    c.nesting ≤ nestingOfConditions cs := by
  induction cs with
  | nil => cases h
  | cons d r ih =>
    rw [nestingOfConditions]
    rcases List.mem_cons.1 h with rfl | h
    · omega
    · have := ih h; omega

section

variable {nested : Text → Except SelectorError Chain}

/-- Each fragment of a compound is read as some condition of its element. -/
theorem Element.exists_condition {c : TreeQuery.Compound} {e : Element}
    (h : Element.read nested c = .ok e) {f : Text} (hf : f ∈ c.pseudos) :
    ∃ condition, Condition.read nested f = .ok condition ∧ condition.nesting ≤ e.nesting := by
  obtain ⟨tests, -, h⟩ := Except.bind_eq_ok h
  obtain ⟨conditions, hc, h⟩ := Except.bind_eq_ok h
  cases h
  obtain ⟨condition, hm, hr⟩ := Except.exists_of_mapM_eq_ok hc hf
  exact ⟨condition, hr, nesting_le_of_mem_conditions hm⟩

theorem Chain.exists_element_of_extend {before ch : Chain} {cs : List TreeQuery.Compound}
    (h : Chain.extend nested before cs = .ok ch) :
    before.nesting ≤ ch.nesting ∧
      ∀ c ∈ cs, ∃ e, Element.read nested c = .ok e ∧ e.nesting ≤ ch.nesting := by
  induction cs generalizing before with
  | nil => cases h; exact ⟨Nat.le_refl _, by simp⟩
  | cons c r ih =>
    obtain ⟨e, he, h⟩ := Except.bind_eq_ok h
    obtain ⟨hb, hr⟩ := ih h
    rw [Chain.nesting] at hb
    refine ⟨by omega, fun d hd => ?_⟩
    rcases List.mem_cons.1 hd with rfl | hd
    · exact ⟨e, he, by omega⟩
    · exact hr d hd

/-- Each compound is read as some element of its chain. -/
theorem Chain.exists_element {ch : Chain} {cs : List TreeQuery.Compound}
    (h : Chain.read nested cs = .ok (some ch)) {c : TreeQuery.Compound} (hc : c ∈ cs) :
    ∃ e, Element.read nested c = .ok e ∧ e.nesting ≤ ch.nesting := by
  cases cs with
  | nil => cases hc
  | cons d r =>
    obtain ⟨e, he, h⟩ := Except.bind_eq_ok h
    obtain ⟨ch', hx, h⟩ := Except.bind_eq_ok h
    cases h
    obtain ⟨hb, hr⟩ := Chain.exists_element_of_extend hx
    rcases List.mem_cons.1 hc with rfl | hc
    · exact ⟨e, he, hb⟩
    · exact hr c hc

/-- The selectors in the argument of a condition are nested less deeply than the condition. -/
theorem Condition.exists_chain {fragment argument : Text} {p : FunctionalPseudo}
    (ha : FunctionalPseudo.ofFragment? fragment = some (p, argument)) (hp : p ≠ .contains)
    {condition : Condition} (h : Condition.read nested fragment = .ok condition) {t : Text}
    (ht : t ∈ Selector.alternatives argument) :
    ∃ c, nested t = .ok c ∧ c.nesting < condition.nesting := by
  rw [Condition.read, ha] at h
  cases p with
  | contains => exact absurd rfl hp
  | not =>
    obtain ⟨cs, hcs, h⟩ := Except.bind_eq_ok h
    cases h
    obtain ⟨c, hm, hc⟩ := Except.exists_of_mapM_eq_ok hcs ht
    exact ⟨c, hc, Nat.lt_succ_of_le (nesting_le_of_mem_chains hm)⟩
  | has =>
    obtain ⟨rs, hrs, h⟩ := Except.bind_eq_ok h
    cases h
    obtain ⟨r, hm, hr⟩ := Except.exists_of_mapM_eq_ok hrs ht
    obtain ⟨c, hc, hr⟩ := Except.bind_eq_ok hr
    cases hr
    exact ⟨c, hc, Nat.lt_succ_of_le (nesting_le_of_mem_relatives hm)⟩

end

end Pattern

namespace Selector

open Pattern

/-- A selector that is held has a chain if the selector that holds it has a pattern, nested less
deeply than that. -/
theorem Holds.exists_chain {s t : Text} (h : Holds s t) {p : Pattern} (hp : pattern s = .ok p) :
    ∃ c, chain t = .ok c ∧ c.nesting < p.nesting := by
  rw [pattern] at hp
  split at hp
  · cases hp
  · cases h with
    | alternative several mem =>
      rw [if_pos several] at hp
      obtain ⟨c, hm, hc⟩ := Except.exists_of_mapM_eq_ok hp mem
      have hl : 1 < p.length := by rwa [Except.length_of_mapM_eq_ok hp]
      refine ⟨c, hc, ?_⟩
      rw [nesting, if_pos hl]
      exact Nat.lt_succ_of_le (nesting_le_of_mem_chains hm)
    | argument single read compound_mem fragment_mem functional selects mem =>
      rw [if_neg single] at hp
      obtain ⟨ch, hch, rfl⟩ := Except.map_eq_ok hp
      rw [chain_eq, Chain.ofText] at hch
      split at hch
      · cases hch
      · obtain ⟨cs, hcs, hch⟩ := Except.bind_eq_ok hch
        obtain rfl := Except.ok.inj (read.symm.trans hcs)
        obtain ⟨o, ho, hch⟩ := Except.bind_eq_ok hch
        cases o with
        | none => cases hch
        | some ch' =>
          cases hch
          obtain ⟨e, he, hle⟩ := Chain.exists_element ho compound_mem
          obtain ⟨condition, hcond, hle'⟩ := Element.exists_condition he fragment_mem
          obtain ⟨c, hc, hlt⟩ := Condition.exists_chain functional selects hcond mem
          refine ⟨c, hc, ?_⟩
          have hn : nesting [ch] = ch.nesting := by simp [nesting, nestingOfChains]
          omega

/-- A selector without alternatives has one chain. -/
theorem exists_chain_of_pattern {s : Text} {p : Pattern} (hp : pattern s = .ok p)
    (single : ¬ 1 < (alternatives s).length) : ∃ c, chain s = .ok c ∧ p = [c] := by
  rw [pattern] at hp
  split at hp
  · cases hp
  · obtain ⟨c, hc, rfl⟩ := Except.map_eq_ok hp
    exact ⟨c, hc, rfl⟩

/-- A selector with alternatives has the chains of these. -/
theorem mapM_chain_of_pattern {s : Text} {p : Pattern} (hp : pattern s = .ok p)
    (several : 1 < (alternatives s).length) : (alternatives s).mapM chain = .ok p := by
  rw [pattern] at hp
  split at hp
  · cases hp
  · exact hp

/-- A pattern has some chain. -/
theorem ne_nil_of_pattern {s : Text} {p : Pattern} (hp : pattern s = .ok p) : p ≠ [] := by
  by_cases several : 1 < (alternatives s).length
  · have := Except.length_of_mapM_eq_ok (mapM_chain_of_pattern hp several)
    rw [← List.length_pos_iff]
    omega
  · obtain ⟨c, -, rfl⟩ := exists_chain_of_pattern hp several
    exact List.cons_ne_nil _ _

end Selector

end TreeQuery
