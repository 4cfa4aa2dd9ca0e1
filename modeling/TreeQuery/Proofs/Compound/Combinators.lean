import TreeQuery.Proofs.Adjacency.Reading
import TreeQuery.Proofs.Pattern.Everywhere
import TreeQuery.Proofs.Session.Soundness

/-!
# Combinators that no compound follows

A combinator is the relation of the compound directly behind it. If there is none, because another
combinator follows or nothing, it is the relation of no compound at all. No fault is found with it:
the tokens are read as they are without it.

Main statement: `Selector.combinators_of_compile`.
-/

namespace TreeQuery

open Pattern

namespace Compound

/-! ## Combinators with a compound behind them

Whether a combinator counts depends on the token behind it only. The tokens without those that do
not count are therefore computed from the end, and leaving them out does not make any other token
one that does not count: a combinator with a compound behind it still has it behind it. -/

def leads (tokens : List Text) : Bool := tokens.head?.any fun t => (Combinator.ofToken? t).isNone

def combinators (tokens : List Text) : List Combinator := tokens.filterMap Combinator.ofToken?

def statedRelations (compounds : List Compound) : List Combinator :=
  compounds.filterMap fun c => combinator? c.relation

/-- The tokens without the combinators that no compound follows. -/
def withoutDangling : List Text → List Text
  | [] => []
  | t :: r =>
    if (Combinator.ofToken? t).isSome && !leads r then withoutDangling r
    else t :: withoutDangling r

def IsLed (tokens : List Text) : Prop :=
  ∀ front k back, tokens = front ++ [Combinator.symbol k] :: back → leads back = true

section

variable {t : Text} {r ts : List Text} {k : Combinator}

theorem leads_cons_of_isCombinator (h : Combinator.ofToken? t = some k) :
    leads (t :: r) = false := by
  show (Combinator.ofToken? t).isNone = false
  rw [h]
  rfl

theorem leads_cons_of_isCompound (h : Combinator.ofToken? t = none) : leads (t :: r) = true := by
  show (Combinator.ofToken? t).isNone = true
  rw [h]
  rfl

theorem withoutDangling_of_isCompound (h : Combinator.ofToken? t = none) :
    withoutDangling (t :: r) = t :: withoutDangling r := by
  rw [withoutDangling, h]
  rfl

theorem withoutDangling_of_leads (h : leads r = true) :
    withoutDangling (t :: r) = t :: withoutDangling r := by
  rw [withoutDangling, h, Bool.not_true, Bool.and_false, if_neg Bool.false_ne_true]

theorem withoutDangling_of_dangles (ht : Combinator.ofToken? t = some k) (h : leads r = false) :
    withoutDangling (t :: r) = withoutDangling r := by
  rw [withoutDangling, ht, h]
  rfl

theorem withoutDangling_sublist (ts : List Text) : (withoutDangling ts).Sublist ts := by
  fun_induction withoutDangling ts with
  | case1 => exact .refl _
  | case2 t r h ih => exact ih.cons t
  | case3 t r h ih => exact ih.cons_cons t

/-- What is left out are combinators. -/
theorem length_withoutDangling (ts : List Text) :
    ts.length + (combinators (withoutDangling ts)).length =
      (withoutDangling ts).length + (combinators ts).length := by
  induction ts with
  | nil => rfl
  | cons t r ih =>
    -- A compound stays, a combinator with a compound behind it stays, any other goes.
    cases ht : Combinator.ofToken? t with
    | none =>
      rw [withoutDangling_of_isCompound ht]
      simp only [combinators, List.filterMap_cons_none ht, List.length_cons] at ih ⊢
      omega
    | some k =>
      cases h : leads r with
      | true =>
        rw [withoutDangling_of_leads h]
        simp only [combinators, List.filterMap_cons_some ht, List.length_cons] at ih ⊢
        omega
      | false =>
        rw [withoutDangling_of_dangles ht h]
        simp only [combinators, List.filterMap_cons_some ht, List.length_cons] at ih ⊢
        omega

/-- Nothing is left out exactly if each combinator has a compound behind it. -/
theorem withoutDangling_eq_self_iff : withoutDangling ts = ts ↔ IsLed ts := by
  constructor
  · intro h front k back he
    subst he
    induction front with
    | nil =>
      by_contra hback
      -- Without the combinator the tokens would be fewer.
      have hsub := (withoutDangling_sublist back).length_le
      rw [List.nil_append, withoutDangling_of_dangles (Combinator.ofToken?_symbol k)
        (eq_false_of_ne_true hback)] at h
      rw [h, List.length_cons] at hsub
      omega
    | cons t r ih =>
      apply ih
      have hsub := (withoutDangling_sublist (r ++ [k.symbol] :: back)).length_le
      rw [List.cons_append, withoutDangling] at h
      split at h
      · rw [h, List.length_cons] at hsub
        omega
      · exact List.tail_eq_of_cons_eq h
  · intro h
    induction ts with
    | nil => rfl
    | cons t r ih =>
      have hr : IsLed r := fun front k back he => h (t :: front) k back (by rw [he]; rfl)
      cases ht : Combinator.ofToken? t with
      | none => rw [withoutDangling_of_isCompound ht, ih hr]
      | some k =>
        have hleads := h [] k r (by rw [Combinator.ofToken?_eq_some_iff.1 ht]; rfl)
        rw [withoutDangling_of_leads hleads, ih hr]

/-- So many combinators are left as there are, exactly if each has a compound behind it. -/
theorem length_combinators_iff :
    (combinators (withoutDangling ts)).length = (combinators ts).length ↔ IsLed ts := by
  rw [← withoutDangling_eq_self_iff]
  constructor
  · intro h
    have hlength := length_withoutDangling ts
    exact (withoutDangling_sublist ts).eq_of_length (by omega)
  · intro h
    rw [h]

end

/-! ## Reading

The reader goes through the tokens with the one before in its hand and makes a compound of each
token that is no combinator. What it holds in its hand matters for the relation of the first
compound only. The inductions are therefore for any token before, and say for which tokens it
counts. -/

section

variable {before : Option Text} {ts : List Text} {cs : List Compound}

theorem combinator?_relationAfter (before : Option Text) :
    combinator? (relationAfter before) = before.bind Combinator.ofToken? := by
  rw [relationAfter]
  split
  · next c hc => rw [hc]; rfl
  · next hc => rw [hc]; rfl

/-- A combinator is no compound. -/
theorem read_of_isCombinator {t : Text} {k : Combinator} (h : Combinator.ofToken? t = some k)
    (before : Option Text) : read before t = .ok none := by
  rw [read, h]
  rfl

/-- A token that is no combinator is read as a compound, related by what stands before it. -/
theorem exists_of_read {t : Text} {o : Option Compound} (ht : Combinator.ofToken? t = none)
    (h : read before t = .ok o) :
    ∃ c, o = some c ∧ c.relation = relationAfter before := by
  have hnone : ¬ (Combinator.ofToken? t).isSome = true := by rw [ht]; exact Bool.false_ne_true
  rw [read_eq, if_neg hnone] at h
  obtain ⟨c, hscan, rfl⟩ := Except.map_eq_ok h
  obtain ⟨l, hl⟩ := Layout.exists_layout_of_scan hscan
  have hc := Except.ok.inj (hscan.symm.trans (Layout.scan_spans hl _))
  exact ⟨c, rfl, by rw [hc]; rfl⟩

/-- Without the combinators that no compound follows, the tokens are read in the same way. The
induction is for two tokens before them, which only matter if the first token is a compound. -/
theorem readAfter_withoutDangling {before' : Option Text}
    (h : leads ts = true → relationAfter before = relationAfter before') :
    readAfter before' (withoutDangling ts) = readAfter before ts := by
  induction ts generalizing before before' with
  | nil => rfl
  | cons t r ih =>
    cases ht : Combinator.ofToken? t with
    | none =>
      have hrelation := h (leads_cons_of_isCompound ht)
      have hread : read before' t = read before t := by rw [read_eq, read_eq, hrelation]
      rw [withoutDangling_of_isCompound ht, readAfter, readAfter, hread, ih fun _ => rfl]
    | some k =>
      cases hr : leads r with
      | true =>
        rw [withoutDangling_of_leads hr, readAfter, readAfter, read_of_isCombinator ht,
          read_of_isCombinator ht, ih fun _ => rfl]
      | false =>
        have hrest : readAfter before' (withoutDangling r) = readAfter (some t) r := by
          apply ih
          intro hleads
          rw [hr] at hleads
          cases hleads
        rw [withoutDangling_of_dangles ht hr, readAfter, read_of_isCombinator ht, hrest]
        show _ = (do return Option.toList none ++ (← readAfter (some t) r))
        cases readAfter (some t) r <;> rfl

/-- The relations that are stated are the combinators with a compound behind them. What stands
before the tokens counts if the first of them is a compound. -/
theorem statedRelations_of_readAfter (h : readAfter before ts = .ok cs) :
    statedRelations cs =
      (if leads ts then (before.bind Combinator.ofToken?).toList else []) ++
        combinators (withoutDangling ts) := by
  induction ts generalizing before cs with
  | nil =>
    cases h
    rfl
  | cons t r ih =>
    obtain ⟨o, hread, h⟩ := Except.bind_eq_ok h
    obtain ⟨others, hothers, h⟩ := Except.bind_eq_ok h
    cases h
    have hrest := ih hothers
    rw [Option.bind_some] at hrest
    cases ht : Combinator.ofToken? t with
    | none =>
      obtain ⟨c, rfl, hc⟩ := exists_of_read ht hread
      -- What stands in front of a compound is its relation, if it is a combinator.
      have hfirst : statedRelations (c :: others) =
          (before.bind Combinator.ofToken?).toList ++ statedRelations others := by
        rw [← combinator?_relationAfter, ← hc, statedRelations, List.filterMap_cons]
        cases combinator? c.relation <;> rfl
      rw [ht, Option.toList_none, ite_self, List.nil_append] at hrest
      rw [leads_cons_of_isCompound ht, if_pos rfl, withoutDangling_of_isCompound ht]
      show statedRelations (c :: others) = _
      rw [hfirst, hrest, combinators, combinators, List.filterMap_cons_none ht]
    | some k =>
      -- A combinator is no compound; it counts for the compound behind it, if there is one.
      obtain rfl : none = o := Except.ok.inj ((read_of_isCombinator ht before).symm.trans hread)
      rw [leads_cons_of_isCombinator ht, if_neg Bool.false_ne_true]
      show statedRelations others = combinators _
      rw [hrest, ht]
      cases hr : leads r with
      | true =>
        rw [withoutDangling_of_leads hr, if_pos rfl]
        simp only [combinators, List.filterMap_cons_some ht]
        rfl
      | false => rw [withoutDangling_of_dangles ht hr, if_neg Bool.false_ne_true]; rfl

/-- A combinator with a compound behind it is the relation of this compound, which stands among the
others in the place of its token. -/
theorem exists_stated_of_readAfter {front back : List Text} {k : Combinator} {token : Text}
    (ht : Combinator.ofToken? token = none)
    (h : readAfter before (front ++ [k.symbol] :: token :: back) = .ok cs) :
    ∃ c, cs[front.countP fun t => (Combinator.ofToken? t).isNone]? = some c ∧
      read (some [k.symbol]) token = .ok (some c) ∧ c.relation = .stated k := by
  induction front generalizing before cs with
  | nil =>
    -- The combinator is read first and gives nothing, then the token behind it.
    obtain ⟨o, hread, h⟩ := Except.bind_eq_ok h
    obtain ⟨others, hothers, h⟩ := Except.bind_eq_ok h
    cases h
    obtain ⟨o', hread', h⟩ := Except.bind_eq_ok hothers
    obtain ⟨others', -, h⟩ := Except.bind_eq_ok h
    cases h
    obtain rfl : none = o :=
      Except.ok.inj ((read_of_isCombinator (Combinator.ofToken?_symbol k) before).symm.trans hread)
    obtain ⟨c, rfl, hc⟩ := exists_of_read ht hread'
    refine ⟨c, rfl, hread', hc.trans ?_⟩
    rw [relationAfter, Option.bind_some, Combinator.ofToken?_symbol]
  | cons t r ih =>
    obtain ⟨o, hread, h⟩ := Except.bind_eq_ok h
    obtain ⟨others, hothers, h⟩ := Except.bind_eq_ok h
    cases h
    obtain ⟨c, hc, hrest⟩ := ih hothers
    refine ⟨c, ?_, hrest⟩
    -- Only compounds in front move the place.
    cases htoken : Combinator.ofToken? t with
    | none =>
      obtain ⟨d, rfl, -⟩ := exists_of_read htoken hread
      rw [List.countP_cons_of_pos (by rw [htoken]; rfl)]
      exact hc
    | some k' =>
      obtain rfl : none = o := Except.ok.inj ((read_of_isCombinator htoken before).symm.trans hread)
      rw [List.countP_cons_of_neg (by rw [htoken]; exact Bool.false_ne_true)]
      exact hc

end

end Compound

/-! ## Selectors

A selector that is compiled has a pattern, and so does whatever it holds at any depth. What has been
proved for a row of tokens is thus true of the tokens in every argument. -/

namespace Selector

variable {s t : Text}

/-- What is held at any depth by a selector with a pattern has a pattern. -/
theorem exists_pattern_of_holds (ht : Relation.ReflTransGen Holds s t)
    (hs : ∃ p, pattern s = .ok p) : ∃ p, pattern t = .ok p := by
  induction ht with
  | refl => exact hs
  | tail _ hold ih =>
    obtain ⟨p, hp⟩ := ih
    obtain ⟨c, hc, -⟩ := hold.exists_chain hp
    exact ⟨[c], by rw [hold.pattern_eq, hc]; rfl⟩

/-- Of the tokens of a selector only the compounds matter that they are read as. -/
theorem unlimited_eq_of_readChain {c : Chain} (hs : chain s = .ok c)
    (single : ¬ 1 < (alternatives s).length) (single' : ¬ 1 < (alternatives t).length)
    (hblank : Text.isAllBlank t = false)
    (h : Compound.readChain (tokens t) = Compound.readChain (tokens s)) :
    unlimited t = unlimited s := by
  obtain ⟨hsblank, cs, hcs, hread⟩ := exists_compounds hs
  have ht : chain t = .ok c := by
    rw [chain_eq, Chain.ofText, hblank, if_neg Bool.false_ne_true, h, hcs]
    simp only [bind, Except.bind, hread]
  rw [unlimited_eq_expression, unlimited_eq_expression, expression, expression, pattern, pattern,
    hblank, hsblank, if_neg single, if_neg single', hs, ht]

/-- In a selector that is compiled, and in each that it holds at any depth, a combinator with a
compound directly behind it is the relation of that compound, and no other relations are stated. A
combinator without a compound behind it is passed over: the selector comes to what it comes to
without it. Therefore as many relations are stated as there are combinators exactly if each has a
compound behind it. -/
theorem combinators_of_compile {settings : Settings} {m : Memory} (hm : m.cache.Sound) {x : Text}
    (h : (compile settings s).outcome m = .ok x) (ht : Relation.ReflTransGen Holds s t)
    (single : ¬ 1 < (alternatives t).length) :
    ∃ cs, Compound.readChain (tokens t) = .ok cs ∧
      (∀ front k token back, tokens t = front ++ [Combinator.symbol k] :: token :: back →
        Combinator.ofToken? token = none →
          ∃ c, cs[front.countP fun t => (Combinator.ofToken? t).isNone]? = some c ∧
            Compound.read (some [k.symbol]) token = .ok (some c) ∧ c.relation = .stated k) ∧
      Compound.statedRelations cs = Compound.combinators (Compound.withoutDangling (tokens t)) ∧
      ((Compound.statedRelations cs).length = (Compound.combinators (tokens t)).length ↔
        Compound.IsLed (tokens t)) ∧
      ∀ u, tokens u = Compound.withoutDangling (tokens t) → ¬ 1 < (alternatives u).length →
        Text.isAllBlank u = false → unlimited u = unlimited t := by
  obtain ⟨p, hp, -⟩ := exists_pattern_of_outcome hm h
  obtain ⟨q, hq⟩ := exists_pattern_of_holds ht ⟨p, hp⟩
  obtain ⟨c, hc, -⟩ := exists_chain_of_pattern hq single
  obtain ⟨-, cs, hcs, -⟩ := exists_compounds hc
  have hstated : Compound.statedRelations cs =
      Compound.combinators (Compound.withoutDangling (tokens t)) := by
    have := Compound.statedRelations_of_readAfter hcs
    rwa [Option.bind_none, Option.toList_none, ite_self, List.nil_append] at this
  refine ⟨cs, hcs, ?_, hstated, ?_, ?_⟩
  · intro front k token back he htoken
    apply Compound.exists_stated_of_readAfter htoken
    rw [← he]
    exact hcs
  · rw [hstated]
    exact Compound.length_combinators_iff
  · intro u hu single' hblank
    apply unlimited_eq_of_readChain hc single single' hblank
    rw [hu]
    exact Compound.readAfter_withoutDangling fun _ => rfl

/-- An argument in which a combinator dangles between two others that have compounds behind them. -/
theorem combinators_of_compile_argument :
    (compile {} "b:not(a > + c ~ d), e".toList).outcome {} =
      .ok ("//b[not(self::a/following-sibling::c[preceding-sibling::*[1][self::a]]".toList ++
        "/following-sibling::d)]|//e".toList) ∧
    Relation.ReflTransGen Holds "b:not(a > + c ~ d), e".toList "a > + c ~ d".toList ∧
    ∃ cs, Compound.readChain (tokens "a > + c ~ d".toList) = .ok cs ∧
      Compound.statedRelations cs = [.adjacent, .sibling] ∧
      ¬ Compound.IsLed (tokens "a > + c ~ d".toList) ∧
      unlimited "a + c ~ d".toList = unlimited "a > + c ~ d".toList := by
  have hm : (({} : Memory).cache).Sound := Cache.sound_empty
  have hcompile : (compile {} "b:not(a > + c ~ d), e".toList).outcome {} =
      .ok ("//b[not(self::a/following-sibling::c[preceding-sibling::*[1][self::a]]".toList ++
        "/following-sibling::d)]|//e".toList) := by decide +kernel
  have hholds :
      Relation.ReflTransGen Holds "b:not(a > + c ~ d), e".toList "a > + c ~ d".toList := by
    have hgroup : Holds "b:not(a > + c ~ d), e".toList "b:not(a > + c ~ d)".toList :=
      .alternative (by decide +kernel) (by decide +kernel)
    have hread : Compound.readChain (tokens "b:not(a > + c ~ d)".toList) =
        .ok [⟨"b".toList, .unstated, [], ["not(a > + c ~ d)".toList]⟩] := by decide +kernel
    have hfunctional : FunctionalPseudo.ofFragment? "not(a > + c ~ d)".toList =
        some (.not, "a > + c ~ d".toList) := by decide +kernel
    have hargument : Holds "b:not(a > + c ~ d)".toList "a > + c ~ d".toList :=
      .argument (by decide +kernel) hread List.mem_cons_self List.mem_cons_self hfunctional
        (by decide) (by decide +kernel)
    exact .tail (.single hgroup) hargument
  obtain ⟨cs, hcs, -, hstated, hled, hwithout⟩ :=
    combinators_of_compile hm hcompile hholds (by decide +kernel)
  have hrelations : Compound.statedRelations cs = [.adjacent, .sibling] := by
    rw [hstated]
    decide +kernel
  refine ⟨hcompile, hholds, cs, hcs, hrelations, ?_, ?_⟩
  · rw [← hled, hrelations]
    decide +kernel
  · exact hwithout _ (by decide +kernel) (by decide +kernel) (by decide +kernel)

/-- A combinator at the end and one in front of another are passed over, unless no compound is
left. -/
theorem combinators_of_compile_fails :
    tokens "a >".toList = ["a".toList, [Combinator.child.symbol]] ∧
    (compile {} "a >".toList).outcome {} = .ok "//a".toList ∧
    tokens "a > ~ b".toList =
      ["a".toList, [Combinator.child.symbol], [Combinator.sibling.symbol], "b".toList] ∧
    (compile {} "a > ~ b".toList).outcome {} = .ok "//a/following-sibling::b".toList ∧
    (compile {} ">".toList).outcome {} = .error (.emptySelector (some ">".toList)) := by
  refine ⟨?_, ?_, ?_, ?_, ?_⟩ <;> decide +kernel

end Selector

end TreeQuery
