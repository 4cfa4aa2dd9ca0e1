import TreeQuery.Proofs.Compilation.Again
import TreeQuery.Proofs.Compilation.Threshold
import TreeQuery.Proofs.Compound.Layout
import TreeQuery.Proofs.Groups.Comma

/-!
# A pseudo-class behind a selector

A colon and the name of a pseudo-class, put behind a selector that ends in a compound, belong to
that compound. The tokens of the selector stay as they are, except that the last one is longer; it
is read from its end, so that the pseudo-class is taken off first and the rest is read as before.
The path of the selector is therefore put together as before, too, and the pseudo-class is applied
to all of it.

Main statements: `Selector.compileUncached_behind` and `Selector.outcome_behind`.
-/

namespace TreeQuery

open Compilation

/-! ## Behind the last piece

A word behind a text could become a token of its own, if white space ended the text, or belong to an
escape, if a backslash did. Both are asked for below; otherwise the word lengthens the last piece,
at whatever depth that is. -/

namespace Pieces

variable {separates : Char → Bool}

/-- A text without parentheses, backslashes and separators is one piece at any depth. -/
theorem cut_word {t : Text}
    (ht : ∀ c ∈ t, c ≠ '\\' ∧ c ≠ '(' ∧ c ≠ ')' ∧ separates c = false) (depth : Int) :
    cut separates depth t = ⟨[], t⟩ := by
  induction t with
  | nil => rfl
  | cons c r ih =>
    obtain ⟨h1, h2, h3, h4⟩ := ht c List.mem_cons_self
    rw [cut_cons h1 h2 h3, ih fun d hd => ht d (List.mem_cons_of_mem _ hd)]
    simp [h4, extend]

/-- Such a text makes the last piece in front of it longer. -/
theorem cut_append_word (separates : Char → Bool) {t : Text}
    (ht : ∀ c ∈ t, c ≠ '\\' ∧ c ≠ '(' ∧ c ≠ ')' ∧ separates c = false) {depth k : Int} {s : Text}
    (hs : openAfter depth s = some k) :
    cut separates depth (s ++ t) =
      ⟨(cut separates depth s).ended, (cut separates depth s).last ++ t⟩ := by
  rw [cut_append hs, cut_word ht]
  simp [append, extend]

/-- Where the last of longer pieces is empty, it is that of the pieces, and not the first. -/
theorem last_of_extend {front : Text} {p : Pieces} (hfront : front ≠ [])
    (h : (p.extend front).last = []) : p.last = [] ∧ p.ended ≠ [] := by
  obtain ⟨ended, last⟩ := p
  cases ended with
  | nil =>
    have h : front ++ last = [] := h
    simp [hfront] at h
  | cons => exact ⟨h, nofun⟩

/-- The last piece is empty only behind a separator. -/
theorem exists_separator_of_last {depth : Int} {s : Text} (hs : s ≠ [])
    (h : (cut separates depth s).last = []) :
    ∃ spans c, Span.resolve? s = some (spans ++ [.plain c]) ∧ separates c = true := by
  -- In front of a text that ends in a separator there may be anything that resolves.
  have hextend : ∀ (front : Text) (span : Span) {r : Text} {d : Int}, front ≠ [] →
      (r ≠ [] → (cut separates d r).last = [] →
        ∃ spans c, Span.resolve? r = some (spans ++ [.plain c]) ∧ separates c = true) →
      Span.resolve? (front ++ r) = (Span.resolve? r).map (span :: ·) →
      ((cut separates d r).extend front).last = [] →
      ∃ spans c, Span.resolve? (front ++ r) = some (spans ++ [.plain c]) ∧ separates c = true := by
    intro front span r d hfront ih hresolve hlast
    obtain ⟨hlast, hended⟩ := last_of_extend hfront hlast
    have hr : r ≠ [] := by
      rintro rfl
      exact hended rfl
    obtain ⟨spans, c, hspans, hc⟩ := ih hr hlast
    rw [hspans] at hresolve
    exact ⟨span :: spans, c, hresolve, hc⟩
  -- Only a separator ends a piece; every other character lengthens one.
  fun_induction cut separates depth s with
  | case1 => exact absurd rfl hs
  | case2 => cases h
  | case3 depth c r ih =>
    exact hextend ['\\', c] ⟨c, true⟩ (List.cons_ne_nil _ _) ih rfl h
  | case4 depth r ih => exact hextend ['('] (.plain '(') (List.cons_ne_nil _ _) ih rfl h
  | case5 depth r ih => exact hextend [')'] (.plain ')') (List.cons_ne_nil _ _) ih rfl h
  | case6 depth c r h1 h2 h3 h4 hseparates ih =>
    have hc : c ≠ '\\' := ne_backslash_of_rest h1 h2
    rw [Span.resolve?_plain_cons hc]
    by_cases hr : r = []
    · subst hr
      exact ⟨[], c, rfl, (Bool.and_eq_true_iff.1 hseparates).2⟩
    · obtain ⟨spans, d, hspans, hd⟩ := ih hr h
      rw [hspans]
      exact ⟨.plain c :: spans, d, rfl, hd⟩
  | case7 depth c r h1 h2 h3 h4 hseparates ih =>
    have hc : c ≠ '\\' := ne_backslash_of_rest h1 h2
    exact hextend [c] (.plain c) (List.cons_ne_nil _ _) ih (Span.resolve?_plain_cons hc r) h

end Pieces

namespace Selector

/-- A selector whose last character is white space that separates tokens, and not taken literally.
-/
def EndsInSeparator (s : Text) : Prop :=
  ∃ spans c, Span.resolve? s = some (spans ++ [.plain c]) ∧ isSeparator c = true

/-- A selector of one alternative that ends in a compound, with nothing behind it. -/
structure EndsInCompound (s : Text) : Prop where
  single : (alternatives s).length = 1
  compound : ∀ token, (tokens s).getLast? = some token → Combinator.ofToken? token = none
  unseparated : ¬ EndsInSeparator s

/-- The name of a pseudo-class as it is written behind a selector. -/
def suffix (p : StaticPseudo) : Text := ':' :: p.name

/-- The name of a pseudo-class has no character of the kind that divides. -/
theorem suffix_word (p : StaticPseudo) : ∀ c ∈ suffix p,
    c ≠ '\\' ∧ c ≠ '(' ∧ c ≠ ')' ∧ isSeparator c = false ∧ (c == ',') = false := by
  have hall : (suffix p).all (fun c => c ≠ '\\' ∧ c ≠ '(' ∧ c ≠ ')' ∧ isSeparator c = false ∧
      (c == ',') = false) = true := by
    cases p <;> decide
  intro c hc
  exact of_decide_eq_true (List.all_eq_true.1 hall c hc)

variable {s : Text} {k : Int}

/-- The tokens of a selector that ends in a compound, and those with a pseudo-class behind it. -/
theorem exists_tokens_suffix (hs : EndsInCompound s) (hne : s ≠ [])
    (hopen : Pieces.openAfter 0 s = some k) (p : StaticPseudo) :
    ∃ front token, tokens s = front ++ [token] ∧ Combinator.ofToken? token = none ∧
      tokens (s ++ suffix p) = front ++ [token ++ suffix p] := by
  have hlast : (Pieces.cut isSeparator 0 s).last ≠ [] := by
    intro h
    exact hs.unseparated (Pieces.exists_separator_of_last hne h)
  have hcut := Pieces.cut_append_word isSeparator (t := suffix p)
    (fun c hc => ⟨(suffix_word p c hc).1, (suffix_word p c hc).2.1, (suffix_word p c hc).2.2.1,
      (suffix_word p c hc).2.2.2.1⟩) hopen
  have htokens : tokens s = ((Pieces.cut isSeparator 0 s).ended.map (·.1)).filter (!·.isEmpty) ++
      [(Pieces.cut isSeparator 0 s).last] := by
    rw [tokens, Pieces.toList, List.filter_append]
    simp [hlast]
  refine ⟨_, _, htokens, ?_, ?_⟩
  · apply hs.compound
    rw [htokens, List.getLast?_concat]
  · rw [tokens, hcut, Pieces.toList, List.filter_append]
    simp [hlast]

/-- It is still one alternative. -/
theorem length_alternatives_suffix (hs : (alternatives s).length = 1)
    (hopen : Pieces.openAfter 0 s = some k) (p : StaticPseudo) :
    (alternatives (s ++ suffix p)).length = 1 := by
  have hcut := Pieces.cut_append_word (· == ',') (t := suffix p)
    (fun c hc => ⟨(suffix_word p c hc).1, (suffix_word p c hc).2.1, (suffix_word p c hc).2.2.1,
      (suffix_word p c hc).2.2.2.2⟩) hopen
  rw [alternatives, List.length_map, Pieces.toList, List.length_append] at hs ⊢
  rw [hcut]
  exact hs

end Selector

/-! ## The last compound

The reader takes items off the end of a token. The pseudo-class is the first that it takes off, and
the reading of what is in front is the reading of the token without it. -/

namespace Span

/-- What is resolved in front stays as it is. -/
theorem resolve?_append {a : Text} {spans : List Span} (h : resolve? a = some spans) (b : Text) :
    resolve? (a ++ b) = (resolve? b).map (spans ++ ·) := by
  fun_induction resolve? a generalizing spans with
  | case1 =>
    cases h
    simp
  | case2 => cases h
  | case3 c r ih =>
    obtain ⟨u, hu, rfl⟩ := Option.map_eq_some_iff.1 h
    show (resolve? (r ++ b)).map _ = _
    rw [ih hu, Option.map_map]
    rfl
  | case4 c r h1 h2 ih =>
    obtain ⟨u, hu, rfl⟩ := Option.map_eq_some_iff.1 h
    have hc : c ≠ '\\' := ne_backslash_of_rest ‹_› ‹_›
    rw [List.cons_append, resolve?_plain_cons hc, ih hu, Option.map_map]
    rfl

end Span

namespace Compound

def behind (c : Compound) (p : StaticPseudo) : Compound := { c with pseudos := c.pseudos ++ [p.name] }

variable {before : Option Text} {token : Text} {cs : List Compound}

theorem names_name (p : StaticPseudo) :
    namesPseudoClass (Span.text (p.name.map Span.plain)) = true := by
  cases p <;> decide

/-- A token with a pseudo-class behind it is read as before, with the pseudo-class. -/
theorem scan_suffix {relation : Relation} {c : Compound} (h : scan relation token = .ok c)
    (p : StaticPseudo) : scan relation (token ++ Selector.suffix p) = .ok (c.behind p) := by
  obtain ⟨l, hl⟩ := Layout.exists_layout_of_scan h
  obtain rfl := Except.ok.inj (h.symm.trans (Layout.scan_spans hl relation))
  have hplain : Span.resolve? (Selector.suffix p) = some ((Selector.suffix p).map Span.plain) := by
    apply resolve?_plain
    intro hm
    exact (Selector.suffix_word p _ hm).1 rfl
  let l' : Layout := ⟨l.tag, l.items ++ [.static ⟨p.name.map Span.plain, names_name p⟩]⟩
  have hl' : Span.resolve? (token ++ Selector.suffix p) = some l'.spans := by
    rw [Span.resolve?_append hl, hplain]
    simp [l', Layout.spans, Layout.Item.spans, Selector.suffix]
  have hname : Text.lower (Span.text (p.name.map Span.plain)) = p.name := by
    cases p <;> rfl
  rw [Layout.scan_spans hl']
  simp [l', Layout.compound, behind, Layout.Item.attribute?, Layout.Item.pseudo?, hname]

/-- So is a chain whose last token it is. -/
theorem exists_readAfter_suffix (htoken : Combinator.ofToken? token = none) {front : List Text}
    (h : readAfter before (front ++ [token]) = .ok cs) (p : StaticPseudo) :
    ∃ ds c, cs = ds ++ [c] ∧
      readAfter before (front ++ [token ++ Selector.suffix p]) = .ok (ds ++ [c.behind p]) := by
  induction front generalizing before cs with
  | nil =>
    obtain ⟨o, ho, h⟩ := Except.bind_eq_ok h
    obtain ⟨others, hothers, h⟩ := Except.bind_eq_ok h
    cases hothers
    cases h
    rw [read_eq, htoken] at ho
    obtain ⟨c, hc, rfl⟩ := Except.map_eq_ok ho
    -- A combinator is one character, and the pseudo-class has more.
    have htoken' : Combinator.ofToken? (token ++ Selector.suffix p) = none := by
      apply ofToken?_eq_none_of_length
      have hsuffix : 2 ≤ (Selector.suffix p).length := by cases p <;> decide
      rw [List.length_append]
      omega
    refine ⟨[], c, rfl, ?_⟩
    rw [List.nil_append, readAfter, read_eq, htoken', scan_suffix hc]
    rfl
  | cons t front ih =>
    obtain ⟨o, ho, h⟩ := Except.bind_eq_ok h
    obtain ⟨others, hothers, h⟩ := Except.bind_eq_ok h
    cases h
    obtain ⟨ds, c, rfl, hread⟩ := ih hothers
    refine ⟨o.toList ++ ds, c, (List.append_assoc ..).symm, ?_⟩
    rw [List.cons_append, readAfter, ho]
    show (readAfter (some t) _ >>= _) = _
    rw [hread, List.append_assoc]
    rfl

end Compound

/-! ## The path

The path is put together from tokens, and conditions are applied one after another to what there is
so far. A further pseudo-class is the last of these steps. It can be split off since the steps are a
fold, whatever a nested selector is compiled to. -/

/-- What a pseudo-class makes of the path in front of it. -/
def StaticPseudo.applyTo (p : StaticPseudo) (path : Text) : Text :=
  (if p.isResultScoped then '(' :: path ++ [')'] else path) ++ p.predicate

namespace Compound

section

variable (compile : Text → Compilation Text) (p : StaticPseudo)

def appliedTo (tokens : List Text) : List Text :=
  (if p.isResultScoped then ['('] :: tokens ++ [[')']] else tokens) ++ [p.predicate]

/-- Put together, the tokens are what the pseudo-class makes of the path. -/
theorem flatten_appliedTo (tokens : List Text) :
    (appliedTo p tokens).flatten = p.applyTo tokens.flatten := by
  cases h : p.isResultScoped <;> simp [appliedTo, StaticPseudo.applyTo, h]

/-- Pseudo-classes are applied one after another. -/
theorem appendPseudos_append (a b tokens : List Text) :
    appendPseudos compile (a ++ b) tokens =
      appendPseudos compile a tokens >>= appendPseudos compile b := by
  induction a generalizing tokens with
  | nil => exact (pure_bind tokens (appendPseudos compile b)).symm
  | cons f r ih =>
    show (Pseudo.apply compile f tokens >>= fun x => appendPseudos compile (r ++ b) (x.2 ++ [x.1])) =
      (Pseudo.apply compile f tokens >>= fun x => appendPseudos compile r (x.2 ++ [x.1])) >>= _
    rw [bind_assoc]
    congr 1
    funext x
    exact ih _

/-- One without an argument compiles nothing. -/
theorem appendPseudos_name (tokens : List Text) :
    appendPseudos compile [p.name] tokens = pure (appliedTo p tokens) := by
  have hnone : FunctionalPseudo.ofFragment? p.name = none := by cases p <;> rfl
  have happly : Pseudo.apply compile p.name tokens =
      pure (p.predicate, if p.isResultScoped then ['('] :: tokens ++ [[')']] else tokens) := by
    rw [Pseudo.apply, hnone]
    simp only [StaticPseudo.ofName?_name]
  rw [appendPseudos, happly]
  rfl

/-- The pseudo-class comes behind the other items. -/
theorem appendItems_behind (c : Compound) (tokens : List Text) :
    appendItems compile (c.behind p) tokens =
      appendItems compile c tokens >>= fun tokens => pure (appliedTo p tokens) := by
  show (appendTests c.attributes tokens >>= appendPseudos compile (c.pseudos ++ [p.name])) =
    (appendTests c.attributes tokens >>= appendPseudos compile c.pseudos) >>= _
  rw [bind_assoc]
  congr 1
  funext tokens
  rw [appendPseudos_append]
  congr 1
  funext tokens
  exact appendPseudos_name compile p tokens

/-- The pseudo-class comes behind all that is put together for its compound. -/
theorem appendStep_behind (c : Compound) (before : Option Compound) (tokens : List Text) :
    appendStep compile (c.behind p) before tokens =
      appendStep compile c before tokens >>= fun tokens => pure (appliedTo p tokens) := by
  -- Behind the sign for the next sibling the step is made in another way, with a test of the
  -- compound in front.
  by_cases hordinary : c.relation ≠ .stated .adjacent ∨ before = none
  · rw [appendStep_of_ordinary compile hordinary,
      appendStep_of_ordinary compile (c := c.behind p) hordinary]
    have hrelation : (c.behind p).relation = c.relation := rfl
    rw [hrelation]
    cases axis? c.relation with
    | none => rfl
    | some axis => exact appendItems_behind compile p c _
  · obtain ⟨hrelation, hbefore⟩ := not_or.1 hordinary
    obtain ⟨b, rfl⟩ := Option.ne_none_iff_exists'.1 hbefore
    obtain ⟨tag, relation, attributes, pseudos⟩ := c
    obtain rfl : relation = .stated .adjacent := by simpa using hrelation
    simp only [appendStep, behind]
    split
    · exact appendItems_behind compile p ⟨tag, .stated .adjacent, attributes, pseudos⟩ _
    · rw [bind_assoc]
      congr 1
      funext test
      exact appendItems_behind compile p ⟨tag, .stated .adjacent, attributes, pseudos⟩ _

/-- The pseudo-class of the last compound comes behind the chain. -/
theorem appendChain_behind (ds : List Compound) (c : Compound) (before : Option Compound)
    (tokens : List Text) :
    appendChain compile before (ds ++ [c.behind p]) tokens =
      appendChain compile before (ds ++ [c]) tokens >>= fun tokens => pure (appliedTo p tokens) := by
  induction ds generalizing before tokens with
  | nil =>
    show (appendStep compile (c.behind p) before tokens >>= fun tokens => pure tokens) =
      (appendStep compile c before tokens >>= fun tokens => pure tokens) >>= _
    rw [bind_pure, bind_pure]
    exact appendStep_behind compile p c before tokens
  | cons d r ih =>
    show (appendStep compile d before tokens >>= _) = (appendStep compile d before tokens >>= _) >>= _
    rw [bind_assoc]
    congr 1
    funext tokens
    exact ih (some d) tokens

theorem locationPath_behind (ds : List Compound) (c : Compound) :
    locationPath compile (ds ++ [c.behind p]) =
      locationPath compile (ds ++ [c]) >>= fun path => pure (p.applyTo path) := by
  show (appendChain compile none (ds ++ [c.behind p]) [] >>= fun tokens => pure tokens.flatten) =
    (appendChain compile none (ds ++ [c]) [] >>= fun tokens => pure tokens.flatten) >>= _
  rw [appendChain_behind, bind_assoc, bind_assoc]
  congr 1
  funext tokens
  rw [pure_bind, pure_bind, flatten_appliedTo]

end

end Compound

/-! ## What is compiled

The compilation of the longer selector makes the same calls to the compiler as that of the selector,
in the same order. With a cache there is one more way: the longer selector may be in the cache
already, and then it is there with what it comes to. -/

namespace Selector

variable {s : Text} {c : Pattern.Chain}

/-- A selector with a chain is not empty. -/
theorem ne_nil_of_chain (hc : chain s = .ok c) : s ≠ [] := by
  rintro rfl
  obtain ⟨hblank, -⟩ := exists_compounds hc
  cases hblank

/-- The compounds of a selector and those with a pseudo-class behind it. -/
theorem exists_compounds_suffix (hs : EndsInCompound s) (hc : chain s = .ok c) (p : StaticPseudo) :
    ∃ ds d, Compound.readChain (tokens s) = .ok (ds ++ [d]) ∧
      Compound.readChain (tokens (s ++ suffix p)) = .ok (ds ++ [d.behind p]) := by
  obtain ⟨k, hopen⟩ := exists_openAfter hc
  obtain ⟨-, cs, hcs, -⟩ := exists_compounds hc
  obtain ⟨front, token, htokens, htoken, hsuffix⟩ :=
    exists_tokens_suffix hs (ne_nil_of_chain hc) hopen p
  rw [htokens] at hcs
  obtain ⟨ds, d, rfl, hread⟩ := Compound.exists_readAfter_suffix htoken hcs p
  exact ⟨ds, d, htokens ▸ hcs, hsuffix ▸ hread⟩

theorem isAllBlank_suffix (s : Text) (p : StaticPseudo) :
    Text.isAllBlank (s ++ suffix p) = false := by
  have hcolon : Text.isBlank ':' = false := by decide
  simp [Text.isAllBlank, suffix, hcolon]

/-- However the selectors are compiled that it holds, a selector with a pseudo-class behind it is
compiled as the selector is, and then the pseudo-class is applied. -/
theorem compileUncached_behind (hs : EndsInCompound s) (hc : chain s = .ok c) (p : StaticPseudo)
    (compile : Text → Compilation Text) :
    compileUncached compile (s ++ suffix p) =
      compileUncached compile s >>= fun path => pure (p.applyTo path) := by
  obtain ⟨k, hopen⟩ := exists_openAfter hc
  obtain ⟨hblank, -⟩ := exists_compounds hc
  obtain ⟨ds, d, hread, hread'⟩ := exists_compounds_suffix hs hc p
  rw [compileUncached_single hblank hs.single, hread,
    compileUncached_single (isAllBlank_suffix s p) (length_alternatives_suffix hs.single hopen p),
    hread']
  show (if (ds ++ [d.behind p]).isEmpty then _ else Compound.locationPath compile _) =
    (if (ds ++ [d]).isEmpty then _ else Compound.locationPath compile _) >>= _
  rw [if_neg (by simp), if_neg (by simp)]
  exact Compound.locationPath_behind compile p ds d

theorem outcome_bind_applyTo {a : Compilation Text} {m : Memory} {x : Text} (h : a.outcome m = .ok x)
    (p : StaticPseudo) : (a >>= fun path => pure (p.applyTo path)).outcome m = .ok (p.applyTo x) := by
  rw [outcome_bind_of_ok h]
  rfl

theorem outcome_compileUncached_unlimited (s : Text) (m : Memory) :
    (compileUncached compileUnlimited s).outcome m = expression s := by
  have h := outcome_compileUnlimited s m
  rw [compileUnlimited_eq] at h
  cases ho : (compileUncached compileUnlimited s).outcome m with
  | error e => rw [← h, outcome_bind_of_error ho]
  | ok x =>
    rw [← h, outcome_bind_of_ok ho]
    rfl

/-- What a selector with a pseudo-class behind it comes to, where neither a cache nor a limit has a
part in it. -/
theorem expression_behind (hs : EndsInCompound s) (hc : chain s = .ok c) {x : Text}
    (hx : expression s = .ok x) (p : StaticPseudo) :
    expression (s ++ suffix p) = .ok (p.applyTo x) := by
  rw [← outcome_compileUncached_unlimited s {}] at hx
  rw [← outcome_compileUncached_unlimited _ {}, compileUncached_behind hs hc]
  exact outcome_bind_applyTo hx p

theorem xpath_singleton (c : Pattern.Chain) : Pattern.xpath [c] = c.xpath := by
  simp [Pattern.xpath]

/-- What has been compiled from one alternative is the path of a chain. -/
theorem chain_of_outcome {settings : Settings} {m : Memory} {x : Text}
    (hone : (alternatives s).length = 1) (hm : m.cache.Sound)
    (h : (compile settings s).outcome m = .ok x) :
    ∃ c, chain s = .ok c ∧ pattern s = .ok [c] ∧ x = c.xpath := by
  obtain ⟨q, hq, rfl⟩ := exists_pattern_of_outcome hm h
  obtain ⟨c, hc, rfl⟩ := exists_chain_of_pattern hq (by omega)
  exact ⟨c, hc, hq, xpath_singleton c⟩

/-- A selector that a compiler compiles it compiles with a pseudo-class behind it, too, to what the
pseudo-class makes of the path. The cache may know anything that compiling has put into it; only if
it knows the selector itself, there must be a level left to look up what the selector holds. -/
theorem outcome_behind (hs : EndsInCompound s) {settings : Settings} {m : Memory}
    (hm : m.cache.Sound) (hcomplete : m.cache.Complete)
    (hlevels : 1 ≤ settings.maxDepth ∨ m.cache.get? s = none) {x : Text}
    (h : (compile settings s).outcome m = .ok x) (p : StaticPseudo) :
    (compile settings (s ++ suffix p)).outcome m = .ok (p.applyTo x) := by
  obtain ⟨c, hc, hpattern, rfl⟩ := chain_of_outcome hs.single hm h
  have hexpression : expression s = .ok c.xpath := by
    rw [expression, hpattern]
    exact congrArg Except.ok (xpath_singleton c)
  obtain ⟨n, hn⟩ : ∃ n, settings.levels = n + 1 := by
    apply Nat.exists_eq_succ_of_ne_zero
    intro hzero
    rw [compile, hzero] at h
    cases h
  have hlevels : 1 ≤ n ∨ m.cache.get? s = none := by
    apply hlevels.imp_left
    rw [Settings.levels] at hn
    omega
  rw [compile, hn] at h ⊢
  have huncached {m' : Memory} (hm' : m'.cache = m.cache) :
      (compileUncached (compileAt settings.useCache n 1) (s ++ suffix p)).outcome m' =
        .ok (p.applyTo c.xpath) := by
    rw [compileUncached_behind hs hc]
    exact outcome_bind_applyTo (outcome_compileUncached hcomplete hm' hlevels h) p
  cases huse : settings.useCache with
  | false =>
    rw [huse] at huncached
    rw [(run_compileAt_false n 0 _ m).1]
    exact huncached rfl
  | true =>
    rw [huse] at huncached
    cases hget : m.cache.get? (s ++ suffix p) with
    | some y =>
      have hy := hm.expression_eq hget
      rw [expression_behind hs hc hexpression p] at hy
      rw [(run_compileAt_of_get? hget).1, hy]
    | none =>
      rw [(run_compileAt_of_none hget).1]
      exact huncached rfl

end Selector

end TreeQuery
