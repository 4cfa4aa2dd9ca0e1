import TreeQuery.Proofs.XPath.Operand

/-!
# Names, texts, numbers and functions

The operands that are no paths. A name ends in front of any character that is not part of a name; a
text may hold every character but the apostrophe that it is enclosed in.
-/

namespace TreeQuery

namespace XPath.Expr

open Grammar (Spells)

/-! ## Names

A name at the beginning of an operand may be that of a step or of a function. The reader decides by
looking for a parenthesis. -/

section

variable {n r : Text}

/-- A name can begin an operand. -/
theorem begins_name (hn : Text.isName n = true) : begins n = true := by
  cases n with
  | nil => cases hn
  | cons c n =>
    rw [Text.isName, Bool.and_eq_true] at hn
    have hspace : Text.isSpace c = false := Text.isSpace_eq_false hn.1 (by decide)
    simp [begins, hspace, Text.ne_of_kind hn.1 (d := '-') (by decide),
      Text.ne_of_kind hn.1 (d := ')') (by decide)]

theorem beginsWithPrimary?_append (hn : Text.isName n = true) (r : Text) :
    beginsWithPrimary? (n ++ r) = some (beginsWithCall (n ++ r)) := by
  cases n with
  | nil => cases hn
  | cons c n =>
    rw [Text.isName, Bool.and_eq_true] at hn
    simp [beginsWithPrimary?, isDigit_of_isNameStart hn.1, hn.1,
      Text.ne_of_kind hn.1 (d := '.') (by decide),
      Text.ne_of_kind hn.1 (d := '$') (by decide),
      Text.ne_of_kind hn.1 (d := '(') (by decide),
      Text.ne_of_kind hn.1 (d := '\'') (by decide),
      Text.ne_of_kind hn.1 (d := '"') (by decide),
      Text.ne_of_kind hn.1 (d := '*') (by decide),
      Text.ne_of_kind hn.1 (d := '/') (by decide),
      Text.ne_of_kind hn.1 (d := '@') (by decide)]

/-- A name begins a call if a parenthesis follows and it is no kind of node. -/
theorem beginsWithPrimary?_name (hn : Text.isName n = true)
    (hr : r.head?.all (!isQNamePart ·) = true) : beginsWithPrimary? (n ++ r) =
      some (match (skip r).val with
        | c :: _ => c = '(' && !isNodeType n
        | [] => false) := by
  obtain ⟨ht, hd⟩ := Text.takeWhile_of_all (all_isQNamePart hn) hr
  rw [beginsWithPrimary?_append hn, beginsWithCall, ht, hd,
    Text.holds_eq_false (by simp) (not_colon_mem hn)]
  rfl

end

/-! ## Paths that are one primary

A literal, a number or a call is a path without steps, if neither a bracket nor a slash follows. -/

/-- A primary is a path if one ends behind it. -/
theorem gives_path_primary {s r : Text} {e : Expr}
    (h : beginsWithPrimary? (skip s).val = some true) (hp : Gives (readPrimary (skip s).val) e r)
    (hr : endsPath r = true) : Gives (readPath s) e (skip r).val := by
  obtain ⟨hb, hs⟩ := head?_of_endsPath hr
  exact gives_path_of_primary h hp (gives_filters_stop e hb) (gives_slashes_stop e hs)

theorem gives_readUpTo? {q : Char} {v : Text} (h : q ∉ v) (r : Text) :
    Gives (readUpTo? q (v ++ q :: r)) v r := by
  induction v with
  | nil => exact ⟨by simp, by simp [readUpTo?, Shorter.behind, NoLonger.all]⟩
  | cons c v ih =>
    rw [List.mem_cons, not_or] at h
    obtain ⟨p, hp⟩ := ih h.2
    have hr : readUpTo? q (c :: (v ++ q :: r)) =
        some (c :: v, ⟨r, Nat.lt_succ_of_lt p⟩) := by
      rw [readUpTo?, if_neg (Ne.symm h.1), hp]
      rfl
    exact ⟨_, hr⟩

/-- A text between apostrophes. -/
theorem ReadsPath.literal {v : Text} (h : '\'' ∉ v) :
    ReadsPath false ('\'' :: (v ++ ['\''])) (.literal v) := by
  refine ⟨rfl, fun {s r} hs _ hr => ?_, (Spells.literal h).ofPrimary⟩
  have hv : (skip s).val = '\'' :: (v ++ '\'' :: r) := by rw [hs]; simp
  obtain ⟨p, hp⟩ := gives_readUpTo? h r
  have hl : Gives (readLiteral? ('\'' :: (v ++ '\'' :: r))) v r := by
    refine ⟨by simp; omega, ?_⟩
    rw [readLiteral?, if_pos (by rfl), hp]
    rfl
  rw [← hv] at hl
  exact gives_path_primary (by rw [hv]; rfl)
    (gives_primary_literal hl (by rw [hv]; simp) (by rw [hv]; simp)) hr

/-! ## Numbers

Digits are read as a decimal number, which may go on with a point or an exponent. Neither can follow
here, since a name would go on there too. -/

theorem ofDecimal_digits (t : Text) : Number.ofDecimal t [] 0 = .whole (Number.ofDigits t) := by
  have hpower : Number.powerOfTen 0 = 1 := by simp [Number.powerOfTen]
  by_cases h : Number.ofDigits t = 0
  · simp [Number.ofDecimal, h]
  · simp [Number.ofDecimal, h, hpower, Number.ofRat]

/-- Digits are read up to where they end. -/
theorem gives_readNumber? {t r : Text} (ht : t.all Char.isDigit = true) (hne : t ≠ [])
    (hr : r.head?.all (!isQNamePart ·) = true) :
    Gives (readNumber? (t ++ r)) (.whole (Number.ofDigits t)) r := by
  have hdigit : r.head?.all (!Char.isDigit ·) = true := head?_not_isDigit hr
  obtain ⟨htake, hdrop⟩ := Text.takeWhile_of_all ht hdigit
  have hread : Number.readNumber? (t ++ r) = some (.whole (Number.ofDigits t), r) := by
    have hempty : t.isEmpty = false := by
      cases t with
      | nil => exact absurd rfl hne
      | cons => rfl
    unfold Number.readNumber?
    rw [htake, hdrop]
    cases r with
    | nil => simp [hempty, Number.readExponent, ofDecimal_digits]
    | cons c r =>
      have hc : isQNamePart c = false := by simpa using hr
      have hne' : c ≠ '.' ∧ c ≠ 'e' ∧ c ≠ 'E' := by
        refine ⟨?_, ?_, ?_⟩ <;> · rintro rfl; revert hc; decide
      simp [hempty, Number.readExponent, ofDecimal_digits, hne'.1, hne'.2.1, hne'.2.2]
  have hlt : r.length < (t ++ r).length := by
    have := List.length_pos_iff.2 hne
    rw [List.length_append]
    omega
  refine ⟨hlt, ?_⟩
  rw [readNumber?, hread]
  simp only [hlt, dif_pos]

/-- Digits. -/
theorem ReadsPath.number {t : Text} (ht : t.all Char.isDigit = true) (hne : t ≠ []) :
    ReadsPath true t (.number (.whole (Number.ofDigits t))) := by
  obtain ⟨c, t, rfl⟩ := List.exists_cons_of_ne_nil hne
  have hc : c.isDigit = true := by
    rw [List.all_cons, Bool.and_eq_true] at ht
    exact ht.1
  -- A digit is none of the characters that begin something else.
  have hother : ∀ d ∈ [' ', '\t', '\n', '\r', '-', ')', '.', '\'', '"', '$', '('], c ≠ d := by
    rintro d hd rfl
    revert hc
    simp only [List.mem_cons, List.not_mem_nil, or_false] at hd
    rcases hd with rfl | rfl | rfl | rfl | rfl | rfl | rfl | rfl | rfl | rfl | rfl <;> decide
  simp only [List.mem_cons, List.not_mem_nil, or_false, forall_eq_or_imp, forall_eq] at hother
  refine ⟨by simp [Expr.begins, Text.isSpace, hother], fun {s r} hs hn hr => ?_,
    (Spells.number ht hne).ofPrimary⟩
  have hb : beginsWithPrimary? (skip s).val = some true := by
    rw [hs]
    simp [beginsWithPrimary?, hother, hc]
  have hnum := gives_readNumber? ht hne (of_endsName (hn rfl)).1
  rw [← hs] at hnum
  refine gives_path_primary hb (gives_primary_number hnum ?_ ?_ ?_) hr
  · rw [hs]
    simp [readLiteral?, hother]
  · rw [hs]
    simp [hother]
  · rw [hs]
    simp [hother]

/-- A number in decimal digits. -/
theorem ReadsPath.toDigits (n : Nat) : ReadsPath true (Nat.toDigits 10 n) (.number (.whole n)) := by
  have hd : (Nat.toDigits 10 n).all Char.isDigit = true :=
    List.all_eq_true.2 fun c hc => Nat.isDigit_of_mem_toDigits (by decide) (by decide) hc
  have hn : Number.ofDigits (Nat.toDigits 10 n) = n :=
    Nat.ofDigitChars_toDigits (by decide) (by decide)
  have := ReadsPath.number hd Nat.toDigits_ne_nil
  rwa [hn] at this

/-! ## Functions

The name of a function is not that of a type of nodes. Its arguments are read one after another,
each an operand that ends at a comma or at the closing parenthesis. -/

theorem readLiteral?_name {f : Text} (hf : Text.isName f = true) (r : Text) :
    readLiteral? (f ++ r) = none := by
  cases f with
  | nil => cases hf
  | cons c f =>
    rw [Text.isName, Bool.and_eq_true] at hf
    simp [readLiteral?, Text.ne_of_kind hf.1 (d := '\'') (by decide),
      Text.ne_of_kind hf.1 (d := '"') (by decide)]

theorem readNumber?_name {f : Text} (hf : Text.isName f = true) (r : Text) :
    readNumber? (f ++ r) = none := by
  cases f with
  | nil => cases hf
  | cons c f =>
    rw [Text.isName, Bool.and_eq_true] at hf
    have hnone : Number.readNumber? (c :: (f ++ r)) = none := by
      simp [Number.readNumber?, isDigit_of_isNameStart hf.1,
        Text.ne_of_kind hf.1 (d := '.') (by decide)]
    rw [List.cons_append, readNumber?, hnone]

/-- Operands with commas between them. -/
structure ReadsArguments (t : Text) (es : List Expr) : Prop where
  begins : begins t = true
  gives {s r : Text} : (skip s).val = t ++ ')' :: r → Gives (readFurther s) es r
  spells : Spells true .arguments t

/-- One operand. -/
theorem ReadsArguments.one {t : Text} {e : Expr} (h : Reads true 0 t e) :
    ReadsArguments t [e] :=
  ⟨h.begins, fun hs => gives_further_last (h.gives hs (fun _ => rfl) rfl), h.spells.one⟩

/-- One more operand in front. -/
theorem ReadsArguments.more {t g u : Text} {e : Expr} {es : List Expr} (h : Reads true 0 t e)
    (hg : g.all Text.isSpace = true) (hu : ReadsArguments u es) :
    ReadsArguments (t ++ ',' :: (g ++ u)) (e :: es) := by
  refine ⟨begins_append h.begins _, fun {s r} hs => ?_, h.spells.more hg hu.spells⟩
  have hs' : (skip s).val = t ++ ',' :: (g ++ (u ++ ')' :: r)) := by rw [hs]; simp
  have hskip : (skip (g ++ (u ++ ')' :: r))).val = u ++ ')' :: r := by
    rw [skip_append hg, skip_of_begins hu.begins]
  exact gives_further_step (h.gives hs' (fun _ => rfl) rfl) (hu.gives hskip)

def isFunctionName (f : Text) : Bool := Text.isName f && !isNodeType f

theorem of_isFunctionName {f : Text} (hf : isFunctionName f = true) :
    Text.isName f = true ∧ isNodeType f = false := by
  rw [isFunctionName, Bool.and_eq_true, Bool.not_eq_true'] at hf
  exact hf

theorem gives_readQName? {f r : Text} (hf : Text.isName f = true) :
    Gives (readQName? (f ++ '(' :: r)) ⟨[], f⟩ ('(' :: r) := by
  obtain ⟨p, hp⟩ := gives_readName? (r := '(' :: r) hf rfl
  rw [readQName?, hp]
  exact ⟨p, rfl⟩

/-- A call is read if its arguments are. -/
theorem ReadsPath.ofArguments {f t : Text} {es : List Expr} (hf : isFunctionName f = true)
    (h : ∀ r, Gives (readArguments (t ++ r)) es r)
    (ht : Spells false .primary (f ++ '(' :: t)) :
    ReadsPath false (f ++ '(' :: t) (.call ⟨[], f⟩ es) := by
  obtain ⟨hname, htype⟩ := of_isFunctionName hf
  refine ⟨begins_append (begins_name hname) _, fun {s r} hs _ hr => ?_, ht.ofPrimary⟩
  have hs' : (skip s).val = f ++ '(' :: (t ++ r) := by rw [hs]; simp
  have hprimary : beginsWithPrimary? (skip s).val = some true := by
    rw [hs', beginsWithPrimary?_name hname rfl, skip_cons rfl]
    simpa using htype
  have hq := gives_readQName? (r := t ++ r) hname
  have hliteral := readLiteral?_name hname ('(' :: (t ++ r))
  have hnumber := readNumber?_name hname ('(' :: (t ++ r))
  rw [← hs'] at hq hnumber hliteral
  refine gives_path_primary hprimary
    (gives_primary_call hq (skip_cons rfl _) (h r) hnumber hliteral ?_ ?_) hr
  · rw [hs']
    exact head?_name hname (by decide) _
  · rw [hs']
    exact head?_name hname (by decide) _

/-- A function without arguments. -/
theorem ReadsPath.callNil {f : Text} (hf : isFunctionName f = true) :
    ReadsPath false (f ++ "()".toList) (.call ⟨[], f⟩ []) := by
  obtain ⟨hname, htype⟩ := of_isFunctionName hf
  exact ReadsPath.ofArguments (t := [')']) hf (fun r => gives_arguments_nil (skip_cons rfl r))
    (.callNil hname htype)

/-- A function with arguments. -/
theorem ReadsPath.call {f t : Text} {es : List Expr} (hf : isFunctionName f = true)
    (h : ReadsArguments t es) : ReadsPath false (f ++ '(' :: (t ++ [')'])) (.call ⟨[], f⟩ es) := by
  obtain ⟨hname, htype⟩ := of_isFunctionName hf
  refine ReadsPath.ofArguments hf (fun r => ?_) (.call hname htype h.spells)
  have ht : t ++ [')'] ++ r = t ++ ')' :: r := by simp
  have hskip := skip_of_begins h.begins (')' :: r)
  rw [ht]
  exact gives_arguments (by rw [hskip]; exact (head?_of_begins h.begins _).2) (h.gives hskip)

end XPath.Expr

end TreeQuery
