import TreeQuery.Proofs.Picking.Suffix
import TreeQuery.Proofs.WhiteSpace.Agreement

/-!
# White space between tokens

A run of white space with no parenthesis open in front of it separates the tokens on both sides of
it, however long it is and whatever characters it is made of. Where it stands at an end of an
alternative it is trimmed off, together with any other blanks there.

Main statement: `Selector.Gap.agrees`.
-/

namespace TreeQuery

/-! ## Pieces around a place

Where two texts meet, the last piece of the one and the first of the other are one piece. What is
cut in the second depends on the first only by the number of parentheses that it leaves open. -/

namespace Pieces

variable {separates : Char → Bool} {depth k : Int} {s : Text}

def first (p : Pieces) : Text :=
  match p.ended with
  | [] => p.last
  | (t, _) :: _ => t

def later (p : Pieces) : List Text := p.toList.tail

def earlier (p : Pieces) : List Text := p.ended.map (·.1)

/-- A text in front is in the first piece. -/
theorem first_extend (front : Text) (p : Pieces) : (p.extend front).first = front ++ p.first := by
  obtain ⟨ended, last⟩ := p
  cases ended <;> rfl

theorem later_extend (front : Text) (p : Pieces) : (p.extend front).later = p.later := by
  obtain ⟨ended, last⟩ := p
  cases ended <;> rfl

theorem toList_eq_cons (p : Pieces) : p.toList = p.first :: p.later := by
  obtain ⟨ended, last⟩ := p
  cases ended <;> rfl

/-- The piece around the place between two texts belongs to both. -/
theorem toList_cut_append (h : openAfter depth s = some k) (r : Text) :
    (cut separates depth (s ++ r)).toList =
      (cut separates depth s).earlier ++
        ((cut separates depth s).last ++ (cut separates k r).first) :: (cut separates k r).later := by
  rw [cut_append h, toList_append, toList_eq_cons, first_extend, later_extend]
  rfl

/-- Nothing is cut in two texts if nothing is cut in either. -/
theorem uncut_append_iff (h : openAfter depth s = some k) (r : Text) :
    (cut separates depth (s ++ r)).ended = [] ↔
      (cut separates depth s).ended = [] ∧ (cut separates k r).ended = [] := by
  rw [cut_append h, append, List.append_eq_nil_iff, ended_extend_eq_nil]

/-- The parentheses are counted on. -/
theorem openAfter_append (h : openAfter depth s = some k) (r : Text) :
    openAfter depth (s ++ r) = openAfter k r := by
  fun_induction openAfter depth s with
  | case1 depth =>
    cases h
    rfl
  | case2 depth => cases h
  | case3 depth c s ih => exact ih h
  | case4 depth s ih => exact ih h
  | case5 depth s ih => exact ih h
  | case6 depth c s h1 h2 h3 h4 ih =>
    rw [List.cons_append, openAfter_cons (ne_backslash_of_rest h1 h2) h3 h4]
    exact ih h

/-- A text without parentheses and backslashes leaves as many open as there are. -/
theorem openAfter_plain {w : Text} (hw : ∀ c ∈ w, c ≠ '\\' ∧ c ≠ '(' ∧ c ≠ ')') (depth : Int) :
    openAfter depth w = some depth := by
  induction w with
  | nil => rfl
  | cons c r ih =>
    obtain ⟨⟨h1, h2, h3⟩, hr⟩ := List.forall_mem_cons.1 hw
    rw [openAfter_cons h1 h2 h3]
    exact ih hr

end Pieces

/-! ## Blanks at the ends

Trimming goes as far as the first character that is no blank, on each side. What blanks are is wider
than what separates tokens: other white space is trimmed off as well, but stands for itself between
tokens. -/

namespace Text

variable {s t : Text}

theorem ne_of_isBlank {c : Char} (h : isBlank c = true) : c ≠ '\\' ∧ c ≠ '(' ∧ c ≠ ')' := by
  refine ⟨?_, ?_, ?_⟩ <;>
  · rintro rfl
    exact absurd h (by decide)

theorem isAllBlank_iff : isAllBlank s = true ↔ ∀ c ∈ s, isBlank c = true := List.all_eq_true

theorem isAllBlank_append (s t : Text) :
    isAllBlank (s ++ t) = (isAllBlank s && isAllBlank t) := List.all_append

/-- A text that is not blank keeps what is behind it. -/
theorem trimStart_append (hs : isAllBlank s = false) (t : Text) :
    trimStart (s ++ t) = trimStart s ++ t := by
  rw [trimStart, List.dropWhile_append, if_neg]
  · rfl
  · intro h
    have hblank := List.dropWhile_eq_nil_iff.1 (List.isEmpty_iff.1 h)
    rw [isAllBlank_iff.2 hblank] at hs
    cases hs

theorem isAllBlank_reverse (s : Text) : isAllBlank s.reverse = isAllBlank s := List.all_reverse

theorem trimEnd_eq_reverse (s : Text) : trimEnd s = (trimStart s.reverse).reverse := rfl

theorem trimEnd_append (ht : isAllBlank t = false) (s : Text) :
    trimEnd (s ++ t) = s ++ trimEnd t := by
  rw [← isAllBlank_reverse] at ht
  rw [trimEnd_eq_reverse, trimEnd_eq_reverse, List.reverse_append, trimStart_append ht,
    List.reverse_append, List.reverse_reverse]

theorem trimEnd_append_of_blank (ht : isAllBlank t = true) (s : Text) :
    trimEnd (s ++ t) = trimEnd s := by
  rw [← isAllBlank_reverse, isAllBlank_iff] at ht
  rw [trimEnd_eq_reverse, trimEnd_eq_reverse, List.reverse_append, trimStart_append_of_blank ht]

/-- A character that is no blank keeps what stands on its other side. -/
theorem trimStart_append_cons {c : Char} (hc : isBlank c = false) (s r : Text) :
    trimStart (s ++ c :: r) = trimStart s ++ c :: r := by
  cases hs : isAllBlank s with
  | false => exact trimStart_append hs _
  | true =>
    have hblank := isAllBlank_iff.1 hs
    have hnil : trimStart s = [] := List.dropWhile_eq_nil_iff.2 hblank
    rw [trimStart_append_of_blank hblank, hnil, trimStart, List.dropWhile_cons_of_neg (by simp [hc])]
    rfl

theorem trimEnd_append_cons {c : Char} (hc : isBlank c = false) (s r : Text) :
    trimEnd (s ++ c :: r) = s ++ c :: trimEnd r := by
  have hblank : isAllBlank (c :: r) = false := by simp [isAllBlank, hc]
  rw [trimEnd_append hblank, trimEnd_cons hc]

/-- What is trimmed off in front is blank. -/
theorem exists_trimStart (s : Text) :
    ∃ b, (∀ c ∈ b, isBlank c = true) ∧ s = b ++ trimStart s :=
  ⟨s.takeWhile isBlank, fun _ hc => List.mem_takeWhile_imp hc,
    List.takeWhile_append_dropWhile.symm⟩

/-- What is trimmed off behind is blank. -/
theorem exists_trimEnd (s : Text) : ∃ b, (∀ c ∈ b, isBlank c = true) ∧ s = trimEnd s ++ b := by
  obtain ⟨b, hb, hs⟩ := exists_trimStart s.reverse
  refine ⟨b.reverse, fun c hc => hb c (List.mem_reverse.1 hc), ?_⟩
  rw [trimEnd_eq_reverse, ← List.reverse_append, ← hs, List.reverse_reverse]

/-- What stands between texts that are not blank is not trimmed. -/
theorem trim_append (hs : isAllBlank s = false) (ht : isAllBlank t = false) (m : Text) :
    trim (s ++ m ++ t) = trimStart s ++ m ++ trimEnd t := by
  rw [trim, List.append_assoc, trimStart_append hs, ← List.append_assoc, trimEnd_append ht]

end Text

/-! ## Runs

A place is described by the two texts around it. The run itself is left out of the description, as
any other run can stand there. -/

namespace Selector

/-- White space, at least one character of it. -/
structure IsRun (w : Text) : Prop where
  ne_nil : w ≠ []
  separates : ∀ c ∈ w, isSeparator c = true

/-- A place between two texts at which white space separates tokens of one alternative: the first
text does not end within an escape and leaves no parenthesis open, and no comma separates
alternatives. -/
structure Gap (x : Text) (k : Int) (y : Text) : Prop where
  opened : Pieces.openAfter 0 x = some k
  outside : k ≤ 0
  left : (Pieces.cut (· == ',') 0 x).ended = []
  right : (Pieces.cut (· == ',') k y).ended = []

/-- A text without separating commas is its own only alternative, trimmed. -/
theorem alternatives_of_uncut {s : Text} (h : (Pieces.cut (· == ',') 0 s).ended = []) :
    alternatives s = [Text.trim s] := by
  rw [alternatives, Pieces.toList_of_uncut h]
  rfl

section

variable {x y w : Text} {k : Int}

/-- A blank text has no comma. -/
theorem uncut_of_blank (hw : ∀ c ∈ w, Text.isBlank c = true) (k : Int) :
    (Pieces.cut (· == ',') k w).ended = [] := by
  have hword : ∀ c ∈ w, c ≠ '\\' ∧ c ≠ '(' ∧ c ≠ ')' ∧ (c == ',') = false := by
    intro c hc
    obtain ⟨h1, h2, h3⟩ := Text.ne_of_isBlank (hw c hc)
    refine ⟨h1, h2, h3, beq_eq_false_iff_ne.2 ?_⟩
    rintro rfl
    exact absurd (hw _ hc) (by decide)
  rw [Pieces.cut_word hword]

/-! ### Trimming the texts around a place

Trimming changes neither how many parentheses are open nor whether a comma separates. -/

theorem openAfter_trimStart (h : Pieces.openAfter 0 x = some k) :
    Pieces.openAfter 0 (Text.trimStart x) = some k := by
  obtain ⟨b, hb, hx⟩ := Text.exists_trimStart x
  have hplain := Pieces.openAfter_plain (fun c hc => Text.ne_of_isBlank (hb c hc)) 0
  rw [← Pieces.openAfter_append hplain, ← hx]
  exact h

theorem uncut_trimStart {separates : Char → Bool} (h : (Pieces.cut separates 0 x).ended = []) :
    (Pieces.cut separates 0 (Text.trimStart x)).ended = [] := by
  obtain ⟨b, hb, hx⟩ := Text.exists_trimStart x
  apply Pieces.uncut_of_blanks hb
  rw [← hx]
  exact h

theorem uncut_trimEnd {separates : Char → Bool} (h : (Pieces.cut separates k y).ended = []) :
    (Pieces.cut separates k (Text.trimEnd y)).ended = [] := by
  obtain ⟨b, -, hy⟩ := Text.exists_trimEnd y
  apply @Pieces.uncut_of_append _ _ _ b
  rw [← hy]
  exact h

/-! ### Runs between texts

In front of the run is a number of whole tokens, and behind it another. Only at the ends of an
alternative one of the two may be missing, and then the run is trimmed off. -/

theorem IsRun.blank (h : IsRun w) : ∀ c ∈ w, Text.isBlank c = true :=
  fun c hc => isBlank_of_isSeparator (h.separates c hc)

theorem IsRun.isAllBlank (h : IsRun w) : Text.isAllBlank w = true := Text.isAllBlank_iff.2 h.blank

theorem IsRun.openAfter (h : IsRun w) (k : Int) : Pieces.openAfter k w = some k :=
  Pieces.openAfter_plain (fun c hc => Text.ne_of_isBlank (h.blank c hc)) k

theorem IsRun.uncut (h : IsRun w) (k : Int) : (Pieces.cut (· == ',') k w).ended = [] :=
  uncut_of_blank h.blank k

/-- Separators in front of a text make no token, wherever no parenthesis is open. -/
theorem filter_cut_separators (hw : ∀ c ∈ w, isSeparator c = true) (hk : k ≤ 0) (y : Text) :
    (Pieces.cut isSeparator k (w ++ y)).toList.filter (!·.isEmpty) =
      (Pieces.cut isSeparator k y).toList.filter (!·.isEmpty) := by
  induction w with
  | nil => rfl
  | cons c r ih =>
    obtain ⟨hc, hr⟩ := List.forall_mem_cons.1 hw
    rw [List.cons_append, cut_separator hc hk, ← ih hr]
    rfl

/-- The tokens around a run are those in front of it and those behind it. -/
theorem tokens_run (hopen : Pieces.openAfter 0 x = some k) (hk : k ≤ 0) (hw : IsRun w) (y : Text) :
    tokens (x ++ w ++ y) =
      tokens x ++ (Pieces.cut isSeparator k y).toList.filter (!·.isEmpty) := by
  obtain ⟨c, r, rfl⟩ := List.exists_cons_of_ne_nil hw.ne_nil
  obtain ⟨hc, hr⟩ := List.forall_mem_cons.1 hw.separates
  have hfirst : (Pieces.cut isSeparator k (c :: r ++ y)).toList =
      [] :: (Pieces.cut isSeparator k (r ++ y)).toList := by
    rw [List.cons_append, cut_separator hc hk]
    rfl
  rw [Pieces.toList_eq_cons, List.cons.injEq] at hfirst
  rw [tokens, List.append_assoc, Pieces.toList_cut_append hopen, hfirst.1, hfirst.2,
    List.append_nil, List.append_cons, List.filter_append, filter_cut_separators hr hk]
  rfl

namespace Gap

theorem uncut (h : Gap x k y) (hw : IsRun w) :
    (Pieces.cut (· == ',') 0 (x ++ w ++ y)).ended = [] := by
  rw [List.append_assoc, Pieces.uncut_append_iff h.opened,
    Pieces.uncut_append_iff (hw.openAfter k)]
  exact ⟨h.left, hw.uncut k, h.right⟩

/-- Trimming the texts on both sides leaves the place as it is. -/
theorem trim (h : Gap x k y) : Gap (Text.trimStart x) k (Text.trimEnd y) :=
  ⟨openAfter_trimStart h.opened, h.outside, uncut_trimStart h.left, uncut_trimEnd h.right⟩

variable {w' : Text}

theorem isAllBlank_eq (hw : IsRun w) (hw' : IsRun w') (x y : Text) :
    Text.isAllBlank (x ++ w' ++ y) = Text.isAllBlank (x ++ w ++ y) := by
  simp only [Text.isAllBlank_append, hw.isAllBlank, hw'.isAllBlank]

theorem entails_chain (h : Gap x k y) (hw : IsRun w) (hw' : IsRun w') :
    Entails (chain (x ++ w ++ y)) (chain (x ++ w' ++ y)) := by
  apply entails_chain_of_tokens (isAllBlank_eq hw hw' x y)
  rw [tokens_run h.opened h.outside hw, tokens_run h.opened h.outside hw']

/-- A run at an end is trimmed off, and any other run stays between what is trimmed. -/
theorem entails_chain_trim (h : Gap x k y) (hw : IsRun w) (hw' : IsRun w') :
    Entails (chain (Text.trim (x ++ w ++ y))) (chain (Text.trim (x ++ w' ++ y))) := by
  -- The run stands at the beginning, at the end, or between two texts that stay.
  cases hx : Text.isAllBlank x with
  | true =>
    have htrim {v : Text} (hv : IsRun v) : Text.trim (x ++ v ++ y) = Text.trim y := by
      have hblank : Text.isAllBlank (x ++ v) = true := by
        rw [Text.isAllBlank_append, hx, hv.isAllBlank]
        rfl
      rw [Text.trim, Text.trimStart_append_of_blank (Text.isAllBlank_iff.1 hblank)]
      rfl
    rw [htrim hw, htrim hw']
    exact .refl _
  | false =>
    cases hy : Text.isAllBlank y with
    | true =>
      have htrim {v : Text} (hv : IsRun v) : Text.trim (x ++ v ++ y) = Text.trim x := by
        have hblank : Text.isAllBlank (v ++ y) = true := by
          rw [Text.isAllBlank_append, hv.isAllBlank, hy]
          rfl
        rw [Text.trim, List.append_assoc, Text.trimStart_append hx,
          Text.trimEnd_append_of_blank hblank]
        rfl
      rw [htrim hw, htrim hw']
      exact .refl _
    | false =>
      rw [Text.trim_append hx hy, Text.trim_append hx hy]
      exact h.trim.entails_chain hw hw'

/-- It makes no difference which run of white space stands between two tokens. -/
theorem agrees (h : Gap x k y) (hw : IsRun w) (hw' : IsRun w') :
    Agrees (x ++ w ++ y) (x ++ w' ++ y) where
  blank := isAllBlank_eq hw hw' x y
  parts := by
    rw [alternatives_of_uncut (h.uncut hw), alternatives_of_uncut (h.uncut hw')]
    exact .cons (h.entails_chain_trim hw hw') .nil
  single := fun _ => h.entails_chain hw hw'

end Gap

end

end Selector

end TreeQuery
