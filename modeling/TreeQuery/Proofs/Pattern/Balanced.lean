import TreeQuery.Proofs.Pattern.Part

/-!
# Balanced spans

Spans are balanced if each unescaped parenthesis has its counterpart. Splitting at the top level
passes over what stands in parentheses, and so does the reader that looks for the parenthesis in
front of an argument; both pass over escaped characters. A balanced part of a text can therefore be
dealt with on its own.

Main statements: `Balanced.cut_append` and `Balanced.splitArgument?_append`.
-/

namespace TreeQuery

/-! An escaped parenthesis is a character like any other, so that the balance is one of spans and
not of characters. The kind `p` is asked of the characters outside of parentheses; inside them any
character may stand. -/

/-- Each unescaped parenthesis has its counterpart, no unescaped character is a backslash, and those
outside of parentheses are of one kind. -/
inductive Balanced : (Char → Bool) → List Span → Prop where
  | nil {p : Char → Bool} : Balanced p []
  | escaped {p : Char → Bool} {r : List Span} (c : Char) (rest : Balanced p r) :
      Balanced p (⟨c, true⟩ :: r)
  | plain {p : Char → Bool} {r : List Span} {c : Char} (backslash : c ≠ '\\') (opening : c ≠ '(')
      (closing : c ≠ ')') (kind : p c = true) (rest : Balanced p r) : Balanced p (.plain c :: r)
  | parentheses {p : Char → Bool} {a r : List Span} (inside : Balanced (fun _ => true) a)
      (rest : Balanced p r) : Balanced p (.plain '(' :: a ++ .plain ')' :: r)

namespace Balanced

variable {p q : Char → Bool} {a b : List Span}

/-- Balanced spans side by side are balanced. -/
theorem append (ha : Balanced p a) (hb : Balanced p b) : Balanced p (a ++ b) := by
  induction ha with
  | nil => exact hb
  | escaped c _ ih => exact .escaped c (ih hb)
  | plain h1 h2 h3 h4 _ ih => exact .plain h1 h2 h3 h4 (ih hb)
  | parentheses hi _ _ ih =>
    rw [List.append_assoc]
    exact .parentheses hi (ih hb)

/-- The kind may be made wider. -/
theorem mono (h : ∀ c, p c = true → q c = true) (ha : Balanced p a) : Balanced q a := by
  induction ha with
  | nil => exact .nil
  | escaped c _ ih => exact .escaped c (ih h)
  | plain h1 h2 h3 h4 _ ih => exact .plain h1 h2 h3 (h _ h4) (ih h)
  | parentheses hi _ _ ih => exact .parentheses hi (ih h)

/-- In parentheses the kind does not matter. -/
theorem inside (ha : Balanced p a) : Balanced (fun _ => true) a := ha.mono fun _ _ => rfl

/-- Unescaped backslashes do not occur. -/
theorem ne_backslash (ha : Balanced p a) : ∀ s ∈ a, s.escaped = false → s.char ≠ '\\' := by
  induction ha with
  | nil => simp
  | escaped c _ ih =>
    intro s hs he
    rcases List.mem_cons.1 hs with rfl | hs
    · cases he
    · exact ih s hs he
  | plain h1 _ _ _ _ ih =>
    intro s hs he
    rcases List.mem_cons.1 hs with rfl | hs
    · exact h1
    · exact ih s hs he
  | parentheses _ _ iha ihr =>
    intro s hs he
    rcases List.mem_append.1 hs with hs | hs
    · rcases List.mem_cons.1 hs with rfl | hs
      · decide
      · exact iha s hs he
    · rcases List.mem_cons.1 hs with rfl | hs
      · decide
      · exact ihr s hs he

/-- The source of balanced spans is resolved to them. -/
theorem resolve?_source (ha : Balanced p a) : Span.resolve? (Span.source a) = some a :=
  Span.resolve?_source ha.ne_backslash

/-! ## Splitting

The splitter counts parentheses as it goes. At any depth above zero nothing separates, which makes
the statement for the inside of parentheses stronger than the one for the top level; the induction
needs both at once. -/

end Balanced

/-- What is put in front in two parts is put in front together. -/
theorem Pieces.extend_extend (a b : Text) (p : Pieces) : (p.extend b).extend a = p.extend (a ++ b) := by
  obtain ⟨ended, last⟩ := p
  cases ended <;> simp [extend]

/-- Nothing is put in front. -/
theorem Pieces.extend_nil (p : Pieces) : p.extend [] = p := by
  obtain ⟨ended, last⟩ := p
  cases ended <;> rfl

theorem Span.source_cons (s : Span) (r : List Span) : source (s :: r) = written s ++ source r := rfl

theorem Span.source_append (a b : List Span) : source (a ++ b) = source a ++ source b := by
  simp [source]

namespace Balanced

variable {p : Char → Bool} {a : List Span} {separates : Char → Bool}

/-- Nothing is cut in balanced spans inside of parentheses, whatever separates, and elsewhere if
their characters outside of parentheses do not separate. -/
theorem cut_of_shelters (h : Balanced p a) {depth : Int}
    (hd : 0 < depth ∨ 0 ≤ depth ∧ ∀ c, p c = true → separates c = false) (r : Text) :
    Pieces.cut separates depth (Span.source a ++ r) =
      (Pieces.cut separates depth r).extend (Span.source a) := by
  induction h generalizing depth r with
  | nil => exact (Pieces.extend_nil _).symm
  | @escaped _ t c _ ih =>
    show Pieces.cut separates depth ('\\' :: c :: (Span.source t ++ r)) = _
    rw [Pieces.cut, ih hd, Pieces.extend_extend]
    rfl
  | @plain _ t c h1 h2 h3 h4 _ ih =>
    have hkeep : ¬ (decide (depth ≤ 0) && separates c) = true := by
      rw [Bool.and_eq_true, decide_eq_true_eq]
      rintro ⟨hle, hc⟩
      rcases hd with hd | ⟨-, hp⟩
      · omega
      · rw [hp c h4] at hc
        cases hc
    show Pieces.cut separates depth (c :: (Span.source t ++ r)) = _
    rw [Pieces.cut_cons h1 h2 h3, if_neg hkeep, ih hd, Pieces.extend_extend]
    rfl
  | @parentheses _ i t _ _ ihi iht =>
    -- In the parentheses the depth is above zero, whatever it is around them.
    have hinside : 0 < depth + 1 := by omega
    rw [List.cons_append, Span.source_cons, Span.source_append, Span.source_cons]
    show Pieces.cut separates depth ('(' :: ((Span.source i ++ ')' :: Span.source t) ++ r)) = _
    rw [Pieces.cut, List.append_assoc, ihi (.inl hinside)]
    show ((Pieces.cut separates (depth + 1) (')' :: (Span.source t ++ r))).extend _).extend _ = _
    rw [Pieces.cut, Int.add_sub_cancel, iht hd, Pieces.extend_extend, Pieces.extend_extend,
      Pieces.extend_extend]
    congr 1
    simp [Span.written, Span.plain]

/-- Nothing is cut in balanced spans whose characters outside of parentheses do not separate. -/
theorem cut_append (h : Balanced p a) (hp : ∀ c, p c = true → separates c = false) {depth : Int}
    (hd : 0 ≤ depth) (r : Text) :
    Pieces.cut separates depth (Span.source a ++ r) =
      (Pieces.cut separates depth r).extend (Span.source a) :=
  h.cut_of_shelters (.inr ⟨hd, hp⟩) r

/-! ## Arguments

The reader that looks for the beginning of an argument goes backwards and counts in the other
direction: a closing parenthesis leads one level down, and the opening one that belongs to it leads
up again. -/

/-- A span that is no parenthesis belongs to the argument that it stands in. -/
theorem splitArgument?_cons {s : Span} (h1 : s ≠ .plain ')') (h2 : s ≠ .plain '(') (depth : Nat)
    (l : List Span) : Compound.splitArgument? depth (s :: l) =
      (Compound.splitArgument? depth l).map fun x => (s :: x.1, x.2) := by
  conv => lhs; unfold Compound.splitArgument?
  rw [if_neg h1, if_neg h2]

/-- A closing parenthesis in the argument is one to be matched. -/
theorem splitArgument?_closing (depth : Nat) (l : List Span) :
    Compound.splitArgument? depth (.plain ')' :: l) =
      (Compound.splitArgument? (depth + 1) l).map fun x => (.plain ')' :: x.1, x.2) := by
  conv => lhs; unfold Compound.splitArgument?
  rw [if_pos rfl]

/-- An opening one matches it. -/
theorem splitArgument?_opening (depth : Nat) (l : List Span) :
    Compound.splitArgument? (depth + 1) (.plain '(' :: l) =
      (Compound.splitArgument? depth l).map fun x => (.plain '(' :: x.1, x.2) := rfl

/-- What is balanced belongs to the argument that it stands in. -/
theorem splitArgument?_append (h : Balanced p a) (depth : Nat) (l : List Span) :
    Compound.splitArgument? depth (a.reverse ++ l) =
      (Compound.splitArgument? depth l).map fun x => (a.reverse ++ x.1, x.2) := by
  induction h generalizing depth l with
  | nil =>
    rw [List.reverse_nil, List.nil_append]
    cases Compound.splitArgument? depth l <;> rfl
  | escaped c _ ih =>
    rw [List.reverse_cons, List.append_assoc, ih, List.singleton_append,
      splitArgument?_cons (by simp [Span.plain]) (by simp [Span.plain]), Option.map_map]
    congr 1
    funext x
    simp
  | plain h1 h2 h3 _ _ ih =>
    rw [List.reverse_cons, List.append_assoc, ih, List.singleton_append,
      splitArgument?_cons (by simp [Span.plain, h3]) (by simp [Span.plain, h2]), Option.map_map]
    congr 1
    funext x
    simp
  | @parentheses _ i t _ _ ihi iht =>
    -- The spans are read from their end, so that the closing parenthesis is met first.
    have he : (Span.plain '(' :: i ++ Span.plain ')' :: t).reverse ++ l =
        t.reverse ++ (Span.plain ')' :: (i.reverse ++ Span.plain '(' :: l)) := by simp
    rw [he, iht, splitArgument?_closing, ihi, splitArgument?_opening, Option.map_map,
      Option.map_map, Option.map_map]
    congr 1
    funext x
    simp

/-- The argument that balanced spans are, in front of which a parenthesis opens. -/
theorem splitArgument?_opened (h : Balanced p a) (l : List Span) :
    Compound.splitArgument? 0 (a.reverse ++ .plain '(' :: l) = some (a.reverse, l) := by
  have h0 : Compound.splitArgument? 0 (.plain '(' :: l) = some ([], l) := rfl
  rw [h.splitArgument?_append, h0]
  simp

end Balanced

end TreeQuery
