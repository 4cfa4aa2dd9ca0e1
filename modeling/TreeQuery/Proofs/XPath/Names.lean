import TreeQuery.Proofs.XPath.Reading

/-!
# Names in expressions

A name ends in front of any character that is not part of a name. What it is the name of depends on
what stands behind it.
-/

namespace TreeQuery

namespace Text

def isName : Text → Bool
  | [] => false
  | c :: r => isNameStart c && r.all isNamePart

theorem all_isNamePart {n : Text} (h : isName n = true) : n.all isNamePart = true := by
  cases n with
  | nil => cases h
  | cons c r =>
    rw [isName, Bool.and_eq_true] at h
    rw [List.all_cons, isNamePart, h.1, h.2]
    rfl

/-- Characters of a kind are taken up to the first that is not of it. -/
theorem takeWhile_of_all {p : Char → Bool} {t r : Text} (ht : t.all p = true)
    (hr : r.head?.all (!p ·) = true) : (t ++ r).takeWhile p = t ∧ (t ++ r).dropWhile p = r := by
  rw [List.takeWhile_append_of_pos (List.all_eq_true.1 ht),
    List.dropWhile_append_of_pos (List.all_eq_true.1 ht)]
  cases r with
  | nil => simp
  | cons c r =>
    have hc : p c = false := by simpa using hr
    simp [hc]

/-- A name is read up to where it ends. -/
theorem readName?_append {n r : Text} (hn : isName n = true)
    (hr : r.head?.all (!isNamePart ·) = true) : readName? (n ++ r) = some (n, r) := by
  cases n with
  | nil => cases hn
  | cons c n =>
    rw [isName, Bool.and_eq_true] at hn
    obtain ⟨ht, hd⟩ := takeWhile_of_all hn.2 hr
    rw [List.cons_append, readName?, if_pos hn.1, ht, hd]

theorem holds_eq_false {c : Char} {part s : Text} (hp : c ∈ part) (hs : c ∉ s) :
    holds s part = false := by
  rw [holds, Option.isSome_eq_false_iff, Option.isNone_iff_eq_none]
  cases h : splitAround? part s with
  | none => rfl
  | some ab =>
    obtain ⟨a, b⟩ := ab
    rw [← append_of_splitAround? h] at hs
    exact absurd (by simp [hp]) hs

/-- A text holds each of its parts. -/
theorem holds_append (a part b : Text) : holds (a ++ part ++ b) part = true := by
  have hempty : ∀ s, (splitAround? [] s).isSome = true := by
    intro s
    cases s <;> simp [splitAround?, after?]
  rw [holds]
  induction a with
  | nil =>
    cases part with
    | nil => exact hempty _
    | cons c part =>
      have := after?_append (c :: part) b
      simp only [List.cons_append] at this
      simp [splitAround?, this]
  | cons c a ih =>
    rw [List.cons_append, List.cons_append, splitAround?]
    split
    · rfl
    · simpa using ih

end Text

namespace XPath.Expr

/-! A name may be followed by white space, and what stands behind that decides what it is the name
of. So where a name ends is asked of the next character, and what it is of the next one that is no
white space. -/

/-- Whether a name ends where a text begins, and is neither that of a function nor of an axis. -/
def endsName (r : Text) : Bool :=
  r.head?.all (!isQNamePart ·) && (skip r).val.head?.all fun c => c != '(' && c != ':'

section

variable {n r : Text}

theorem namePart_of_qNamePart {o : Option Char} (h : o.all (!isQNamePart ·) = true) :
    o.all (!Text.isNamePart ·) = true ∧ o ≠ some ':' := by
  cases o with
  | none => simp
  | some c =>
    rw [Option.all_some, Bool.not_eq_true', isQNamePart, Bool.or_eq_false_iff] at h
    simpa using h

/-- What `endsName` asks for. -/
theorem of_endsName (h : endsName r = true) : r.head?.all (!isQNamePart ·) = true ∧
    (skip r).val.head? ≠ some '(' ∧ (skip r).val.head? ≠ some ':' := by
  rw [endsName, Bool.and_eq_true] at h
  refine ⟨h.1, ?_, ?_⟩ <;> · intro he; rw [he] at h; simp at h

theorem gives_readName? (hn : Text.isName n = true) (hr : r.head?.all (!Text.isNamePart ·) = true) :
    Gives (readName? (n ++ r)) n r := by
  have h := Text.readName?_append hn hr
  rw [readName?]
  split
  · next m s hm =>
    cases hm.symm.trans h
    exact ⟨_, rfl⟩
  · next hm => cases hm.symm.trans h

theorem toNat_of_isDigit {c : Char} (h : c.isDigit = true) : 48 ≤ c.toNat ∧ c.toNat ≤ 57 := by
  simp only [Char.isDigit, Bool.and_eq_true, decide_eq_true_eq] at h
  exact h

theorem isDigit_of_isNameStart {c : Char} (hc : Text.isNameStart c = true) :
    c.isDigit = false := by
  rw [Bool.eq_false_iff]
  intro h
  have hd := toNat_of_isDigit h
  simp only [Text.isNameStart, Text.inIntervals, Text.nameStartIntervals, List.any_cons,
    List.any_nil, Bool.or_eq_true, Bool.and_eq_true, decide_eq_true_eq, Bool.false_eq_true,
    or_false] at hc
  omega

theorem isQNamePart_of_isDigit {c : Char} (h : c.isDigit = true) : isQNamePart c = true := by
  have hd := toNat_of_isDigit h
  have hi : Text.inIntervals Text.namePartIntervals c = true := by
    simp only [Text.inIntervals, Text.namePartIntervals, List.any_cons, List.any_nil,
      Bool.or_eq_true, Bool.and_eq_true, decide_eq_true_eq]
    omega
  simp [isQNamePart, Text.isNamePart, hi]

theorem head?_not_isDigit {o : Option Char} (h : o.all (!isQNamePart ·) = true) :
    o.all (!Char.isDigit ·) = true := by
  cases o with
  | none => rfl
  | some c =>
    rw [Option.all_some, Bool.not_eq_true'] at h ⊢
    rw [Bool.eq_false_iff]
    intro hd
    rw [isQNamePart_of_isDigit hd] at h
    cases h

/-- A name does not begin with a character that begins no name. -/
theorem head?_name {d : Char} (hn : Text.isName n = true) (hd : Text.isNameStart d = false)
    (r : Text) : (n ++ r).head? ≠ some d := by
  cases n with
  | nil => cases hn
  | cons c n =>
    rw [Text.isName, Bool.and_eq_true] at hn
    simpa using Text.ne_of_kind hn.1 hd

theorem not_colon_mem (h : Text.isName n = true) : ':' ∉ n := by
  intro hm
  have := List.all_eq_true.1 (Text.all_isNamePart h) _ hm
  revert this
  decide

theorem all_isQNamePart (h : Text.isName n = true) : n.all isQNamePart = true := by
  have := Text.all_isNamePart h
  rw [List.all_eq_true] at this ⊢
  intro c hc
  rw [isQNamePart, this c hc]
  rfl

end

end XPath.Expr

end TreeQuery
