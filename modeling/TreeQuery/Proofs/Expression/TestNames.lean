import Mathlib.Data.List.TakeWhile
import TreeQuery.Proofs.Pattern.Argument
import TreeQuery.Proofs.XPath.Primary

/-!
# Names of attribute tests

The name in an attribute test is put in small letters before it stands in an expression. Its
characters are then such as names in markup go on with; it is such a name unless it begins with a
digit.

Main statements: `AttributeTest.exists_of_ofFragment?` and `AttributeTest.isName_lower`.
-/

namespace TreeQuery

namespace AttributeTest

/-- A name that has been split off, and what is left of the text. -/
theorem isName_and_eq_of_splitName? {s n r : Text} (h : splitName? s = some (n, r)) :
    (∃ c p, n = c :: p ∧ isNameStart c = true ∧ ∀ d ∈ p, isNamePart d = true) ∧ s = n ++ r := by
  cases s with
  | nil => cases h
  | cons c s =>
    rw [splitName?] at h
    split at h
    · next hc =>
      cases h
      refine ⟨⟨c, _, rfl, hc, fun d hd => List.mem_takeWhile_imp hd⟩, ?_⟩
      rw [List.cons_append, List.takeWhile_append_dropWhile]
    · cases h

/-- What a test is read from: a name, and a value without quotes. -/
theorem exists_of_ofFragment? {f : Text} {t : AttributeTest} (h : ofFragment? f = some t) :
    ∃ c r, isNameStart c = true ∧ (∀ d ∈ r, isNamePart d = true) ∧ t.name = Text.lower (c :: r) ∧
      ∀ o v, t.comparison = some (o, v) → ∀ d ∈ v, isQuote d = false := by
  -- Quotes at the ends are taken off, and no others may be left.
  have hvalue : ∀ {s v : Text}, readValue? s = some v → ∀ d ∈ v, isQuote d = false := by
    intro s v hv d hd
    rw [readValue?] at hv
    split at hv
    · cases hv
      simpa using List.mem_takeWhile_imp hd
    · cases hv
  rw [ofFragment?] at h
  split at h
  · cases h
  · next n rest hn =>
    obtain ⟨⟨c, r, rfl, hc, hr⟩, -⟩ := isName_and_eq_of_splitName? hn
    split at h
    · next o rest' ho =>
      obtain ⟨v, hv, rfl⟩ := Option.map_eq_some_iff.1 h
      refine ⟨c, r, hc, hr, rfl, ?_⟩
      rintro _ _ ⟨⟩
      exact hvalue hv
    · split at h
      · cases h
        refine ⟨c, r, hc, hr, rfl, ?_⟩
        intro o v ho
        cases ho
      · cases h

/-! ## Small letters

A name in a test may have four characters beyond ASCII that count as letters because an ASCII letter
is among their other cases. What becomes of each of them in small letters is computed; those of
ASCII are checked character by character. -/

/-- What holds of the first 128 characters, one by one, holds of every character of ASCII. -/
theorem forall_ascii {p : Char → Prop} (h : ∀ n < 0x80, p (Char.ofNat n)) {c : Char}
    (hc : c.toNat < 0x80) : p c := by
  have := h c.toNat hc
  rwa [Char.ofNat_toNat] at this

/-- There are four characters of names beyond ASCII. -/
theorem eq_of_isNamePart {c : Char} (h : isNamePart c = true) (hc : ¬ c.toNat < 0x80) :
    c = '\u0130' ∨ c = '\u0131' ∨ c = '\u017F' ∨ c = '\u212A' := by
  simp only [isNamePart, isNameStart, Bool.or_eq_true, decide_eq_true_eq, or_assoc] at h
  have hbelow {n : UInt32} (hn : n.toNat < 0x80) (h : c.val ≤ n) : c.toNat < 0x80 :=
    Nat.lt_of_le_of_lt (UInt32.le_iff_toNat_le.1 h) hn
  have hupper (h : c.isUpper = true) : c.toNat < 0x80 :=
    hbelow (by decide) (of_decide_eq_true h).2
  have hlower (h : c.isLower = true) : c.toNat < 0x80 :=
    hbelow (by decide) (of_decide_eq_true (Bool.and_eq_true_iff.1 h).2)
  have hdigit (h : c.isDigit = true) : c.toNat < 0x80 :=
    hbelow (by decide) (of_decide_eq_true (Bool.and_eq_true_iff.1 h).2)
  have halpha (h : c.isAlpha = true) : c.toNat < 0x80 :=
    (Bool.or_eq_true_iff.1 h).elim hupper hlower
  have hascii (h : c.isAlphanum = true) : c.toNat < 0x80 :=
    (Bool.or_eq_true_iff.1 h).elim halpha hdigit
  rcases h with h | rfl | h | h | h | h | rfl
  · exact absurd (hascii h) hc
  · exact absurd (by decide) hc
  · exact .inl h
  · exact .inr (.inl h)
  · exact .inr (.inr (.inl h))
  · exact .inr (.inr (.inr h))
  · exact absurd (by decide) hc

/-- The small form of a character of a name is made of characters that names go on with. -/
theorem all_isNamePart_smallForm {c : Char} (h : isNamePart c = true) (before after : Text) :
    (Text.smallForm before c after).all Text.isNamePart = true := by
  by_cases hc : c.toNat < 0x80
  · have hall : ∀ n < 0x80, isNamePart (Char.ofNat n) = true →
        Text.isNamePart (Char.ofNat n).toLower = true := by decide +kernel
    rw [Text.smallForm, if_pos hc, List.all_cons, List.all_nil, Bool.and_true]
    exact forall_ascii (p := fun c => isNamePart c = true → Text.isNamePart c.toLower = true) hall
      hc h
  · rcases eq_of_isNamePart h hc with rfl | rfl | rfl | rfl <;> rfl

theorem all_isNamePart_lowerFrom {n : Text} (h : ∀ c ∈ n, isNamePart c = true) (before : Text) :
    (Text.lowerFrom before n).all Text.isNamePart = true := by
  induction n generalizing before with
  | nil => rfl
  | cons c n ih =>
    rw [Text.lowerFrom, List.all_append, all_isNamePart_smallForm (h c List.mem_cons_self),
      ih (fun d hd => h d (List.mem_cons_of_mem c hd))]
    rfl

theorem isNamePart_of_isNameStart {c : Char} (h : isNameStart c = true) : isNamePart c = true := by
  rw [isNamePart, h]
  rfl

/-- A name that does not begin with a digit is one in expressions. -/
theorem isName_lower {c : Char} {r : Text} (hc : isNameStart c = true) (hd : c.isDigit = false)
    (hr : ∀ d ∈ r, isNamePart d = true) : Text.isName (Text.lower (c :: r)) = true := by
  have hfirst : ∃ d s, Text.smallForm [] c r = d :: s ∧ Text.isNameStart d = true ∧
      s.all Text.isNamePart = true := by
    -- Beyond ASCII there are only the four characters, one of which becomes two.
    by_cases hascii : c.toNat < 0x80
    · have hall : ∀ n < 0x80, isNameStart (Char.ofNat n) = true →
          (Char.ofNat n).isDigit = false → Text.isNameStart (Char.ofNat n).toLower = true := by
        decide +kernel
      refine ⟨c.toLower, [], by rw [Text.smallForm, if_pos hascii], ?_, rfl⟩
      exact forall_ascii (p := fun c => isNameStart c = true → c.isDigit = false →
        Text.isNameStart c.toLower = true) hall hascii hc hd
    · rcases eq_of_isNamePart (isNamePart_of_isNameStart hc) hascii with rfl | rfl | rfl | rfl <;>
        exact ⟨_, _, rfl, rfl, rfl⟩
  obtain ⟨d, s, he, hd', hs⟩ := hfirst
  rw [Text.lower, Text.lowerFrom, he, List.cons_append, Text.isName, hd', List.all_append, hs,
    all_isNamePart_lowerFrom hr]
  rfl

end AttributeTest

end TreeQuery
