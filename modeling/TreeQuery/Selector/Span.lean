import TreeQuery.Text.Basic

/-!
# Spans

A backslash in a selector takes the next character literally. Resolving the escapes turns a token
into spans, characters that remember whether they were escaped; only an unescaped character can
delimit anything.

Main statements: `resolve?_source` and `source_of_resolve?`, resolving and writing back are inverse
to each other.
-/

namespace TreeQuery

/-- A character of a token, with or without a backslash in front of it. -/
structure Span where
  char : Char
  escaped : Bool
  deriving DecidableEq, Repr

namespace Span

def plain (c : Char) : Span := ⟨c, false⟩

/-- The spans of a text; none if its last backslash has nothing to escape. -/
def resolve? : Text → Option (List Span)
  | [] => some []
  | ['\\'] => none
  | '\\' :: c :: r => (resolve? r).map (⟨c, true⟩ :: ·)
  | c :: r => (resolve? r).map (plain c :: ·)

def text (spans : List Span) : Text := spans.map char

def written (s : Span) : Text := if s.escaped then ['\\', s.char] else [s.char]

/-- The characters with their backslashes. -/
def source (spans : List Span) : Text := spans.flatMap written

/-! ### Resolving and writing back

Every text whose backslashes come out is the source of exactly one row of spans. In the other
direction one thing has to be excluded: a backslash that is held as an unescaped character would be
written as one that escapes what follows it. -/

/-- A character other than the backslash stands for itself. -/
theorem resolve?_plain_cons {c : Char} (h : c ≠ '\\') (r : Text) :
    resolve? (c :: r) = (resolve? r).map (plain c :: ·) := by
  rw [resolve?]
  · simp [h]
  · intro _ _ hc; simp [h] at hc

/-- Spans without an unescaped backslash are found again in what is written of them. -/
theorem resolve?_source {spans : List Span}
    (h : ∀ s ∈ spans, s.escaped = false → s.char ≠ '\\') :
    resolve? (source spans) = some spans := by
  induction spans with
  | nil => rfl
  | cons s r ih =>
    have hr := ih fun t ht => h t (by simp [ht])
    obtain ⟨c, e⟩ := s
    cases e with
    | true =>
      have : source (⟨c, true⟩ :: r) = '\\' :: c :: source r := rfl
      rw [this, resolve?, hr]; rfl
    | false =>
      have hc : c ≠ '\\' := h ⟨c, false⟩ (by simp) rfl
      have : source (⟨c, false⟩ :: r) = c :: source r := rfl
      rw [this, resolve?_plain_cons hc, hr]; rfl

/-- What a text is resolved to is written as the text. -/
theorem source_of_resolve? {t : Text} {spans : List Span} (h : resolve? t = some spans) :
    source spans = t := by
  fun_induction resolve? t generalizing spans with
  | case1 => simp at h; subst h; rfl
  | case2 => simp at h
  | case3 c r ih =>
    obtain ⟨u, hu, rfl⟩ := Option.map_eq_some_iff.1 h
    have := ih hu
    simp [source, written] at this ⊢; exact this
  | case4 c r _ _ ih =>
    obtain ⟨u, hu, rfl⟩ := Option.map_eq_some_iff.1 h
    have := ih hu
    simp [source, written, plain] at this ⊢; exact this

end Span

end TreeQuery
