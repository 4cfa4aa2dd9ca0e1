import Mathlib.Algebra.Ring.Parity
import Mathlib.Data.List.DropRight
import TreeQuery.Proofs.Picking.Suffix
import TreeQuery.Proofs.Splitting.Places

/-!
# Spans and the texts of their parts

A text cannot be resolved into spans if its last backslash has nothing to take. Read from the left,
backslashes take the characters behind them in turn; so what the last one does is told from the run
of backslashes that it ends, whatever stands in front of the run. A text that can be resolved is
divided into such texts where its spans are divided, and nowhere else: any other place is between a
backslash and what it takes. Therefore an argument, which is cut out of the spans of a token and
written back, is part of the token and can be resolved again.

Main statement: `Span.resolves_in_parts`.
-/

namespace TreeQuery

/-! ## The last backslash

The reader goes from the left and the run is counted from the right. The two are compared at the end
of the text, character by character from there: what the last character does is told from what the
one in front of it does. -/

namespace Text

/-- One more character at the end. -/
theorem takesNext_concat (s : Text) (c : Char) :
    takesNext (s ++ [c]) = (!takesNext s && c == '\\') := by
  rw [takesNext, List.foldl_append]
  rfl

/-- Every backslash at the end of a text undoes what the one in front of it does, and any other
character ends the run. The induction is from the end of the text. -/
theorem takesNext_iff_odd (s : Text) :
    takesNext s = true ↔ Odd (s.rtakeWhile (· == '\\')).length := by
  induction s using List.reverseRecOn with
  | nil => exact iff_of_false (by decide) (by decide)
  | append_singleton s c ih =>
    rw [takesNext_concat]
    by_cases hc : c = '\\'
    · subst hc
      rw [List.rtakeWhile_concat_pos _ _ _ rfl, List.length_append, List.length_singleton,
        Nat.odd_add_one, ← ih]
      simp
    · have hbackslash : (c == '\\') = false := beq_eq_false_iff_ne.2 hc
      rw [List.rtakeWhile_concat_neg _ _ _ (by simp [hc]), hbackslash]
      simp

end Text

namespace Span

/-- A text is at fault if its last backslash has nothing to take. -/
theorem resolve?_eq_none_iff (t : Text) : resolve? t = none ↔ Text.takesNext t = true := by
  fun_induction resolve? t with
  | case1 => exact iff_of_false (Option.some_ne_none []) (by decide)
  | case2 => exact iff_of_true rfl rfl
  | case3 c r ih => rw [Option.map_eq_none_iff, ih, Text.takesNext_escape]
  | case4 c r h1 h2 ih =>
    rw [Option.map_eq_none_iff, ih, Text.takesNext_cons (ne_backslash_of_rest ‹_› ‹_›)]

/-! ## Parts

A backslash and what it takes are one span, so that to divide the spans is to divide the text at
places where no escape is cut. That there are no other places is the converse: parts that can be
resolved are resolved side by side. -/

section

variable {t : Text} {spans piece : List Span} {pieces : List (List Span)} {parts : List Text}

/-- Pieces side by side are written side by side. -/
theorem source_flatten (pieces : List (List Span)) :
    source pieces.flatten = (pieces.map source).flatten := by
  induction pieces with
  | nil => rfl
  | cons p r ih => rw [List.flatten_cons, source_append, ih, List.map_cons, List.flatten_cons]

/-- No part of the spans of a text has a backslash that takes nothing. -/
theorem resolve?_source_of_mem (h : resolve? t = some pieces.flatten) (hp : piece ∈ pieces) :
    resolve? (source piece) = some piece := by
  apply resolve?_source
  intro s hs
  exact Layout.ne_backslash_of_resolve? h s (List.mem_flatten_of_mem hp hs)

/-- Texts that can be resolved are resolved one behind the other. -/
theorem exists_pieces (h : ∀ part ∈ parts, resolve? part ≠ none) :
    ∃ pieces : List (List Span), resolve? parts.flatten = some pieces.flatten ∧
      pieces.map source = parts := by
  induction parts with
  | nil => exact ⟨[], rfl, rfl⟩
  | cons part parts ih =>
    obtain ⟨piece, hpiece⟩ := Option.ne_none_iff_exists'.1 (h part List.mem_cons_self)
    obtain ⟨pieces, hpieces, hparts⟩ := ih fun p hp => h p (List.mem_cons_of_mem part hp)
    refine ⟨piece :: pieces, ?_, ?_⟩
    · rw [List.flatten_cons, resolve?_append hpiece, hpieces]
      rfl
    · rw [List.map_cons, source_of_resolve? hpiece, hparts]

/-- A text is divided into texts that can be resolved where its spans are divided. -/
theorem resolvable_parts_iff (h : resolve? t = some spans) (hparts : parts.flatten = t) :
    (∀ part ∈ parts, resolve? part ≠ none) ↔
      ∃ pieces : List (List Span), pieces.flatten = spans ∧ pieces.map source = parts := by
  constructor
  · intro hall
    obtain ⟨pieces, hpieces, hsource⟩ := exists_pieces hall
    rw [hparts, h] at hpieces
    exact ⟨pieces, (Option.some.inj hpieces).symm, hsource⟩
  · rintro ⟨pieces, rfl, rfl⟩ part hpart
    obtain ⟨piece, hpiece, rfl⟩ := List.mem_map.1 hpart
    rw [resolve?_source_of_mem h hpiece]
    exact Option.some_ne_none piece

end

/-- A text cannot be resolved exactly if it ends in an odd number of backslashes, and a token that
ends so is at fault. Any other text is what its spans are written as; and into whatever pieces the
spans are divided, what each piece is written as stands in its place in the text and is resolved to
the piece again. There are no other ways to divide the text into texts that can be resolved. Spans
without an unescaped backslash are those of the text that they are written as. -/
theorem resolves_in_parts :
    (∀ t : Text, resolve? t = none ↔ Odd (t.rtakeWhile (· == '\\')).length) ∧
    (∀ t : Text, Odd (t.rtakeWhile (· == '\\')).length →
      ∀ relation, Compound.scan relation t = .error (.unexpectedCharacter t)) ∧
    (∀ t : Text, ¬ Odd (t.rtakeWhile (· == '\\')).length →
      ∃ spans, resolve? t = some spans ∧ source spans = t ∧
        (∀ pieces : List (List Span), pieces.flatten = spans →
          (pieces.map source).flatten = t ∧
          ∀ piece ∈ pieces, source piece <:+: t ∧ resolve? (source piece) = some piece) ∧
        ∀ parts : List Text, parts.flatten = t →
          ((∀ part ∈ parts, resolve? part ≠ none) ↔
            ∃ pieces : List (List Span), pieces.flatten = spans ∧ pieces.map source = parts)) ∧
    ∀ spans : List Span, (∀ s ∈ spans, s.escaped = false → s.char ≠ '\\') →
      resolve? (source spans) = some spans := by
  have hnone (t : Text) : resolve? t = none ↔ Odd (t.rtakeWhile (· == '\\')).length :=
    (resolve?_eq_none_iff t).trans (Text.takesNext_iff_odd t)
  refine ⟨hnone, fun t hodd relation => ?_, fun t heven => ?_, fun spans h => resolve?_source h⟩
  · rw [Compound.scan, (hnone t).2 hodd]
  · obtain ⟨spans, hspans⟩ := Option.ne_none_iff_exists'.1 (mt (hnone t).1 heven)
    have hsource : source spans = t := source_of_resolve? hspans
    refine ⟨spans, hspans, hsource, ?_, fun parts => resolvable_parts_iff hspans⟩
    rintro pieces rfl
    rw [source_flatten] at hsource
    refine ⟨hsource, fun piece hpiece => ⟨?_, resolve?_source_of_mem hspans hpiece⟩⟩
    rw [← hsource]
    exact List.infix_of_mem_flatten (List.mem_map_of_mem hpiece)

def pointed : List Span := [plain '#', plain 'a', ⟨'.', true⟩, plain 'b', ⟨'\\', true⟩]

/-- A text that ends in an escaped backslash can be divided in front of an escape, but not behind
the backslash of it. Another text ends in a backslash that takes nothing. -/
theorem resolves_in_parts_pointed :
    ¬ Odd (("#a\\.b\\\\".toList).rtakeWhile (· == '\\')).length ∧
    resolve? "#a\\.b\\\\".toList = some pointed ∧
    [pointed.take 2, pointed.drop 2].flatten = pointed ∧
    source (pointed.drop 2) <:+: "#a\\.b\\\\".toList ∧
    resolve? (source (pointed.drop 2)) = some (pointed.drop 2) ∧
    (¬ ∃ pieces : List (List Span), pieces.flatten = pointed ∧
      pieces.map source = ["#a\\".toList, ".b\\\\".toList]) ∧
    (∀ s ∈ pointed, s.escaped = false → s.char ≠ '\\') ∧
    resolve? (source pointed) = some pointed ∧
    Odd (("a\\\\\\".toList).rtakeWhile (· == '\\')).length ∧
    ∀ relation, Compound.scan relation "a\\\\\\".toList =
      .error (.unexpectedCharacter "a\\\\\\".toList) := by
  have heven : ¬ Odd (("#a\\.b\\\\".toList).rtakeWhile (· == '\\')).length := by decide
  have hodd : Odd (("a\\\\\\".toList).rtakeWhile (· == '\\')).length := by decide
  have hresolve : resolve? "#a\\.b\\\\".toList = some pointed := by decide
  have hescaped : ∀ s ∈ pointed, s.escaped = false → s.char ≠ '\\' := by decide
  obtain ⟨-, hfault, htext, hspans⟩ := resolves_in_parts
  obtain ⟨spans, hsome, -, hpieces, hparts⟩ := htext _ heven
  obtain rfl : pointed = spans := Option.some.inj (hresolve.symm.trans hsome)
  obtain ⟨-, hpiece⟩ := hpieces [pointed.take 2, pointed.drop 2] (List.take_append_drop 2 pointed)
  obtain ⟨hstands, hagain⟩ := hpiece (pointed.drop 2) (by simp)
  refine ⟨heven, hresolve, rfl, hstands, hagain, fun h => ?_, hescaped, hspans _ hescaped, hodd,
    hfault _ hodd⟩
  exact (hparts ["#a\\".toList, ".b\\\\".toList] rfl).2 h _ List.mem_cons_self rfl

end Span

end TreeQuery
