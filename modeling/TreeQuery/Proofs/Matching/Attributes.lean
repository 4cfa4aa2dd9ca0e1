import Mathlib.Data.List.Pairwise
import TreeQuery.Proofs.Matching.Basic

/-!
# Attribute tests are true of the elements that pass them

The expression of a test looks up the attribute and compares its text. That a list of words holds a
word is told from the text of the list with a space at either end; so the word must have no white
space in it.

Main statement: `AttributeTest.truth`.
-/

namespace TreeQuery

open XPath XPath.Expr

/-! ## Parts of texts

The expression puts a space at either end of the words and of the word, so that a part of a word is
not taken for a word. That this finds just the words rests on two facts: words have no white space
in them, and dividing a text at white space undoes joining words with spaces. -/

namespace Text

/-- To hold a text is to have it as an infix. -/
theorem holds_iff (s part : Text) : holds s part = true ↔ part <:+: s := by
  constructor
  · intro h
    rw [holds, Option.isSome_iff_exists] at h
    obtain ⟨⟨a, b⟩, h⟩ := h
    exact ⟨a, b, append_of_splitAround? h⟩
  · rintro ⟨a, b, rfl⟩
    exact holds_append a part b

end Text

namespace XPath.Function

section

variable {c : Char} {w s t : Text} {ws : List Text}

/-- The words of two texts with white space between them are those of both. -/
theorem words_append (hc : Text.isSpace c = true) (s t : Text) :
    words (s ++ c :: t) = words s ++ words t := by
  rw [words, List.splitOnP_append_cons _ _ hc, List.filter_append]
  rfl

/-- A text without white space is its only word. -/
theorem words_of_noSpace (hw : w ≠ []) (h : ∀ c ∈ w, Text.isSpace c = false) : words w = [w] := by
  rw [words, List.splitOnP_eq_singleton h]
  cases w with
  | nil => exact absurd rfl hw
  | cons => rfl

theorem of_mem_splitOnP {p : Char → Bool} (h : w ∈ s.splitOnP p) : ∀ c ∈ w, p c = false := by
  induction s generalizing w with
  | nil =>
    rw [List.splitOnP_nil, List.mem_singleton] at h
    subst h
    intro c hc
    cases hc
  | cons d s ih =>
    rw [List.splitOnP_cons_eq_if_modifyHead] at h
    -- At a character that divides, an empty piece is put in front; at another one the first piece
    -- gets longer.
    split at h
    · rcases List.mem_cons.1 h with rfl | h
      · intro c hc
        cases hc
      · exact ih h
    · next hd =>
      obtain ⟨u, us, hu⟩ := List.exists_cons_of_ne_nil (List.splitOnP_ne_nil p s)
      rw [hu] at h ih
      rcases List.mem_cons.1 h with rfl | h
      · intro c hc
        rcases List.mem_cons.1 hc with rfl | hc
        · simpa using hd
        · exact ih (List.mem_cons_self ..) c hc
      · exact ih (List.mem_cons_of_mem _ h)

/-- Words are not empty and have no white space in them. -/
theorem of_mem_words (h : w ∈ words s) : w ≠ [] ∧ ∀ c ∈ w, Text.isSpace c = false := by
  rw [words, List.mem_filter] at h
  exact ⟨by rintro rfl; exact absurd h.2 (by decide), of_mem_splitOnP h.1⟩

/-- The words of some words with spaces between them are these words. -/
theorem words_intercalate (h : ∀ w ∈ ws, w ≠ [] ∧ ∀ c ∈ w, Text.isSpace c = false) :
    words (List.intercalate [' '] ws) = ws := by
  induction ws with
  | nil => rfl
  | cons w ws ih =>
    obtain ⟨hne, hspace⟩ := h w (List.mem_cons_self ..)
    have hrest := ih fun v hv => h v (List.mem_cons_of_mem _ hv)
    cases ws with
    | nil =>
      have : List.intercalate [' '] [w] = w := by simp [List.intercalate]
      rw [this, words_of_noSpace hne hspace]
    | cons v ws =>
      have : List.intercalate [' '] (w :: v :: ws) =
          w ++ ' ' :: List.intercalate [' '] (v :: ws) := by simp [List.intercalate]
      rw [this, words_append rfl, words_of_noSpace hne hspace, hrest]
      rfl

theorem infix_of_mem (h : w ∈ ws) :
    ' ' :: w ++ [' '] <:+: ' ' :: List.intercalate [' '] ws ++ [' '] := by
  induction ws with
  | nil => cases h
  | cons v ws ih =>
    -- A single word has the two spaces at the ends beside it; of several, each has the space
    -- between it and its neighbour.
    cases ws with
    | nil =>
      obtain rfl : w = v := by simpa using h
      have : List.intercalate [' '] [w] = w := by simp [List.intercalate]
      rw [this]
    | cons u ws =>
      have hcons : List.intercalate [' '] (v :: u :: ws) =
          v ++ ' ' :: List.intercalate [' '] (u :: ws) := by simp [List.intercalate]
      rw [hcons]
      rcases List.mem_cons.1 h with rfl | h
      · exact ⟨[], List.intercalate [' '] (u :: ws) ++ [' '], by simp⟩
      · obtain ⟨a, b, hab⟩ := ih h
        refine ⟨' ' :: v ++ a, b, ?_⟩
        have : ' ' :: v ++ a ++ (' ' :: w ++ [' ']) ++ b =
            ' ' :: v ++ (a ++ (' ' :: w ++ [' ']) ++ b) := by simp
        rw [this, hab]
        simp

/-- A word is one of the words of a text if it stands between spaces in the text of the words. -/
theorem holds_word (hw : w ≠ []) (h : ∀ c ∈ w, Text.isSpace c = false) (s : Text) :
    Text.holds (' ' :: normalizeSpace s ++ [' ']) (' ' :: w ++ [' ']) = (words s).contains w := by
  rw [Bool.eq_iff_iff, Text.holds_iff, List.contains_iff_mem]
  refine ⟨?_, infix_of_mem⟩
  rintro ⟨a, b, hab⟩
  have hwords : words (' ' :: normalizeSpace s ++ [' ']) = words s := by
    have h1 := words_append (c := ' ') rfl [] (normalizeSpace s ++ [' '])
    have h2 := words_append (c := ' ') rfl (normalizeSpace s) []
    have hnil : words [] = [] := rfl
    rw [hnil, List.append_nil] at h2
    rw [List.nil_append, hnil, List.nil_append, h2] at h1
    rw [List.cons_append, h1]
    exact words_intercalate fun w hw => of_mem_words hw
  have hshape : a ++ (' ' :: w ++ [' ']) ++ b = a ++ ' ' :: (w ++ ' ' :: b) := by simp
  rw [← hwords, ← hab, hshape, words_append rfl, words_append rfl, words_of_noSpace hw h]
  simp

end

end XPath.Function

/-! ## Looking up

An attribute is looked up along an axis of its own, whose nodes are numbered by their places among
the attributes of the element. In a tree the keys of the attributes of one element differ, so that
there is one node at most; this is where the proof needs a tree. -/

section

variable {d : Document} {p : Path}

/-- An element has a label. -/
theorem exists_label (hp : d.isElement p = true) : ∃ l, d.label? p = some l :=
  Option.isSome_iff_exists.1 (Document.isSome_of_isElement hp)

/-- The name of an attribute test fits the node of an attribute with that key. -/
theorem passes_attribute {l : Label} (hl : d.label? p = some l) (n : Text) {i : Nat}
    {a : Attribute} (ha : l.attributes[i]? = some a) :
    (NodeTest.name ⟨[], n⟩).passes d .attributes (.attributeOf p i) =
      AttributeKey.isOf ⟨[], n⟩ a := by
  have hattribute : Node.attribute? d (.attributeOf p i) = some a := by
    rw [Node.attribute?, hl, Option.bind_some, ha]
  have hbound : boundNamespace? [] = some [] := rfl
  simp [NodeTest.passes, NodeTest.isPrincipal, Node.name?, hattribute, AttributeKey.isOf, hbound,
    Bool.and_comm]

/-- Attributes of one name are one. -/
theorem eq_of_isOf (hd : d.IsTree) {l : Label} (hl : d.label? p = some l) {k : AttributeKey}
    {a b : Attribute} (ha : a ∈ l.attributes) (hb : b ∈ l.attributes) (hka : k.isOf a = true)
    (hkb : k.isOf b = true) : a = b := by
  rw [AttributeKey.isOf, Bool.and_eq_true, beq_iff_eq, beq_iff_eq] at hka hkb
  by_contra hne
  have : Std.Symm fun a b : Attribute =>
      ¬ (a.name.uri = b.name.uri ∧ a.name.localPart = b.name.localPart) :=
    ⟨fun x y h h' => h ⟨h'.1.symm, h'.2.symm⟩⟩
  exact (hd.attributes hl).forall ha hb hne ⟨hka.1.trans hkb.1.symm, hka.2.trans hkb.2.symm⟩

/-- The nodes that an attribute is looked up as, which all have its value. -/
theorem eval_attribute (hd : d.IsTree) (hp : d.isElement p = true) (n : Text)
    (position size : Nat) : ∃ ns, eval d ⟨.tree p, position, size⟩ (Expr.attribute n) =
      some (.nodes ns) ∧ (ns = [] ↔ d.value? n p = none) ∧
        ∀ v, d.value? n p = some v → ∀ m ∈ ns, m.stringValue d = v := by
  obtain ⟨l, hl⟩ := exists_label hp
  have hvalue : d.value? n p =
      (l.attributes.find? (AttributeKey.isOf ⟨[], n⟩)).map (·.value) := by
    rw [Document.value?, Document.attribute?, hl]
    rfl
  have halong : (Node.tree p).along d .attributes =
      (List.range l.attributes.length).map (Node.attributeOf p) := by
    rw [Node.along, Node.alongFrom, Node.attributes, hl]
  have heval : eval d ⟨.tree p, position, size⟩ (Expr.attribute n) = some (.nodes
      (Node.ordered d (((List.range l.attributes.length).map (Node.attributeOf p)).filter
        ((NodeTest.name ⟨[], n⟩).passes d .attributes)))) := by
    have hbound : (NodeTest.name ⟨[], n⟩).isBound = true := rfl
    rw [Expr.attribute, eval, eval]
    simp [Value.nodes?, hbound, gather, keepAll, halong]
  -- The nodes are those of the attributes with the name; the keys of an element differ, so that
  -- there is one at most.
  have hmem (m : Node) : m ∈ Node.ordered d (((List.range l.attributes.length).map
      (Node.attributeOf p)).filter ((NodeTest.name ⟨[], n⟩).passes d .attributes)) ↔
        ∃ i a, m = .attributeOf p i ∧ l.attributes[i]? = some a ∧
          AttributeKey.isOf ⟨[], n⟩ a = true := by
    rw [Node.mem_ordered_iff, List.mem_filter, List.mem_map]
    constructor
    · rintro ⟨-, ⟨i, hi, rfl⟩, hpass⟩
      have ha := List.getElem?_eq_getElem (List.mem_range.1 hi)
      rw [passes_attribute hl n ha] at hpass
      exact ⟨i, _, rfl, ha, hpass⟩
    · rintro ⟨i, a, rfl, ha, hk⟩
      have hi : i < l.attributes.length := (List.getElem?_eq_some_iff.1 ha).1
      exact ⟨Node.attributeOf_mem_all hl hi, ⟨i, List.mem_range.2 hi, rfl⟩,
        (passes_attribute hl n ha).trans hk⟩
  refine ⟨_, heval, ?_, ?_⟩
  · rw [hvalue, Option.map_eq_none_iff, List.find?_eq_none, List.eq_nil_iff_forall_not_mem]
    constructor
    · intro h a ha hk
      obtain ⟨i, hi⟩ := List.mem_iff_getElem?.1 ha
      exact h _ ((hmem _).2 ⟨i, a, rfl, hi, hk⟩)
    · intro h m hm
      obtain ⟨i, a, -, ha, hk⟩ := (hmem m).1 hm
      exact h a (List.mem_of_getElem? ha) hk
  · intro v hv m hm
    rw [hvalue, Option.map_eq_some_iff] at hv
    obtain ⟨b, hb, rfl⟩ := hv
    obtain ⟨i, a, rfl, ha, hk⟩ := (hmem m).1 hm
    have hkb : AttributeKey.isOf ⟨[], n⟩ b = true := List.find?_some hb
    obtain rfl := eq_of_isOf hd hl (List.mem_of_getElem? ha) (List.mem_of_find?_eq_some hb) hk hkb
    rw [Node.stringValue, Node.attribute?, hl, Option.bind_some, ha]
    rfl

end

/-! ## Tests

Each operator is a comparison or a call with the value that has been looked up. What a call needs to
know of this value is kept in `LooksUp`: it is not a number, so that `=` compares texts, and its
text is the value of the attribute, or empty where there is none. -/

/-- What the looking up of an attribute comes to, seen from functions and comparisons. -/
structure XPath.Value.LooksUp (d : Document) (v : Value) (a : Option Text) : Prop where
  notNumber (n : Number) : v ≠ .number n
  toBool : v.toBool = a.isSome
  toText : v.toText d = a.getD []
  equal (w : Text) : v.equal d (.text w) = a.any (· == w)
  unequal (w : Text) : v.unequal d (.text w) = a.any (· != w)

section

variable {d : Document} {p : Path} {t : AttributeTest}

/-- Nodes that all have one value come to that value, and no nodes to none. -/
theorem looksUp_of_nodes {ns : List Node} {a : Option Text} (hnone : ns = [] ↔ a = none)
    (hsome : ∀ v, a = some v → ∀ m ∈ ns, m.stringValue d = v) :
    (Value.nodes ns).LooksUp d a := by
  cases a with
  | none =>
    obtain rfl := hnone.2 rfl
    exact ⟨fun _ => nofun, rfl, rfl, fun _ => rfl, fun _ => rfl⟩
  | some v =>
    obtain ⟨m, ms, rfl⟩ := List.exists_cons_of_ne_nil fun h => nomatch hnone.1 h
    have hm : m.stringValue d = v := hsome v rfl m (List.mem_cons_self ..)
    -- A comparison with nodes asks whether some node compares, which all nodes do alike.
    have hany (f : Text → Bool) : (m :: ms).any (fun n => f (n.stringValue d)) = f v := by
      rw [Bool.eq_iff_iff, List.any_eq_true]
      constructor
      · rintro ⟨n, hn, hf⟩
        rwa [hsome v rfl n hn] at hf
      · intro hf
        exact ⟨m, List.mem_cons_self .., by rwa [hm]⟩
    refine ⟨fun _ => nofun, rfl, hm, fun w => ?_, fun w => ?_⟩
    · exact hany (· == w)
    · exact hany (· != w)

/-- An attribute that is looked up comes to its value. -/
theorem eval_lookup (hd : d.IsTree) (hp : d.isElement p = true) (n : Text)
    (position size : Nat) : ∃ v, eval d ⟨.tree p, position, size⟩ (Expr.attribute n) = some v ∧
      v.LooksUp d (d.value? n p) := by
  obtain ⟨ns, heval, hnone, hsome⟩ := eval_attribute hd hp n position size
  exact ⟨_, heval, looksUp_of_nodes hnone hsome⟩

/-- A call with its arguments evaluated. -/
theorem eval_call {f : Focus} {name : Text} {es : List Expr} {vs : List Value}
    (h : evalAll d f es = some vs) :
    eval d f (.call ⟨[], name⟩ es) = Function.call d name vs f := by
  rw [eval, h]
  rfl

/-- The end of a text is taken with `substring`, as there is no function for it. -/
theorem isSuffixOf_eq_substring (s : Text) {w : Text} (hw : w ≠ []) :
    (Function.substring s (.whole (s.length - (w.length - 1 : Nat))) none == w) =
      decide (w <:+ s) := by
  have hpos := List.length_pos_iff.2 hw
  have hdrop : ((s.length : Int) - (w.length - 1 : Nat) - 1).toNat = s.length - w.length := by
    omega
  rw [Function.substring_from, hdrop, Bool.eq_iff_iff, beq_iff_eq, decide_eq_true_iff,
    List.suffix_iff_eq_drop, eq_comm]

/-- The test for a beginning. -/
theorem eval_beginsWith {f : Focus} {e : Expr} {v : Value} (he : eval d f e = some v) (w : Text) :
    eval d f (.call ⟨[], "starts-with".toList⟩ [e, .literal w]) =
      some (.boolean (decide (w <+: v.toText d))) := by
  have hargs : evalAll d f [e, .literal w] = some [v, .text w] := by
    simp [evalAll, he, eval]
  have hdecide : (Text.after? w (v.toText d)).isSome = decide (w <+: v.toText d) := by
    rw [Bool.eq_iff_iff, Text.isSome_after?_iff, decide_eq_true_iff]
  rw [eval_call hargs, ← hdecide]
  rfl

/-- The test for a part. -/
theorem eval_holds {f : Focus} {e : Expr} {v : Value} (he : eval d f e = some v) (w : Text) :
    eval d f (.call ⟨[], "contains".toList⟩ [e, .literal w]) =
      some (.boolean (Text.holds (v.toText d) w)) := by
  have hargs : evalAll d f [e, .literal w] = some [v, .text w] := by
    simp [evalAll, he, eval]
  rw [eval_call hargs]
  rfl

theorem eval_equal {f : Focus} {e : Expr} {v : Value} (he : eval d f e = some v) (w : Text) :
    eval d f (.binary .equal e (.literal w)) = some (.boolean (v.equal d (.text w))) := by
  rw [eval, he]
  rfl

/-- The test for a word: the words of the value with a space at either end hold the word with a
space at either end. -/
theorem eval_word {f : Focus} {e : Expr} {v : Value} (he : eval d f e = some v) (w : Text) :
    eval d f (.call ⟨[], "contains".toList⟩ [
      .call ⟨[], "concat".toList⟩
        [.literal [' '], .call ⟨[], "normalize-space".toList⟩ [e], .literal [' ']],
      .literal (' ' :: w ++ [' '])]) = some (.boolean (Text.holds
        (' ' :: Function.normalizeSpace (v.toText d) ++ [' ']) (' ' :: w ++ [' ']))) := by
  have hnormal : eval d f (.call ⟨[], "normalize-space".toList⟩ [e]) =
      some (.text (Function.normalizeSpace (v.toText d))) := by
    have hargs : evalAll d f [e] = some [v] := by simp [evalAll, he]
    rw [eval_call hargs]
    rfl
  have hconcat : eval d f (.call ⟨[], "concat".toList⟩
      [.literal [' '], .call ⟨[], "normalize-space".toList⟩ [e], .literal [' ']]) =
        some (.text (' ' :: Function.normalizeSpace (v.toText d) ++ [' '])) := by
    have hargs : evalAll d f
        [.literal [' '], .call ⟨[], "normalize-space".toList⟩ [e], .literal [' ']] =
          some [.text [' '], .text (Function.normalizeSpace (v.toText d)), .text [' ']] := by
      rw [evalAll, evalAll, evalAll, hnormal]
      rfl
    rw [eval_call hargs]
    show some (Value.text ([' '] ++ (Function.normalizeSpace (v.toText d) ++ ([' '] ++ [])))) = _
    simp
  rw [eval_holds hconcat]
  rfl

theorem eval_ending {f : Focus} {e : Expr} {v : Value} (he : eval d f e = some v) {w : Text}
    (hw : w ≠ []) :
    eval d f (.binary .equal
      (.call ⟨[], "substring".toList⟩ [e, .binary .subtract
        (.call ⟨[], "string-length".toList⟩ [e])
        (.number (.whole ((w.length - 1 : Nat) : Int)))])
      (.literal w)) = some (.boolean (decide (w <:+ v.toText d))) := by
  have hlength : eval d f (.call ⟨[], "string-length".toList⟩ [e]) =
      some (.number (.whole (v.toText d).length)) := by
    have hargs : evalAll d f [e] = some [v] := by simp [evalAll, he]
    rw [eval_call hargs]
    rfl
  have hstart : eval d f (.binary .subtract (.call ⟨[], "string-length".toList⟩ [e])
      (.number (.whole ((w.length - 1 : Nat) : Int)))) =
        some (.number (.whole ((v.toText d).length - (w.length - 1 : Nat)))) := by
    rw [eval, hlength]
    rfl
  have hend : eval d f (.call ⟨[], "substring".toList⟩ [e, .binary .subtract
      (.call ⟨[], "string-length".toList⟩ [e])
      (.number (.whole ((w.length - 1 : Nat) : Int)))]) = some (.text (Function.substring
        (v.toText d) (.whole ((v.toText d).length - (w.length - 1 : Nat))) none)) := by
    have hargs : evalAll d f [e, .binary .subtract (.call ⟨[], "string-length".toList⟩ [e])
        (.number (.whole ((w.length - 1 : Nat) : Int)))] =
          some [v, .number (.whole ((v.toText d).length - (w.length - 1 : Nat)))] := by
      rw [evalAll, evalAll, he, hstart]
      rfl
    rw [eval_call hargs]
    rfl
  rw [eval_equal hend, ← isSuffixOf_eq_substring _ hw]
  rfl

/-- What is asked of the value of an attribute that is there and may not be empty. -/
theorem eval_comparison {f : Focus} {v : Value} {a : Option Text} {name w : Text}
    {operator : AttributeOperator} (hv : eval d f (Expr.attribute name) = some v)
    (hlook : v.LooksUp d a) (hempty : (operator.failsOnEmpty && w.isEmpty) = false)
    (hspace : operator = .word → ∀ c ∈ w, Text.isSpace c = false) :
    eval d f (AttributeTest.expr ⟨name, some (operator, w)⟩) =
      some (.boolean (a.any (operator.holds w))) := by
  have hw : operator.failsOnEmpty = true → w ≠ [] := by
    rintro h rfl
    rw [h] at hempty
    cases hempty
  have hfull : operator.failsOnEmpty = true → w.isEmpty = false := by
    intro h
    rw [h] at hempty
    exact hempty
  simp only [AttributeTest.expr, hempty, Bool.false_eq_true, if_false]
  cases operator with
  | equals =>
    rw [eval_equal hv, hlook.equal]
    rfl
  | differs =>
    have : eval d f (.binary .unequal (Expr.attribute name) (.literal w)) =
        some (.boolean (v.unequal d (.text w))) := by
      rw [eval, hv]
      rfl
    rw [this, hlook.unequal]
    rfl
  | word =>
    rw [eval_word hv, Function.holds_word (hw rfl) (hspace rfl), hlook.toText]
    cases a <;> rfl
  | part =>
    have hholds (s : Text) : Text.holds s w = decide (w <:+: s) := by
      rw [Bool.eq_iff_iff, Text.holds_iff, decide_eq_true_iff]
    rw [eval_holds hv, hlook.toText, hholds]
    cases a with
    | none => simp [hw rfl]
    | some s => simp [AttributeOperator.holds, hfull rfl]
  | beginning =>
    rw [eval_beginsWith hv, hlook.toText]
    cases a with
    | none => simp [hw rfl]
    | some s => simp [AttributeOperator.holds, hfull rfl]
  | ending =>
    rw [eval_and hv (eval_ending hv (hw rfl)), hlook.toBool, hlook.toText]
    cases a with
    | none => rfl
    | some s => simp [AttributeOperator.holds, hfull rfl, Value.toBool]
  | dashed =>
    rw [eval_or (eval_equal hv w) (eval_beginsWith hv _), hlook.equal, hlook.toText]
    cases a with
    | none => simp [Value.toBool]
    | some s => rfl

/-- A test is true of the elements that pass it. -/
theorem AttributeTest.truth (hd : d.IsTree)
    (hspace : ∀ w, t.comparison = some (.word, w) → ∀ c ∈ w, Text.isSpace c = false) :
    Truth d t.expr (t.holds d) := by
  intro p hp position size
  obtain ⟨v, hv, hlook⟩ := eval_lookup hd hp t.name position size
  obtain ⟨name, comparison⟩ := t
  cases comparison with
  | none =>
    refine ⟨v, hv, hlook.notNumber, hlook.toBool.trans ?_⟩
    rw [AttributeTest.holds]
    cases d.value? name p <;> rfl
  | some c =>
    obtain ⟨operator, w⟩ := c
    suffices h : eval d ⟨.tree p, position, size⟩ (AttributeTest.expr ⟨name, some (operator, w)⟩) =
        some (.boolean ((d.value? name p).any (operator.holds w))) from
      ⟨_, h, fun _ => nofun, rfl⟩
    cases hempty : operator.failsOnEmpty && w.isEmpty with
    | false =>
      refine eval_comparison hv hlook hempty ?_
      rintro rfl
      exact hspace w rfl
    | true =>
      rw [Bool.and_eq_true, List.isEmpty_iff] at hempty
      obtain ⟨hfails, rfl⟩ := hempty
      -- No value holds an empty word, and the others fail on it by themselves.
      have hno (a : Text) : operator.holds [] a = false := by
        cases operator with
        | word =>
          rw [AttributeOperator.holds, Bool.eq_false_iff, ne_eq, List.contains_iff_mem]
          exact fun h => (Function.of_mem_words h).1 rfl
        | part | beginning | ending => rfl
        | equals | differs | dashed => cases hfails
      have hnone : (d.value? name p).any (operator.holds []) = false := by
        cases d.value? name p with
        | none => rfl
        | some a => exact hno a
      rw [hnone]
      simp only [AttributeTest.expr, hfails, List.isEmpty_nil, Bool.and_true, if_true]
      rfl

end

end TreeQuery
