import Mathlib.Data.List.DropRight
import TreeQuery.Proofs.Expression.TestNames
import TreeQuery.Proofs.Written.Reading

/-!
# The grammar of attribute tests

What may stand between brackets is a name, perhaps an operator, and behind an operator perhaps a
value. Around the value, or where it would be, any number of quotes of either kind may stand; behind
quotes that end a value, a line feed may. A text has at most one reading of this kind, if it is left
open how quotes with nothing between them are divided.

Main statement: `AttributeTest.attributePredicate_iff`, the texts with a reading are the ones that
are accepted, and the predicate is that of the reading.
-/

namespace TreeQuery

namespace AttributeTest

open Written (operatorSigns)

structure Reading where
  name : Text
  operator : Option AttributeOperator
  opening : Text
  value : Text
  closing : Text
  feed : Text
  isName : ∃ c r, name = c :: r ∧ isNameStart c = true ∧ ∀ d ∈ r, isNamePart d = true
  opens : ∀ c ∈ opening, isQuote c = true
  noQuote : ∀ c ∈ value, isQuote c = false
  closes : ∀ c ∈ closing, isQuote c = true
  ends : feed = [] ∨ feed = ['\n'] ∧ value ≠ [] ∧ closing ≠ []
  alone : operator = none → value = [] ∧ feed = []

namespace Reading

def quoted (r : Reading) : Text := r.opening ++ (r.value ++ (r.closing ++ r.feed))

def rest (r : Reading) : Text := (r.operator.elim [] operatorSigns) ++ r.quoted

def text (r : Reading) : Text := r.name ++ r.rest

def test (r : Reading) : AttributeTest := ⟨Text.lower r.name, r.operator.map (·, r.value)⟩

end Reading

/-! ## Values

Reading takes off the quotes in front, then the longest text without quotes, then quotes again, and
asks whether nothing but a line feed is left. That this gives back the value of a division needs
that the division is made the same way: the value has no quotes, so that it ends where the first
quote behind it stands. A value that is empty is the exception. There the quotes in front and those
behind cannot be told apart, and all of them are taken off at once. -/

theorem dropWhile_append_of_quotes {a s : Text} (ha : ∀ c ∈ a, isQuote c = true) :
    (a ++ s).dropWhile isQuote = s.dropWhile isQuote :=
  List.dropWhile_append_of_pos ha

/-- In front of a value there is nothing to take off. -/
theorem dropWhile_of_noQuote {v s : Text} (hne : v ≠ []) (hv : ∀ c ∈ v, isQuote c = false) :
    (v ++ s).dropWhile isQuote = v ++ s := by
  obtain ⟨c, r, rfl⟩ := List.exists_cons_of_ne_nil hne
  rw [List.cons_append, List.dropWhile_cons_of_neg (by simp [hv c List.mem_cons_self])]

namespace Reading

variable {r r' : Reading}

theorem dropWhile_feed (r : Reading) : r.feed.dropWhile isQuote = r.feed := by
  rcases r.ends with h | ⟨h, -⟩
  · rw [h]
    rfl
  · rw [h]
    rfl

theorem feed_of_value_eq_nil (h : r.value = []) : r.feed = [] := by
  rcases r.ends with hfeed | ⟨-, hvalue, -⟩
  · exact hfeed
  · exact absurd h hvalue

/-- Without a value there are only quotes. -/
theorem quotes_of_value_eq_nil (h : r.value = []) : ∀ c ∈ r.quoted, isQuote c = true := by
  intro c hc
  rw [quoted, h, feed_of_value_eq_nil h, List.nil_append, List.append_nil, List.mem_append] at hc
  exact hc.elim (r.opens c) (r.closes c)

/-- Behind the quotes that open it a value begins. -/
theorem dropWhile_quoted (h : r.value ≠ []) :
    r.quoted.dropWhile isQuote = r.value ++ (r.closing ++ r.feed) := by
  rw [quoted, dropWhile_append_of_quotes r.opens, dropWhile_of_noQuote h r.noQuote]

/-- The value is read from between the quotes. -/
theorem readValue?_quoted (r : Reading) : readValue? r.quoted = some r.value := by
  by_cases h : r.value = []
  · have hnil : r.quoted.dropWhile isQuote = [] :=
      List.dropWhile_eq_nil_iff.2 (quotes_of_value_eq_nil h)
    rw [readValue?, hnil, h]
    rfl
  · have hplain : ∀ c ∈ r.value, (!isQuote c) = true := fun c hc => by simp [r.noQuote c hc]
    -- Behind the value there is a quote, or nothing.
    have hbehind : (r.closing ++ r.feed).takeWhile (!isQuote ·) = [] ∧
        (r.closing ++ r.feed).dropWhile (!isQuote ·) = r.closing ++ r.feed := by
      cases hclosing : r.closing with
      | nil =>
        have hfeed : r.feed = [] := by
          rcases r.ends with hfeed | ⟨-, -, hne⟩
          · exact hfeed
          · exact absurd hclosing hne
        rw [hfeed]
        exact ⟨rfl, rfl⟩
      | cons c k =>
        have hc : isQuote c = true := r.closes c (by rw [hclosing]; exact List.mem_cons_self)
        simp [hc]
    have hvalue : (r.value ++ (r.closing ++ r.feed)).takeWhile (!isQuote ·) = r.value := by
      rw [List.takeWhile_append_of_pos hplain, hbehind.1, List.append_nil]
    have hdrop : ((r.value ++ (r.closing ++ r.feed)).dropWhile (!isQuote ·)).dropWhile isQuote =
        r.feed := by
      rw [List.dropWhile_append_of_pos hplain, hbehind.2, dropWhile_append_of_quotes r.closes,
        r.dropWhile_feed]
    have hfeed : (r.feed = [] || r.feed = ['\n']) = true := by
      rcases r.ends with hfeed | ⟨hfeed, -⟩
      · simp [hfeed]
      · simp [hfeed]
    rw [readValue?, dropWhile_quoted h]
    simp only [hvalue, hdrop]
    exact if_pos hfeed

end Reading

/-- A text that a value is read from is the value with quotes around it. -/
theorem exists_of_readValue? {s v : Text} (h : readValue? s = some v) :
    ∃ a k f, s = a ++ (v ++ (k ++ f)) ∧ (∀ c ∈ a, isQuote c = true) ∧
      (∀ c ∈ v, isQuote c = false) ∧ (∀ c ∈ k, isQuote c = true) ∧
      (f = [] ∨ f = ['\n'] ∧ v ≠ [] ∧ k ≠ []) := by
  rw [readValue?] at h
  -- The text behind the quotes in front, and what is left of it behind the value.
  obtain ⟨b, hb⟩ : ∃ b, b = s.dropWhile isQuote := ⟨_, rfl⟩
  obtain ⟨u, hu⟩ : ∃ u, u = b.dropWhile (!isQuote ·) := ⟨_, rfl⟩
  simp only [← hb, ← hu] at h
  have hs : s.takeWhile isQuote ++ b = s := by rw [hb, List.takeWhile_append_dropWhile]
  have hbu : b.takeWhile (!isQuote ·) ++ u = b := by rw [hu, List.takeWhile_append_dropWhile]
  have huk : u.takeWhile isQuote ++ u.dropWhile isQuote = u := List.takeWhile_append_dropWhile
  -- A line feed would still be part of the value.
  have hfeed : u ≠ ['\n'] := by
    intro hfeed
    have htwice : u.dropWhile (!isQuote ·) = u := by rw [hu, List.dropWhile_idempotent]
    rw [hfeed] at htwice
    exact absurd htwice (by decide)
  split at h
  · next hrest =>
    obtain rfl := Option.some.inj h
    refine ⟨s.takeWhile isQuote, u.takeWhile isQuote, u.dropWhile isQuote, ?_,
      fun c hc => List.mem_takeWhile_imp hc, fun c hc => by simpa using List.mem_takeWhile_imp hc,
      fun c hc => List.mem_takeWhile_imp hc, ?_⟩
    · rw [huk, hbu, hs]
    · rw [Bool.or_eq_true, decide_eq_true_eq, decide_eq_true_eq] at hrest
      refine hrest.imp_right fun hrest => ⟨hrest, ?_, ?_⟩
      · intro hvalue
        rw [hvalue, List.nil_append] at hbu
        have htwice : u.dropWhile isQuote = u := by rw [hbu, hb, List.dropWhile_idempotent]
        exact hfeed (htwice.symm.trans hrest)
      · intro hclosing
        rw [hclosing, List.nil_append] at huk
        exact hfeed (huk.symm.trans hrest)
  · cases h

/-! ## Operators

An operator is told by its first character, which no name and no quote could be. So the division of
a text into name, operator and value is the only one. -/

theorem splitOperator?_signs (o : AttributeOperator) (s : Text) :
    splitOperator? (operatorSigns o ++ s) = some (o, s) := by
  cases o <;> rfl

theorem symbol?_of_ofSymbol? {c : Char} {o : AttributeOperator}
    (h : AttributeOperator.ofSymbol? c = some o) : o.symbol? = some c := by
  rw [AttributeOperator.ofSymbol?.eq_def] at h
  split at h
  case h_7 => cases h
  all_goals
    cases h
    rfl

/-- An operator that is split off stood in front. -/
theorem eq_of_splitOperator? {s r : Text} {o : AttributeOperator}
    (h : splitOperator? s = some (o, r)) : s = operatorSigns o ++ r := by
  rw [splitOperator?.eq_def] at h
  split at h
  · cases h
    rfl
  · obtain ⟨o', ho, he⟩ := Option.map_eq_some_iff.1 h
    cases he
    rw [operatorSigns, symbol?_of_ofSymbol? ho]
    rfl
  · cases h

/-- Quotes do not begin with an operator. -/
theorem splitOperator?_of_quotes {s : Text} (h : ∀ c ∈ s, isQuote c = true) :
    splitOperator? s = none := by
  have hequals : '=' ∉ s := fun hmem => absurd (h _ hmem) (by decide)
  cases ho : splitOperator? s with
  | none => rfl
  | some x =>
    obtain ⟨o, r⟩ := x
    refine absurd ?_ hequals
    rw [eq_of_splitOperator? ho, operatorSigns]
    simp

/-- No name goes on with what an operator begins with. -/
theorem takeWhile_signs (o : AttributeOperator) (s : Text) :
    (operatorSigns o ++ s).takeWhile isNamePart = [] := by
  cases o <;> rfl

theorem takeWhile_quotes {s : Text} (h : ∀ c ∈ s, isQuote c = true) :
    s.takeWhile isNamePart = [] := by
  cases s with
  | nil => rfl
  | cons c s =>
    have hc : isNamePart c = false := by
      have hquote := h c List.mem_cons_self
      rw [isQuote, Bool.or_eq_true, decide_eq_true_eq, decide_eq_true_eq] at hquote
      rcases hquote with rfl | rfl <;> decide
    exact List.takeWhile_cons_of_neg (by simp [hc])

/-! ## Readings

Both directions go through the parts in their order: what each reader takes from the text of a
reading is the part itself, and what the readers take from any text are the parts of a reading. -/

namespace Reading

variable {r r' : Reading}

/-- Behind a name there is no character that it could go on with. -/
theorem takeWhile_rest (r : Reading) : r.rest.takeWhile isNamePart = [] := by
  rw [rest]
  cases ho : r.operator with
  | none => exact takeWhile_quotes (quotes_of_value_eq_nil (r.alone ho).1)
  | some o => exact takeWhile_signs o _

theorem splitName?_text (r : Reading) : splitName? r.text = some (r.name, r.rest) := by
  obtain ⟨c, n, hn, hc, hparts⟩ := r.isName
  exact splitName?_append hn hc hparts r.takeWhile_rest

/-- The name is as long as it can be. -/
theorem takeWhile_text (r : Reading) : r.text.takeWhile isNamePart = r.name := by
  obtain ⟨c, n, hn, hc, hparts⟩ := r.isName
  have hall : ∀ d ∈ r.name, isNamePart d = true := by
    intro d hd
    rw [hn] at hd
    rcases List.mem_cons.1 hd with rfl | hd
    · exact isNamePart_of_isNameStart hc
    · exact hparts d hd
  rw [text, List.takeWhile_append_of_pos hall, r.takeWhile_rest, List.append_nil]

/-- Behind a name there is an operator or there is none, as the reading says. -/
theorem splitOperator?_rest (r : Reading) :
    splitOperator? r.rest = r.operator.map (·, r.quoted) := by
  rw [rest]
  cases ho : r.operator with
  | none => exact splitOperator?_of_quotes (quotes_of_value_eq_nil (r.alone ho).1)
  | some o => exact splitOperator?_signs o _

/-- The test with the parts of a text is what the text is read as. -/
theorem ofFragment?_text (r : Reading) : ofFragment? r.text = some r.test := by
  rw [ofFragment?, r.splitName?_text]
  simp only [r.splitOperator?_rest]
  cases ho : r.operator with
  | none =>
    have hquotes : r.rest.all isQuote = true := by
      rw [rest, ho, List.all_eq_true]
      exact quotes_of_value_eq_nil (r.alone ho).1
    simp [hquotes, test, ho]
  | some o => simp [r.readValue?_quoted, test, ho]

/-- A value that is not empty tells the quotes in front of it from those behind it. -/
theorem eq_of_quoted_eq (h : r'.quoted = r.quoted) : r'.value = r.value ∧ r'.feed = r.feed ∧
    (r.value ≠ [] → r'.opening = r.opening ∧ r'.closing = r.closing) := by
  have hvalue : r'.value = r.value := by
    have hread := congrArg readValue? h
    rw [readValue?_quoted, readValue?_quoted] at hread
    exact Option.some.inj hread
  refine ⟨hvalue, ?_⟩
  by_cases hne : r.value = []
  · refine ⟨?_, fun hne' => absurd hne hne'⟩
    rw [feed_of_value_eq_nil hne, feed_of_value_eq_nil (hvalue.trans hne)]
  · -- The value begins behind the first quotes, which takes these off on both sides.
    have hbehind : r'.closing ++ r'.feed = r.closing ++ r.feed := by
      have hdrop := congrArg (List.dropWhile isQuote) h
      rw [dropWhile_quoted hne, dropWhile_quoted (hvalue ▸ hne), hvalue] at hdrop
      exact List.append_cancel_left hdrop
    have hfeed : r'.feed = r.feed := by
      have hdrop := congrArg (List.dropWhile isQuote) hbehind
      rwa [dropWhile_append_of_quotes r'.closes, dropWhile_append_of_quotes r.closes,
        dropWhile_feed, dropWhile_feed] at hdrop
    refine ⟨hfeed, fun _ => ⟨?_, ?_⟩⟩
    · rw [quoted, quoted, hvalue, hbehind] at h
      exact List.append_cancel_right h
    · rw [hfeed] at hbehind
      exact List.append_cancel_right hbehind

/-- Two readings of a text are the same, but for how quotes with no value in them are divided. -/
theorem eq_of_text_eq (h : r'.text = r.text) : r'.operator = r.operator ∧ r'.value = r.value ∧
    r'.feed = r.feed ∧ (r.value ≠ [] → r' = r) := by
  -- From the front to the end: the name, then the operator, then what is between the quotes.
  have hname : r'.name = r.name := by rw [← takeWhile_text, h, takeWhile_text]
  have hrest : r'.rest = r.rest := by
    rw [text, text, hname] at h
    exact List.append_cancel_left h
  have hoperator : r'.operator = r.operator := by
    have hsplit := congrArg (fun s => (splitOperator? s).map Prod.fst) hrest
    simpa [splitOperator?_rest, Function.comp_def] using hsplit
  have hquoted : r'.quoted = r.quoted := by
    rw [rest, rest, hoperator] at hrest
    exact List.append_cancel_left hrest
  obtain ⟨hvalue, hfeed, hquotes⟩ := eq_of_quoted_eq hquoted
  refine ⟨hoperator, hvalue, hfeed, fun hne => ?_⟩
  obtain ⟨hopening, hclosing⟩ := hquotes hne
  cases r
  cases r'
  congr

end Reading

/-- A text that is read as a test has a reading. -/
theorem exists_reading_of_ofFragment? {e : Text} {t : AttributeTest} (h : ofFragment? e = some t) :
    ∃ r : Reading, r.text = e ∧ r.test = t := by
  rw [ofFragment?] at h
  split at h
  · cases h
  · next n s hname =>
    obtain ⟨hn, rfl⟩ := isName_and_eq_of_splitName? hname
    split at h
    · next o s' ho =>
      obtain ⟨v, hv, rfl⟩ := Option.map_eq_some_iff.1 h
      obtain ⟨a, k, f, rfl, ha, hv, hk, hf⟩ := exists_of_readValue? hv
      rw [eq_of_splitOperator? ho]
      have halone : some o = none → v = [] ∧ f = [] := by
        intro hnone
        cases hnone
      exact ⟨⟨n, some o, a, v, k, f, hn, ha, hv, hk, hf, halone⟩, rfl, rfl⟩
    · split at h
      · -- Without an operator there may still be quotes, with no value between them.
        next hquotes =>
        cases h
        refine ⟨⟨n, none, s, [], [], [], hn, List.all_eq_true.1 hquotes, List.forall_mem_nil _,
          List.forall_mem_nil _, .inl rfl, fun _ => ⟨rfl, rfl⟩⟩, ?_, rfl⟩
        show n ++ ([] ++ (s ++ [])) = n ++ s
        rw [List.nil_append, List.append_nil]
      · cases h

theorem ofFragment?_eq_some_iff {e : Text} {t : AttributeTest} :
    ofFragment? e = some t ↔ ∃ r : Reading, r.text = e ∧ r.test = t := by
  refine ⟨exists_reading_of_ofFragment?, ?_⟩
  rintro ⟨r, rfl, rfl⟩
  exact r.ofFragment?_text

/-- What is not accepted has no reading. -/
theorem ofFragment?_eq_none_iff {e : Text} :
    ofFragment? e = none ↔ ∀ r : Reading, r.text ≠ e := by
  constructor
  · rintro h r rfl
    cases r.ofFragment?_text.symm.trans h
  · intro h
    cases ht : ofFragment? e with
    | none => rfl
    | some t =>
      obtain ⟨r, hr, -⟩ := ofFragment?_eq_some_iff.1 ht
      exact absurd hr (h r)

theorem attributePredicate_eq_ok_iff {e p : Text} :
    attributePredicate e = .ok p ↔ ∃ t, ofFragment? e = some t ∧ t.predicate = p := by
  rw [attributePredicate]
  cases ofFragment? e <;> simp

theorem attributePredicate_eq_error_iff {e : Text} {x : SelectorError} :
    attributePredicate e = .error x ↔ ofFragment? e = none ∧ x = .malformedAttribute e := by
  rw [attributePredicate]
  cases ofFragment? e <;> simp [eq_comm]

/-- Exactly the texts with a reading are accepted, with the predicate of the reading, and the error
of any other names the text. The reading is the only one, but for how quotes with no value in them
are divided. -/
theorem attributePredicate_iff (e : Text) :
    (∀ p, attributePredicate e = .ok p ↔ ∃ r : Reading, r.text = e ∧ r.test.predicate = p) ∧
      (∀ x, attributePredicate e = .error x ↔
        (∀ r : Reading, r.text ≠ e) ∧ x = .malformedAttribute e) ∧
      ∀ r : Reading, r.text = e → r.name = e.takeWhile isNamePart ∧
        ∀ r' : Reading, r'.text = e → r'.operator = r.operator ∧ r'.value = r.value ∧
          r'.feed = r.feed ∧ (r.value ≠ [] → r' = r) := by
  refine ⟨fun p => ?_, fun x => ?_, ?_⟩
  · rw [attributePredicate_eq_ok_iff]
    constructor
    · rintro ⟨t, ht, hp⟩
      obtain ⟨r, hr, rfl⟩ := ofFragment?_eq_some_iff.1 ht
      exact ⟨r, hr, hp⟩
    · rintro ⟨r, hr, hp⟩
      exact ⟨r.test, ofFragment?_eq_some_iff.2 ⟨r, hr, rfl⟩, hp⟩
  · rw [attributePredicate_eq_error_iff, ofFragment?_eq_none_iff]
  · rintro r rfl
    exact ⟨r.takeWhile_text.symm, fun r' h => Reading.eq_of_text_eq h⟩

/-- One expression for each operator, with its predicate. Names are written in lower case; quotes
around a value are left out, with a line feed behind them. An empty value is part of no other. -/
def perOperator : List (Text × Text) := [
  ("checked".toList, "[@checked]".toList),
  ("HREF='x y'".toList, "[@href='x y']".toList),
  ("href!=\"x\"".toList, "[@href!='x']".toList),
  ("href~=x".toList, "[contains(concat(' ', normalize-space(@href), ' '), ' x ')]".toList),
  ("href*=x".toList, "[contains(@href, 'x')]".toList),
  ("href^=\"'x'\n".toList, "[starts-with(@href, 'x')]".toList),
  ("href$=xyz".toList, "[@href and substring(@href, string-length(@href)-2) = 'xyz']".toList),
  ("href|=x".toList, "[@href='x' or starts-with(@href, 'x-')]".toList),
  ("href*=''".toList, "[false()]".toList)]

/-- Each of them has a reading with that predicate; without a name, with an operator that is none or
with more behind the quotes there is no reading. -/
theorem attributePredicate_iff_perOperator :
    (∀ s ∈ perOperator, ∃ r : Reading, r.text = s.1 ∧ r.test.predicate = s.2) ∧
      ∀ e ∈ ["='x'".toList, "href%=x".toList, "href='x'y".toList], ∀ r : Reading, r.text ≠ e := by
  have haccepted : ∀ s ∈ perOperator, attributePredicate s.1 = .ok s.2 := by decide +kernel
  have hrefused : ∀ e ∈ ["='x'".toList, "href%=x".toList, "href='x'y".toList],
      attributePredicate e = .error (.malformedAttribute e) := by decide +kernel
  refine ⟨fun s hs => ?_, fun e he => ?_⟩
  · exact ((attributePredicate_iff s.1).1 s.2).1 (haccepted s hs)
  · exact (((attributePredicate_iff e).2.1 _).1 (hrefused e he)).1

end AttributeTest

end TreeQuery
