import TreeQuery.Markup.Html.Element
import TreeQuery.Markup.Token

/-!
# The nesting of HTML

The tags of HTML need not be nested: opening tags may be missing for the outermost elements, closing
tags for many others. From the tokens as they are written this module makes tokens in which every
element that is opened is closed, and nothing else is.

Main statement: `isNested_nested`, each closing tag ends the element that was opened last, and no
element stays open.
-/

namespace TreeQuery.Markup.Html

/-- How far tokens have been nested. -/
structure Nesting where
  /-- The names of the open elements, innermost first. -/
  opened : List Text := []
  headSeen : Bool := false
  bodySeen : Bool := false
  /-- The number of tags left out whose closing tags are left out too. -/
  spare : Nat := 0
  /-- The nested tokens, latest first. -/
  emitted : List Token := []

namespace Nesting

def emit (t : Token) (s : Nesting) : Nesting := { s with emitted := t :: s.emitted }

def openElement (n : Text) (as : List WrittenAttribute) (s : Nesting) : Nesting :=
  { s with
    opened := n :: s.opened
    headSeen := s.headSeen || n == "head".toList
    bodySeen := s.bodySeen || n == "body".toList
    emitted := .opening n as false :: s.emitted }

/-- Close the innermost open elements, so many. -/
def close : Nat → Nesting → Nesting
  | 0, s => s
  | k + 1, s =>
    match s.opened with
    | [] => s
    | n :: r => close k { s with opened := r, emitted := .closing n :: s.emitted }

/-- Close the elements that end where another begins. -/
def endAt (begun : Text) (s : Nesting) : Nesting :=
  s.close (s.opened.takeWhile (endsAt · begun)).length

def openHtml (s : Nesting) : Nesting :=
  if s.opened.isEmpty then s.openElement "html".toList [] else s

def inPart (s : Nesting) : Bool :=
  s.opened.contains "head".toList || s.opened.contains "body".toList

/-- Open the elements in which an element has to stand. -/
def imply (n : Text) (s : Nesting) : Nesting :=
  if n = "html".toList then s
  else
    let s := s.openHtml
    if n = "head".toList || n = "body".toList then s
    else if s.opened.length ≤ 1 && headNames.contains n then
      if s.headSeen then s else s.openElement "head".toList []
    else if frameNames.contains n || s.bodySeen || s.inPart then s
    else s.openElement "body".toList []

/-- Whether the tag of an outermost element is left out because it comes too late. -/
def isSpare (n : Text) (s : Nesting) : Bool :=
  (n == "html".toList && !s.opened.isEmpty)
    || (n == "head".toList && s.opened.length != 1)
    || (n == "body".toList && s.opened.contains "body".toList)

def takeOpening (n : Text) (as : List WrittenAttribute) (closed : Bool) (s : Nesting) : Nesting :=
  let s := (s.endAt n).imply n
  if s.isSpare n then { s with spare := s.spare + 1 }
  else
    let s := s.openElement n as
    if closed then s.close 1 else s

/-- The number of elements that a closing tag ends: those inside the innermost element of its name
and that element, unless a firmer one stands between. -/
def reach (n : Text) (opened : List Text) : Nat :=
  let inside := opened.takeWhile (· != n)
  if inside.length < opened.length && inside.all (fun m => firmness m ≤ firmness n) then
    inside.length + 1
  else 0

def takeClosing (n : Text) (s : Nesting) : Nesting :=
  if 0 < s.spare && (words "body head html").contains n then { s with spare := s.spare - 1 }
  else s.close (reach n s.opened)

/-- Whether text that is met here has to stand in the body. -/
def isOutside (s : Nesting) : Bool :=
  match s.opened with
  | [] => true
  | n :: _ => n == "html".toList || n == "head".toList

/-- Take a text. Outside the body its leading white space stays where it is, if that is in an
element. -/
def takeText (t : Text) (s : Nesting) : Nesting :=
  if s.isOutside then
    let blank := t.takeWhile Text.isSpace
    let rest := t.dropWhile Text.isSpace
    let s := if s.opened.isEmpty || blank.isEmpty then s else s.emit (.text blank)
    if rest.isEmpty then s
    else ((s.endAt ['p']).imply ['p']).emit (.text rest)
  else s.emit (.text t)

def take (s : Nesting) : Token → Nesting
  | .opening n as closed => s.takeOpening n as closed
  | .closing n => s.takeClosing n
  | .text t => s.takeText t
  | t => s.emit t

end Nesting

/-- The tokens with every element closed that is opened. -/
def nested (ts : List Token) : List Token :=
  let s := ts.foldl Nesting.take {}
  (s.close s.opened.length).emitted.reverse

/-! ### Nested tokens

Whether tokens are nested is said by a function that keeps account of the open elements, and that
gives up at a closing tag that ends another element than the innermost. It goes through the tokens
from the last to the first, as they are emitted latest first; so its value after one more token
follows from its value before. The invariant is that this account agrees with the one that the
nesting keeps itself. As all tokens are emitted by opening, closing and three kinds of token that do
neither, the steps need no other facts about HTML. -/

/-- The elements that are open behind a token, if it may stand where the given ones are. -/
def openBehind? (opened : List Text) : Token → Option (List Text)
  | .opening n _ closed => some (if closed then opened else n :: opened)
  | .closing n =>
    match opened with
    | [] => none
    | m :: r => if n = m then some r else none
  | _ => some opened

/-- The elements that are open behind some tokens, which are given latest first. -/
def openAfter? : List Token → Option (List Text)
  | [] => some []
  | t :: r => (openAfter? r).bind (openBehind? · t)

/-- Whether each closing tag ends the element that was opened last, and no element stays open. -/
def isNested (ts : List Token) : Prop := openAfter? ts.reverse = some []

namespace Nesting

/-- Whether the open elements are those that the emitted tokens leave open. -/
def Consistent (s : Nesting) : Prop := openAfter? s.emitted = some s.opened

/-- What neither opens nor closes an element may be emitted anywhere. -/
theorem consistent_emit {s : Nesting} (h : s.Consistent) {t : Token}
    (ht : ∀ o, openBehind? o t = some o) : (s.emit t).Consistent := by
  show (openAfter? s.emitted).bind (openBehind? · t) = some s.opened
  rw [h]; exact ht _

theorem consistent_openElement {s : Nesting} (h : s.Consistent) (n : Text)
    (as : List WrittenAttribute) : (s.openElement n as).Consistent := by
  show (openAfter? s.emitted).bind (openBehind? · (.opening n as false)) = some (n :: s.opened)
  rw [h]; rfl

theorem consistent_close (k : Nat) {s : Nesting} (h : s.Consistent) : (s.close k).Consistent := by
  induction k generalizing s with
  | zero => exact h
  | succ k ih =>
    unfold close
    split
    · exact h
    · next n r ho =>
      refine ih ?_
      show (openAfter? s.emitted).bind (openBehind? · (.closing n)) = some r
      rw [h, ho]; simp [openBehind?]

/-- Closing as many elements as are open leaves none open. -/
theorem opened_close_length (s : Nesting) : (s.close s.opened.length).opened = [] := by
  generalize hk : s.opened.length = k
  induction k generalizing s with
  | zero => simpa [close] using hk
  | succ k ih =>
    unfold close
    split
    · next h => simp [h] at hk
    · next n r ho =>
      refine ih _ ?_
      simp [ho] at hk
      simpa using hk

/-- Elements that are implied are opened like any others. -/
theorem consistent_imply {s : Nesting} (h : s.Consistent) (n : Text) : (s.imply n).Consistent := by
  have hh : s.openHtml.Consistent := by
    unfold openHtml
    split
    · exact consistent_openElement h _ _
    · exact h
  unfold imply
  split
  · exact h
  · simp only
    split
    · exact hh
    · split
      · split
        · exact hh
        · exact consistent_openElement hh _ _
      · split
        · exact hh
        · exact consistent_openElement hh _ _

theorem consistent_takeOpening {s : Nesting} (h : s.Consistent) (n : Text)
    (as : List WrittenAttribute) (closed : Bool) : (s.takeOpening n as closed).Consistent := by
  -- What the tag ends and what it implies comes first.
  have hi := consistent_imply (consistent_close _ h : (s.endAt n).Consistent) n
  unfold takeOpening
  simp only
  split
  · exact hi
  · split
    · exact consistent_close 1 (consistent_openElement hi n as)
    · exact consistent_openElement hi n as

theorem consistent_takeText {s : Nesting} (h : s.Consistent) (t : Text) :
    (s.takeText t).Consistent := by
  unfold takeText
  split
  · simp only
    -- The leading white space is emitted or not, depending on where it stands; both is consistent.
    have hb : ∀ b : Bool, (if b = true then s
        else s.emit (.text (t.takeWhile Text.isSpace))).Consistent := by
      intro b
      cases b
      · exact consistent_emit h fun _ => rfl
      · exact h
    split
    · exact hb _
    · exact consistent_emit (consistent_imply (consistent_close _ (hb _)) _) fun _ => rfl
  · exact consistent_emit h fun _ => rfl

/-- Each token that is taken keeps the account. -/
theorem consistent_take {s : Nesting} (h : s.Consistent) (t : Token) : (s.take t).Consistent := by
  cases t with
  | opening n as closed => exact consistent_takeOpening h n as closed
  | closing n =>
    show (s.takeClosing n).Consistent
    unfold takeClosing
    split
    · exact h
    · exact consistent_close _ h
  | text t => exact consistent_takeText h t
  | comment t => exact consistent_emit h fun _ => rfl
  | instruction n t => exact consistent_emit h fun _ => rfl
  | reference n t => exact consistent_emit h fun _ => rfl

end Nesting

/-- Each closing tag ends the element that was opened last, and no element stays open. -/
theorem isNested_nested (ts : List Token) : isNested (nested ts) := by
  have h : ∀ (ts : List Token) (s : Nesting), s.Consistent →
      (ts.foldl Nesting.take s).Consistent := by
    intro ts
    induction ts with
    | nil => intro s hs; exact hs
    | cons t r ih => intro s hs; exact ih _ (Nesting.consistent_take hs t)
  have hc := Nesting.consistent_close (ts.foldl Nesting.take {}).opened.length
    (h ts {} rfl)
  have ho := Nesting.opened_close_length (ts.foldl Nesting.take {})
  unfold isNested nested
  simp only [List.reverse_reverse]
  rw [hc, ho]

end TreeQuery.Markup.Html
