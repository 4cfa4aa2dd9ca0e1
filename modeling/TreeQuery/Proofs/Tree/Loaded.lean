import TreeQuery.NodeSet.Loading
import TreeQuery.Proofs.Tree.Places

/-!
# Trees of loaded documents

Whatever markup is loaded, only elements contain anything: a forest is grown from tokens, and no
token but an opening tag has what follows as its content. What is left outside the root element are
comments and instructions, so that all elements lie in the first one.

Main statements: `NodeSet.isLoaded_of_load` and `NodeSet.isLoaded_of_loadBytes`, with
`Document.IsGrown.elementsContain` and `Document.IsGrown.exists_isRootedAt`.
-/

namespace TreeQuery

namespace Markup

/-- The tags of a dialect stand for elements. -/
def Dialect.MakesElements (dialect : Dialect) : Prop :=
  ∀ scope n as, (dialect.element scope n as).1.isElement = true

variable {dialect : Dialect}

/-- In a forest that is grown only elements contain anything. -/
theorem elementsContain_grow (h : dialect.MakesElements) (scope : dialect.Scope)
    (ts : List Token) : (grow dialect scope ts).1.elementsContain = true := by
  fun_induction grow dialect scope ts <;> simp_all [Forest.elementsContain, Dialect.MakesElements]

/-- So it is with what is left around the root. -/
theorem elementsContain_aroundRoot {f : Forest} (h : f.elementsContain = true) (rootSeen : Bool) :
    (aroundRoot rootSeen f).elementsContain = true := by
  fun_induction aroundRoot rootSeen f <;> simp_all [Forest.elementsContain]

/-- Behind the root element no element is left at the top. -/
theorem isElement_of_tree?_aroundRoot_true {f c : Forest} {l : Label} {i : Nat}
    (h : (aroundRoot true f).tree? i = some (l, c)) : l.isElement = false := by
  induction f generalizing i with
  | nil => cases h
  | cons m e r _ ih =>
    cases m with
    | element => cases h
    | text | reference => exact ih h
    | comment | instruction =>
      cases i with
      | zero =>
        cases h
        rfl
      | succ i => exact ih h

/-- One element is left at the top. -/
theorem eq_of_tree?_aroundRoot {f c c' : Forest} {l l' : Label} {i j : Nat}
    (hi : (aroundRoot false f).tree? i = some (l, c)) (hl : l.isElement = true)
    (hj : (aroundRoot false f).tree? j = some (l', c')) (hl' : l'.isElement = true) : i = j := by
  induction f generalizing i j with
  | nil => cases hi
  | cons m e r _ ih =>
    -- Behind an element that stays there is none.
    have hbehind {k : Nat} {a : Label} {b : Forest}
        (h : (aroundRoot true r).tree? k = some (a, b)) (ha : a.isElement = true) : False := by
      rw [isElement_of_tree?_aroundRoot_true h] at ha
      cases ha
    cases m with
    | text | reference => exact ih hi hj
    | element =>
      rcases i with - | i <;> rcases j with - | j
      · rfl
      · exact (hbehind hj hl').elim
      · exact (hbehind hi hl).elim
      · exact (hbehind hi hl).elim
    | comment | instruction =>
      rcases i with - | i
      · cases hi
        cases hl
      rcases j with - | j
      · cases hj
        cases hl'
      exact congrArg Nat.succ (ih hi hj)

end Markup

namespace Document

/-- A document that has been grown from tokens. -/
def IsGrown (d : Document) : Prop := ∃ (dialect : Markup.Dialect) (isHtml : Bool)
  (ts : List Markup.Token), dialect.MakesElements ∧ Markup.documentOf? dialect isHtml ts = some d

/-- An element that comes first and lies around all others. -/
structure IsRootedAt (d : Document) (r : Path) : Prop where
  root : d.root? = some r
  around {p : Path} : d.isElement p = true → r <+: p

variable {d : Document}

/-- What has been grown is a forest of which one element is left at the top, if there is any. -/
theorem IsGrown.exists_content (h : d.IsGrown) : ∃ f : Forest, f.elementsContain = true ∧
    d.content = Markup.aroundRoot false f ∧ d.elements ≠ [] := by
  obtain ⟨dialect, isHtml, ts, hdialect, hd⟩ := h
  unfold Markup.documentOf? at hd
  simp only at hd
  split at hd
  · cases hd
  next hsome =>
  cases hd
  exact ⟨_, Markup.elementsContain_grow hdialect _ _, rfl, mt List.isEmpty_iff.2 hsome⟩

/-- In a document that has been grown only elements contain anything. -/
theorem IsGrown.elementsContain (h : d.IsGrown) : d.content.elementsContain = true := by
  obtain ⟨f, hf, hcontent, -⟩ := h.exists_content
  rw [hcontent]
  exact Markup.elementsContain_aroundRoot hf false

/-- Every element lies in one at the top, or is one. -/
theorem exists_top_of_isElement (hd : d.content.elementsContain = true) {p : Path}
    (h : d.isElement p = true) : ∃ i q l c, p = i :: q ∧ d.content.tree? i = some (l, c) ∧
      l.isElement = true := by
  cases p with
  | nil => cases h
  | cons i q =>
    have hlabel : (d.content.label? (i :: q)).isSome = true := isSome_of_isElement h
    cases ht : d.content.tree? i with
    | none => cases q <;> simp [Forest.label?, ht] at hlabel
    | some t =>
      obtain ⟨l, c⟩ := t
      refine ⟨i, q, l, c, rfl, ht, ?_⟩
      -- A path that goes on leads below the node at the top, which is an element because it
      -- contains something.
      cases q with
      | nil => simpa [isElement, label?, Forest.label?, ht] using h
      | cons j q =>
        rcases (Forest.elementsContain_of_tree? hd ht).1 with hl | rfl
        · exact hl
        · cases q <;> simp [Forest.label?, ht, Forest.tree?] at hlabel

/-- A node at the top is an element if its label is that of one. -/
theorem isElement_singleton {i : Nat} {l : Label} {c : Forest}
    (h : d.content.tree? i = some (l, c)) : d.isElement [i] = l.isElement := by
  simp [isElement, label?, Forest.label?, h]

/-- The element at the top comes first, and everything else lies in it. -/
theorem IsGrown.exists_isRootedAt (h : d.IsGrown) : ∃ r, d.IsRootedAt r := by
  obtain ⟨f, -, hcontent, hne⟩ := h.exists_content
  obtain ⟨r, rest, hrest⟩ := List.exists_cons_of_ne_nil hne
  have hroot : d.root? = some r := congrArg List.head? hrest
  obtain ⟨i, q, l, c, rfl, ht, hl⟩ := exists_top_of_isElement h.elementsContain
    (mem_elements_iff.1 (hrest ▸ List.mem_cons_self))
  -- Nothing comes before the element at the top in which the first one lies.
  obtain rfl : q = [] := by
    have htop : [i] ∈ d.elements := mem_elements_iff.2 ((isElement_singleton ht).trans hl)
    have hordered := d.pairwise_before_elements
    rw [hrest] at htop hordered
    rcases List.mem_cons.1 htop with he | htop
    · cases he
      rfl
    · have hbefore := (List.pairwise_cons.1 hordered).1 _ htop
      cases q <;> simp [Path.before] at hbefore
  refine ⟨[i], hroot, fun hp => ?_⟩
  obtain ⟨j, q, l', c', rfl, ht', hl'⟩ := exists_top_of_isElement h.elementsContain hp
  rw [hcontent] at ht ht'
  obtain rfl := Markup.eq_of_tree?_aroundRoot ht hl ht' hl'
  exact List.prefix_append [i] q

end Document

namespace Markup

/-- What is read as a page is grown from its tokens. -/
theorem Html.isGrown_of_parse? {s : Text} {d : Document} (h : Html.parse? s = some d) :
    d.IsGrown := ⟨_, _, _, fun _ _ _ => rfl, h⟩

/-- So is what is read as XML. -/
theorem Xml.isGrown_of_parse? {s : Text} {d : Document} (h : Xml.parse? s = some d) :
    d.IsGrown := by
  unfold Xml.parse? at h
  simp only at h
  split at h
  · cases h
  · exact ⟨_, _, _, fun _ _ _ => rfl, h⟩

end Markup

namespace NodeSet

/-- A set that has just been loaded: there is no document, or the set stands for one that has been
grown from tokens. -/
def IsLoaded (q : NodeSet) : Prop :=
  (∃ asXml, q = empty asXml) ∨ ∃ d asXml, q = ofDocument d asXml ∧ d.IsGrown

/-- A set of that kind for any tree: it stands for a document, or there was none. -/
def IsFresh (q : NodeSet) : Prop :=
  (∃ asXml, q = empty asXml) ∨ ∃ d asXml, q = ofDocument d asXml ∧ d.IsTree

theorem isLoaded_ofXml {d : Option Document} (h : ∀ e, d = some e → e.IsGrown) :
    (ofXml d).IsLoaded := by
  cases d with
  | none => exact .inl ⟨_, rfl⟩
  | some d => exact .inr ⟨d, true, rfl, h d rfl⟩

theorem isLoaded_of_loadXml {s : Text} {q : NodeSet} (h : loadXml s = .ok q) : q.IsLoaded := by
  unfold loadXml at h
  simp only at h
  repeat' split at h
  all_goals cases h
  · exact .inl ⟨_, rfl⟩
  · exact isLoaded_ofXml fun _ => Markup.Xml.isGrown_of_parse?

theorem isLoaded_of_loadHtml {s : Text} {q : NodeSet} (h : loadHtml s = .ok q) : q.IsLoaded := by
  unfold loadHtml at h
  split at h
  · cases h
  · split at h
    · next d hd =>
      cases h
      exact .inr ⟨d, false, rfl, Markup.Html.isGrown_of_parse? hd⟩
    · cases h

/-- What has been loaded from a text. -/
theorem isLoaded_of_load {s : Text} {asXml : Option Bool} {q : NodeSet}
    (h : load s asXml = .ok q) : q.IsLoaded := by
  unfold load at h
  repeat' split at h
  · cases h
    exact .inl ⟨_, rfl⟩
  · exact isLoaded_of_loadXml h
  · exact isLoaded_of_loadHtml h

/-- What has been loaded from bytes. -/
theorem isLoaded_of_loadBytes {bytes : List UInt8} {asXml : Option Bool} {q : NodeSet}
    (h : loadBytes bytes asXml = .ok q) : q.IsLoaded := by
  unfold loadBytes at h
  simp only at h
  repeat' split at h
  · cases h
    exact .inl ⟨_, rfl⟩
  · cases h
    exact isLoaded_ofXml fun _ => Markup.Xml.isGrown_of_parse?
  · exact isLoaded_of_loadHtml h

end NodeSet

end TreeQuery
