import TreeQuery.Text.Basic

/-!
# Texts as bytes

How bytes are read as text. In UTF-8 a character takes one to four bytes; bytes that cannot begin or
go on with a character are replaced, each longest beginning of a character by one replacement
character. In Latin-1 each byte is a character.

Main statement: `ofUtf8_ascii`, ASCII bytes are read one by one.
-/

namespace TreeQuery

namespace Text

/-! ### Reading byte by byte

The bytes are read one after another, and between two of them all that has to be known is the
character that has begun. For most first bytes the next one lies between `0x80` and `0xBF`; four of
them have narrower bounds, which exclude overlong forms, surrogates and numbers beyond the last code
point. A byte out of bounds ends the character that has begun and may itself begin another. -/

def replacement : Char := '\uFFFD'

/-- A character that has begun: the bits so far, how many bytes are missing, and between which
bounds the next one has to lie. -/
structure Begun where
  bits : Nat
  missing : Nat
  low : Nat
  high : Nat

/-- What a byte is at the beginning of a character: the whole of it, or the beginning of one that
takes more bytes; none if no character begins so. -/
def beginChar (b : Nat) : Char ⊕ Option Begun :=
  if b < 0x80 then .inl (Char.ofNat b)
  else if b < 0xC2 then .inr none
  else if b < 0xE0 then .inr (some ⟨b - 0xC0, 1, 0x80, 0xBF⟩)
  else if b < 0xF0 then
    .inr (some ⟨b - 0xE0, 2, if b = 0xE0 then 0xA0 else 0x80, if b = 0xED then 0x9F else 0xBF⟩)
  else if b < 0xF5 then
    .inr (some ⟨b - 0xF0, 3, if b = 0xF0 then 0x90 else 0x80, if b = 0xF4 then 0x8F else 0xBF⟩)
  else .inr none

/-- The characters that a byte completes where no character has begun, and the one that it begins.
-/
def startAt (b : Nat) : Text × Option Begun :=
  match beginChar b with
  | .inl c => ([c], none)
  | .inr none => ([replacement], none)
  | .inr (some s) => ([], some s)

/-- The characters that a byte completes, and the one that has begun behind it. -/
def advance (begun : Option Begun) (b : Nat) : Text × Option Begun :=
  match begun with
  | none => startAt b
  | some s =>
    if s.low ≤ b && b ≤ s.high then
      let bits := 64 * s.bits + (b - 0x80)
      if s.missing ≤ 1 then ([Char.ofNat bits], none)
      else ([], some ⟨bits, s.missing - 1, 0x80, 0xBF⟩)
    else
      let (t, begun) := startAt b
      (replacement :: t, begun)

def ofUtf8From (begun : Option Begun) : List UInt8 → Text
  | [] => if begun.isSome then [replacement] else []
  | b :: r =>
    let (t, begun) := advance begun b.toNat
    t ++ ofUtf8From begun r

def ofUtf8 (bytes : List UInt8) : Text := ofUtf8From none bytes

def ofLatin1 (bytes : List UInt8) : Text := bytes.map fun b => Char.ofNat b.toNat

/-- On ASCII bytes the two ways of reading agree. -/
theorem ofUtf8_ascii {bytes : List UInt8} (h : ∀ b ∈ bytes, b.toNat < 0x80) :
    ofUtf8 bytes = ofLatin1 bytes := by
  unfold ofUtf8
  induction bytes with
  | nil => rfl
  | cons b r ih =>
    have hb : b.toNat < 0x80 := h b (by simp)
    have hr := ih fun c hc => h c (by simp [hc])
    simp [ofUtf8From, advance, startAt, beginChar, hb, hr, ofLatin1]

end Text

end TreeQuery
