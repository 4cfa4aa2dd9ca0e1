import TreeQuery.Text.Basic

/-!
# Numbers

The numbers of an expression. A whole number is exact whatever its size; any other number is the
nearest fraction with 53 binary digits. Besides there are the two infinities and the result of an
operation that has none.

Main statements: `add_whole`, `sub_whole` and `mod_whole`, arithmetic on whole numbers is that of
the integers.
-/

namespace TreeQuery.XPath

inductive Number where
  | whole (n : Int)
  /-- A number that is not whole. -/
  | fraction (q : Rat)
  | infinite (negative : Bool)
  /-- What an operation without a result gives; it is equal to no number, itself included. -/
  | undefined
  deriving DecidableEq, Repr

/-! ### Rounding

A fraction is kept as a rational number that 53 binary digits suffice for, so that the operations
can be computed exactly and rounded once. The exponent is guessed from the numbers of binary digits
of numerator and denominator, and is too large by one at most. -/

/-- The quotient rounded to the nearest natural number, a half to the even one. -/
def roundedQuotient (num den : Nat) : Nat :=
  let q := num / den
  let twice := 2 * (num % den)
  if twice < den then q
  else if den < twice then q + 1
  else if q % 2 = 0 then q else q + 1

def powerOfTwo (e : Int) : Rat :=
  if 0 ≤ e then (Nat.pow 2 e.toNat : Rat) else 1 / (Nat.pow 2 (-e).toNat : Rat)

/-- The nearest fraction with 53 binary digits. -/
def nearest (q : Rat) : Rat :=
  if q.num = 0 then 0
  else
    let size := q.num.natAbs
    let guess : Int := (Nat.log2 size : Int) - (Nat.log2 q.den : Int) - 52
    let scaled (e : Int) : Rat := (if q.num < 0 then -q else q) / powerOfTwo e
    let e := if scaled guess < powerOfTwo 52 then guess - 1 else guess
    let s := scaled e
    let r : Rat := (roundedQuotient s.num.natAbs s.den : Nat) * powerOfTwo e
    if q.num < 0 then -r else r

namespace Number

/-- The number that a fraction is. -/
def ofRat (q : Rat) : Number :=
  if q.den = 1 then whole q.num
  else
    let r := nearest q
    if r.den = 1 then whole r.num else fraction r

/-- The number as a fraction; zero for those that are none. -/
def toRat : Number → Rat
  | whole n => n
  | fraction q => q
  | _ => 0

/-! ### Order

An undefined number is neither below any number nor equal to one. An infinity compares by its sign.
-/

def beq : Number → Number → Bool
  | whole a, whole b => a == b
  | fraction a, fraction b => a == b
  | infinite a, infinite b => a == b
  | _, _ => false

/-- Whether a number is less than another. -/
def blt : Number → Number → Bool
  | undefined, _ | _, undefined => false
  | infinite a, infinite b => a && !b
  | infinite a, _ => a
  | _, infinite b => !b
  | whole a, whole b => decide (a < b)
  | a, b => decide (a.toRat < b.toRat)

/-- Whether a number is less than another or equal to it. -/
def ble (a b : Number) : Bool := blt a b || beq a b

/-- Whether the number is neither zero nor undefined. -/
def isTrue : Number → Bool
  | whole n => n != 0
  | undefined => false
  | _ => true

/-- Whether the number is below zero. -/
def isNegative : Number → Bool
  | whole n => decide (n < 0)
  | fraction q => decide (q < 0)
  | infinite negative => negative
  | undefined => false

/-! ### Arithmetic

Each operation has the cases in the same order: the operands that are undefined, those that are
infinite, the whole numbers, and then all others, which are computed as fractions. Whole numbers are
not rounded, however large they become. -/

def neg : Number → Number
  | whole n => whole (-n)
  | fraction q => fraction (-q)
  | infinite negative => infinite (!negative)
  | undefined => undefined

def add : Number → Number → Number
  | undefined, _ | _, undefined => undefined
  | infinite a, infinite b => if a = b then infinite a else undefined
  | infinite a, _ => infinite a
  | _, infinite b => infinite b
  | whole a, whole b => whole (a + b)
  | a, b => ofRat (a.toRat + b.toRat)

def sub (a b : Number) : Number := add a (neg b)

def mul : Number → Number → Number
  | undefined, _ | _, undefined => undefined
  | infinite a, b | b, infinite a =>
    if b.isTrue then infinite (a != b.isNegative) else undefined
  | whole a, whole b => whole (a * b)
  | a, b => ofRat (a.toRat * b.toRat)

def div : Number → Number → Number
  | undefined, _ | _, undefined => undefined
  | infinite _, infinite _ => undefined
  | infinite a, b => infinite (a != b.isNegative)
  | _, infinite _ => whole 0
  | a, whole 0 => if a.isTrue then infinite a.isNegative else undefined
  | a, b => ofRat (a.toRat / b.toRat)

/-- The fraction without its digits behind the point. -/
def truncate (q : Rat) : Int := if q < 0 then -(-q).floor else q.floor

/-- The remainder of the division that rounds toward zero; it has the sign of the dividend. -/
def mod : Number → Number → Number
  | undefined, _ | _, undefined => undefined
  | infinite _, _ => undefined
  | _, whole 0 => undefined
  | a, infinite _ => a
  | whole a, whole b => whole (Int.tmod a b)
  | a, b => ofRat (a.toRat - b.toRat * truncate (a.toRat / b.toRat))

/-- The next whole number below. -/
def floor : Number → Number
  | fraction q => whole q.floor
  | n => n

/-- The next whole number above. -/
def ceiling : Number → Number
  | fraction q => whole (-(-q).floor)
  | n => n

/-- The nearest whole number, a half upward. -/
def round : Number → Number
  | fraction q => whole (q + 1 / 2).floor
  | n => n

/-! ### Whole numbers

The positions and lengths in the expression of a selector are whole numbers, and its arithmetic
never leaves them. -/

theorem add_whole (a b : Int) : add (whole a) (whole b) = whole (a + b) := rfl

theorem sub_whole (a b : Int) : sub (whole a) (whole b) = whole (a - b) := by
  simp [sub, neg, add, Int.sub_eq_add_neg]

/-- The remainder has the sign of the dividend, as that of the integers with truncation. -/
theorem mod_whole (a : Int) {b : Int} (h : b ≠ 0) :
    mod (whole a) (whole b) = whole (Int.tmod a b) := by
  cases b with
  | ofNat n =>
    cases n with
    | zero => exact absurd rfl h
    | succ n => rfl
  | negSucc n => rfl

/-! ### Digits

A fraction is written with 15 digits that count, and a whole number that does not fit into 32 bits
is written with an exponent. Zeros at the end, and a point that is last then, are left out. -/

def digits (n : Nat) : Text := Nat.toDigits 10 n

/-- An integer in decimal digits. -/
def signedDigits (n : Int) : Text :=
  if n < 0 then '-' :: digits n.natAbs else digits n.natAbs

/-- The text without its trailing zeros, and without the point that ends it then. -/
def dropZeros (s : Text) : Text :=
  match s.reverse.dropWhile (· == '0') with
  | '.' :: r => r.reverse
  | r => r.reverse

/-- A fraction above zero with so many digits behind the point. -/
def fixed (q : Rat) (places : Nat) : Text :=
  let n := roundedQuotient (q.num.natAbs * Nat.pow 10 places) q.den
  let behind := digits (n % Nat.pow 10 places)
  digits (n / Nat.pow 10 places) ++ '.' :: List.replicate (places - behind.length) '0' ++ behind

/-- A power of ten as a fraction. -/
def powerOfTen (e : Int) : Rat :=
  if 0 ≤ e then (Nat.pow 10 e.toNat : Rat) else 1 / (Nat.pow 10 (-e).toNat : Rat)

/-- The exponent of the first digit of a fraction above zero. -/
def decimalExponent (q : Rat) : Int :=
  let guess : Int := ((digits q.num.natAbs).length : Int) - ((digits q.den).length : Int)
  if q < powerOfTen guess then guess - 1 else guess

/-- A fraction above zero with one digit in front of the point, 14 behind it, and an exponent. -/
def scientific (q : Rat) : Text :=
  let e := decimalExponent q
  let n := fixed (q / powerOfTen e) 14
  let (n, e) := if n.head? = some '1' && n[1]? = some '0' then (['1'], e + 1) else (dropZeros n, e)
  let size := digits e.natAbs
  n ++ 'e' :: (if e < 0 then '-' else '+')
    :: (if size.length < 2 then '0' :: size else size)

/-- The digits of a fraction above zero: 15 that count, with an exponent if the fraction is above
10^9 or below 10^-5. -/
def written (q : Rat) : Text :=
  if powerOfTen 9 < q || q < powerOfTen (-5) then scientific q
  else
    let e := decimalExponent q
    let e := if e < 0 && q != powerOfTen e then e + 1 else e
    let places : Int := if 0 < e then 14 - e else 15 - e
    dropZeros (fixed q places.toNat)

def toText : Number → Text
  | whole n =>
    if -2147483648 < n && n < 2147483647 then signedDigits n
    else (if n < 0 then ['-'] else []) ++ scientific (n.natAbs : Rat)
  | fraction q => if q < 0 then '-' :: written (-q) else written q
  | infinite true => "-Infinity".toList
  | infinite false => "Infinity".toList
  | undefined => "NaN".toList

/-! ### Reading

Digits may stand in front of the point, behind it, or both; an exponent is read too, although
numbers are never written with one in an expression that is made from a selector. -/

/-- The number that a row of digits is. -/
def ofDigits (s : Text) : Nat := s.foldl (fun n c => 10 * n + (c.toNat - '0'.toNat)) 0

/-- The number with given digits in front of the point and behind it, and a decimal exponent.
Exponents that are out of all proportion give zero or infinity. -/
def ofDecimal (front behind : Text) (exponent : Int) : Number :=
  let n := ofDigits (front ++ behind)
  let e := exponent - behind.length
  if n = 0 then whole 0
  else if e < -2000 then whole 0
  else if 2000 < e then infinite false
  else ofRat (n * powerOfTen e)

/-- The exponent at the beginning of a text, if there is one, and what follows it. -/
def readExponent : Text → Int × Text
  | c :: r =>
    if c = 'e' || c = 'E' then
      match r with
      | '-' :: r => (-(ofDigits (r.takeWhile Char.isDigit) : Int), r.dropWhile Char.isDigit)
      | '+' :: r => (ofDigits (r.takeWhile Char.isDigit), r.dropWhile Char.isDigit)
      | r => (ofDigits (r.takeWhile Char.isDigit), r.dropWhile Char.isDigit)
    else (0, c :: r)
  | [] => (0, [])

/-- A number at the beginning of a text, and what follows it. There is a digit in front of the point
or behind it. -/
def readNumber? (s : Text) : Option (Number × Text) :=
  let front := s.takeWhile Char.isDigit
  match s.dropWhile Char.isDigit with
  | '.' :: r =>
    let behind := r.takeWhile Char.isDigit
    if front.isEmpty && behind.isEmpty then none
    else
      let (e, r) := readExponent (r.dropWhile Char.isDigit)
      some (ofDecimal front behind e, r)
  | r =>
    if front.isEmpty then none
    else
      let (e, r) := readExponent r
      some (ofDecimal front [] e, r)

/-- The number that a text is, white space around it aside. -/
def ofText (s : Text) : Number :=
  let (negative, s) := match s.dropWhile Text.isSpace with
    | '-' :: r => (true, r)
    | r => (false, r)
  match readNumber? s with
  | some (n, r) => if r.all Text.isSpace then (if negative then neg n else n) else undefined
  | none => undefined

end Number

end TreeQuery.XPath
