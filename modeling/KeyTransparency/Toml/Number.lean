import KeyTransparency.Toml.Lexeme

/-!
# Numbers and moments of TOML

Readers of integers, floats, dates and times. No value of them is kept; what counts
is which spellings there are, and that an integer fits into 64 bits and a float is
not too large for double precision.
-/

namespace KeyTransparency.Toml

/-- The text after a sign, if there is one, and whether it is a minus. -/
def sign : List Char → Bool × List Char
  | '+' :: cs => (false, cs)
  | '-' :: cs => (true, cs)
  | cs => (false, cs)

/-- A sign and digits, without a leading zero. -/
def decimal : Reader (Bool × Nat × Nat) := fun cs =>
  let (negative, cs) := sign cs
  match cs with
  | '0' :: rest => some ((negative, 0, 1), rest)
  | cs => (digits Char.isDigit cs).map fun (ds, rest) => ((negative, numeral 10 ds, ds.length), rest)

def fitsSigned (negative : Bool) (n : Nat) : Bool :=
  if negative then n ≤ 1 <<< 63 else n < 1 <<< 63

/-- Digits of another base than ten, after its mark. -/
def basedInteger (base : Nat) (isDigit : Char → Bool) : Reader Unit := fun cs => do
  let (ds, rest) ← digits isDigit cs
  if numeral base ds < 1 <<< 63 then some ((), rest) else none

def integer : Reader Unit
  | '0' :: 'x' :: cs => basedInteger 16 isHexDigit cs
  | '0' :: 'o' :: cs => basedInteger 8 (fun c => '0' ≤ c && c ≤ '7') cs
  | '0' :: 'b' :: cs => basedInteger 2 (fun c => c == '0' || c == '1') cs
  | cs => do
    let ((negative, n, _), rest) ← decimal cs
    if fitsSigned negative n then some ((), rest) else none

/-- Whether `mantissa * 10 ^ exponent` rounds to a finite number of double precision. -/
def isFinite (mantissa : Nat) (exponent : Int) : Bool :=
  let bound := 1 <<< 1024 - 1 <<< 970
  if mantissa = 0 then true
  else if 400 < exponent then false
  else if exponent < 0 then mantissa < bound * Nat.pow 10 (min exponent.natAbs (mantissa.log2 + 1))
  else mantissa * Nat.pow 10 exponent.toNat < bound

/-- The exponent of a float, after its mark. -/
def exponent : Reader Int
  | c :: cs =>
    if c == 'e' || c == 'E' then
      let (negative, cs) := sign cs
      (digits Char.isDigit cs).map fun (ds, rest) =>
        (if negative then -(numeral 10 ds : Int) else numeral 10 ds, rest)
    else none
  | [] => none

/-- The digits after the point of a float. -/
def fraction : Reader (List Char)
  | '.' :: cs => digits Char.isDigit cs
  | _ => none

/-- The text without the word in front of it. -/
def word (w : String) (cs : List Char) : Option (List Char) :=
  if w.toList.isPrefixOf cs then some (cs.drop w.length) else none

/-- Infinity and what is not a number, with any sign. -/
def specialFloat : Reader Unit := fun cs =>
  let (_, cs) := sign cs
  ((word "inf" cs).orElse fun _ => word "nan" cs).map fun rest => ((), rest)

/-- A float with a point, an exponent, or both. A float that is too large is refused, unless it
is negative. -/
def ordinaryFloat : Reader Unit := fun cs => do
  let ((negative, n, _), cs) ← decimal cs
  let (n, places, cs) ← match exponent cs with
    | some (e, rest) => some (n, e, rest)
    | none =>
      match fraction cs with
      | none => none
      | some (ds, rest) =>
        let n := n * Nat.pow 10 ds.length + numeral 10 ds
        match exponent rest with
        | some (e, rest) => some (n, e - ds.length, rest)
        | none => some (n, -(ds.length : Int), rest)
  if negative ∨ isFinite n places then some ((), cs) else none

def float : Reader Unit := fun cs => (ordinaryFloat cs).orElse fun _ => specialFloat cs

/-! ## Moments -/

def isLeapYear (year : Nat) : Bool := year % 4 == 0 && (year % 100 ≠ 0 || year % 400 == 0)

def daysOfMonth (year month : Nat) : Nat :=
  if month = 2 then (if isLeapYear year then 29 else 28)
  else if month = 4 ∨ month = 6 ∨ month = 9 ∨ month = 11 then 30
  else 31

/-- The text after the character in front of it. -/
def char (c : Char) : List Char → Option (List Char)
  | d :: cs => if c = d then some cs else none
  | [] => none

def date : Reader Unit := fun cs => do
  let (year, cs) ← fixedDigits 4 cs
  let cs ← char '-' cs
  let (month, cs) ← fixedDigits 2 cs
  let cs ← char '-' cs
  let (day, cs) ← fixedDigits 2 cs
  if 1 ≤ month ∧ month ≤ 12 ∧ 1 ≤ day ∧ day ≤ daysOfMonth year month then some ((), cs) else none

def hoursAndMinutes : Reader Unit := fun cs => do
  let (hour, cs) ← fixedDigits 2 cs
  let cs ← char ':' cs
  let (minute, cs) ← fixedDigits 2 cs
  if hour ≤ 23 ∧ minute ≤ 59 then some ((), cs) else none

/-- A time of day, to the second or below. -/
def time : Reader Unit := fun cs => do
  let ((), cs) ← hoursAndMinutes cs
  let cs ← char ':' cs
  let (second, cs) ← fixedDigits 2 cs
  if second ≤ 60 then
    match cs with
    | '.' :: c :: rest => if c.isDigit then some ((), rest.dropWhile Char.isDigit) else some ((), cs)
    | cs => some ((), cs)
  else none

/-- The difference to universal time. -/
def offset : Reader Unit
  | 'Z' :: cs | 'z' :: cs => some ((), cs)
  | '+' :: cs | '-' :: cs => hoursAndMinutes cs
  | _ => none

/-- A time with its difference to universal time, if it has one, after the mark between date and time. -/
def timeOfDate : Reader Unit
  | c :: cs =>
    if c == 'T' || c == 't' || c == ' ' then do
      let ((), cs) ← time cs
      match offset cs with
      | some ((), rest) => some ((), rest)
      | none => some ((), cs)
    else none
  | [] => none

def moment : Reader Unit := fun cs =>
  match date cs with
  | some ((), cs) =>
    match timeOfDate cs with
    | some ((), rest) => some ((), rest)
    | none => some ((), cs)
  | none => time cs

end KeyTransparency.Toml
