import Kiln.Text.Parse
/-!
# Numbers and moments in TOML

Whole numbers have 64 bits and may be written in base ten, sixteen, eight or two; between
digits an underscore may stand. Numbers with a fraction or an exponent must not be larger
than what a double holds. Dates and times have to exist.
-/

namespace Kiln

namespace Toml

open Parse

/-- The value of a digit in any base up to sixteen. -/
def digitValue (c : Char) : Nat :=
  if c.isDigit then c.toNat - '0'.toNat
  else if 'a' ≤ c then c.toNat - 'a'.toNat + 10
  else c.toNat - 'A'.toNat + 10

/-- The number that digits spell. -/
def ofDigits (base : Nat) (cs : List Char) : Nat :=
  cs.foldl (fun n c => n * base + digitValue c) 0

/-- The digits of a base. -/
def isDigitOf (base : Nat) (c : Char) : Bool :=
  (c.isDigit || ('a' ≤ c && c ≤ 'f') || ('A' ≤ c && c ≤ 'F')) && digitValue c < base

/-- Digits, between which underscores may stand. -/
def digits (base : Nat) : Parse (List Char) := do
  let first ← char (isDigitOf base)
  let rest ← many (do
    discard (optional (word "_"))
    char (isDigitOf base))
  return first :: rest

/-- A sign, if there is one: whether it is a minus. -/
def sign : Parse Bool :=
  (do word "-"; return true) <|> (do word "+"; return false) <|> pure false

/-- Digits in base ten without a zero in front. -/
def decimal : Parse (List Char) := do
  let ds ← digits 10
  if ds.length ≠ 1 && ds.head? = some '0' then failure else return ds

/-- The whole numbers that fit 64 bits. -/
def bounded (n : Int) : Parse Int :=
  if Int64.minValue.toInt ≤ n && n ≤ Int64.maxValue.toInt then pure n else failure

/-- A whole number. -/
def integer : Parse Int :=
  based "0x" 16 <|> based "0o" 8 <|> based "0b" 2 <|> do
    let minus ← sign
    let n := ofDigits 10 (← decimal)
    bounded (if minus then -n else n)
where
  /-- A number with its base in front. -/
  based (front : String) (base : Nat) : Parse Int := do
    word front
    bounded (ofDigits base (← digits base))

/-- The least number that a double of the largest exponent cannot be rounded to. -/
def tooLarge : Nat := Nat.pow 2 1024 - Nat.pow 2 970

/-- Whether a double holds `digits` with the point moved `exponent` places right. -/
def isFinite (digits : List Char) (exponent : Int) : Bool :=
  let significant := digits.dropWhile (· == '0')
  let places := significant.length + exponent
  if significant.isEmpty || places ≤ 308 then true
  else if 309 < places then false
  else if exponent < 0 then ofDigits 10 significant < tooLarge * Nat.pow 10 exponent.natAbs
  else ofDigits 10 significant * Nat.pow 10 exponent.natAbs < tooLarge

/-- A number with a fraction, an exponent or both. -/
def fractional : Parse Unit := do
  let minus ← sign
  let whole ← decimal
  let fraction ← optional (do word "."; digits 10)
  let exponent ← optional (do
    discard (char fun c => c == 'e' || c == 'E')
    let down ← sign
    let n := ofDigits 10 (← digits 10)
    return (if down then -(n : Int) else n))
  if fraction.isNone && exponent.isNone then failure
  let behind := fraction.getD []
  if minus || isFinite (whole ++ behind) (exponent.getD 0 - behind.length) then return ()
  else failure

/-- A number that is not a whole one, or no number. -/
def float : Parse String := do
  let cs ← written (fractional <|> do discard sign; word "inf" <|> word "nan")
  return String.ofList cs

/-- Exactly so many digits, and a number between bounds. -/
def field (width least most : Nat) : Parse Nat := do
  let cs ← (List.range width).mapM fun _ => char Char.isDigit
  let n := ofDigits 10 cs
  if least ≤ n && n ≤ most then return n else failure

/-- The days of a month. -/
def daysOf (year month : Nat) : Nat :=
  if month = 2 then
    if year % 4 = 0 && (year % 100 ≠ 0 || year % 400 = 0) then 29 else 28
  else if [4, 6, 9, 11].contains month then 30
  else 31

/-- A date. -/
def date : Parse Unit := do
  let year ← field 4 0 9999
  word "-"
  let month ← field 2 1 12
  word "-"
  discard (field 2 1 (daysOf year month))

/-- A time of the day; the last minute may have one more second. -/
def time : Parse Unit := do
  discard (field 2 0 23)
  word ":"
  discard (field 2 0 59)
  word ":"
  discard (field 2 0 60)
  discard (optional (do
    word "."
    discard (char Char.isDigit)
    discard (span Char.isDigit)))

/-- How far a clock is ahead or behind. -/
def zone : Parse Unit :=
  discard (char fun c => c == 'Z' || c == 'z') <|> do
    discard (char fun c => c == '+' || c == '-')
    discard (field 2 0 23)
    word ":"
    discard (field 2 0 59)

/-- A date, a time, or both. -/
def moment : Parse String := do
  let both := do
    date
    discard (optional (do
      discard (char fun c => c == 'T' || c == 't' || c == ' ')
      time
      discard (optional zone)))
  return String.ofList (← written (both <|> time))

end Toml

end Kiln
