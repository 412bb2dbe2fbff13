import TypedQuery.Text.Blank
import TypedQuery.Text.Digits
/-!
Calendar dates with a time of day, without a time zone.

Dates follow the Gregorian rules in both directions and have a year zero. A leap second is the
second before it running on: its nanoseconds count from a thousand million. It is shown as the
second that follows, so that a minute may end in a second 60. Nothing keeps a second in the middle
of a minute from running on, but then the text is that of the next second.
-/
namespace TypedQuery

namespace Calendar

def isLeapYear (year : Int) : Bool :=
  year % 4 = 0 && (year % 100 != 0 || year % 400 = 0)

def daysInMonth (year : Int) (month : Nat) : Nat :=
  match month with
  | 2 => if isLeapYear year then 29 else 28
  | 4 | 6 | 9 | 11 => 30
  | _ => 31

/-- The years that a date may lie in. -/
def firstYear : Int := -262143

def lastYear : Int := 262142

end Calendar

/-- A moment on a calendar: a second and the nanoseconds since it began. -/
structure DateTime where
  year : Int
  month : Nat
  day : Nat
  hour : Nat
  minute : Nat
  second : Nat
  nanos : Nat
  year_mem : Calendar.firstYear ≤ year ∧ year ≤ Calendar.lastYear
  month_mem : 1 ≤ month ∧ month ≤ 12
  day_mem : 1 ≤ day ∧ day ≤ Calendar.daysInMonth year month
  hour_lt : hour < 24
  minute_lt : minute < 60
  second_lt : second < 60
  nanos_lt : nanos < 2000000000
deriving DecidableEq, Repr

namespace DateTime

/-- The second that is shown, the next one once the nanoseconds have run on. -/
def shownSecond (d : DateTime) : Nat := d.second + d.nanos / 1000000000

/-- The nanoseconds since the second that is shown. -/
def shownNanos (d : DateTime) : Nat := d.nanos % 1000000000

/-- The moment that is shown with these parts, if there is one. Second 60 is second 59 running
on. -/
def ofParts? (year : Int) (month day hour minute second nanos : Nat) : Option DateTime :=
  if hy : Calendar.firstYear ≤ year ∧ year ≤ Calendar.lastYear then
    if hm : 1 ≤ month ∧ month ≤ 12 then
      if hd : 1 ≤ day ∧ day ≤ Calendar.daysInMonth year month then
        if ht : hour < 24 ∧ minute < 60 ∧ second ≤ 60 ∧ nanos < 1000000000 then
          some {
            year := year, month := month, day := day,
            hour := hour, minute := minute, second := min second 59,
            nanos := (second - 59) * 1000000000 + nanos,
            year_mem := hy, month_mem := hm, day_mem := hd,
            hour_lt := ht.1, minute_lt := ht.2.1, second_lt := by omega, nanos_lt := by omega }
        else none
      else none
    else none
  else none

/-! ## Writing -/

/-- Years of four digits stand alone; the others take a sign. -/
def yearText (year : Int) : List Char :=
  if 0 ≤ year ∧ year ≤ 9999 then Text.padded 4 year.natAbs
  else (if year < 0 then '-' else '+') :: Text.padded 4 year.natAbs

/-- Everything down to the second that is shown. -/
def wholeText (d : DateTime) : List Char :=
  yearText d.year ++ '-' :: Text.padded 2 d.month ++ '-' :: Text.padded 2 d.day ++
    'T' :: Text.padded 2 d.hour ++ ':' :: Text.padded 2 d.minute ++
    ':' :: Text.padded 2 d.shownSecond

/-- The text of a literal: the fraction without trailing zeros, and none for a whole second. -/
def literalText (d : DateTime) : List Char :=
  d.wholeText ++
    if d.shownNanos = 0 then []
    else '.' :: ((Text.padded 9 d.shownNanos).reverse.dropWhile (· == '0')).reverse

/-- The text for exchange: no fraction, or as many groups of three digits as it needs. -/
def exchangeText (d : DateTime) : List Char :=
  d.wholeText ++
    if d.shownNanos = 0 then []
    else if d.shownNanos % 1000000 = 0 then '.' :: Text.padded 3 (d.shownNanos / 1000000)
    else if d.shownNanos % 1000 = 0 then '.' :: Text.padded 6 (d.shownNanos / 1000)
    else '.' :: Text.padded 9 d.shownNanos

/-! ## Reading

Readers are more lenient than the texts above: a number may have fewer digits than are
written, and blanks may stand before a number, before a mark and at the end. -/

/-- At least one digit and at most `width` of them, after blanks. -/
def readNumber? (width : Nat) (cs : List Char) : Option (Nat × List Char) :=
  let cs := Text.trimStart cs
  let digits := (cs.take width).takeWhile Char.isDigit
  if digits.isEmpty then none
  else some (Nat.ofDigitChars 10 digits 0, cs.drop digits.length)

/-- At least one digit and as many as there are. -/
def readAllDigits? (cs : List Char) : Option (Nat × List Char) :=
  let (digits, rest) := Text.spanDigits cs
  if digits.isEmpty then none else some (Nat.ofDigitChars 10 digits 0, rest)

/-- A year: four digits at most, or any number of them after a sign. -/
def readYear? (cs : List Char) : Option (Int × List Char) :=
  match Text.trimStart cs with
  | '-' :: rest => (readAllDigits? rest).map fun (n, rest) => (-(n : Int), rest)
  | '+' :: rest => (readAllDigits? rest).map fun (n, rest) => ((n : Int), rest)
  | rest => (readNumber? 4 rest).map fun (n, rest) => ((n : Int), rest)

/-- The mark `c`, after blanks. -/
def readMark? (c : Char) (cs : List Char) : Option (List Char) :=
  match Text.trimStart cs with
  | d :: rest => if d = c then some rest else none
  | [] => none

/-- Nanoseconds: a point and one or more digits, of which those behind the ninth are dropped. -/
def readFraction? : List Char → Option (Nat × List Char)
  | '.' :: rest =>
    let (digits, rest) := Text.spanDigits rest
    if digits.isEmpty then none
    else
      let kept := digits.take 9
      let filled := kept ++ List.replicate (9 - kept.length) '0'
      some (Nat.ofDigitChars 10 filled 0, rest)
  | rest => some (0, rest)

def read? (cs : List Char) : Option DateTime := do
  let (year, cs) ← readYear? cs
  let (month, cs) ← readMark? '-' cs >>= readNumber? 2
  let (day, cs) ← readMark? '-' cs >>= readNumber? 2
  let (hour, cs) ← readMark? 'T' cs >>= readNumber? 2
  let (minute, cs) ← readMark? ':' cs >>= readNumber? 2
  let (second, cs) ← readMark? ':' cs >>= readNumber? 2
  let (nanos, cs) ← readFraction? cs
  if (Text.trimStart cs).isEmpty then ofParts? year month day hour minute second nanos
  else none

end DateTime
end TypedQuery
