import HttpPlan.Text

/-! Dates and times. They are kept as text in a uniform spelling: a `T` between date and time, no
zeros at the end of a fraction of a second, and a sign of plus before no offset. -/
namespace HttpPlan.Toml.Datetime

def daysIn (year month : Nat) : Nat :=
  let leap := year % 4 = 0 && (year % 100 != 0 || year % 400 = 0)
  if month = 2 then if leap then 29 else 28
  else if [4, 6, 9, 11].contains month then 30
  else 31

/-- A number of some digits within bounds. -/
def field? (digits low high : Nat) (cs : List Char) : Option (Nat × List Char) := do
  if cs.length < digits || !(cs.take digits).all Char.isDigit then none
  let n ← Radix.nat? 10 (cs.take digits)
  if low ≤ n && n ≤ high then some (n, cs.drop digits) else none

def mark? (mark : Char) : List Char → Option (List Char)
  | c :: rest => if c = mark then some rest else none
  | [] => none

/-- A date, with what follows it. -/
def date? (cs : List Char) : Option (List Char × List Char) := do
  let (year, rest) ← field? 4 0 9999 cs
  let (month, rest) ← mark? '-' rest >>= field? 2 1 12
  let (_, rest) ← mark? '-' rest >>= field? 2 1 (daysIn year month)
  return (cs.take 10, rest)

/-- The digits of a fraction that count: nine at most, without zeros at the end. -/
def significant (digits : List Char) : List Char :=
  ((digits.take 9).reverse.dropWhile (· = '0')).reverse

def fraction? : List Char → Option (List Char × List Char)
  | '.' :: rest =>
    let digits := rest.takeWhile Char.isDigit
    if digits.isEmpty then none
    else
      let counted := significant digits
      some (if counted.isEmpty then [] else '.' :: counted, rest.dropWhile Char.isDigit)
  | rest => some ([], rest)

/-- A time of day. A minute may have a sixty-first second. -/
def time? (cs : List Char) : Option (List Char × List Char) := do
  let (_, rest) ← field? 2 0 23 cs
  let (_, rest) ← mark? ':' rest >>= field? 2 0 59
  let (_, rest) ← mark? ':' rest >>= field? 2 0 60
  let (fraction, rest) ← fraction? rest
  return (cs.take 8 ++ fraction, rest)

/-- The distance from universal time that a text consists of, if anything. -/
def offset? : List Char → Option (List Char)
  | [] => some []
  | ['Z'] | ['z'] => some ['Z']
  | sign :: cs => do
    if sign ≠ '+' && sign ≠ '-' then none
    let (hours, rest) ← field? 2 0 23 cs
    let (minutes, rest) ← mark? ':' rest >>= field? 2 0 59
    if !rest.isEmpty then none
    return (if hours = 0 && minutes = 0 then '+' else sign) :: cs

/-- The uniform spelling of a date, a time, or both. -/
def text? (cs : List Char) : Option String :=
  match date? cs with
  | some (date, []) => some (.ofList date)
  | some (date, separator :: rest) => do
    if separator ≠ 'T' && separator ≠ 't' && separator ≠ ' ' then none
    let (time, rest) ← time? rest
    return .ofList (date ++ 'T' :: time ++ (← offset? rest))
  | none =>
    match time? cs with
    | some (time, []) => some (.ofList time)
    | _ => none

end HttpPlan.Toml.Datetime
