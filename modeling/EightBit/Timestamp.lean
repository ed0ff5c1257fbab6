import EightBit.Number.Digits
set_option autoImplicit false

/-!
# Dates and times

A timestamp is a day of the calendar, or a day with a time, to which an offset from universal time may
belong.  `Timestamp.text` is its text in messages, `Timestamp.nested` its text inside a list or a
mapping, and `Timestamp.read?` takes the written form of one apart.
-/

namespace EightBit

/-- A day of the calendar. -/
structure Date where
  year : Nat
  month : Nat
  day : Nat
  deriving DecidableEq, Repr

/-- A time of day to the microsecond, with its offset from universal time in minutes if that is known. -/
structure Clock where
  hour : Nat
  minute : Nat
  second : Nat
  micro : Nat
  offset : Option Int
  deriving DecidableEq, Repr

/-- A day, or a time on a day. -/
structure Timestamp where
  date : Date
  clock : Option Clock
  deriving DecidableEq, Repr

namespace Date

/-- The year has a day more in February. -/
def isLeap (year : Nat) : Bool :=
  year % 4 = 0 && (year % 100 ≠ 0 || year % 400 = 0)

/-- The number of days of a month. -/
def daysIn (year month : Nat) : Nat :=
  match month with
  | 2 => if isLeap year then 29 else 28
  | 4 | 6 | 9 | 11 => 30
  | _ => 31

/-- The number of days from the beginning of the first year up to a day. -/
def ordinal (d : Date) : Nat :=
  let y := d.year - 1
  let months := (List.range (d.month - 1)).foldl (fun days m => days + daysIn d.year (m + 1)) 0
  y * 365 + y / 4 - y / 100 + y / 400 + months + d.day

/-- The parts of a day, the year with four digits. -/
def text (d : Date) : List Char :=
  let part (width n : Nat) := zeroFill width (Nat.toDigits 10 n)
  part 4 d.year ++ '-' :: part 2 d.month ++ '-' :: part 2 d.day

end Date

namespace Timestamp

/-- Why numbers are no timestamp. -/
inductive Fault where
  | year (given : Nat)
  | month
  | day
  | hour
  | minute
  | second
  /-- An offset of a day or more, in minutes. -/
  | offset (minutes : Int)
  deriving DecidableEq, Repr

/-- A span of minutes as whole days, which may be negative, and seconds. -/
def span (minutes : Int) : List Char :=
  let days := minutes / 1440
  let seconds := minutes % 1440 * 60
  let parts := (if days = 0 then [] else ["days=".toList ++ decimal days]) ++
    (if seconds = 0 then [] else ["seconds=".toList ++ decimal seconds])
  "datetime.timedelta(".toList ++ (if parts.isEmpty then ['0'] else ", ".toList.intercalate parts) ++ [')']

/-- The wording of a fault. -/
def Fault.message : Fault → String
  | .year given => s!"year {given} is out of range"
  | .month => "month must be in 1..12"
  | .day => "day is out of range for month"
  | .hour => "hour must be in 0..23"
  | .minute => "minute must be in 0..59"
  | .second => "second must be in 0..59"
  | .offset minutes =>
      "offset must be a timedelta strictly between -timedelta(hours=24) and timedelta(hours=24), not " ++
        String.ofList (span minutes) ++ "."

/-- The first fault of a timestamp: its offset is looked at before its day, and that before its time. -/
def fault? (t : Timestamp) : Option Fault :=
  let offset := (t.clock.bind Clock.offset).getD 0
  let clock := t.clock.getD ⟨0, 0, 0, 0, none⟩
  if offset ≤ -1440 ∨ 1440 ≤ offset then some (.offset offset)
  else if t.date.year < 1 ∨ 9999 < t.date.year then some (.year t.date.year)
  else if t.date.month < 1 ∨ 12 < t.date.month then some .month
  else if t.date.day < 1 ∨ Date.daysIn t.date.year t.date.month < t.date.day then some .day
  else if 23 < clock.hour then some .hour
  else if 59 < clock.minute then some .minute
  else if 59 < clock.second then some .second
  else none

/-- The offset of a time behind it: a sign, hours and minutes. -/
def offsetText (minutes : Int) : List Char :=
  let part (n : Nat) := zeroFill 2 (Nat.toDigits 10 n)
  (if minutes < 0 then '-' else '+') :: part (minutes.natAbs / 60) ++ ':' :: part (minutes.natAbs % 60)

/-- A timestamp by itself: the day, a space, and the time, with a fraction only if it is not zero. -/
def text (t : Timestamp) : List Char :=
  match t.clock with
  | none => t.date.text
  | some c =>
      let part (width n : Nat) := zeroFill width (Nat.toDigits 10 n)
      t.date.text ++ ' ' :: part 2 c.hour ++ ':' :: part 2 c.minute ++ ':' :: part 2 c.second ++
        (if c.micro = 0 then [] else '.' :: part 6 c.micro) ++ (c.offset.elim [] offsetText)

/-- A timestamp inside a list or a mapping: its parts as numbers, without seconds and fraction if they
are zero at the end. -/
def nested (t : Timestamp) : List Char :=
  let join (parts : List Nat) := ", ".toList.intercalate (parts.map (Nat.toDigits 10))
  let day := [t.date.year, t.date.month, t.date.day]
  match t.clock with
  | none => "datetime.date(".toList ++ join day ++ [')']
  | some c =>
      let time := [c.hour, c.minute] ++
        (if c.micro ≠ 0 then [c.second, c.micro] else if c.second ≠ 0 then [c.second] else [])
      let zone := match c.offset with
        | none => []
        | some 0 => ", tzinfo=datetime.timezone.utc".toList
        | some minutes => ", tzinfo=datetime.timezone(".toList ++ span minutes ++ [')']
      "datetime.datetime(".toList ++ join (day ++ time) ++ zone ++ [')']

/-- The microseconds from the beginning of the first year up to a time, universal if its offset is
known. -/
def instant (d : Date) (c : Clock) : Int :=
  let minutes : Int := (d.ordinal * 24 + c.hour : Nat) * 60 + c.minute - c.offset.getD 0
  (minutes * 60 + c.second) * 1000000 + c.micro

/-- The two timestamps are the same key of a mapping: a day is no time, and of two times both offsets
are known or neither is. -/
def same (a b : Timestamp) : Bool :=
  match a.clock, b.clock with
  | none, none => a.date == b.date
  | some c, some d => c.offset.isSome == d.offset.isSome && instant a.date c == instant b.date d
  | _, _ => false

/-! ## The written form -/

/-- A number of `least` to `most` decimal digits at the beginning of a text, and what is behind it. -/
def number? (least most : Nat) (s : List Char) : Option (Nat × List Char) :=
  let digits := (s.take most).takeWhile Char.isDigit
  if least ≤ digits.length then
    some (digits.foldl (fun n c => n * 10 + (c.toNat - '0'.toNat)) 0, s.drop digits.length)
  else none

/-- The text behind one character. -/
def behind? (c : Char) : List Char → Option (List Char)
  | d :: rest => if d = c then some rest else none
  | [] => none

/-- The digits behind the point of a second as microseconds; further digits are left out. -/
def micros (digits : List Char) : Nat :=
  let six := digits.take 6
  (six ++ List.replicate (6 - six.length) '0').foldl (fun n c => n * 10 + (c.toNat - '0'.toNat)) 0

/-- The offset at the end of a text: nothing, `Z`, or a sign with hours and perhaps minutes. -/
def zone? (s : List Char) : Option (Option Int) :=
  match s with
  | [] => some none
  | _ =>
      match s.dropWhile fun c => c = ' ' || c = '\t' with
      | ['Z'] => some (some 0)
      | sign :: rest =>
          if sign = '+' ∨ sign = '-' then do
            let (hours, rest) ← number? 1 2 rest
            let minutes ← match rest with
              | [] => some 0
              | _ => match ← number? 2 2 (← behind? ':' rest) with
                | (minutes, []) => some minutes
                | _ => none
            let offset : Int := hours * 60 + minutes
            return some (if sign = '-' then -offset else offset)
          else none
      | [] => none

/-- The time in a text. -/
def clock? (s : List Char) : Option Clock := do
  let (hour, rest) ← number? 1 2 s
  let (minute, rest) ← number? 2 2 (← behind? ':' rest)
  let (second, rest) ← number? 2 2 (← behind? ':' rest)
  let (digits, rest) := match rest with
    | '.' :: rest => (rest.takeWhile Char.isDigit, rest.dropWhile Char.isDigit)
    | _ => ([], rest)
  return { hour := hour, minute := minute, second := second, micro := micros digits,
           offset := ← zone? rest }

/-- The numbers of a written timestamp: a year of four digits, month and day, and behind a `T` or blanks
perhaps a time.  They may lie outside the calendar. -/
def read? (s : List Char) : Option Timestamp := do
  let (year, rest) ← number? 4 4 s
  let (month, rest) ← number? 1 2 (← behind? '-' rest)
  let (day, rest) ← number? 1 2 (← behind? '-' rest)
  let date : Date := ⟨year, month, day⟩
  match rest with
  | [] => return ⟨date, none⟩
  | c :: rest =>
      let blanks (s : List Char) := s.dropWhile fun c => c = ' ' || c = '\t'
      if c = 'T' ∨ c = 't' then return ⟨date, some (← clock? rest)⟩
      else if c = ' ' ∨ c = '\t' then return ⟨date, some (← clock? (blanks rest))⟩
      else none

/-- The text is a timestamp by its form alone; a day by itself then has two digits for month and day. -/
def isWritten (s : List Char) : Bool :=
  match read? s with
  | some ⟨_, none⟩ => s.length = 10
  | some _ => true
  | none => false

end Timestamp

end EightBit
