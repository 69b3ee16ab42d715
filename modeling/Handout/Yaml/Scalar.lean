/-
# Plain scalars

A scalar without quotes denotes a text unless it has the form of nothing, a
truth value, a whole number, a number with a point, or a date. The forms are:

* nothing: empty, `~`, `null`, `Null`, `NULL`;
* truth values: `yes`, `no`, `true`, `false`, `on`, `off`, all lower, all upper
  or with one capital in front;
* whole numbers: decimal, binary after `0b`, octal after `0`, hexadecimal after
  `0x`, or in base sixty with colons; low lines between digits do not count;
* numbers with a point, in which an exponent needs a sign; `.inf` and `.nan`;
* dates `2020-01-31`, possibly with a time of day.

Some have such a form and yet no value that is read here: a number without a digit, a
date that no calendar has, a date with a time of day, a lone `=` and `<<`.

Key definitions: `Plain.resolve`, `Plain.isText`.
-/
import Handout.Settings.Value

namespace Handout
namespace Plain

/-- Is the character a decimal digit? -/
def isDigit (c : Char) : Bool :=
  '0' ≤ c && c ≤ '9'

/-- Is the character a decimal digit or a low line? -/
def isDigitOrLine (c : Char) : Bool :=
  isDigit c || c == '_'

/-- The value of a digit in a base of up to sixteen. -/
def digitValue (c : Char) : Nat :=
  if isDigit c then c.toNat - '0'.toNat
  else if 'a' ≤ c ∧ c ≤ 'f' then c.toNat - 'a'.toNat + 10
  else if 'A' ≤ c ∧ c ≤ 'F' then c.toNat - 'A'.toNat + 10
  else 0

/-- The number that digits denote in a base; low lines do not count. -/
def number (base : Nat) (digits : Text) : Nat :=
  (digits.filter (· ≠ '_')).foldl (fun n c => n * base + digitValue c) 0

/-- The sign in front of a text, and what follows it. -/
def sign : Text → Bool × Text
  | '-' :: r => (true, r)
  | '+' :: r => (false, r)
  | t => (false, t)

/-- A part in base sixty: one digit, or two of which the first is at most
five. -/
def isSixty : Text → Bool
  | [a] => isDigit a
  | [a, b] => '0' ≤ a && a ≤ '5' && isDigit b
  | _ => false

/-- The number that parts denote in base sixty. -/
def sixty (parts : List Text) : Nat :=
  parts.foldl (fun n p => n * 60 + number 10 p) 0

/-- A whole number without its sign. -/
def natural? (t : Text) : Option Nat :=
  match t with
  | '0' :: 'b' :: r =>
    let isBinary := fun c => c == '0' || c == '1' || c == '_'
    if !r.isEmpty && r.all isBinary then some (number 2 r) else none
  | '0' :: 'x' :: r =>
    let isHex := fun c => isDigitOrLine c || ('a' ≤ c && c ≤ 'f') || ('A' ≤ c && c ≤ 'F')
    if !r.isEmpty && r.all isHex then some (number 16 r) else none
  | ['0'] => some 0
  | '0' :: r =>
    let isOctal := fun c => ('0' ≤ c && c ≤ '7') || c == '_'
    if r.all isOctal then some (number 8 r) else none
  | c :: r =>
    if !('1' ≤ c && c ≤ '9') then none
    else if r.all isDigitOrLine then some (number 10 t)
    else
      match t.splitAt ':' with
      | first :: parts =>
        if first.all isDigitOrLine && parts.all isSixty then some (sixty (first :: parts)) else none
      | [] => none
  | [] => none

/-- Does a text have the form of a number in base two or sixteen, but for the digits? -/
def lacksDigits (t : Text) : Bool :=
  match (sign t).2 with
  | '0' :: mark :: r => (mark == 'b' || mark == 'x') && !r.isEmpty && r.all (· == '_')
  | _ => false

/-- A whole number. -/
def int? (t : Text) : Option Int :=
  let s := sign t
  (natural? s.2).map fun n => if s.1 then -(n : Int) else n

/-- An exponent with its mark and sign, or nothing. -/
def exponent? : Text → Option Int
  | [] => some 0
  | e :: s :: r =>
    if (e == 'e' || e == 'E') && (s == '-' || s == '+') && !r.isEmpty && r.all isDigit then
      some (if s == '-' then -(number 10 r : Int) else number 10 r)
    else none
  | _ => none

/-- The number with the given digits before and after the point and an
exponent. Exponents that lead beyond the range of numbers are not computed with:
the number is infinite or zero. -/
def ofDecimal (negative : Bool) (whole part : Text) (exponent : Int) : Binary64 :=
  let part := part.filter (· ≠ '_')
  let digits := number 10 (whole ++ part)
  let last := exponent - part.length
  if digits ≠ 0 ∧ 400 < last then .infinity negative
  else if digits = 0 ∨ last + (whole ++ part).length < -400 then .finite negative 0 (-1074)
  else
    let s := scaleTen digits 1 last
    Binary64.ofQuotient negative s.1 s.2

/-- A number with a point. -/
def float? (t : Text) : Option Binary64 :=
  let s := sign t
  let body := s.2
  if ["inf".toList, "Inf".toList, "INF".toList].any (fun w => body == '.' :: w) then
    some (.infinity s.1)
  else if ["nan".toList, "NaN".toList, "NAN".toList].any (fun w => t == '.' :: w) then some .nan
  else
    let whole := body.takeWhile (· ≠ '.')
    match body.dropWhile (· ≠ '.') with
    | [] => none
    | _ :: after =>
      let part := after.takeWhile isDigitOrLine
      match exponent? (after.dropWhile isDigitOrLine) with
      | none => none
      | some e =>
        match whole with
        | [] =>
          if t == body && part.head?.any isDigit then some (ofDecimal false [] part e) else none
        | c :: _ =>
          if !isDigit c then none
          else if whole.all isDigitOrLine then some (ofDecimal s.1 whole part e)
          else
            match Text.splitAt ':' whole with
            | first :: parts =>
              if first.all isDigitOrLine && parts.all isSixty
                  && (after.dropWhile isDigitOrLine).isEmpty then
                some (ofDecimal s.1 (Text.ofNat (sixty (first :: parts))) part 0)
              else none
            | [] => none

/-- Digits, at least `least` and at most `most`, in front of a text: what
follows them. -/
def afterDigits? (least most : Nat) (t : Text) : Option Text :=
  let n := (t.takeWhile isDigit).length
  if least ≤ n ∧ n ≤ most then some (t.drop n) else none

/-- A separator in front of a text: what follows it. -/
def after? (c : Char) : Text → Option Text
  | d :: r => if d = c then some r else none
  | [] => none

/-- A time zone at the end of a time of day, or nothing. -/
def isZone (t : Text) : Bool :=
  match t.dropWhile (fun c => c == ' ' || c == '\t') with
  | [] => t.isEmpty
  | ['Z'] => true
  | c :: r =>
    (c == '-' || c == '+') &&
      match afterDigits? 1 2 r with
      | some [] => true
      | some r => ((after? ':' r).bind (afterDigits? 2 2)) == some []
      | none => false

/-- A time of day: hours, minutes, seconds, a fraction and a time zone. -/
def isTime (t : Text) : Bool :=
  match ((((afterDigits? 1 2 t).bind (after? ':')).bind (afterDigits? 2 2)).bind
      (after? ':')).bind (afterDigits? 2 2) with
  | none => false
  | some ('.' :: r) => isZone (r.dropWhile isDigit)
  | some r => isZone r

/-- Does a text have the form of a date, possibly with a time of day? -/
def isDate (t : Text) : Bool :=
  let short := ((((afterDigits? 4 4 t).bind (after? '-')).bind (afterDigits? 2 2)).bind
    (after? '-')).bind (afterDigits? 2 2)
  short == some [] ||
    match ((((afterDigits? 4 4 t).bind (after? '-')).bind (afterDigits? 1 2)).bind
        (after? '-')).bind (afterDigits? 1 2) with
    | some (c :: r) =>
      if c == 'T' || c == 't' then isTime r
      else (c == ' ' || c == '\t') && isTime (r.dropWhile (fun c => c == ' ' || c == '\t'))
    | _ => false

/-- The number of days of a month. -/
def daysIn (year month : Nat) : Nat :=
  if month = 2 then
    if year % 4 = 0 ∧ (year % 100 ≠ 0 ∨ year % 400 = 0) then 29 else 28
  else if month = 4 ∨ month = 6 ∨ month = 9 ∨ month = 11 then 30
  else 31

/-- Does a calendar have the date? -/
def isDay (year month day : Nat) : Bool :=
  1 ≤ year && 1 ≤ month && month ≤ 12 && 1 ≤ day && day ≤ daysIn year month

/-- The value of a date without a time of day, if a calendar has it. -/
def date? (t : Text) : Option Value :=
  match (t.splitAt '-').map (number 10) with
  | [year, month, day] =>
    if h : t ≠ [] ∧ t.length = 10 ∧ isDay year month day then
      some (.other {
        typeName := "datetime.date".toList
        shown := t
        inside := "datetime.date(".toList
          ++ Text.joinWith [',', ' '] ([year, month, day].map Text.ofNat) ++ [')']
        isTrue := true
        items := none
        shown_ne_nil := h.1 })
    else none
  | _ => none

/-- The words for nothing. -/
def nullWords : List Text :=
  ["".toList, "~".toList, "null".toList, "Null".toList, "NULL".toList]

/-- The words for true. -/
def trueWords : List Text :=
  ["yes".toList, "Yes".toList, "YES".toList, "true".toList, "True".toList, "TRUE".toList,
   "on".toList, "On".toList, "ON".toList]

/-- The words for false. -/
def falseWords : List Text :=
  ["no".toList, "No".toList, "NO".toList, "false".toList, "False".toList, "FALSE".toList,
   "off".toList, "Off".toList, "OFF".toList]

/-- The value of a plain scalar, if it has one. -/
def resolve (t : Text) : Option Value :=
  if nullWords.contains t then some .null
  else if trueWords.contains t then some (.bool true)
  else if falseWords.contains t then some (.bool false)
  else if lacksDigits t ∨ t = ['='] ∨ t = ['<', '<'] then none
  else
    match int? t with
    | some n => some (.int n)
    | none =>
      match float? t with
      | some x => some (.float x)
      | none => if isDate t then date? t else some (.text t)

/-- Does a plain scalar denote a text? -/
def isText (t : Text) : Bool :=
  match resolve t with
  | some (.text _) => true
  | _ => false

end Plain
end Handout
