import RuleFeed.Text.Digit
import RuleFeed.Toml.Value

/-!
Values written without quotes: flags, numbers and dates. A value is the whole of its characters;
what is none of the three kinds is no value.
-/
namespace RuleFeed.Toml

/-- Digits of a base, with single underscores between digits allowed and left out. -/
def digits? (base : Nat) : List Char → Option (List Nat)
  | [] => none
  | [c] => (digitBelow? base c).map ([·])
  | c :: '_' :: d :: rest =>
    match digitBelow? base c, digits? base (d :: rest) with
    | some x, some xs => some (x :: xs)
    | _, _ => none
  | c :: d :: rest =>
    match digitBelow? base c, digits? base (d :: rest) with
    | some x, some xs => some (x :: xs)
    | _, _ => none

def ofDigits (base : Nat) (ds : List Nat) : Nat := ds.foldl (fun n d => n * base + d) 0

def wholeDigits? (cs : List Char) : Option (List Nat) :=
  match digits? 10 cs with
  | some (0 :: _ :: _) => none
  | ds => ds

def sign : List Char → Bool × List Char
  | '+' :: cs => (false, cs)
  | '-' :: cs => (true, cs)
  | cs => (false, cs)

def fitsInt64 (z : Int) : Bool := -0x8000000000000000 ≤ z && z < 0x8000000000000000

def prefixed? (base : Nat) (cs : List Char) : Option Int :=
  (digits? base cs).map fun ds => (ofDigits base ds : Int)

def decimalInteger? (cs : List Char) : Option Int :=
  (wholeDigits? (sign cs).2).map fun ds =>
    if (sign cs).1 then -(ofDigits 10 ds : Int) else (ofDigits 10 ds : Int)

def integer? (cs : List Char) : Option Value :=
  let z? := match cs with
    | '0' :: 'x' :: cs => prefixed? 16 cs
    | '0' :: 'o' :: cs => prefixed? 8 cs
    | '0' :: 'b' :: cs => prefixed? 2 cs
    | cs => decimalInteger? cs
  (z?.filter fitsInt64).map .integer

def splitAt? (isMark : Char → Bool) (cs : List Char) : List Char × Option (List Char) :=
  (cs.takeWhile fun c => !isMark c, (cs.dropWhile fun c => !isMark c).tail?)

def fraction? : Option (List Char) → Option (List Nat)
  | none => some []
  | some cs => digits? 10 cs

def exponent? : Option (List Char) → Option Int
  | none => some 0
  | some cs => (digits? 10 (sign cs).2).map fun ds =>
    if (sign cs).1 then -(ofDigits 10 ds : Int) else (ofDigits 10 ds : Int)

def decimal? (cs : List Char) : Option Binary64 := do
  let (negative, body) := sign cs
  let (mantissa, power) := splitAt? (fun c => c == 'e' || c == 'E') body
  let (whole, part) := splitAt? (· == '.') mantissa
  let ws ← wholeDigits? whole
  let fs ← fraction? part
  let exponent ← exponent? power
  if power.isNone && part.isNone then none
  else return .ofDecimal negative (ofDigits 10 (ws ++ fs)) (exponent - fs.length)

def special? (cs : List Char) : Option Binary64 :=
  if (sign cs).2 = "inf".toList then some (.infinity (sign cs).1)
  else if (sign cs).2 = "nan".toList then some ⟨(sign cs).1, 0x7ff8000000000000, by decide⟩
  else none

/-- A number with a fraction. One that rounds to the positive infinity is refused. -/
def real? (cs : List Char) : Option Value :=
  ((special? cs).or ((decimal? cs).filter fun x => x.negative || x.isFinite)).map .real

def field? (low high : Nat) (ds : List Char) : Option Nat := do
  let ns ← ds.mapM digit?
  let n := ofDigits 10 ns
  if low ≤ n ∧ n ≤ high then some n else none

def daysIn (year month : Nat) : Nat :=
  if month = 2 then
    if year % 4 = 0 ∧ (year % 100 ≠ 0 ∨ year % 400 = 0) then 29 else 28
  else if month = 4 ∨ month = 6 ∨ month = 9 ∨ month = 11 then 30
  else 31

def isDate : List Char → Bool
  | [y1, y2, y3, y4, '-', m1, m2, '-', d1, d2] =>
    match field? 0 9999 [y1, y2, y3, y4], field? 1 12 [m1, m2], field? 1 31 [d1, d2] with
    | some year, some month, some day => day ≤ daysIn year month
    | _, _, _ => false
  | _ => false

def isClock : List Char → Bool
  | [h1, h2, ':', m1, m2] => (field? 0 23 [h1, h2]).isSome && (field? 0 59 [m1, m2]).isSome
  | _ => false

/-- A time to the second, a leap second included, or to any part of one. -/
def isTime (cs : List Char) : Bool :=
  isClock (cs.take 5) &&
    match cs.drop 5 with
    | [':', s1, s2] => (field? 0 60 [s1, s2]).isSome
    | ':' :: s1 :: s2 :: '.' :: part =>
      (field? 0 60 [s1, s2]).isSome && !part.isEmpty && part.all fun c => (digit? c).isSome
    | _ => false

def isTimeWithOffset (cs : List Char) : Bool :=
  match splitAt? (fun c => c == 'Z' || c == 'z') cs with
  | (time, some rest) => isTime time && rest.isEmpty
  | (_, none) =>
    match splitAt? (fun c => c == '+' || c == '-') cs with
    | (time, some offset) => isTime time && isClock offset
    | (time, none) => isTime time

def isMoment (cs : List Char) : Bool :=
  if isTime cs then true
  else isDate (cs.take 10) &&
    match cs.drop 10 with
    | [] => true
    | c :: time => (c == 'T' || c == 't' || c == ' ') && isTimeWithOffset time

def Value.ofBare? (cs : List Char) : Option Value :=
  if cs = "true".toList then some (.bool true)
  else if cs = "false".toList then some (.bool false)
  else if isMoment cs then some (.moment (String.ofList cs))
  else (integer? cs).or (real? cs)

end RuleFeed.Toml
