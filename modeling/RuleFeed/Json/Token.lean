import RuleFeed.Json.Numeral
import RuleFeed.Json.Text
import RuleFeed.Json.Word
import RuleFeed.Text.Digit
import RuleFeed.Text.Machine

/-!
JSON tokens and the machine that finds them, one character at a time. A number ends at the first
character that cannot continue it, which is then looked at afresh. The first lexical fault ends
the stream: it is the last token, and what follows it in the text is not looked at.
-/
namespace RuleFeed.Json

inductive Token where
  | openList
  | closeList
  | openObject
  | closeObject
  | colon
  | comma
  | word (w : Reading Word)
  | number (n : Reading Numeral)
  | text (t : Text)
  | stray
  deriving Repr

inductive NumberPhase where
  | sign
  | leadingZero
  | whole
  | point
  | fraction
  | mark
  | markSign
  | exponent
  deriving DecidableEq, Repr

inductive TextPhase where
  | plain
  | escape
  /-- Within the four bytes after `\u`, the latest character first. -/
  | hex (seen : List Char)
  deriving DecidableEq, Repr

inductive Lexeme where
  | between
  | word (w : Word) (owed : List Char)
  | number (phase : NumberPhase) (negativeExponent : Bool) (n : Numeral)
  /-- The pieces so far, the latest first. -/
  | text (phase : TextPhase) (pieces : List Piece)
  | halted
  deriving Repr

def isSpace (c : Char) : Bool := c == ' ' || c == '\t' || c == '\n' || c == '\r'

def hexUnit? : List Char → Option UInt16
  | [a, b, c, d] => do
    let a ← hexDigit? a
    let b ← hexDigit? b
    let c ← hexDigit? c
    let d ← hexDigit? d
    return UInt16.ofNat (((a * 16 + b) * 16 + c) * 16 + d)
  | _ => none

def escaped? : Char → Option Char
  | '"' => some '"'
  | '\\' => some '\\'
  | '/' => some '/'
  | 'b' => some '\x08'
  | 'f' => some '\x0c'
  | 'n' => some '\n'
  | 'r' => some '\r'
  | 't' => some '\t'
  | _ => none

namespace Lexeme

def ofWord (w : Word) : Lexeme := .word w w.letters.tail

def first (c : Char) : Lexeme × List Token :=
  if isSpace c then (.between, [])
  else match c with
    | '[' => (.between, [.openList])
    | ']' => (.between, [.closeList])
    | '{' => (.between, [.openObject])
    | '}' => (.between, [.closeObject])
    | ':' => (.between, [.colon])
    | ',' => (.between, [.comma])
    | '"' => (.text .plain [], [])
    | '-' => (.number .sign false (.start true), [])
    | 'n' => (ofWord .null, [])
    | 't' => (ofWord .true, [])
    | 'f' => (ofWord .false, [])
    | _ =>
      match digit? c with
      | some 0 => (.number .leadingZero false (.start false), [])
      | some d => (.number .whole false ((Numeral.start false).addWhole d), [])
      | none => (.halted, [.stray])

def badNumber : Lexeme × List Token := (.halted, [.number (.error .malformed)])

/-- A character that does not continue the number: the number is complete before it. -/
def endNumber (n : Numeral) (c : Char) : Lexeme × List Token :=
  ((first c).1, .number (.ok n) :: (first c).2)

def pointOrMark (n : Numeral) (c : Char) : Lexeme × List Token :=
  if c = '.' then (.number .point false n.point, [])
  else if c = 'e' ∨ c = 'E' then (.number .mark false n.mark, [])
  else endNumber n c

def stepNumber (phase : NumberPhase) (negative : Bool) (n : Numeral) (c : Char) :
    Lexeme × List Token :=
  match phase, digit? c with
  | .sign, some 0 => (.number .leadingZero false n, [])
  | .sign, some d => (.number .whole false (n.addWhole d), [])
  | .sign, none => badNumber
  | .leadingZero, some _ => badNumber
  | .leadingZero, none => pointOrMark n c
  | .whole, some d => (.number .whole false (n.addWhole d), [])
  | .whole, none => pointOrMark n c
  | .point, some d => (.number .fraction false (n.addFraction d), [])
  | .point, none => badNumber
  | .fraction, some d => (.number .fraction false (n.addFraction d), [])
  | .fraction, none =>
    if c = 'e' ∨ c = 'E' then (.number .mark false n.mark, []) else endNumber n c
  | .mark, some d => (.number .exponent false (n.addExponent false d), [])
  | .mark, none =>
    if c = '+' then (.number .markSign false n, [])
    else if c = '-' then (.number .markSign true n, [])
    else badNumber
  | .markSign, some d => (.number .exponent negative (n.addExponent negative d), [])
  | .markSign, none => badNumber
  | .exponent, some d => (.number .exponent negative (n.addExponent negative d), [])
  | .exponent, none => endNumber n c

def endText (pieces : List Piece) (fault : Option Fault) : Token :=
  .text ⟨pieces.reverse, fault⟩

def badText (pieces : List Piece) : Lexeme × List Token :=
  (.halted, [endText pieces (some .malformed)])

def byteLength (cs : List Char) : Nat := cs.foldl (fun n c => n + c.utf8Size) 0

def stepText (phase : TextPhase) (pieces : List Piece) (c : Char) : Lexeme × List Token :=
  match phase with
  | .plain =>
    if c = '"' then (.between, [endText pieces none])
    else if c = '\\' then (.text .escape pieces, [])
    else if c.toNat < 0x20 then badText pieces
    else (.text .plain (.char c :: pieces), [])
  | .escape =>
    if c = 'u' then (.text (.hex []) pieces, [])
    else match escaped? c with
      | some e => (.text .plain (.char e :: pieces), [])
      | none => badText pieces
  | .hex seen =>
    if byteLength (c :: seen) < 4 then (.text (.hex (c :: seen)) pieces, [])
    else match hexUnit? (c :: seen).reverse with
      | some u => (.text .plain (.unit u :: pieces), [])
      | none => badText pieces

def step (l : Lexeme) (c : Char) : Lexeme × List Token :=
  match l with
  | .between => first c
  | .word w [] => ((first c).1, .word (.ok w) :: (first c).2)
  | .word w (d :: owed) =>
    if c ≠ d then (.halted, [.word (.error .malformed)])
    else if owed = [] then (.between, [.word (.ok w)])
    else (.word w owed, [])
  | .number phase negative n => stepNumber phase negative n c
  | .text phase pieces => stepText phase pieces c
  | .halted => (.halted, [])

def finish : Lexeme → List Token
  | .between => []
  | .word _ _ => [.word (.error .truncated)]
  | .number .leadingZero _ n => [.number (.ok n)]
  | .number .whole _ n => [.number (.ok n)]
  | .number .fraction _ n => [.number (.ok n)]
  | .number .exponent _ n => [.number (.ok n)]
  | .number _ _ _ => [.number (.error .truncated)]
  | .text _ pieces => [endText pieces (some .truncated)]
  | .halted => []

def machine : Machine Lexeme Token := ⟨step, finish⟩

theorem run_cons (l : Lexeme) (c : Char) (cs : List Char) :
    machine.run l (c :: cs) = (l.step c).2 ++ machine.run (l.step c).1 cs := rfl

end Lexeme

def Token.scan (cs : List Char) : List Token := Lexeme.machine.run .between cs

end RuleFeed.Json
