import RuleFeed.Text.Digit
import RuleFeed.Text.Machine

/-!
TOML tokens and the machine that finds them, one character at a time. Runs of blanks are tokens,
for what stands next to each other matters in headers, numbers and dates; comments are not. The
words of keys and values are left as they are: which of the two a word is, its place decides.
-/
namespace RuleFeed.Toml

inductive Quote where
  | double
  | single
  deriving DecidableEq, Repr

def Quote.char : Quote → Char
  | .double => '"'
  | .single => '\''

inductive Token where
  | blank (spaces : List Char)
  | newline
  | equals
  | dot
  | comma
  | openList
  | closeList
  | openTable
  | closeTable
  | bare (letters : List Char)
  | text (s : String)
  | longText (s : String)
  | stray
  deriving DecidableEq, Repr

inductive Escape where
  | letter
  | code (owed : Nat) (value : Nat)
  deriving DecidableEq, Repr

/-- What the machine is in the middle of. Characters seen are kept the latest first. -/
inductive Lexeme where
  | between
  | blank (seen : List Char)
  | bare (seen : List Char)
  | comment
  | opening (q : Quote)
  | emptyText (q : Quote)
  | line (q : Quote) (seen : List Char)
  | lineEscape (e : Escape) (seen : List Char)
  | longStart (q : Quote)
  /-- Within a long string, after so many quotes in a row. -/
  | long (q : Quote) (quotes : Nat) (seen : List Char)
  | longEscape (e : Escape) (seen : List Char)
  | gap (seen : List Char)
  /-- After a backslash and a line's end, before the next character that is no blank. -/
  | fold (seen : List Char)
  | halted
  deriving DecidableEq, Repr

def isSpace (c : Char) : Bool := c == ' ' || c == '\t'

/-- A character other than a tab below U+0020, or U+007F. -/
def isControl (c : Char) : Bool := (c.toNat < 0x20 && c != '\t') || c.toNat == 0x7f

/-- Lines end in a line feed, or in a carriage return and a line feed, which becomes one. -/
def unifyLines : List Char → List Char
  | '\r' :: '\n' :: rest => '\n' :: unifyLines rest
  | c :: rest => c :: unifyLines rest
  | [] => []

def escaped? : Char → Option Char
  | 'b' => some '\x08'
  | 't' => some '\t'
  | 'n' => some '\n'
  | 'f' => some '\x0c'
  | 'r' => some '\r'
  | '"' => some '"'
  | '\\' => some '\\'
  | _ => none

/-- The character of a code point, unless it is a surrogate or too large. -/
def scalar? (n : Nat) : Option Char :=
  if n.isValidChar then some (Char.ofNat n) else none

namespace Lexeme

def bad : Lexeme × List Token := (.halted, [.stray])

def mark? : Char → Option Token
  | '\n' => some .newline
  | '=' => some .equals
  | '.' => some .dot
  | ',' => some .comma
  | '[' => some .openList
  | ']' => some .closeList
  | '{' => some .openTable
  | '}' => some .closeTable
  | _ => none

def first (c : Char) : Lexeme × List Token :=
  match mark? c with
  | some t => (.between, [t])
  | none =>
    if isSpace c then (.blank [c], [])
    else if c == '#' then (.comment, [])
    else if c == '"' then (.opening .double, [])
    else if c == '\'' then (.opening .single, [])
    else if isControl c then bad
    else (.bare [c], [])

def endBefore (t : Token) (c : Char) : Lexeme × List Token := ((first c).1, t :: (first c).2)

def continuesBare (c : Char) : Bool :=
  (mark? c).isNone && !isSpace c && !isControl c && c != '#' && c != '"' && c != '\''

def textOf (seen : List Char) : String := String.ofList seen.reverse

/-- What a character after a backslash leads to: more of the escape, or the character named. -/
def stepEscape (e : Escape) (c : Char) : Option (Escape ⊕ Char) :=
  match e with
  | .letter =>
    if c == 'u' then some (.inl (.code 4 0))
    else if c == 'U' then some (.inl (.code 8 0))
    else (escaped? c).map .inr
  | .code owed value =>
    match hexDigit? c with
    | none => none
    | some d =>
      if owed ≤ 1 then (scalar? (value * 16 + d)).map .inr
      else some (.inl (.code (owed - 1) (value * 16 + d)))

def stepLine (q : Quote) (seen : List Char) (c : Char) : Lexeme × List Token :=
  if c == q.char then (.between, [.text (textOf seen)])
  else if isControl c then bad
  else if q == .double && c == '\\' then (.lineEscape .letter seen, [])
  else (.line q (c :: seen), [])

def stepLong (q : Quote) (seen : List Char) (c : Char) : Lexeme × List Token :=
  if c == q.char then (.long q 1 seen, [])
  else if isControl c && c != '\n' then bad
  else if q == .double && c == '\\' then (.longEscape .letter seen, [])
  else (.long q 0 (c :: seen), [])

def quotes (q : Quote) (n : Nat) : List Char := List.replicate n q.char

def step (l : Lexeme) (c : Char) : Lexeme × List Token :=
  match l with
  | .between => first c
  | .blank seen => if isSpace c then (.blank (c :: seen), []) else endBefore (.blank seen.reverse) c
  | .bare seen =>
    if continuesBare c then (.bare (c :: seen), []) else endBefore (.bare seen.reverse) c
  | .comment =>
    if c == '\n' then (.between, [.newline]) else if isControl c then bad else (.comment, [])
  | .opening q => if c == q.char then (.emptyText q, []) else stepLine q [] c
  | .emptyText q => if c == q.char then (.longStart q, []) else endBefore (.text "") c
  | .line q seen => stepLine q seen c
  | .lineEscape e seen =>
    match stepEscape e c with
    | some (.inl e) => (.lineEscape e seen, [])
    | some (.inr d) => (.line .double (d :: seen), [])
    | none => bad
  | .longStart q => if c == '\n' then (.long q 0 [], []) else stepLong q [] c
  | .long q 0 seen => stepLong q seen c
  | .long q (n + 1) seen =>
    if c == q.char then
      if n + 2 = 5 then (.between, [.longText (textOf (quotes q 2 ++ seen))])
      else (.long q (n + 2) seen, [])
    else if 3 ≤ n + 1 then endBefore (.longText (textOf (quotes q (n + 1 - 3) ++ seen))) c
    else stepLong q (quotes q (n + 1) ++ seen) c
  | .longEscape e seen =>
    if e == .letter && isSpace c then (.gap seen, [])
    else if e == .letter && c == '\n' then (.fold seen, [])
    else match stepEscape e c with
      | some (.inl e) => (.longEscape e seen, [])
      | some (.inr d) => (.long .double 0 (d :: seen), [])
      | none => bad
  | .gap seen =>
    if isSpace c then (.gap seen, []) else if c == '\n' then (.fold seen, []) else bad
  | .fold seen => if isSpace c || c == '\n' then (.fold seen, []) else stepLong .double seen c
  | .halted => (.halted, [])

def finish : Lexeme → List Token
  | .between => []
  | .blank seen => [.blank seen.reverse]
  | .bare seen => [.bare seen.reverse]
  | .comment => []
  | .emptyText _ => [.text ""]
  | .long q n seen =>
    if 3 ≤ n then [.longText (textOf (quotes q (n - 3) ++ seen))] else [.stray]
  | .halted => []
  | _ => [.stray]

def machine : Machine Lexeme Token := ⟨step, finish⟩

end Lexeme

def dropMark : List Char → List Char
  | '\ufeff' :: rest => rest
  | cs => cs

def Token.scan (cs : List Char) : List Token :=
  Lexeme.machine.run .between (unifyLines (dropMark cs))

end RuleFeed.Toml
