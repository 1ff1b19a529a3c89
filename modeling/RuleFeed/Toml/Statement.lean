import RuleFeed.Toml.Bare
import RuleFeed.Toml.Token

/-!
The statements of a TOML text: assignments and headers. A machine reads the tokens one at a time;
it keeps the lists and inline tables around the value that it is in, and hands out a statement
where its value or header is complete. Any fault ends the reading.
-/
namespace RuleFeed.Toml

inductive Statement where
  | assign (key : Path) (value : Value)
  | table (key : Path)
  | further (key : Path)

/-- A list or an inline table that a value is part of, the latest part first. -/
inductive Frame where
  | list (done : List Value)
  | table (done : List (Path × Value)) (key : Path)

/-- The key that is assigned to and what the value is part of, the innermost first. -/
structure Nest where
  target : Path
  frames : List Frame

inductive KeyUse where
  | assignment
  | header
  | furtherHeader
  | member (done : List (Path × Value)) (nest : Nest)

inductive State where
  | line
  | lineEnd
  | bracket
  | closing (key : Path)
  /-- A name of a key must follow the names so far, the latest first. -/
  | name (use : KeyUse) (names : List String)
  | named (use : KeyUse) (names : List String) (last : String)
  | value (nest : Nest)
  | bare (letters : List Char) (nest : Nest)
  /-- After a date and a single space, which a time may follow. -/
  | date (letters : List Char) (nest : Nest)
  | list (done : List Value) (nest : Nest)
  | item (done : List Value) (nest : Nest)
  | table (nest : Nest)
  | member (done : List (Path × Value)) (nest : Nest)
  | failed

namespace State

/-- How many names a key may have, and how deep values may lie within each other. -/
def depthLimit : Nat := 80

def path? (names : List String) (last : String) : Option Path :=
  if names.length + 1 < depthLimit then some ⟨names.reverse, last⟩ else none

def isKeyChar (c : Char) : Bool := c.isAlphanum || c == '-' || c == '_'

def name? : Token → Option String
  | .text s => some s
  | .bare letters => if letters.all isKeyChar then some (String.ofList letters) else none
  | _ => none

def put (v : Value) (nest : Nest) : State × List Statement :=
  match nest.frames with
  | [] => (.lineEnd, [.assign nest.target v])
  | .list done :: frames => (.item (v :: done) { nest with frames }, [])
  | .table done key :: frames => (.member ((key, v) :: done) { nest with frames }, [])

def stay (s : State) : State × List Statement := (s, [])

def enter (nest : Nest) (s : State) : State × List Statement :=
  if nest.frames.length + 1 < depthLimit then stay s else stay .failed

def beginValue (nest : Nest) : Token → State × List Statement
  | .text s => put (.text s) nest
  | .longText s => put (.text s) nest
  | .bare letters => stay (.bare letters nest)
  | .dot => stay (.bare ['.'] nest)
  | .openList => enter nest (.list [] nest)
  | .openTable => enter nest (.table nest)
  | _ => stay .failed

def endTable (done : List (Path × Value)) (nest : Nest) : State × List Statement :=
  match Members.ofPairs done.reverse with
  | some members => put (.table .inline members) nest
  | none => stay .failed

def endKey (use : KeyUse) (key : Path) (t : Token) : State × List Statement :=
  match use, t with
  | .assignment, .equals => stay (.value ⟨key, []⟩)
  | .header, .closeList => (.lineEnd, [.table key])
  | .furtherHeader, .closeList => stay (.closing key)
  | .member done nest, .equals =>
    stay (.value { nest with frames := .table done key :: nest.frames })
  | _, _ => stay .failed

def stepSettled (s : State) (t : Token) : State × List Statement :=
  match s, t with
  | .line, .blank _ => stay .line
  | .line, .newline => stay .line
  | .line, .openList => stay .bracket
  | .line, t =>
    match name? t with
    | some n => stay (.named .assignment [] n)
    | none => stay .failed
  | .lineEnd, .blank _ => stay .lineEnd
  | .lineEnd, .newline => stay .line
  | .bracket, .openList => stay (.name .furtherHeader [])
  | .bracket, .blank _ => stay (.name .header [])
  | .bracket, t =>
    match name? t with
    | some n => stay (.named .header [] n)
    | none => stay .failed
  | .closing key, .closeList => (.lineEnd, [.further key])
  | .name use names, .blank _ => stay (.name use names)
  | .name use names, t =>
    match name? t with
    | some n => stay (.named use names n)
    | none => stay .failed
  | .named use names last, .blank _ => stay (.named use names last)
  | .named use names last, .dot => stay (.name use (last :: names))
  | .named use names last, t =>
    match path? names last with
    | some key => endKey use key t
    | none => stay .failed
  | .value nest, .blank _ => stay (.value nest)
  | .value nest, t => beginValue nest t
  | .list done nest, .blank _ => stay (.list done nest)
  | .list done nest, .newline => stay (.list done nest)
  | .list done nest, .closeList => put (.list done.reverse) nest
  | .list done nest, t => beginValue { nest with frames := .list done :: nest.frames } t
  | .item done nest, .blank _ => stay (.item done nest)
  | .item done nest, .newline => stay (.item done nest)
  | .item done nest, .comma => stay (.list done nest)
  | .item done nest, .closeList => put (.list done.reverse) nest
  | .table nest, .blank _ => stay (.table nest)
  | .table nest, .closeTable => endTable [] nest
  | .table nest, t =>
    match name? t with
    | some n => stay (.named (.member [] nest) [] n)
    | none => stay .failed
  | .member done nest, .blank _ => stay (.member done nest)
  | .member done nest, .comma => stay (.name (.member done nest) [])
  | .member done nest, .closeTable => endTable done nest
  | _, _ => stay .failed

def endBare (letters : List Char) (nest : Nest) : State × List Statement :=
  match Value.ofBare? letters with
  | some v => put v nest
  | none => stay .failed

def endBareBefore (letters : List Char) (nest : Nest) (t : Token) : State × List Statement :=
  let (s, out) := endBare letters nest
  ((stepSettled s t).1, out ++ (stepSettled s t).2)

def step (s : State) (t : Token) : State × List Statement :=
  match s, t with
  | .bare letters nest, .bare more => stay (.bare (letters ++ more) nest)
  | .bare letters nest, .dot => stay (.bare (letters ++ ['.']) nest)
  | .bare letters nest, .blank [' '] =>
    if isDate letters then stay (.date letters nest) else endBareBefore letters nest t
  | .bare letters nest, t => endBareBefore letters nest t
  | .date letters nest, .bare more => stay (.bare (letters ++ ' ' :: more) nest)
  | .date letters nest, t => endBareBefore letters nest t
  | s, t => stepSettled s t

/-- What the end of the text makes of the reading; `none` is a fault. -/
def finish : State → Option (List Statement)
  | .line => some []
  | .lineEnd => some []
  | .bare letters nest =>
    match endBare letters nest with
    | (.lineEnd, out) => some out
    | _ => none
  | .date letters nest =>
    match endBare letters nest with
    | (.lineEnd, out) => some out
    | _ => none
  | _ => none

def statements (s : State) : List Token → Option (List Statement)
  | [] => s.finish
  | t :: ts => ((s.step t).1.statements ts).map ((s.step t).2 ++ ·)

end State

def Statement.read (text : String) : Option (List Statement) :=
  State.line.statements (Token.scan text.toList)

end RuleFeed.Toml
