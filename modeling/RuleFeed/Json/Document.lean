import RuleFeed.Json.Node
import RuleFeed.Json.Token

/-!
The tree of a document, built from its tokens one at a time. Every token sequence has a tree: a
token that cannot stand where it does ends all open lists and objects there, and so does the end
of the text. What follows the value is kept as one bit, for it is looked at after the value.
-/
namespace RuleFeed.Json

inductive Container where
  | list (done : List Node)
  | object (done : List (Node × Node))

/-- An open list or object with the place of a value in it. -/
inductive Frame where
  | list (done : List Node)
  | object (done : List (Node × Node)) (name : Node)

inductive Builder where
  | value (outer : List Frame)
  /-- Behind the opening bracket, or behind an item or a member. -/
  | within (started : Bool) (inside : Container) (outer : List Frame)
  | nextName (done : List (Node × Node)) (outer : List Frame)
  | colon (done : List (Node × Node)) (name : Node) (outer : List Frame)
  | ended (root : Node) (trailing : Bool)

structure Document where
  root : Node
  /-- Something other than space follows the value. -/
  trailing : Bool

def Token.node : Token → Node
  | .word w => .word w
  | .number n => .number n
  | .text t => .text t
  | .openList => .list [] (.broken .truncated)
  | .openObject => .object [] (.broken .truncated)
  | _ => .stray

namespace Container

def node (close : Close) : Container → Node
  | list done => .list done.reverse close
  | object done => .object done.reverse close

def closedBy : Container → Token → Bool
  | list _, .closeList => true
  | object _, .closeObject => true
  | _, _ => false

end Container

/-- The list or object behind the value that belongs in the place. -/
def Frame.filled (node : Node) : Frame → Container
  | .list done => .list (node :: done)
  | .object done name => .object ((name, node) :: done)

namespace Builder

/-- Ends all open lists and objects around a node with a fault. -/
def unwind (f : Fault) : Node → List Frame → Node
  | root, [] => root
  | node, frame :: outer => unwind f ((frame.filled node).node (.broken f)) outer

def abandon (f : Fault) (node : Node) (outer : List Frame) : Builder :=
  .ended (unwind f node outer) false

def put (node : Node) : List Frame → Builder
  | [] => .ended node false
  | frame :: outer => .within true (frame.filled node) outer

def beginValue (outer : List Frame) : Token → Builder
  | .openList => .within false (.list []) outer
  | .openObject => .within false (.object []) outer
  | .word w => put (.word w) outer
  | .number n => put (.number n) outer
  | .text t => put (.text t) outer
  | _ => abandon .malformed .stray outer

def beginMember (done : List (Node × Node)) (outer : List Frame) : Token → Builder
  | .text t => .colon done (.text t) outer
  | t => abandon .malformed
      (.object ((t.node, .missing) :: done).reverse (.broken .malformed)) outer

def beginPart (outer : List Frame) : Container → Token → Builder
  | .list done, t => beginValue (.list done :: outer) t
  | .object done, t => beginMember done outer t

def nextPart (outer : List Frame) : Container → Builder
  | .list done => .value (.list done :: outer)
  | .object done => .nextName done outer

def stepWithin (started : Bool) (inside : Container) (outer : List Frame) (t : Token) : Builder :=
  if inside.closedBy t then put (inside.node .complete) outer
  else match started, t with
    | false, t => beginPart outer inside t
    | true, .comma => nextPart outer inside
    | true, _ => abandon .malformed (inside.node (.broken .malformed)) outer

def step : Builder → Token → Builder
  | .value outer, t => beginValue outer t
  | .within started inside outer, t => stepWithin started inside outer t
  | .nextName done outer, t => beginMember done outer t
  | .colon done name outer, .colon => .value (.object done name :: outer)
  | .colon done name outer, _ =>
    abandon .malformed (.object ((name, .stray) :: done).reverse (.broken .malformed)) outer
  | .ended root _, _ => .ended root true

def cut (node : Node) (outer : List Frame) : Document := ⟨unwind .truncated node outer, false⟩

def finish : Builder → Document
  | .value outer => cut .missing outer
  | .within _ inside outer => cut (inside.node (.broken .truncated)) outer
  | .nextName done outer =>
    cut (.object ((.missing, .missing) :: done).reverse (.broken .truncated)) outer
  | .colon done name outer =>
    cut (.object ((name, .missing) :: done).reverse (.broken .truncated)) outer
  | .ended root trailing => ⟨root, trailing⟩

end Builder

namespace Document

def ofTokens (tokens : List Token) : Document := (tokens.foldl Builder.step (.value [])).finish

def ofString (s : String) : Document := ofTokens (Token.scan s.toList)

def read {α : Type} (reader : Node → Reading α) (d : Document) : Reading α := do
  let value ← reader d.root
  if d.trailing then .error .malformed else return value

end Document
end RuleFeed.Json
