import RuleFeed.Json.Document
import RuleFeed.Proofs.Json.Scan

/-!
The tree of a spelling. Fed with the tokens of a spelling, the builder hands its node to whatever
the value is part of; so the document of a spelled text is the node, with nothing after it, and
reading the text is reading the node. The node has no fault, hence whoever skips it succeeds.
-/
namespace RuleFeed.Json

namespace Builder

/-- The builder takes any token but a closing bracket as the beginning of a value. -/
def Expects (b : Builder) (outer : List Frame) : Prop :=
  ∀ t, t ≠ .closeList → b.step t = beginValue outer t

theorem expects_value (outer : List Frame) : (value outer).Expects outer := fun _ _ => rfl

theorem step_of_closedBy (started : Bool) {inside : Container} (outer : List Frame) {t : Token}
    (closed : inside.closedBy t = true) :
    (within started inside outer).step t = put (inside.node .complete) outer := if_pos closed

/-- All that a token can do within a list or an object. -/
theorem step_within_cases (started : Bool) (inside : Container) (outer : List Frame) (t : Token) :
    (inside.closedBy t = true ∧
        (within started inside outer).step t = put (inside.node .complete) outer) ∨
      (within started inside outer).step t = beginPart outer inside t ∨
      (within started inside outer).step t = nextPart outer inside ∨
      (within started inside outer).step t =
        abandon .malformed (inside.node (.broken .malformed)) outer := by
  by_cases closed : inside.closedBy t = true
  · exact .inl ⟨closed, step_of_closedBy started outer closed⟩
  · right
    simp only [step, stepWithin, if_neg closed]
    split
    · exact .inl rfl
    · exact .inr (.inl rfl)
    · exact .inr (.inr rfl)

theorem expects_list (done : List Node) (outer : List Frame) :
    (within false (.list done) outer).Expects (.list done :: outer) := by
  intro t other
  cases t with
  | closeList => exact absurd rfl other
  | _ => rfl

namespace Expects

variable {b : Builder} {outer : List Frame}

theorem openList (h : b.Expects outer) : b.step .openList = .within false (.list []) outer :=
  h _ nofun

theorem openObject (h : b.Expects outer) : b.step .openObject = .within false (.object []) outer :=
  h _ nofun

end Expects
end Builder

namespace Spelling

theorem expects_item (started : Bool) (done : List Node) (outer : List Frame) :
    ((commaToken started).foldl Builder.step (.within started (.list done) outer)).Expects
      (.list done :: outer) := by
  cases started with
  | false => exact Builder.expects_list done outer
  | true => exact Builder.expects_value _

theorem step_name (started : Bool) (done : List (Node × Node)) (outer : List Frame) (t : Text) :
    (commaToken started ++ [Token.text t, Token.colon]).foldl Builder.step
        (.within started (.object done) outer) = .value (.object done (.text t) :: outer) := by
  cases started <;> rfl

mutual
theorem build_tokens (s : Spelling) {b : Builder} {outer : List Frame} (h : b.Expects outer) :
    s.tokens.foldl Builder.step b = Builder.put s.node outer :=
  match s with
  | word _ => h _ nofun
  | number _ => h _ nofun
  | text _ => h _ nofun
  | list items gap => by
    have inside := build_itemTokens false items [] outer
    rw [tokens, List.foldl_cons, h.openList, List.foldl_append, inside, List.foldl_cons,
      Builder.step_of_closedBy _ _ rfl]
    simp only [List.foldl_nil, List.append_nil, List.reverse_reverse, Container.node, node]
  | object members gap => by
    have inside := build_memberTokens false members [] outer
    rw [tokens, List.foldl_cons, h.openObject, List.foldl_append, inside, List.foldl_cons,
      Builder.step_of_closedBy _ _ rfl]
    simp only [List.foldl_nil, List.append_nil, List.reverse_reverse, Container.node, node]

theorem build_itemTokens (started : Bool) (items : List (Padded Spelling)) (done : List Node)
    (outer : List Frame) :
    (itemTokens started items).foldl Builder.step (.within started (.list done) outer) =
      .within (started || !items.isEmpty) (.list ((itemNodes items).reverse ++ done)) outer :=
  match items with
  | [] => by simp [itemTokens]
  | ⟨before, value, after⟩ :: items => by
    have here := build_tokens value (expects_item started done outer)
    have rest := build_itemTokens true items (value.node :: done) outer
    rw [itemTokens, List.foldl_append, List.foldl_append, here, Builder.put, Frame.filled, rest]
    simp [itemNodes]

theorem build_memberTokens (started : Bool)
    (members : List (Padded TextSpelling × Padded Spelling)) (done : List (Node × Node))
    (outer : List Frame) :
    (memberTokens started members).foldl Builder.step (.within started (.object done) outer) =
      .within (started || !members.isEmpty) (.object ((memberNodes members).reverse ++ done))
        outer :=
  match members with
  | [] => by simp [memberTokens]
  | (name, ⟨before, value, after⟩) :: members => by
    have named := step_name started done outer name.value.text
    have here := build_tokens value
      (Builder.expects_value (.object done (.text name.value.text) :: outer))
    have rest := build_memberTokens true members ((.text name.value.text, value.node) :: done) outer
    rw [memberTokens, List.foldl_append, List.foldl_append, named, here, Builder.put, Frame.filled,
      rest]
    simp [memberNodes]
end

end Spelling

theorem Document.ofString_document (p : Padded Spelling) :
    Document.ofString p.document = ⟨p.value.node, false⟩ := by
  rw [ofString, Token.scan_document, ofTokens,
    Spelling.build_tokens p.value (Builder.expects_value [])]
  rfl

theorem Document.read_document {α : Type} (reader : Node → Reading α) (p : Padded Spelling) :
    (Document.ofString p.document).read reader = reader p.value.node := by
  rw [Document.ofString_document, Document.read]
  cases reader p.value.node <;> rfl

namespace Spelling

mutual
theorem skip_node (s : Spelling) : s.node.skip = .ok () :=
  match s with
  | word _ => rfl
  | number _ => rfl
  | text _ => rfl
  | list items gap => by
    rw [node, Node.skip, skip_itemNodes items]
    rfl
  | object members gap => by
    rw [node, Node.skip, skip_memberNodes members]
    rfl

theorem skip_itemNodes (items : List (Padded Spelling)) :
    Node.skipItems (itemNodes items) = .ok () :=
  match items with
  | [] => rfl
  | ⟨_, value, _⟩ :: items => by
    rw [itemNodes, Node.skipItems, skip_node value]
    exact skip_itemNodes items

theorem skip_memberNodes (members : List (Padded TextSpelling × Padded Spelling)) :
    Node.skipMembers (memberNodes members) = .ok () :=
  match members with
  | [] => rfl
  | (name, ⟨_, value, _⟩) :: members => by
    rw [memberNodes, Node.skipMembers, skip_node value]
    exact skip_memberNodes members
end

end Spelling
end RuleFeed.Json
