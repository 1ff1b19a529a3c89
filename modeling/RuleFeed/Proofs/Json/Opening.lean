import RuleFeed.Proofs.Json.Ending

/-!
Documents by their beginning. What the builder has taken in stays in the tree, whatever tokens
follow: a list keeps its first items, an object its first members, and so do all lists and objects
around them. The beginning of a text is therefore the beginning of its tree. Here it leads to an
object by a path, and up to a comma in that object or past the name behind the comma.
-/
namespace RuleFeed.Json

/-- The list or object has the items or members of the frame, then the node in its place. -/
def Frame.Wraps (n whole : Node) : Frame → Prop
  | .list done => ∃ more close, whole = .list (done.reverse ++ n :: more) close
  | .object done name => ∃ more close, whole = .object (done.reverse ++ (name, n) :: more) close

/-- The tree has the node at the place that the frames describe, the innermost first. -/
def Encloses : List Frame → Node → Node → Prop
  | [], n, root => n = root
  | frame :: outer, n, root => ∃ whole, frame.Wraps n whole ∧ Encloses outer whole root

theorem encloses_concat (inner : List Frame) (outermost : Frame) (n root : Node) :
    Encloses (inner ++ [outermost]) n root ↔
      ∃ part, Encloses inner n part ∧ outermost.Wraps part root := by
  induction inner generalizing n with
  | nil => simp [Encloses]
  | cons frame inner ih =>
    simp only [List.cons_append, Encloses, ih]
    constructor
    · rintro ⟨whole, wraps, part, inside, outside⟩
      exact ⟨part, ⟨whole, wraps, inside⟩, outside⟩
    · rintro ⟨part, ⟨whole, wraps, inside⟩, outside⟩
      exact ⟨whole, wraps, part, inside, outside⟩

def Container.Begins (whole : Node) : Container → Prop
  | .list done => ∃ more close, whole = .list (done.reverse ++ more) close
  | .object done => ∃ more close, whole = .object (done.reverse ++ more) close

theorem Container.begins_node (inside : Container) (close : Close) :
    inside.Begins (inside.node close) := by
  cases inside <;> exact ⟨[], close, by rw [List.append_nil]; rfl⟩

theorem Frame.wraps_iff (frame : Frame) (n whole : Node) :
    frame.Wraps n whole ↔ (frame.filled n).Begins whole := by
  cases frame <;> simp [Wraps, filled, Container.Begins]

namespace Builder

def Begun (inside : Container) (outer : List Frame) (root : Node) : Prop :=
  ∃ whole, inside.Begins whole ∧ Encloses outer whole root

/-- The tree begins with what the builder has taken in. -/
def Settles : Builder → Node → Prop
  | value outer, root => ∃ n, Encloses outer n root
  | within _ inside outer, root => Begun inside outer root
  | nextName done outer, root => Begun (.object done) outer root
  | colon done name outer, root => ∃ n, Encloses (.object done name :: outer) n root
  | ended whole _, root => whole = root

theorem encloses_unwind (f : Fault) (n : Node) (outer : List Frame) :
    Encloses outer n (unwind f n outer) := by
  induction outer generalizing n with
  | nil => rfl
  | cons frame outer ih =>
    exact ⟨_, (frame.wraps_iff n _).mpr ((frame.filled n).begins_node (.broken f)), ih _⟩

theorem begun_of_encloses (inside : Container) {outer : List Frame} {close : Close} {root : Node}
    (h : Encloses outer (inside.node close) root) : Begun inside outer root :=
  ⟨_, inside.begins_node close, h⟩

theorem begun_of_member {m : Node × Node} {done : List (Node × Node)} {outer : List Frame}
    {root : Node} (h : Begun (.object (m :: done)) outer root) :
    Begun (.object done) outer root := by
  obtain ⟨_, ⟨more, close, rfl⟩, inside⟩ := h
  exact ⟨_, ⟨m :: more, close, by simp⟩, inside⟩

theorem begun_of_value {done : List Node} {outer : List Frame} {root : Node}
    (h : (value (.list done :: outer)).Settles root) : Begun (.list done) outer root := by
  obtain ⟨n, _, ⟨more, close, rfl⟩, inside⟩ := h
  exact ⟨_, ⟨n :: more, close, rfl⟩, inside⟩

theorem settles_finish (b : Builder) : b.Settles b.finish.root := by
  cases b with
  | value outer => exact ⟨_, encloses_unwind _ _ _⟩
  | within started inside outer => exact begun_of_encloses inside (encloses_unwind _ _ _)
  | nextName done outer =>
    exact begun_of_member (begun_of_encloses (.object _) (encloses_unwind _ _ _))
  | colon done name outer =>
    exact ⟨.missing, _, (Frame.wraps_iff (.object done name) _ _).mpr (Container.begins_node _ _),
      encloses_unwind _ _ _⟩
  | ended whole trailing => rfl

variable {b : Builder} {t : Token} {root : Node} {outer : List Frame}

theorem encloses_of_put {n : Node} (h : (put n outer).Settles root) : Encloses outer n root := by
  cases outer with
  | nil => exact h
  | cons frame outer =>
    obtain ⟨whole, begins, inside⟩ := h
    exact ⟨whole, (frame.wraps_iff n whole).mpr begins, inside⟩

theorem encloses_of_abandon {f : Fault} {n : Node} (h : (abandon f n outer).Settles root) :
    Encloses outer n root := by
  obtain rfl : unwind f n outer = root := h
  exact encloses_unwind f n outer

theorem settles_of_beginValue (h : (beginValue outer t).Settles root) :
    (value outer).Settles root := by
  cases t with
  | openList =>
    obtain ⟨whole, -, inside⟩ := h
    exact ⟨whole, inside⟩
  | openObject =>
    obtain ⟨whole, -, inside⟩ := h
    exact ⟨whole, inside⟩
  | word w => exact ⟨_, encloses_of_put h⟩
  | number n => exact ⟨_, encloses_of_put h⟩
  | text t => exact ⟨_, encloses_of_put h⟩
  | _ => exact ⟨_, encloses_of_abandon h⟩

theorem begun_of_beginMember {done : List (Node × Node)}
    (h : (beginMember done outer t).Settles root) : Begun (.object done) outer root := by
  cases t with
  | text t =>
    obtain ⟨n, _, ⟨more, close, rfl⟩, inside⟩ := h
    exact ⟨_, ⟨_, close, rfl⟩, inside⟩
  | _ => exact begun_of_member (begun_of_encloses (.object _) (encloses_of_abandon h))

variable {inside : Container}

theorem begun_of_beginPart (h : (beginPart outer inside t).Settles root) :
    Begun inside outer root := by
  cases inside with
  | list done => exact begun_of_value (settles_of_beginValue h)
  | object done => exact begun_of_beginMember h

theorem begun_of_nextPart (h : (nextPart outer inside).Settles root) :
    Begun inside outer root := by
  cases inside with
  | list done => exact begun_of_value h
  | object done => exact h

theorem begun_of_step_within {started : Bool}
    (h : ((within started inside outer).step t).Settles root) : Begun inside outer root := by
  rcases step_within_cases started inside outer t with ⟨-, step⟩ | step | step | step
  all_goals rw [step] at h
  · exact begun_of_encloses inside (encloses_of_put h)
  · exact begun_of_beginPart h
  · exact begun_of_nextPart h
  · exact begun_of_encloses inside (encloses_of_abandon h)

/-- A token takes nothing back. -/
theorem settles_of_step (h : (b.step t).Settles root) : b.Settles root := by
  cases b with
  | value outer => exact settles_of_beginValue h
  | within started inside outer => exact begun_of_step_within h
  | nextName done outer => exact begun_of_beginMember h
  | colon done name outer =>
    cases t with
    | colon => exact h
    | _ =>
      exact ⟨.stray, _, (Frame.wraps_iff (.object done name) _ _).mpr (Container.begins_node _ _),
        encloses_of_abandon h⟩
  | ended whole trailing => exact h

theorem settles_foldl (b : Builder) (tokens : List Token) :
    b.Settles (tokens.foldl step b).finish.root := by
  induction tokens generalizing b with
  | nil => exact b.settles_finish
  | cons t tokens ih => exact settles_of_step (ih (b.step t))

end Builder

/-- A step from a value to a part of it, with all that stands before the part. -/
inductive Step where
  | member (before : List Member) (name : Padded TextSpelling) (gap : Gap)
  | item (before : List (Padded Spelling)) (gap : Gap)

namespace Step

open Spelling

def chars : Step → List Char
  | member before name gap =>
    '{' :: (memberChars false before ++ (comma (!before.isEmpty) ++ (name.before.chars ++
      (name.value.chars ++ (name.after.chars ++ ':' :: gap.chars)))))
  | item before gap => '[' :: (itemChars false before ++ (comma (!before.isEmpty) ++ gap.chars))

def tokens : Step → List Token
  | member before name _ =>
    .openObject :: (memberTokens false before ++
      (commaToken (!before.isEmpty) ++ [.text name.value.text, .colon]))
  | item before _ => .openList :: (itemTokens false before ++ commaToken (!before.isEmpty))

def frame : Step → Frame
  | member before name _ => .object (before.map Member.node).reverse (.text name.value.text)
  | item before _ => .list (before.map fun item => item.value.node).reverse

/-- The lists and objects around the end of a path, the innermost first. -/
def frames (path : List Step) : List Frame := (path.map frame).reverse

theorem scan_members (before : List Member) (cs : List Char) :
    Lexeme.machine.run .between (memberChars false before ++ (comma (!before.isEmpty) ++ cs)) =
      memberTokens false before ++
        (commaToken (!before.isEmpty) ++ Lexeme.machine.run .between cs) := by
  cases before with
  | nil => rfl
  | cons m before => exact scan_memberChars false (m :: before) (.comma cs)

theorem scan_items (before : List (Padded Spelling)) (cs : List Char) :
    Lexeme.machine.run .between (itemChars false before ++ (comma (!before.isEmpty) ++ cs)) =
      itemTokens false before ++
        (commaToken (!before.isEmpty) ++ Lexeme.machine.run .between cs) := by
  cases before with
  | nil => rfl
  | cons item before => exact scan_itemChars false (item :: before) (.comma cs)

theorem scan_chars (step : Step) (cs : List Char) :
    Lexeme.machine.run .between (step.chars ++ cs) =
      step.tokens ++ Lexeme.machine.run .between cs := by
  cases step with
  | member before name gap =>
    have opened := Lexeme.machine.run_of_token (s := .between) (c := '{') rfl
    have colon := Lexeme.machine.run_of_token (s := .between) (c := ':') rfl
    simp only [chars, tokens, List.cons_append, List.append_assoc]
    rw [opened, scan_members, Lexeme.tokens_gap, Lexeme.tokens_text, Lexeme.tokens_gap, colon,
      Lexeme.tokens_gap]
    rfl
  | item before gap =>
    have opened := Lexeme.machine.run_of_token (s := .between) (c := '[') rfl
    simp only [chars, tokens, List.cons_append, List.append_assoc]
    rw [opened, scan_items, Lexeme.tokens_gap]

theorem scan_path (path : List Step) (cs : List Char) :
    Lexeme.machine.run .between (path.flatMap chars ++ cs) =
      path.flatMap tokens ++ Lexeme.machine.run .between cs := by
  induction path with
  | nil => rfl
  | cons step path ih =>
    rw [List.flatMap_cons, List.flatMap_cons, List.append_assoc, scan_chars, ih, List.append_assoc]

theorem build_members {b : Builder} {outer : List Frame} (h : b.Expects outer)
    (before : List Member) :
    (Token.openObject :: memberTokens false before).foldl Builder.step b =
      .within (!before.isEmpty) (.object (before.map Member.node).reverse) outer := by
  rw [List.foldl_cons, h.openObject, build_memberTokens false before [] outer,
    memberNodes_eq_map, List.append_nil, Bool.false_or]

theorem expects_tokens (step : Step) {b : Builder} {outer : List Frame} (h : b.Expects outer) :
    (step.tokens.foldl Builder.step b).Expects (step.frame :: outer) := by
  cases step with
  | member before name gap =>
    have opened : (tokens (.member before name gap)).foldl Builder.step b =
        .value (.object (before.map Member.node).reverse (.text name.value.text) :: outer) := by
      rw [tokens, ← List.cons_append, List.foldl_append, build_members h]
      exact step_name _ _ _ _
    rw [opened]
    exact Builder.expects_value _
  | item before gap =>
    have inside := build_itemTokens false before [] outer
    rw [tokens, List.foldl_cons, h.openList, List.foldl_append, inside, itemNodes_eq_map,
      List.append_nil, Bool.false_or]
    exact expects_item _ _ _

theorem expects_path (path : List Step) {b : Builder} {outer : List Frame} (h : b.Expects outer) :
    ((path.flatMap tokens).foldl Builder.step b).Expects (frames path ++ outer) := by
  induction path generalizing b outer with
  | nil => exact h
  | cons step path ih =>
    have rest := ih (step.expects_tokens h)
    rw [List.flatMap_cons, List.foldl_append, frames, List.map_cons, List.reverse_cons,
      List.append_assoc]
    exact rest

end Step

/-- A text up to a comma in an object that a path leads to, and the white space behind the comma. -/
def opening (front : Gap) (path : List Step) (before : List Member) (gap : Gap) : List Char :=
  front.chars ++ (path.flatMap Step.chars ++
    '{' :: (Spelling.memberChars false before ++ ',' :: gap.chars))

variable {front : Gap} {path : List Step} {before : List Member} {gap : Gap}

theorem foldl_opening (some : before ≠ []) (cs : List Char) :
    (Token.scan (opening front path before gap ++ cs)).foldl Builder.step (.value []) =
      (Lexeme.machine.run .between cs).foldl Builder.step
        (.nextName (before.map Member.node).reverse (Step.frames path)) := by
  obtain ⟨m, before, rfl⟩ := List.exists_cons_of_ne_nil some
  have opened := Lexeme.machine.run_of_token (s := .between) (c := '{') rfl
  have scanned : Token.scan (opening front path (m :: before) gap ++ cs) =
      path.flatMap Step.tokens ++
        ((Token.openObject :: Spelling.memberTokens false (m :: before)) ++
          .comma :: Lexeme.machine.run .between cs) := by
    have members := Step.scan_members (m :: before) (gap.chars ++ cs)
    rw [Lexeme.tokens_gap] at members
    simp only [opening, Token.scan, List.append_assoc, List.cons_append]
    rw [Lexeme.tokens_gap, Step.scan_path, opened]
    exact congrArg _ (congrArg _ members)
  have inside := Step.expects_path path (Builder.expects_value [])
  rw [List.append_nil] at inside
  rw [scanned, List.foldl_append, List.foldl_append, Step.build_members inside]
  rfl

theorem encloses_opening (some : before ≠ []) (cs : List Char) :
    ∃ more close, Encloses (Step.frames path) (.object (before.map Member.node ++ more) close)
      (Document.ofString (String.ofList (opening front path before gap ++ cs))).root := by
  obtain ⟨_, ⟨more, close, rfl⟩, settled⟩ := Builder.settles_foldl
    (.nextName (before.map Member.node).reverse (Step.frames path))
    (Lexeme.machine.run .between cs)
  rw [← foldl_opening some cs, List.reverse_reverse] at settled
  refine ⟨more, close, ?_⟩
  rw [Document.ofString, Document.ofTokens, String.toList_ofList]
  exact settled

/-- The object goes on with a member of the name behind the comma, whatever follows the name. -/
theorem encloses_opening_name (some : before ≠ []) (name : TextSpelling) (rest : List Char) :
    ∃ n more close,
      Encloses (Step.frames path)
        (.object (before.map Member.node ++ (.text name.text, n) :: more) close)
        (Document.ofString
          (String.ofList (opening front path before gap ++ (name.chars ++ rest)))).root := by
  obtain ⟨n, _, ⟨more, close, rfl⟩, inside⟩ := Builder.settles_foldl
    (.colon (before.map Member.node).reverse (.text name.text) (Step.frames path))
    (Lexeme.machine.run .between rest)
  rw [List.reverse_reverse] at inside
  refine ⟨n, more, close, ?_⟩
  rw [Document.ofString, Document.ofTokens, String.toList_ofList, foldl_opening some,
    Lexeme.tokens_text]
  exact inside

end RuleFeed.Json
