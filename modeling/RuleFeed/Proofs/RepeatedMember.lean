import RuleFeed.Proofs.Json.Place
import RuleFeed.Proofs.ListForm
import RuleFeed.Report.Document

/-!
Repeated members. Wherever a document has a record as an object, a known name may stand once in it,
whichever of its names the field goes by and however the name is escaped. A second one is a fault at
that name: neither the two values nor anything behind the name can make good for it, and if nothing
before it is at fault it is the fault of the whole document. Other names may stand as often as they
like, and count for nothing.
-/
namespace RuleFeed

open Json

namespace Json

/-- The members of the first list are those of the second, with members of names that are not known
among them. -/
inductive Adds (known : List String) : List Member → List Member → Prop
  | nil : Adds known [] []
  | same {ms ns : List Member} (m : Member) (rest : Adds known ms ns) :
      Adds known (m :: ms) (m :: ns)
  | extra {ms ns : List Member} {m : Member} (foreign : m.Foreign known)
      (rest : Adds known ms ns) : Adds known (m :: ms) ns

namespace Shape

variable {α : Type} {s : Shape α}

def names (s : Shape α) : List String := s.fields.flatMap Field.names

/-- Nothing in the text is at fault: with the right text behind it, it can be read. -/
def Continues (s : Shape α) (start : List Char) : Prop :=
  ∃ (behind : List Char) (a : α), s.readDocument (String.ofList (start ++ behind)) = .ok a

theorem field?_of_not_mem_names {key : String} (unknown : key ∉ s.names) : s.field? key = none :=
  (s.field?_eq_none_iff key).mpr fun f mem named =>
    unknown (List.mem_flatMap.mpr ⟨f, mem, named⟩)

theorem readMember_of_foreign {m : Member} (foreign : m.Foreign s.names) (p : Progress α) :
    s.readMember p m.node.1 m.node.2 = .ok p := by
  obtain ⟨key, named, unknown⟩ := foreign
  have passed : m.node.2.skip = .ok () := Spelling.skip_node m.2.value
  simp only [readMember, (m.name_node_eq_ok_iff key).mpr named, field?_of_not_mem_names unknown,
    passed, bind, Except.bind, pure, Except.pure]

theorem readMembers_of_adds {ms ns : List Member} (adds : Adds s.names ms ns) (p : Progress α) :
    s.readMembers p (ms.map Member.node) = s.readMembers p (ns.map Member.node) := by
  induction adds generalizing p with
  | nil => rfl
  | same m rest ih =>
    rw [List.map_cons, List.map_cons, readMembers, readMembers]
    cases s.readMember p m.node.1 m.node.2 with
    | error f => rfl
    | ok q => exact ih q
  | extra foreign rest ih =>
    rw [List.map_cons, readMembers, readMember_of_foreign foreign]
    exact ih p

theorem read_of_adds {ms ns : List Member} (adds : Adds s.names ms ns) (gap gap' : Gap) :
    s.read (Spelling.object ms gap).node = s.read (Spelling.object ns gap').node := by
  simp only [Spelling.node, Spelling.memberNodes_eq_map, read, readObject,
    readMembers_of_adds adds]

/-- A field that one of the members names is not read a second time. -/
theorem mem_seen_of_readMembers (separate : s.Separate) {members : List (Node × Node)}
    {q : Progress α} (read : s.readMembers ⟨s.blank, []⟩ members = .ok q) {m : Node × Node}
    (mem : m ∈ members) {f : Field α} (hf : f ∈ s.fields) {key : String}
    (named : m.1.name = .ok key) (own : key ∈ f.names) : f.name ∈ q.seen := by
  have known : s.field? key = some f := (separate.field?_eq_some_iff _ _).mpr ⟨hf, own⟩
  have taken := s.readMembers_eq ⟨s.blank, []⟩ members
  rw [read] at taken
  obtain ⟨readable, -, -, rfl⟩ := (Progress.takeAll_eq_some_iff _ _ _).mp taken.symm
  have here : s.effect m ∈ members.map s.effect := List.mem_map_of_mem mem
  rw [effect_eq_of_known named known, Field.effect] at here
  refine List.mem_append_left _ (List.mem_reverse.mpr (Effect.mem_fields.mpr ?_))
  cases updated : f.update m.2 with
  | error e =>
    rw [updated] at here
    exact absurd here readable
  | ok change =>
    rw [updated] at here
    exact ⟨change, here⟩

variable {f : Field α} {members more : List (Node × Node)} {close : Close} {name n : Node}
  {key key' : String} {m : Node × Node}

theorem readObject_of_repeated (separate : s.Separate) (hf : f ∈ s.fields) (mem : m ∈ members)
    (named : m.1.name = .ok key) (own : key ∈ f.names) (again : name.name = .ok key')
    (own' : key' ∈ f.names) :
    s.readObject (members ++ (name, n) :: more) close =
      match s.readMembers ⟨s.blank, []⟩ members with
      | .error e => .error e
      | .ok _ => .error .mismatch := by
  cases early : s.readMembers ⟨s.blank, []⟩ members with
  | error e =>
    refine readObject_of_error ?_
    rw [readMembers_append, early]
    rfl
  | ok q =>
    have known : s.field? key' = some f := (separate.field?_eq_some_iff _ _).mpr ⟨hf, own'⟩
    have seen := mem_seen_of_readMembers separate early mem hf named own
    exact readObject_of_error (readMembers_of_error early (readMember_of_seen again known seen))

theorem exists_error_of_repeated (separate : s.Separate) (hf : f ∈ s.fields) (mem : m ∈ members)
    (named : m.1.name = .ok key) (own : key ∈ f.names) (again : name.name = .ok key')
    (own' : key' ∈ f.names) :
    ∃ fault, s.readObject (members ++ (name, n) :: more) close = .error fault := by
  rw [readObject_of_repeated separate hf mem named own again own']
  cases s.readMembers ⟨s.blank, []⟩ members with
  | error e => exact ⟨e, rfl⟩
  | ok q => exact ⟨.mismatch, rfl⟩

/-- The repetition is the fault if the members before it are those of an object that can be read. -/
theorem mismatch_of_repeated (separate : s.Separate) (hf : f ∈ s.fields) (mem : m ∈ members)
    (named : m.1.name = .ok key) (own : key ∈ f.names) (again : name.name = .ok key')
    (own' : key' ∈ f.names) {others : List (Node × Node)} {close' : Close} {a : α}
    (read : s.readObject (members ++ others) close' = .ok a) :
    s.readObject (members ++ (name, n) :: more) close = .error .mismatch := by
  obtain ⟨q, whole⟩ := exists_members_of_readObject read
  rw [readMembers_append] at whole
  obtain ⟨p, early, -⟩ := (bind_eq_ok_iff _ _ _).mp whole
  rw [readObject_of_repeated separate hf mem named own again own', early]

theorem readDocument_of_error {text : String} {fault : Fault}
    (fails : s.read (Document.ofString text).root = .error fault) :
    s.readDocument text = .error fault := by
  rw [readDocument, Document.read, fails]
  rfl

theorem read_root_of_readDocument {text : String} {a : α} (read : s.readDocument text = .ok a) :
    s.read (Document.ofString text).root = .ok a := by
  obtain ⟨b, root, rest⟩ := (bind_eq_ok_iff _ _ _).mp read
  split at rest
  · cases rest
  · cases rest
    exact root

end Shape
end Json

namespace Schema

/-- Where a path leads to a record as an object, a second member of one of its fields is refused
whatever follows its name; members of other names may be repeated there. -/
theorem known_member_stands_once (k l : Schema) (path : List Step)
    (leads : Leads k.shape.read path l.shape.read) :
    (∀ f ∈ l.shape.fields, ∀ (front : Gap) (before : List Member) (gap : Gap)
        (name : TextSpelling) (rest : List Char),
      (∃ m ∈ before, ∃ key ∈ f.names, m.Named key) → (∃ key ∈ f.names, name.Spells key) →
      let start := opening front path before gap
      let text := String.ofList (start ++ (name.chars ++ rest))
      ∃ fault, k.shape.readDocument text = .error fault ∧
        (k.shape.Continues start → fault = .mismatch) ∧
        ∀ c, k = envelope c → Report.ofDocument c text = .error ⟨c, fault⟩) ∧
    ∀ (ms ns : List Member) (gap gap' : Gap) (p q : Padded Spelling),
      Adds l.shape.names ms ns → Exchanges (.object ms gap) (.object ns gap') path p.value q.value →
      k.shape.readDocument p.document = k.shape.readDocument q.document := by
  constructor
  · rintro f hf front before gap name rest ⟨m, mem, key, own, named⟩ ⟨key', own', again⟩ start text
    have some : before ≠ [] := List.ne_nil_of_mem mem
    have first := (m.name_node_eq_ok_iff key).mpr named
    have second := (name.name_text_eq_ok_iff key').mpr again
    have listed := List.mem_map_of_mem (f := Member.node) mem
    obtain ⟨n, more, close, inside⟩ := encloses_opening_name some name rest
    have repeated : ∃ e, l.shape.readObject
        (before.map Member.node ++ (.text name.text, n) :: more) close = .error e :=
      Shape.exists_error_of_repeated l.separate hf listed first own second own'
    obtain ⟨e, fails⟩ := repeated
    obtain ⟨fault, refused⟩ := leads.exists_error inside fails
    have read := Shape.readDocument_of_error refused
    refine ⟨fault, read, ?_, ?_⟩
    · rintro ⟨behind, a, whole⟩
      obtain ⟨more', close', inside'⟩ := encloses_opening some behind
      have root := Shape.read_root_of_readDocument whole
      obtain ⟨b, object⟩ := leads.exists_ok inside' root
      have repeated : l.shape.readObject (before.map Member.node ++ (.text name.text, n) :: more)
          close = .error .mismatch :=
        Shape.mismatch_of_repeated l.separate hf listed first own second own' object
      cases refused.symm.trans (leads.error_of_error inside inside' root repeated)
      rfl
    · rintro c rfl
      exact Report.ofDocument_of_error read
  · intro ms ns gap gap' p q adds exchanged
    rw [Shape.readDocument, Shape.readDocument, Document.read_document, Document.read_document]
    exact exchanged.read_of_leads leads (Shape.read_of_adds adds gap gap')

/-- An item of a hot-spot record four steps down: the name comes again with an escape and nothing
legal behind it; another name comes twice. -/
theorem known_member_stands_once_item :
    let text := "\x7b\"version\":\"7\",\"data\":[\x7b\"paramFlowItemList\":[" ++
      "\x7b\"object\":null,\"ob\\u006Aect\"!"
    (envelope .hotSpot).shape.readDocument text = .error .mismatch ∧
      Report.ofDocument .hotSpot text = .error ⟨.hotSpot, .mismatch⟩ ∧
      overrideItem.shape.readDocument "\x7b\"x\":1,\"object\":\"a\",\"x\":[]\x7d" =
        overrideItem.shape.readDocument "\x7b\"object\":\"a\"\x7d" := by
  intro text
  let path : List Step := [
    .member [Member.plain "version" (.text (.ofString "7"))] (.tight (.ofString "data")) .empty,
    .item [] .empty, .member [] (.tight (.ofString "paramFlowItemList")) .empty, .item [] .empty]
  have leads : Leads (envelope .hotSpot).shape.read path overrideItem.shape.read :=
    .step (.member (TextSpelling.spells_ofString "data") rfl rfl) <| .step (.orDefault .item) <|
      .step (.member (TextSpelling.spells_ofString "paramFlowItemList") rfl rfl) <|
        .step (.orDefault .item) .here
  let first := Member.plain "object" (.word .null)
  let again : List Glyph := [.bare 'o' (by decide), .bare 'b' (by decide),
    .unit 'j' ⟨⟨0, false⟩, ⟨0, false⟩, ⟨6, false⟩, ⟨10, true⟩⟩ (by decide), .bare 'e' (by decide),
    .bare 'c' (by decide), .bare 't' (by decide)]
  obtain ⟨fault, read, mismatch, report⟩ := (known_member_stands_once _ _ path leads).1 _
    List.mem_cons_self .empty [first] .empty ⟨again.flatMap Glyph.letters⟩ ['!']
    ⟨first, List.mem_cons_self, "object", List.mem_cons_self, Member.named_plain _ _⟩
    ⟨"object", List.mem_cons_self, again, rfl, by decide⟩
  have continues : (envelope .hotSpot).shape.Continues (opening .empty path [first] .empty) := by
    have whole : ((envelope .hotSpot).shape.readDocument (String.ofList
        (opening .empty path [first] .empty ++
          "\"x\":1\x7d]\x7d]\x7d".toList))).toOption.isSome := by
      decide +kernel
    obtain ⟨a, found⟩ := Option.isSome_iff_exists.mp whole
    exact ⟨_, a, (toOption_eq_some_iff _ _).mp found⟩
  obtain rfl := mismatch continues
  have others := (known_member_stands_once overrideItem overrideItem [] .here).2
    [Member.plain "x" (.number (.ofDigit 1)), Member.plain "object" (.text (.ofString "a")),
      Member.plain "x" (.list [] .empty)] [Member.plain "object" (.text (.ofString "a"))]
    .empty .empty (.tight _) (.tight _)
    (.extra ⟨"x", Member.named_plain _ _, by decide⟩
      (.same _ (.extra ⟨"x", Member.named_plain _ _, by decide⟩ .nil))) .here
  exact ⟨read, report _ rfl, others⟩

end Schema
end RuleFeed
