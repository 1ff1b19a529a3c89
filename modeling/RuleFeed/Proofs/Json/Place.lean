import RuleFeed.Proofs.Json.Opening
import RuleFeed.Proofs.Json.Partial

/-!
Readers and the parts of what they read. A reader of a list hands the items to a reader of its own,
a reader of records hands each value to the reader of its field. What is handed on must be readable
for the whole to be so. Conversely the first fault of a part is the fault of the whole, provided
that all before the part can be read; and nothing of a part counts but what its reader makes of it.
-/
namespace RuleFeed.Json

variable {α β : Type}

namespace Node

variable {reader : Node → Reading α}

theorem exists_ok_of_listItems {items more : List Node} {n : Node} {as : List α}
    (read : listItems reader (items ++ n :: more) = .ok as) :
    (∃ bs, listItems reader items = .ok bs) ∧ ∃ b, reader n = .ok b := by
  induction items generalizing as with
  | nil =>
    obtain ⟨b, first, -⟩ := (bind_eq_ok_iff _ _ _).mp read
    exact ⟨⟨[], rfl⟩, b, first⟩
  | cons item items ih =>
    obtain ⟨a, first, rest⟩ := (bind_eq_ok_iff _ _ _).mp read
    obtain ⟨bs, others, -⟩ := (bind_eq_ok_iff _ _ _).mp rest
    obtain ⟨⟨cs, early⟩, here⟩ := ih others
    refine ⟨⟨a :: cs, ?_⟩, here⟩
    rw [listItems, first, early]
    rfl

theorem listItems_of_error {items more : List Node} {n : Node} {bs : List α} {f : Fault}
    (early : listItems reader items = .ok bs) (here : reader n = .error f) :
    listItems reader (items ++ n :: more) = .error f := by
  induction items generalizing bs with
  | nil =>
    rw [List.nil_append, listItems, here]
    rfl
  | cons item items ih =>
    obtain ⟨a, first, rest⟩ := (bind_eq_ok_iff _ _ _).mp early
    obtain ⟨cs, others, -⟩ := (bind_eq_ok_iff _ _ _).mp rest
    rw [List.cons_append, listItems, first, ih others]
    rfl

theorem listItems_congr {m n : Node} (same : reader m = reader n) (items more : List Node) :
    listItems reader (items ++ m :: more) = listItems reader (items ++ n :: more) := by
  induction items with
  | nil => rw [List.nil_append, List.nil_append, listItems, listItems, same]
  | cons item items ih => rw [List.cons_append, List.cons_append, listItems, listItems, ih]

end Node

namespace Shape

variable {s : Shape α} {p q : Progress α} {name n : Node} {key : String} {f : Field α}

theorem readMembers_append (s : Shape α) (p : Progress α) (members others : List (Node × Node)) :
    s.readMembers p (members ++ others) =
      s.readMembers p members >>= fun q => s.readMembers q others := by
  induction members generalizing p with
  | nil => rfl
  | cons m members ih =>
    rw [List.cons_append, readMembers, readMembers]
    cases s.readMember p m.1 m.2 with
    | error e => rfl
    | ok q => exact ih q

theorem readMember_of_seen (named : name.name = .ok key) (known : s.field? key = some f)
    (seen : f.name ∈ p.seen) : s.readMember p name n = .error .mismatch := by
  simp only [readMember, named, known, seen, List.contains_eq_mem, decide_true, bind, Except.bind,
    if_true]

theorem exists_update_of_readMember (named : name.name = .ok key) (known : s.field? key = some f)
    (read : s.readMember p name n = .ok q) :
    f.name ∉ p.seen ∧ ∃ change, f.update n = .ok change := by
  by_cases seen : f.name ∈ p.seen
  · rw [readMember_of_seen named known seen] at read
    cases read
  · rw [readMember_of_known named known seen] at read
    obtain ⟨change, updated, -⟩ := (map_eq_ok_iff _ _ _).mp read
    exact ⟨seen, change, updated⟩

theorem exists_ok_of_readMembers {members more : List (Node × Node)}
    (read : s.readMembers p (members ++ (name, n) :: more) = .ok q) :
    ∃ early, s.readMembers p members = .ok early ∧
      ∃ here, s.readMember early name n = .ok here := by
  rw [readMembers_append] at read
  obtain ⟨early, first, rest⟩ := (bind_eq_ok_iff _ _ _).mp read
  obtain ⟨here, member, -⟩ := (bind_eq_ok_iff _ _ _).mp rest
  exact ⟨early, first, here, member⟩

theorem readMembers_of_error {members more : List (Node × Node)} {e : Fault}
    (early : s.readMembers p members = .ok q) (here : s.readMember q name n = .error e) :
    s.readMembers p (members ++ (name, n) :: more) = .error e := by
  rw [readMembers_append, early]
  change s.readMember q name n >>= _ = _
  rw [here]
  rfl

theorem readObject_of_error {members : List (Node × Node)} {close : Close} {e : Fault}
    (fails : s.readMembers ⟨s.blank, []⟩ members = .error e) :
    s.readObject members close = .error e := by
  rw [readObject, fails]
  rfl

theorem exists_members_of_readObject {members : List (Node × Node)} {close : Close} {a : α}
    (read : s.readObject members close = .ok a) :
    ∃ q, s.readMembers ⟨s.blank, []⟩ members = .ok q := by
  obtain ⟨q, whole, -⟩ := (bind_eq_ok_iff _ _ _).mp read
  exact ⟨q, whole⟩

theorem exists_update_of_readList {fields : List (Field α)} {items more : List Node} {close : Close}
    {value a : α} (here : fields[items.length]? = some f)
    (read : readList value fields (items ++ n :: more) close = .ok a) :
    ∃ change, f.update n = .ok change := by
  induction items generalizing fields value with
  | nil =>
    cases fields with
    | nil => cases here
    | cons g fields =>
      obtain rfl : g = f := Option.some.inj here
      obtain ⟨change, updated, -⟩ := (bind_eq_ok_iff _ _ _).mp read
      exact ⟨change, updated⟩
  | cons item items ih =>
    cases fields with
    | nil => cases here
    | cons g fields =>
      obtain ⟨change, -, rest⟩ := (bind_eq_ok_iff _ _ _).mp read
      exact ih here rest

theorem readList_of_error {fields : List (Field α)} {items more more' : List Node}
    {close close' : Close} {n' : Node} {value a : α} {e : Fault}
    (here : fields[items.length]? = some f) (fails : f.update n = .error e)
    (read : readList value fields (items ++ n' :: more') close' = .ok a) :
    readList value fields (items ++ n :: more) close = .error e := by
  induction items generalizing fields value with
  | nil =>
    cases fields with
    | nil => cases here
    | cons g fields =>
      obtain rfl : g = f := Option.some.inj here
      rw [List.nil_append, readList, fails]
      rfl
  | cons item items ih =>
    cases fields with
    | nil => cases here
    | cons g fields =>
      obtain ⟨change, updated, rest⟩ := (bind_eq_ok_iff _ _ _).mp read
      rw [List.cons_append, readList, updated]
      exact ih here rest

theorem readList_congr {fields : List (Field α)} {items : List Node} {m : Node}
    (here : fields[items.length]? = some f) (same : f.update m = f.update n) (value : α)
    (more : List Node) (close : Close) :
    readList value fields (items ++ m :: more) close =
      readList value fields (items ++ n :: more) close := by
  induction items generalizing fields value with
  | nil =>
    cases fields with
    | nil => cases here
    | cons g fields =>
      obtain rfl : g = f := Option.some.inj here
      rw [List.nil_append, List.nil_append, readList, readList, same]
  | cons item items ih =>
    cases fields with
    | nil => cases here
    | cons g fields =>
      rw [List.cons_append, List.cons_append, readList, readList]
      cases g.update item with
      | error e => rfl
      | ok change => exact ih here (change value)

end Shape

theorem Frame.orDefault_of_wraps {frame : Frame} {n whole : Node} (wraps : frame.Wraps n whole)
    (default : α) (reader : Node → Reading α) : whole.orDefault default reader = reader whole := by
  cases frame with
  | list done =>
    obtain ⟨more, close, rfl⟩ := wraps
    rfl
  | object done name =>
    obtain ⟨more, close, rfl⟩ := wraps
    rfl

theorem TextSpelling.name_text_eq_ok_iff (t : TextSpelling) (key : String) :
    (Node.text t.text).name = .ok key ↔ t.Spells key :=
  t.decode_eq_ok_iff key

/-- The first reader hands the part behind this step to the second. -/
inductive Step.Hands : {α β : Type} → Step → (Node → Reading α) → (Node → Reading β) → Prop
  | item {β : Type} {part : Node → Reading β} {before : List (Padded Spelling)} {gap : Gap} :
      Hands (.item before gap) (Node.listOf part) part
  | member {α β : Type} {s : Shape α} {f : Field α} {part : Node → Reading β} {put : β → α → α}
      {before : List Member} {name : Padded TextSpelling} {gap : Gap} {key : String}
      (named : name.value.Spells key) (known : s.field? key = some f)
      (update : f.update = fun n => (part n).map put) : Hands (.member before name gap) s.read part
  | position {α β : Type} {s : Shape α} {f : Field α} {part : Node → Reading β} {put : β → α → α}
      {before : List (Padded Spelling)} {gap : Gap} (here : s.fields[before.length]? = some f)
      (update : f.update = fun n => (part n).map put) : Hands (.item before gap) s.read part
  | orDefault {α β : Type} {step : Step} {default : α} {reader : Node → Reading α}
      {part : Node → Reading β} (inside : Hands step reader part) :
      Hands step (Node.orDefault default reader) part

namespace Step.Hands

variable {step : Step} {reader : Node → Reading α} {part : Node → Reading β}
  {n n' whole whole' : Node}

theorem exists_ok (h : step.Hands reader part) (wraps : step.frame.Wraps n whole) {a : α}
    (read : reader whole = .ok a) : ∃ b, part n = .ok b := by
  induction h with
  | item =>
    obtain ⟨more, close, rfl⟩ := wraps
    obtain ⟨as, items, -⟩ := (bind_eq_ok_iff _ _ _).mp read
    exact (Node.exists_ok_of_listItems items).2
  | member named known update =>
    obtain ⟨more, close, rfl⟩ := wraps
    obtain ⟨q, members⟩ := Shape.exists_members_of_readObject read
    obtain ⟨early, -, here, member⟩ := Shape.exists_ok_of_readMembers members
    obtain ⟨-, change, updated⟩ := Shape.exists_update_of_readMember
      ((TextSpelling.name_text_eq_ok_iff _ _).mpr named) known member
    rw [update] at updated
    obtain ⟨b, part_read, -⟩ := (map_eq_ok_iff _ _ _).mp updated
    exact ⟨b, part_read⟩
  | position here update =>
    obtain ⟨more, close, rfl⟩ := wraps
    obtain ⟨change, updated⟩ := Shape.exists_update_of_readList (by simpa using here) read
    rw [update] at updated
    obtain ⟨b, part_read, -⟩ := (map_eq_ok_iff _ _ _).mp updated
    exact ⟨b, part_read⟩
  | orDefault inside ih =>
    rw [Frame.orDefault_of_wraps wraps] at read
    exact ih wraps read

/-- A fault of the part is the fault of the whole if some text that is the same up to the part can
be read. -/
theorem error_of_error (h : step.Hands reader part) (wraps : step.frame.Wraps n whole)
    (wraps' : step.frame.Wraps n' whole') {a : α} {f : Fault} (read : reader whole' = .ok a)
    (fails : part n = .error f) : reader whole = .error f := by
  induction h with
  | item =>
    obtain ⟨more, close, rfl⟩ := wraps
    obtain ⟨more', close', rfl⟩ := wraps'
    obtain ⟨as, items, -⟩ := (bind_eq_ok_iff _ _ _).mp read
    obtain ⟨bs, early⟩ := (Node.exists_ok_of_listItems items).1
    rw [Node.listOf, Node.listItems_of_error early fails]
    rfl
  | member named known update =>
    obtain ⟨more, close, rfl⟩ := wraps
    obtain ⟨more', close', rfl⟩ := wraps'
    have spelled := (TextSpelling.name_text_eq_ok_iff _ _).mpr named
    obtain ⟨q, members⟩ := Shape.exists_members_of_readObject read
    obtain ⟨early, first, here, member⟩ := Shape.exists_ok_of_readMembers members
    have unseen := (Shape.exists_update_of_readMember spelled known member).1
    refine Shape.readObject_of_error (Shape.readMembers_of_error first ?_)
    rw [Shape.readMember_of_known spelled known unseen, update]
    simp only [fails, Except.map]
  | position here update =>
    obtain ⟨more, close, rfl⟩ := wraps
    obtain ⟨more', close', rfl⟩ := wraps'
    refine Shape.readList_of_error (by simpa using here) ?_ read
    simp only [update, fails, Except.map]
  | orDefault inside ih =>
    rw [Frame.orDefault_of_wraps wraps'] at read
    rw [Frame.orDefault_of_wraps wraps]
    exact ih wraps wraps' read fails

end Step.Hands

/-- The first reader takes a value with the second as the reader of the part at the path. -/
inductive Leads : {α β : Type} → (Node → Reading α) → List Step → (Node → Reading β) → Prop
  | here {α : Type} {reader : Node → Reading α} : Leads reader [] reader
  | step {α β γ : Type} {reader : Node → Reading α} {next : Node → Reading β}
      {part : Node → Reading γ} {step : Step} {path : List Step} (first : step.Hands reader next)
      (rest : Leads next path part) : Leads reader (step :: path) part

namespace Leads

variable {path : List Step} {reader : Node → Reading α} {part : Node → Reading β}
  {n n' root root' : Node}

theorem encloses_cons (step : Step) (path : List Step) (n root : Node) :
    Encloses (Step.frames (step :: path)) n root ↔
      ∃ inner, Encloses (Step.frames path) n inner ∧ step.frame.Wraps inner root := by
  rw [Step.frames, List.map_cons, List.reverse_cons, encloses_concat]
  rfl

theorem exists_ok (h : Leads reader path part) (encloses : Encloses (Step.frames path) n root)
    {a : α} (read : reader root = .ok a) : ∃ b, part n = .ok b := by
  induction h generalizing root with
  | here =>
    obtain rfl : n = root := encloses
    exact ⟨a, read⟩
  | step first rest ih =>
    obtain ⟨inner, inside, wraps⟩ := (encloses_cons _ _ _ _).mp encloses
    obtain ⟨b, read⟩ := first.exists_ok wraps read
    exact ih inside read

theorem exists_error (h : Leads reader path part) (encloses : Encloses (Step.frames path) n root)
    {f : Fault} (fails : part n = .error f) : ∃ f, reader root = .error f := by
  cases read : reader root with
  | error f => exact ⟨f, rfl⟩
  | ok a =>
    obtain ⟨b, read⟩ := h.exists_ok encloses read
    cases read.symm.trans fails

theorem error_of_error (h : Leads reader path part) (encloses : Encloses (Step.frames path) n root)
    (encloses' : Encloses (Step.frames path) n' root') {a : α} {f : Fault}
    (read : reader root' = .ok a) (fails : part n = .error f) : reader root = .error f := by
  induction h generalizing root root' with
  | here =>
    obtain rfl : n = root := encloses
    exact fails
  | step first rest ih =>
    obtain ⟨inner, inside, wraps⟩ := (encloses_cons _ _ _ _).mp encloses
    obtain ⟨inner', inside', wraps'⟩ := (encloses_cons _ _ _ _).mp encloses'
    obtain ⟨b, part_read⟩ := first.exists_ok wraps' read
    exact first.error_of_error wraps wraps' read (ih inside inside' part_read fails)

end Leads

/-- The second value has `x` and the third has `y` at the path, and they are the same everywhere
else. -/
inductive Exchanges (x y : Spelling) : List Step → Spelling → Spelling → Prop
  | here : Exchanges x y [] x y
  | member {before after : List Member} {name : Padded TextSpelling} {gap behind last : Gap}
      {path : List Step} {s t : Spelling} (inside : Exchanges x y path s t) :
      Exchanges x y (.member before name gap :: path)
        (.object (before ++ (name, ⟨gap, s, behind⟩) :: after) last)
        (.object (before ++ (name, ⟨gap, t, behind⟩) :: after) last)
  | item {before after : List (Padded Spelling)} {gap behind last : Gap} {path : List Step}
      {s t : Spelling} (inside : Exchanges x y path s t) :
      Exchanges x y (.item before gap :: path)
        (.list (before ++ ⟨gap, s, behind⟩ :: after) last)
        (.list (before ++ ⟨gap, t, behind⟩ :: after) last)

theorem Shape.readMember_congr {s : Shape α} {f : Field α} {name m n : Node} {key : String}
    (named : name.name = .ok key) (known : s.field? key = some f) (same : f.update m = f.update n)
    (p : Progress α) : s.readMember p name m = s.readMember p name n := by
  simp only [readMember, named, known, same, bind, Except.bind]

theorem Shape.readObject_congr {s : Shape α} {name m n : Node}
    (same : ∀ p, s.readMember p name m = s.readMember p name n) (before after : List (Node × Node))
    (close : Close) :
    s.readObject (before ++ (name, m) :: after) close =
      s.readObject (before ++ (name, n) :: after) close := by
  simp only [readObject, readMembers_append, readMembers, same]

namespace Exchanges

variable {x y s t : Spelling} {step : Step} {path : List Step}

theorem exists_inner (h : Exchanges x y (step :: path) s t) :
    ∃ u v, Exchanges x y path u v ∧ Exchanges u v [step] s t := by
  cases h with
  | member inside => exact ⟨_, _, inside, .member .here⟩
  | item inside => exact ⟨_, _, inside, .item .here⟩

theorem read_of_hands (h : Exchanges x y [step] s t) {reader : Node → Reading α}
    {part : Node → Reading β} (hands : step.Hands reader part)
    (same : part x.node = part y.node) : reader s.node = reader t.node := by
  induction hands with
  | item =>
    obtain _ | _ | ⟨⟨⟩⟩ := h
    simp only [Spelling.node, Spelling.itemNodes_eq_map, List.map_append, List.map_cons,
      Node.listOf, Node.listItems_congr same]
  | member named known update =>
    obtain _ | ⟨⟨⟩⟩ := h
    have spelled := (TextSpelling.name_text_eq_ok_iff _ _).mpr named
    simp only [Spelling.node, Spelling.memberNodes_eq_map, List.map_append, List.map_cons]
    exact Shape.readObject_congr
      (Shape.readMember_congr spelled known (by simp only [update, same])) _ _ _
  | position here update =>
    obtain _ | _ | ⟨⟨⟩⟩ := h
    simp only [Spelling.node, Spelling.itemNodes_eq_map, List.map_append, List.map_cons]
    exact Shape.readList_congr (by simpa using here) (by simp only [update, same]) _ _ _
  | orDefault inside ih =>
    have inner := ih h same
    cases h with
    | item => exact inner
    | member => exact inner

theorem read_of_leads (h : Exchanges x y path s t) {reader : Node → Reading α}
    {part : Node → Reading β} (leads : Leads reader path part)
    (same : part x.node = part y.node) : reader s.node = reader t.node := by
  induction leads generalizing s t with
  | here =>
    cases h
    exact same
  | step first rest ih =>
    obtain ⟨u, v, inside, outside⟩ := h.exists_inner
    exact outside.read_of_hands first (ih inside same)

end Exchanges
end RuleFeed.Json
