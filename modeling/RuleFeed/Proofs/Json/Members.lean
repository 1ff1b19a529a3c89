import RuleFeed.Json.Shape

/-!
An object as a record, member by member. On its own a member cannot be read, is passed over, or
changes the record through one field. An object is read exactly if every member can be, no field
is changed twice and no mandatory field is left out; the record is then the blank one with all
changes made. For a shape whose fields are separate from each other the order of the changes makes
no difference, so the object may be judged by the effects of its members in any order.
-/
namespace RuleFeed.Json

variable {α : Type}

theorem forall_of_pairwise {R : α → α → Prop} {l : List α} (refl : ∀ a, R a a)
    (symm : ∀ {a b}, R a b → R b a) (pairs : l.Pairwise R) {a b : α} (ha : a ∈ l) (hb : b ∈ l) :
    R a b :=
  pairs.forall_of_forall_of_flip (fun a _ => refl a) (pairs.imp symm) ha hb

inductive Effect (α : Type) where
  | fault
  | nothing
  | change (field : String) (apply : α → α)

namespace Effect

def change? : Effect α → Option (String × (α → α))
  | change field apply => some (field, apply)
  | _ => none

def changes (effects : List (Effect α)) : List (String × (α → α)) := effects.filterMap change?

def fields (effects : List (Effect α)) : List String := (changes effects).map Prod.fst

def applyAll (effects : List (Effect α)) (a : α) : α :=
  (changes effects).foldl (fun a c => c.2 a) a

@[simp] theorem fields_nil : fields ([] : List (Effect α)) = [] := rfl

@[simp] theorem fields_nothing (effects : List (Effect α)) :
    fields (nothing :: effects) = fields effects := rfl

@[simp] theorem fields_change (field : String) (apply : α → α) (effects : List (Effect α)) :
    fields (change field apply :: effects) = field :: fields effects := rfl

@[simp] theorem applyAll_nil (a : α) : applyAll [] a = a := rfl

@[simp] theorem applyAll_nothing (effects : List (Effect α)) (a : α) :
    applyAll (nothing :: effects) a = applyAll effects a := rfl

@[simp] theorem applyAll_change (field : String) (apply : α → α) (effects : List (Effect α))
    (a : α) : applyAll (change field apply :: effects) a = applyAll effects (apply a) := rfl

theorem mem_changes {c : String × (α → α)} {effects : List (Effect α)} :
    c ∈ changes effects ↔ change c.1 c.2 ∈ effects := by
  rw [changes, List.mem_filterMap]
  constructor
  · rintro ⟨e, mem, made⟩
    cases e with
    | change field apply =>
      cases made
      exact mem
    | _ => cases made
  · intro mem
    exact ⟨_, mem, rfl⟩

theorem mem_fields {field : String} {effects : List (Effect α)} :
    field ∈ fields effects ↔ ∃ apply, change field apply ∈ effects := by
  rw [fields, List.mem_map]
  constructor
  · rintro ⟨⟨_, apply⟩, mem, rfl⟩
    exact ⟨apply, mem_changes.mp mem⟩
  · rintro ⟨apply, mem⟩
    exact ⟨(field, apply), mem_changes.mpr mem, rfl⟩

end Effect

namespace Progress

def take (p : Progress α) : Effect α → Option (Progress α)
  | .fault => none
  | .nothing => some p
  | .change field apply =>
    if field ∈ p.seen then none else some ⟨apply p.value, field :: p.seen⟩

def takeAll (p : Progress α) : List (Effect α) → Option (Progress α)
  | [] => some p
  | e :: effects => (p.take e).bind fun q => q.takeAll effects

theorem takeAll_eq_some_iff (p q : Progress α) (effects : List (Effect α)) :
    p.takeAll effects = some q ↔
      .fault ∉ effects ∧ (Effect.fields effects).Nodup ∧
        (∀ field ∈ Effect.fields effects, field ∉ p.seen) ∧
        q = ⟨Effect.applyAll effects p.value, (Effect.fields effects).reverse ++ p.seen⟩ := by
  induction effects generalizing p with
  | nil => simp [takeAll, eq_comm]
  | cons e effects ih =>
    cases e with
    | fault => simp [takeAll, take]
    | nothing => simpa [takeAll, take] using ih p
    | change field apply =>
      by_cases seen : field ∈ p.seen
      · simp [takeAll, take, seen]
      · simp [takeAll, take, seen, ih]
        grind

end Progress

namespace Shape

def effect (s : Shape α) (m : Node × Node) : Effect α :=
  match m.1.name with
  | .error _ => .fault
  | .ok key =>
    match s.field? key with
    | none =>
      match m.2.skip with
      | .error _ => .fault
      | .ok () => .nothing
    | some f =>
      match f.update m.2 with
      | .error _ => .fault
      | .ok change => .change f.name change

/-- The record that members with these effects make. -/
structure Yields (s : Shape α) (effects : List (Effect α)) (a : α) : Prop where
  readable : .fault ∉ effects
  once : (Effect.fields effects).Nodup
  complete : s.complete (Effect.fields effects) = true
  value : Effect.applyAll effects s.blank = a

theorem readMember_eq (s : Shape α) (p : Progress α) (m : Node × Node) :
    (s.readMember p m.1 m.2).toOption = p.take (s.effect m) := by
  obtain ⟨name, value⟩ := m
  cases named : name.name with
  | error f =>
    simp only [readMember, effect, named, bind, Except.bind, Except.toOption, Progress.take]
  | ok key =>
    cases known : s.field? key with
    | none =>
      cases passed : value.skip <;>
        simp only [readMember, effect, named, known, passed, bind, Except.bind, pure, Except.pure,
          Except.toOption, Progress.take]
    | some f =>
      cases updated : f.update value <;> by_cases seen : f.name ∈ p.seen <;>
        simp only [readMember, effect, named, known, updated, seen, List.contains_eq_mem,
          decide_true, decide_false, if_true, if_false, Bool.false_eq_true, bind, Except.bind,
          pure, Except.pure, Except.toOption, Progress.take]

theorem readMember_of_known {s : Shape α} {p : Progress α} {name value : Node} {key : String}
    {f : Field α} (named : name.name = .ok key) (known : s.field? key = some f)
    (first : f.name ∉ p.seen) :
    s.readMember p name value =
      (f.update value).map fun change => ⟨change p.value, f.name :: p.seen⟩ := by
  simp only [readMember, named, known, first, List.contains_eq_mem, decide_false, bind, Except.bind,
    Bool.false_eq_true, if_false]
  cases f.update value <;> rfl

theorem readMembers_eq (s : Shape α) (p : Progress α) (members : List (Node × Node)) :
    (s.readMembers p members).toOption = p.takeAll (members.map s.effect) := by
  induction members generalizing p with
  | nil => rfl
  | cons m members ih =>
    have first := s.readMember_eq p m
    rw [readMembers, List.map_cons, Progress.takeAll, ← first]
    cases s.readMember p m.1 m.2 with
    | error f => rfl
    | ok q => exact ih q

theorem complete_congr (s : Shape α) {seen seen' : List String}
    (same : ∀ name, name ∈ seen ↔ name ∈ seen') : s.complete seen = s.complete seen' := by
  simp only [complete, List.contains_eq_mem, same]

/-- An object without faults is read as the record that the effects of its members yield. -/
theorem readObject_eq_ok_iff (s : Shape α) (members : List (Node × Node)) (a : α) :
    s.readObject members .complete = .ok a ↔ s.Yields (members.map s.effect) a := by
  have read := s.readMembers_eq ⟨s.blank, []⟩ members
  generalize members.map s.effect = effects at read ⊢
  have whole := Progress.takeAll_eq_some_iff (q := ⟨Effect.applyAll effects s.blank,
    (Effect.fields effects).reverse ++ []⟩) ⟨s.blank, []⟩ effects
  -- Reading keeps the names of the fields the latest first, which completeness does not look at.
  have order : s.complete ((Effect.fields effects).reverse ++ []) =
      s.complete (Effect.fields effects) := s.complete_congr (by simp)
  rw [readObject]
  cases found : s.readMembers ⟨s.blank, []⟩ members with
  | error f =>
    rw [found, Except.toOption] at read
    rw [← read] at whole
    refine ⟨nofun, fun yields => ?_⟩
    exact nomatch whole.mpr ⟨yields.readable, yields.once, nofun, rfl⟩
  | ok p =>
    rw [found, Except.toOption] at read
    obtain ⟨readable, once, -, rfl⟩ := (Progress.takeAll_eq_some_iff _ _ _).mp read.symm
    simp only [bind, Except.bind, Close.pass, pure, Except.pure, order]
    constructor
    · intro accepted
      split at accepted
      case isTrue complete => exact ⟨readable, once, complete, Except.ok.inj accepted⟩
      case isFalse => cases accepted
    · intro yields
      rw [if_pos yields.complete, yields.value]

end Shape

namespace Field

def names (f : Field α) : List String := f.name :: f.aliases

theorem hasName_iff (f : Field α) (key : String) : f.hasName key = true ↔ key ∈ f.names := by
  simp only [hasName, names, Bool.or_eq_true, beq_iff_eq, List.contains_eq_mem, decide_eq_true_eq,
    List.mem_cons]

theorem find?_eq_some_iff {fields : List (Field α)} (distinct : (fields.flatMap names).Nodup)
    (key : String) (f : Field α) :
    fields.find? (·.hasName key) = some f ↔ f ∈ fields ∧ key ∈ f.names := by
  induction fields with
  | nil => simp
  | cons g fields ih =>
    rw [List.flatMap_cons, List.nodup_append] at distinct
    obtain ⟨-, distinct, apart⟩ := distinct
    have elsewhere (here : key ∈ g.names) (mem : f ∈ fields) : key ∉ f.names := fun named =>
      apart key here key (List.mem_flatMap.mpr ⟨f, mem, named⟩) rfl
    rw [List.find?_cons, List.mem_cons]
    by_cases here : key ∈ g.names
    · rw [(g.hasName_iff key).mpr here]
      constructor
      · rintro ⟨⟩
        exact ⟨Or.inl rfl, here⟩
      · rintro ⟨rfl | mem, named⟩
        · rfl
        · exact absurd named (elsewhere here mem)
    · rw [Bool.eq_false_iff.mpr fun h => here ((g.hasName_iff key).mp h)]
      refine (ih distinct).trans ⟨fun ⟨mem, named⟩ => ⟨Or.inr mem, named⟩, ?_⟩
      rintro ⟨rfl | mem, named⟩
      · exact absurd named here
      · exact ⟨mem, named⟩

def Commutes (f g : Field α) : Prop :=
  ∀ m n u v, f.update m = .ok u → g.update n = .ok v → ∀ a, u (v a) = v (u a)

theorem Commutes.symm {f g : Field α} (h : f.Commutes g) : g.Commutes f :=
  fun m n u v first second a => (h n m v u second first a).symm

theorem Commutes.withAlias {f g : Field α} (h : f.Commutes g) (name name' : String) :
    (f.withAlias name).Commutes (g.withAlias name') := h

variable {β γ : Type}

theorem update_nullable (name : String) (default : β) (reader : Node → Reading β)
    (put : β → α → α) (n : Node) :
    (nullable name default reader put).update n = (n.orDefault default reader).map put := rfl

theorem commutes_of_update {f g : Field α} {reader : Node → Reading β}
    {reader' : Node → Reading γ} {put : β → α → α} {put' : γ → α → α}
    (hf : f.update = fun n => (reader n).map put) (hg : g.update = fun n => (reader' n).map put')
    (h : ∀ b c a, put b (put' c a) = put' c (put b a)) : f.Commutes g := by
  intro m n u v first second a
  rw [hf] at first
  rw [hg] at second
  cases read : reader m with
  | error f => simp [read, Except.map] at first
  | ok b =>
    cases read' : reader' n with
    | error f => simp [read', Except.map] at second
    | ok c =>
      simp only [read, read', Except.map, Except.ok.injEq] at first second
      rw [← first, ← second, h]

theorem commutes_optional {name name' : String} {reader : Node → Reading β}
    {reader' : Node → Reading γ} {put : β → α → α} {put' : γ → α → α}
    (h : ∀ b c a, put b (put' c a) = put' c (put b a)) :
    (optional name reader put).Commutes (optional name' reader' put') :=
  commutes_of_update rfl rfl h

end Field

namespace Shape

/-- No two fields share a name or a part of the record. -/
structure Separate (s : Shape α) : Prop where
  distinct : (s.fields.flatMap Field.names).Nodup
  commute : s.fields.Pairwise Field.Commutes

theorem field?_eq_none_iff (s : Shape α) (key : String) :
    s.field? key = none ↔ ∀ f ∈ s.fields, key ∉ f.names := by
  simp only [field?, List.find?_eq_none, Field.hasName_iff]

theorem nodup_names {s : Shape α} (separate : s.Separate) : (s.fields.map Field.name).Nodup := by
  have names (fields : List (Field α)) :
      (fields.map Field.name).Sublist (fields.flatMap Field.names) := by
    induction fields with
    | nil => exact .slnil
    | cons f fields ih =>
      rw [List.map_cons, List.flatMap_cons, Field.names, List.cons_append]
      exact (ih.trans (List.sublist_append_right _ _)).cons_cons _
  exact separate.distinct.sublist (names s.fields)

namespace Separate

theorem field?_eq_some_iff {s : Shape α} (separate : s.Separate) (key : String) (f : Field α) :
    s.field? key = some f ↔ f ∈ s.fields ∧ key ∈ f.names :=
  Field.find?_eq_some_iff separate.distinct key f

theorem commutes_of_ne {s : Shape α} (separate : s.Separate) {f g : Field α}
    (hf : f ∈ s.fields) (hg : g ∈ s.fields) (different : f.name ≠ g.name) : f.Commutes g := by
  refine forall_of_pairwise (R := fun f g => f.name ≠ g.name → f.Commutes g) ?_ ?_ ?_ hf hg
    different
  · exact fun f different => absurd rfl different
  · exact fun h different => (h different.symm).symm
  · refine separate.commute.imp ?_
    exact fun h _ => h

end Separate

theorem effect_of_unknown {s : Shape α} {m : Node × Node} {key : String}
    (named : m.1.name = .ok key) (unknown : s.field? key = none) (passed : m.2.skip = .ok ()) :
    s.effect m = .nothing := by
  simp only [effect, named, unknown, passed]

theorem effect_of_known {s : Shape α} {m : Node × Node} {key : String} {f : Field α}
    {apply : α → α} (named : m.1.name = .ok key) (known : s.field? key = some f)
    (updated : f.update m.2 = .ok apply) : s.effect m = .change f.name apply := by
  simp only [effect, named, known, updated]

theorem exists_of_effect_eq_change {s : Shape α} {m : Node × Node} {field : String}
    {apply : α → α} (h : s.effect m = .change field apply) :
    ∃ key f, m.1.name = .ok key ∧ s.field? key = some f ∧ f.name = field ∧
      f.update m.2 = .ok apply := by
  unfold effect at h
  split at h
  case h_1 => cases h
  case h_2 key named =>
    split at h
    case h_1 => split at h <;> cases h
    case h_2 f known =>
      split at h
      case h_1 => cases h
      case h_2 updated =>
        cases h
        exact ⟨key, f, named, known, rfl, updated⟩

theorem effect_congr {s : Shape α} {m n : Node × Node} {key key' : String} {f : Field α}
    (named : m.1.name = .ok key) (known : s.field? key = some f)
    (named' : n.1.name = .ok key') (known' : s.field? key' = some f)
    (same : ∀ apply, f.update m.2 = .ok apply ↔ f.update n.2 = .ok apply) :
    s.effect m = s.effect n := by
  cases updated : f.update m.2 with
  | ok apply =>
    have updated' := (same apply).mp updated
    rw [effect_of_known named known updated, effect_of_known named' known' updated']
  | error _ =>
    cases updated' : f.update n.2 with
    | ok apply => cases ((same apply).mpr updated').symm.trans updated
    | error _ => simp only [effect, named, known, updated, named', known', updated']

theorem Separate.applyAll_perm {s : Shape α} (separate : s.Separate)
    {members : List (Node × Node)} {effects : List (Effect α)}
    (once : (Effect.fields (members.map s.effect)).Nodup)
    (perm : (members.map s.effect).Perm effects) (a : α) :
    Effect.applyAll (members.map s.effect) a = Effect.applyAll effects a := by
  have source {c : String × (α → α)} (mem : c ∈ Effect.changes (members.map s.effect)) :
      ∃ f ∈ s.fields, f.name = c.1 ∧ ∃ n, f.update n = .ok c.2 := by
    obtain ⟨m, -, made⟩ := List.mem_map.mp (Effect.mem_changes.mp mem)
    obtain ⟨key, f, -, known, named, updated⟩ := exists_of_effect_eq_change made
    exact ⟨f, List.mem_of_find?_eq_some known, named, m.2, updated⟩
  -- Two changes are of different fields, which commute, or one and the same.
  refine (perm.filterMap Effect.change?).foldl_eq' (fun c hc d hd => ?_) a
  refine forall_of_pairwise (R := fun c d => ∀ a, d.2 (c.2 a) = c.2 (d.2 a)) ?_ ?_ ?_ hc hd
  · exact fun c a => rfl
  · exact fun h a => (h a).symm
  · refine (List.pairwise_map.mp once).imp_of_mem fun hc hd different => ?_
    obtain ⟨f, hf, fname, m, first⟩ := source hc
    obtain ⟨g, hg, gname, n, second⟩ := source hd
    rw [← fname, ← gname] at different
    exact separate.commutes_of_ne hg hf different.symm n m _ _ second first

theorem Separate.yields_perm {s : Shape α} (separate : s.Separate) {members : List (Node × Node)}
    {effects : List (Effect α)} (perm : (members.map s.effect).Perm effects) (a : α) :
    s.Yields (members.map s.effect) a ↔ s.Yields effects a := by
  have names : (Effect.fields (members.map s.effect)).Perm (Effect.fields effects) :=
    (perm.filterMap Effect.change?).map Prod.fst
  have complete := s.complete_congr fun name => names.mem_iff (a := name)
  constructor
  · rintro ⟨readable, once, whole, value⟩
    refine ⟨fun mem => readable (perm.mem_iff.mpr mem), names.nodup_iff.mp once, ?_, ?_⟩
    · rw [← complete, whole]
    · rw [← separate.applyAll_perm once perm, value]
  · rintro ⟨readable, once, whole, value⟩
    refine ⟨fun mem => readable (perm.mem_iff.mp mem), names.nodup_iff.mpr once, ?_, ?_⟩
    · rw [complete, whole]
    · rw [separate.applyAll_perm (names.nodup_iff.mpr once) perm, value]

/-- Objects whose members have the same effects, in any order, are read alike. -/
theorem Separate.readObject_perm {s : Shape α} (separate : s.Separate)
    {members others : List (Node × Node)}
    (perm : (members.map s.effect).Perm (others.map s.effect)) (a : α) :
    s.readObject members .complete = .ok a ↔ s.readObject others .complete = .ok a := by
  rw [readObject_eq_ok_iff, readObject_eq_ok_iff]
  exact separate.yields_perm perm a

theorem readObject_cons_congr {s : Shape α} {m n : Node × Node} (same : s.effect m = s.effect n)
    (members : List (Node × Node)) (a : α) :
    s.readObject (m :: members) .complete = .ok a ↔
      s.readObject (n :: members) .complete = .ok a := by
  rw [readObject_eq_ok_iff, readObject_eq_ok_iff, List.map_cons, List.map_cons, same]

theorem readObject_cons_of_unknown {s : Shape α} {m : Node × Node} {key : String}
    (named : m.1.name = .ok key) (unknown : s.field? key = none) (passed : m.2.skip = .ok ())
    (members : List (Node × Node)) (a : α) :
    s.readObject (m :: members) .complete = .ok a ↔ s.readObject members .complete = .ok a := by
  rw [readObject_eq_ok_iff, readObject_eq_ok_iff, List.map_cons,
    effect_of_unknown named unknown passed]
  constructor
  · rintro ⟨readable, once, complete, value⟩
    exact ⟨fun mem => readable (List.mem_cons_of_mem _ mem), once, complete, value⟩
  · rintro ⟨readable, once, complete, value⟩
    exact ⟨by simpa using readable, once, complete, value⟩

end Shape

/-- The field may be absent, and `null` keeps the blank record as it is. -/
structure Field.Forgives (f : Field α) (blank : α) : Prop where
  optional : f.mandatory = false
  null : ∃ apply, f.update .null = .ok apply ∧ apply blank = blank

theorem Field.forgives_nullable {β : Type} {name : String} {default : β}
    {reader : Node → Reading β} {put : β → α → α} {blank : α} (h : put default blank = blank) :
    (Field.nullable name default reader put).Forgives blank :=
  ⟨rfl, put default, rfl, h⟩

theorem Field.Forgives.withAlias {f : Field α} {blank : α} (h : f.Forgives blank)
    (name : String) : (f.withAlias name).Forgives blank :=
  ⟨h.optional, h.null⟩

namespace Shape

def Forgiving (s : Shape α) : Prop := ∀ f ∈ s.fields, f.Forgives s.blank

theorem Forgiving.complete {s : Shape α} (forgiving : s.Forgiving) (seen : List String) :
    s.complete seen = true := by
  rw [Shape.complete, List.all_eq_true]
  intro f mem
  rw [(forgiving f mem).optional]
  rfl

theorem Forgiving.readObject_eq {s : Shape α} (forgiving : s.Forgiving)
    (members : List (Node × Node)) :
    s.readObject members .complete =
      (s.readMembers ⟨s.blank, []⟩ members).map Progress.value := by
  rw [readObject]
  cases s.readMembers ⟨s.blank, []⟩ members with
  | error f => rfl
  | ok p => simp only [bind, Except.bind, Close.pass, forgiving.complete, if_true, Except.map, pure,
      Except.pure]

theorem Separate.not_mem_fields {s : Shape α} (separate : s.Separate) {f : Field α}
    (hf : f ∈ s.fields) {members : List (Node × Node)}
    (absent : ∀ n ∈ members, ∀ key ∈ f.names, n.1.name ≠ .ok key) :
    f.name ∉ Effect.fields (members.map s.effect) := by
  intro mem
  obtain ⟨_, made⟩ := Effect.mem_fields.mp mem
  obtain ⟨n, hn, made⟩ := List.mem_map.mp made
  obtain ⟨key, g, named, found, same, -⟩ := exists_of_effect_eq_change made
  have both : s.field? f.name = some g :=
    (separate.field?_eq_some_iff _ _).mpr
      ⟨List.mem_of_find?_eq_some found, by rw [← same]; exact List.mem_cons_self⟩
  have own : s.field? f.name = some f :=
    (separate.field?_eq_some_iff _ _).mpr ⟨hf, List.mem_cons_self⟩
  obtain rfl : g = f := Option.some.inj (both.symm.trans own)
  exact absent n hn key ((separate.field?_eq_some_iff _ _).mp found).2 named

theorem Separate.complete_cons_of_optional {s : Shape α} (separate : s.Separate) {f : Field α}
    (hf : f ∈ s.fields) (optional : f.mandatory = false) (seen : List String) :
    s.complete (f.name :: seen) = s.complete seen := by
  have given (g : Field α) (hg : g ∈ s.fields) (mandatory : g.mandatory = true) :
      g.name ∈ f.name :: seen ↔ g.name ∈ seen := by
    rw [List.mem_cons]
    refine or_iff_right fun same => ?_
    have both : s.field? f.name = some g :=
      (separate.field?_eq_some_iff _ _).mpr ⟨hg, by rw [← same]; exact List.mem_cons_self⟩
    have own : s.field? f.name = some f :=
      (separate.field?_eq_some_iff _ _).mpr ⟨hf, List.mem_cons_self⟩
    obtain rfl : g = f := Option.some.inj (both.symm.trans own)
    cases mandatory.symm.trans optional
  rw [Bool.eq_iff_iff, complete, complete, List.all_eq_true, List.all_eq_true]
  refine forall₂_congr fun g hg => ?_
  cases mandatory : g.mandatory with
  | false => simp
  | true => simpa using given g hg mandatory

/-- A member that leaves the blank record as it is may be left out of an object that has it no
second time. -/
theorem Separate.readObject_cons_of_idle {s : Shape α} (separate : s.Separate) {m : Node × Node}
    {f : Field α} {apply : α → α} (hf : f ∈ s.fields) (optional : f.mandatory = false)
    (change : s.effect m = .change f.name apply) (idle : apply s.blank = s.blank)
    {members : List (Node × Node)}
    (absent : ∀ n ∈ members, ∀ key ∈ f.names, n.1.name ≠ .ok key) (a : α) :
    s.readObject (m :: members) .complete = .ok a ↔ s.readObject members .complete = .ok a := by
  have fresh := separate.not_mem_fields hf absent
  rw [readObject_eq_ok_iff, readObject_eq_ok_iff, List.map_cons, change]
  constructor
  · rintro ⟨readable, once, whole, value⟩
    rw [Effect.fields_change, separate.complete_cons_of_optional hf optional] at whole
    rw [Effect.applyAll_change, idle] at value
    exact ⟨fun mem => readable (List.mem_cons_of_mem _ mem), (List.nodup_cons.mp once).2, whole,
      value⟩
  · rintro ⟨readable, once, whole, value⟩
    refine ⟨by simpa using readable, List.nodup_cons.mpr ⟨fresh, once⟩, ?_, ?_⟩
    · rw [Effect.fields_change, separate.complete_cons_of_optional hf optional, whole]
    · rw [Effect.applyAll_change, idle, value]

theorem Separate.readObject_cons_of_null {s : Shape α} (separate : s.Separate)
    (forgiving : s.Forgiving) {m : Node × Node} {key : String} {f : Field α}
    (named : m.1.name = .ok key) (known : s.field? key = some f) (null : m.2 = .null)
    {members : List (Node × Node)}
    (absent : ∀ n ∈ members, ∀ key ∈ f.names, n.1.name ≠ .ok key) (a : α) :
    s.readObject (m :: members) .complete = .ok a ↔ s.readObject members .complete = .ok a := by
  have hf := List.mem_of_find?_eq_some known
  obtain ⟨apply, updated, blank⟩ := (forgiving f hf).null
  exact separate.readObject_cons_of_idle hf (forgiving f hf).optional
    (effect_of_known named known (null ▸ updated)) blank absent a

end Shape
end RuleFeed.Json
