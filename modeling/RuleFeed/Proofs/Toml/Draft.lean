import RuleFeed.Proofs.Toml.Statement

/-!
The table that statements make. The names of a table differ, so its members are the same in any
order; assignments before the first header add to the document, those behind a header to the table
that the header started or, of a list of tables, to the last one. Blocks are headers with their
assignments; whichever order they come in, the document has what they hold.
-/
namespace RuleFeed.Toml

namespace Members

variable {name : String} {v : Value} {ms rest : Members}

theorem lookup_of_absent (absent : name ∉ ms.map Prod.fst) : ms.lookup name = none := by
  refine List.lookup_eq_none_iff.mpr fun m mem => bne_iff_ne.mpr fun same => absent ?_
  rw [same]
  exact List.mem_map_of_mem mem

theorem put_of_absent (absent : name ∉ ms.map Prod.fst) (v : Value) :
    put name v ms = some (ms ++ [(name, v)]) := by
  rw [put, lookup_of_absent absent]

theorem lookup_append_cons {before after : Members} (absent : name ∉ before.map Prod.fst) :
    (before ++ (name, v) :: after).lookup name = some v := by
  rw [List.lookup_append, lookup_of_absent absent, List.lookup_cons_self]
  rfl

theorem change_append_cons {before after : Members} (absent : name ∉ before.map Prod.fst)
    (w : Value) : change name w (before ++ (name, v) :: after) = before ++ (name, w) :: after := by
  induction before with
  | nil => simp [change]
  | cons m before ih =>
    rw [List.map_cons, List.mem_cons, not_or] at absent
    rw [List.cons_append, change, if_neg (Ne.symm absent.1), ih absent.2]
    rfl

theorem lookup_of_perm (perm : ms.Perm ((name, v) :: rest)) (absent : name ∉ rest.map Prod.fst) :
    ms.lookup name = some v ∧ ∀ w, (change name w ms).Perm ((name, w) :: rest) := by
  obtain ⟨before, after, rfl⟩ :=
    List.append_of_mem (perm.mem_iff.mpr (List.mem_cons_self (a := (name, v))))
  have others : (before ++ after).Perm rest :=
    (List.perm_cons _).mp (List.perm_middle.symm.trans perm)
  have first : name ∉ before.map Prod.fst := fun mem => absent <| by
    rw [← (others.map Prod.fst).mem_iff, List.map_append]
    exact List.mem_append_left _ mem
  refine ⟨lookup_append_cons first, fun w => ?_⟩
  rw [change_append_cons first]
  exact List.perm_middle.trans (others.cons _)

end Members

def rows (entries : List (String × Scalar)) : Members := entries.map fun e => (e.1, e.2.toml)

theorem map_fst_rows (entries : List (String × Scalar)) :
    (rows entries).map Prod.fst = entries.map Prod.fst := by
  rw [rows, List.map_map]
  rfl

def assignments (entries : List (String × Scalar)) : List Statement :=
  entries.map fun e => .assign ⟨[], e.1⟩ e.2.toml

namespace Draft

open Members

theorem foldlM_assignments {entries : List (String × Scalar)} {ms : Members}
    (distinct : (ms.map Prod.fst ++ entries.map Prod.fst).Nodup) :
    (assignments entries).foldlM add ⟨ms, []⟩ = some ⟨ms ++ rows entries, []⟩ := by
  induction entries generalizing ms with
  | nil =>
    rw [rows, List.map_nil, List.append_nil]
    rfl
  | cons e entries ih =>
    have absent : e.1 ∉ ms.map Prod.fst := fun mem =>
      (List.nodup_append.mp distinct).2.2 _ mem _ List.mem_cons_self rfl
    have here : add ⟨ms, []⟩ (.assign ⟨[], e.1⟩ e.2.toml) =
        some ⟨ms ++ [(e.1, e.2.toml)], []⟩ := by
      simp [add, within, assign, put_of_absent absent]
    have later : ((ms ++ [(e.1, e.2.toml)]).map Prod.fst ++ entries.map Prod.fst).Nodup := by
      simpa [List.map_append] using distinct
    have rest := ih later
    rw [List.append_assoc] at rest
    rw [assignments, List.map_cons, List.foldlM_cons, here]
    exact rest

/-- The members of a table under this name that assignments go to, and the value around them. -/
def Opens (name : String) (around : Members → Value) : Prop :=
  ∀ (f : Origin → Members → Option Members) (ms inner : Members),
    ms.lookup name = some (around inner) →
      within false f [name] .stated ms =
        (f .stated inner).map fun inner => change name (around inner) ms

theorem opens_table (name : String) : Opens name (.table .stated) := by
  intro f ms inner found
  simp only [within, found, mayPass, Bool.not_false, if_true]
  cases f .stated inner <;> rfl

theorem opens_tables (name : String) (elements : List Members) :
    Opens name fun inner => .tables (elements ++ [inner]) := by
  intro f ms inner found
  simp only [within, found, List.getLast?_append, List.getLast?_singleton, Option.some_or,
    List.dropLast_concat]
  cases f .stated inner <;> rfl

theorem foldlM_assignments_of_opens {name : String} {around : Members → Value}
    (opens : Opens name around) {entries : List (String × Scalar)} {ms inner rest : Members}
    (perm : ms.Perm ((name, around inner) :: rest)) (absent : name ∉ rest.map Prod.fst)
    (distinct : (inner.map Prod.fst ++ entries.map Prod.fst).Nodup) :
    ∃ ms', (assignments entries).foldlM add ⟨ms, [name]⟩ = some ⟨ms', [name]⟩ ∧
      ms'.Perm ((name, around (inner ++ rows entries)) :: rest) := by
  induction entries generalizing ms inner with
  | nil =>
    refine ⟨ms, rfl, ?_⟩
    rwa [rows, List.map_nil, List.append_nil]
  | cons e entries ih =>
    have fresh : e.1 ∉ inner.map Prod.fst := fun mem =>
      (List.nodup_append.mp distinct).2.2 _ mem _ List.mem_cons_self rfl
    obtain ⟨found, changed⟩ := lookup_of_perm perm absent
    have here : add ⟨ms, [name]⟩ (.assign ⟨[], e.1⟩ e.2.toml) =
        some ⟨change name (around (inner ++ [(e.1, e.2.toml)])) ms, [name]⟩ := by
      have put : assign ⟨[], e.1⟩ e.2.toml .stated inner = some (inner ++ [(e.1, e.2.toml)]) :=
        put_of_absent fresh _
      rw [add, opens _ ms inner found, put]
      rfl
    have later : ((inner ++ [(e.1, e.2.toml)]).map Prod.fst ++ entries.map Prod.fst).Nodup := by
      simpa [List.map_append] using distinct
    obtain ⟨ms', run, order⟩ := ih (changed _) later
    rw [List.append_assoc] at order
    refine ⟨ms', ?_, order⟩
    rw [assignments, List.map_cons, List.foldlM_cons, here]
    exact run

variable {name : String} {ms rest : Members} {current : List String}

theorem add_table (absent : name ∉ ms.map Prod.fst) :
    add ⟨ms, current⟩ (.table ⟨[], name⟩) = some ⟨ms ++ [(name, .table .stated [])], [name]⟩ := by
  simp [add, state, within, lookup_of_absent absent, Path.names]

theorem add_further (absent : name ∉ ms.map Prod.fst) :
    add ⟨ms, current⟩ (.further ⟨[], name⟩) = some ⟨ms ++ [(name, .tables [[]])], [name]⟩ := by
  simp [add, stateFurther, within, lookup_of_absent absent, Path.names]

theorem add_further_again {elements : List Members}
    (found : ms.lookup name = some (.tables elements)) :
    add ⟨ms, current⟩ (.further ⟨[], name⟩) =
      some ⟨change name (.tables (elements ++ [[]])) ms, [name]⟩ := by
  simp [add, stateFurther, within, found, Path.names]

end Draft

inductive Block where
  | table (entries : List (String × Scalar))
  | element (entries : List (String × Scalar))

namespace Block

def table? : Block → Option (List (String × Scalar))
  | table entries => some entries
  | element _ => none

def element? : Block → Option (List (String × Scalar))
  | table _ => none
  | element entries => some entries

def entries : Block → List (String × Scalar)
  | table entries => entries
  | element entries => entries

variable (es : List (String × Scalar)) (blocks : List Block)

theorem filterMap_table?_table :
    (table es :: blocks).filterMap table? = es :: blocks.filterMap table? := rfl

theorem filterMap_table?_element :
    (element es :: blocks).filterMap table? = blocks.filterMap table? := rfl

theorem filterMap_element?_table :
    (table es :: blocks).filterMap element? = blocks.filterMap element? := rfl

theorem filterMap_element?_element :
    (element es :: blocks).filterMap element? = es :: blocks.filterMap element? := rfl

end Block

/-- The two headers of a document: of a table, and of the elements of a list of tables. -/
structure Headers where
  table : String
  elements : String
  differ : table ≠ elements

/-- What a document holds: members of its own, a table and a list of tables, either of them maybe
not there yet. -/
structure Content where
  own : Members
  table : Option Members
  elements : Option (List Members)

namespace Headers

variable (h : Headers)

def statements : Block → List Statement
  | .table entries => .table ⟨[], h.table⟩ :: assignments entries
  | .element entries => .further ⟨[], h.elements⟩ :: assignments entries

def items : Block → List Item
  | .table entries => .table h.table :: entries.map fun e => .entry e.1 e.2
  | .element entries => .further h.elements :: entries.map fun e => .entry e.1 e.2

theorem map_statement_items (b : Block) : (h.items b).map Item.statement = h.statements b := by
  cases b with
  | table entries => simp [items, statements, assignments, Item.statement]
  | element entries => simp [items, statements, assignments, Item.statement]

def members (c : Content) : Members :=
  c.own ++ ((c.table.toList.map fun ms => (h.table, Value.table .stated ms)) ++
    c.elements.toList.map fun elements => (h.elements, Value.tables elements))

end Headers

def Content.add (c : Content) : Block → Content
  | .table entries => { c with table := some (rows entries) }
  | .element entries => { c with elements := some (c.elements.getD [] ++ [rows entries]) }

theorem Content.foldl_add (c : Content) (blocks : List Block) :
    blocks.foldl add c =
      ⟨c.own, (c.table.toList ++ (blocks.filterMap Block.table?).map rows).getLast?,
        if blocks.filterMap Block.element? = [] then c.elements
        else some (c.elements.getD [] ++ (blocks.filterMap Block.element?).map rows)⟩ := by
  induction blocks generalizing c with
  | nil =>
    obtain ⟨own, table, elements⟩ := c
    cases table <;> rfl
  | cons b blocks ih =>
    rw [List.foldl_cons, ih]
    cases b with
    | table entries =>
      have last :
          (c.table.toList ++ rows entries :: (blocks.filterMap Block.table?).map rows).getLast? =
            (rows entries :: (blocks.filterMap Block.table?).map rows).getLast? := by
        rw [List.getLast?_append, List.getLast?_cons, Option.some_or]
      rw [Block.filterMap_table?_table, Block.filterMap_element?_table, List.map_cons, last]
      rfl
    | element entries =>
      rw [Block.filterMap_table?_element, Block.filterMap_element?_element,
        if_neg (List.cons_ne_nil _ _)]
      by_cases none : blocks.filterMap Block.element? = [] <;> simp [add, none]

namespace Headers

variable {h : Headers} {c : Content}

theorem perm_table (h : Headers) (c : Content) (ms : Members) :
    (h.members { c with table := some ms }).Perm
      ((h.table, .table .stated ms) :: h.members { c with table := none }) :=
  List.perm_middle

theorem perm_elements (h : Headers) (c : Content) (elements : List Members) :
    (h.members { c with elements := some elements }).Perm
      ((h.elements, .tables elements) :: h.members { c with elements := none }) := by
  simp only [members, Option.toList_some, Option.toList_none, List.map_cons, List.map_nil,
    List.append_nil, ← List.append_assoc]
  exact List.perm_append_comm

theorem table_not_mem (absent : h.table ∉ c.own.map Prod.fst) :
    h.table ∉ (h.members { c with table := none }).map Prod.fst := by
  cases c.elements <;> simpa [members, h.differ] using absent

theorem elements_not_mem (absent : h.elements ∉ c.own.map Prod.fst) :
    h.elements ∉ (h.members { c with elements := none }).map Prod.fst := by
  cases c.table <;> simpa [members, h.differ.symm] using absent

end Headers

/-- The blocks may stand behind the content: their headers are no names of members, and the table
has one header. -/
structure Headers.Fits (h : Headers) (c : Content) (blocks : List Block) : Prop where
  distinct : ∀ b ∈ blocks, (b.entries.map Prod.fst).Nodup
  once : c.table.toList.length + (blocks.filterMap Block.table?).length ≤ 1
  table : blocks.filterMap Block.table? ≠ [] → h.table ∉ c.own.map Prod.fst
  elements : blocks.filterMap Block.element? ≠ [] → h.elements ∉ c.own.map Prod.fst

namespace Draft

open Members

variable {h : Headers} {c : Content} {ms : Members} {current : List String}

theorem foldlM_table {entries : List (String × Scalar)} (perm : ms.Perm (h.members c))
    (none : c.table = none) (absent : h.table ∉ c.own.map Prod.fst)
    (distinct : (entries.map Prod.fst).Nodup) :
    ∃ d, (h.statements (.table entries)).foldlM add ⟨ms, current⟩ = some d ∧
      d.members.Perm (h.members (c.add (.table entries))) := by
  have same : { c with table := Option.none } = c := by rw [← none]
  have fresh := Headers.table_not_mem absent
  rw [same] at fresh
  have begun : (ms ++ [(h.table, Value.table .stated [])]).Perm
      ((h.table, .table .stated []) :: h.members c) :=
    List.perm_append_comm.trans (perm.cons _)
  obtain ⟨ms', run, order⟩ := foldlM_assignments_of_opens (opens_table h.table) begun fresh distinct
  refine ⟨⟨ms', [h.table]⟩, ?_, order.trans ?_⟩
  · rw [Headers.statements, List.foldlM_cons,
      add_table fun mem => fresh ((perm.map Prod.fst).mem_iff.mp mem)]
    exact run
  · have whole := h.perm_table c (rows entries)
    rw [same] at whole
    exact whole.symm

theorem foldlM_element {entries : List (String × Scalar)} (perm : ms.Perm (h.members c))
    (absent : h.elements ∉ c.own.map Prod.fst) (distinct : (entries.map Prod.fst).Nodup) :
    ∃ d, (h.statements (.element entries)).foldlM add ⟨ms, current⟩ = some d ∧
      d.members.Perm (h.members (c.add (.element entries))) := by
  have fresh := Headers.elements_not_mem absent
  -- The header makes room for one more element, be it the first or not.
  have header : ∃ ms', add ⟨ms, current⟩ (.further ⟨[], h.elements⟩) = some ⟨ms', [h.elements]⟩ ∧
      ms'.Perm ((h.elements, .tables (c.elements.getD [] ++ [[]])) ::
        h.members { c with elements := none }) := by
    cases found : c.elements with
    | none =>
      have same : { c with elements := none } = c := by rw [← found]
      rw [same] at fresh ⊢
      exact ⟨_, add_further fun mem => fresh ((perm.map Prod.fst).mem_iff.mp mem),
        List.perm_append_comm.trans (perm.cons _)⟩
    | some elements =>
      have same : { c with elements := some elements } = c := by rw [← found]
      have split := perm.trans (same ▸ h.perm_elements c elements)
      obtain ⟨held, changed⟩ := lookup_of_perm split fresh
      exact ⟨_, add_further_again held, changed _⟩
  obtain ⟨begun, started, room⟩ := header
  obtain ⟨ms', run, order⟩ := foldlM_assignments_of_opens
    (opens_tables h.elements (c.elements.getD [])) room fresh distinct
  refine ⟨⟨ms', [h.elements]⟩, ?_, order.trans (h.perm_elements c _).symm⟩
  rw [Headers.statements, List.foldlM_cons, started]
  exact run

theorem foldlM_blocks {blocks : List Block} (perm : ms.Perm (h.members c))
    (fits : h.Fits c blocks) :
    ∃ d, (blocks.flatMap h.statements).foldlM add ⟨ms, current⟩ = some d ∧
      d.members.Perm (h.members (blocks.foldl Content.add c)) := by
  induction blocks generalizing c ms current with
  | nil => exact ⟨_, rfl, perm⟩
  | cons b blocks ih =>
    obtain ⟨distinct, once, table, elements⟩ := fits
    obtain ⟨first, others⟩ := List.forall_mem_cons.mp distinct
    have here : (∃ d, (h.statements b).foldlM add ⟨ms, current⟩ = some d ∧
        d.members.Perm (h.members (c.add b))) ∧ h.Fits (c.add b) blocks := by
      cases b with
      | table entries =>
        rw [Block.filterMap_table?_table] at once table
        rw [List.length_cons] at once
        have none : c.table = none := by
          cases found : c.table with
          | none => rfl
          | some ms =>
            rw [found, Option.toList_some, List.length_singleton] at once
            omega
        refine ⟨foldlM_table perm none (table (List.cons_ne_nil _ _)) first, others, ?_,
          fun _ => table (List.cons_ne_nil _ _), elements⟩
        rw [Content.add, Option.toList_some, List.length_singleton]
        omega
      | element entries =>
        rw [Block.filterMap_element?_element] at elements
        exact ⟨foldlM_element perm (elements (List.cons_ne_nil _ _)) first, others, once, table,
          fun _ => elements (List.cons_ne_nil _ _)⟩
    obtain ⟨here, later⟩ := here
    obtain ⟨⟨ms', current'⟩, run, order⟩ := here
    obtain ⟨d, rest, final⟩ := ih order later
    refine ⟨d, ?_, final⟩
    rw [List.flatMap_cons, List.foldlM_append, run]
    exact rest

end Draft

/-- A document of assignments and blocks is read as what they hold. -/
theorem Members.read_of_writes {h : Headers} {text : String} {lines : List (String × Scalar)}
    {blocks : List Block}
    (written : Writes text.toList
      (lines.map (fun e => .entry e.1 e.2) ++ blocks.flatMap h.items))
    (distinct : (lines.map Prod.fst).Nodup) (fits : h.Fits ⟨rows lines, none, none⟩ blocks) :
    ∃ ms, read text = some ms ∧
      ms.Perm (h.members (blocks.foldl Content.add ⟨rows lines, none, none⟩)) := by
  have statements :
      Statement.read text = some (assignments lines ++ blocks.flatMap h.statements) := by
    rw [Statement.read_of_writes written, List.map_append, List.map_map, List.map_flatMap]
    simp only [Headers.map_statement_items]
    rfl
  have start : (rows lines).Perm (h.members ⟨rows lines, none, none⟩) := by
    simp [Headers.members]
  have own : (assignments lines).foldlM Draft.add .empty = some ⟨rows lines, []⟩ :=
    Draft.foldlM_assignments distinct
  obtain ⟨d, run, order⟩ := Draft.foldlM_blocks start fits
  refine ⟨d.members, ?_, order⟩
  have whole :
      (assignments lines ++ blocks.flatMap h.statements).foldlM Draft.add .empty = some d := by
    rw [List.foldlM_append, own]
    exact run
  simp only [read, statements, Option.bind_eq_bind, Option.bind_some, whole, Option.pure_def]

end RuleFeed.Toml
