import RuleFeed.Proofs.Record.Batch

/-!
A report divides a batch and loses none of it. The accepted rules and the dropped entries are the
two halves of one list, the outcomes of the single records: what is accepted comes from the
positions that are not dropped, in order, and the entries put back at their positions make the
outcomes whole again. Hence a report is a report on any two parts of its batch.
-/
namespace RuleFeed.Report

variable {c : Category}

def refused? (index : Nat) (r : Record c) : Option Dropped :=
  match r.rule with
  | .ok _ => none
  | .error reason => some ⟨index, r.resource, reason⟩

theorem refused?_eq_some_iff {index : Nat} {r : Record c} {d : Dropped} :
    refused? index r = some d ↔
      d.index = index ∧ d.resource = r.resource ∧ r.rule = .error d.reason := by
  obtain ⟨i, resource, reason⟩ := d
  cases outcome : r.rule with
  | ok rule => simp [refused?, outcome]
  | error why => simp [refused?, outcome, eq_comm]

theorem dropped_ofRecordsFrom (index : Nat) (rs : List (Record c)) :
    (ofRecordsFrom index rs).dropped = (rs.zipIdx index).filterMap fun p => refused? p.2 p.1 := by
  induction rs generalizing index with
  | nil => rfl
  | cons r rs ih =>
    rw [ofRecordsFrom]
    cases outcome : r.rule <;>
      simp [accept, drop, ih, outcome, refused?]

theorem mem_dropped_iff {rs : List (Record c)} {d : Dropped} :
    d ∈ (ofRecords rs).dropped ↔
      ∃ r, rs[d.index]? = some r ∧ d.resource = r.resource ∧ r.rule = .error d.reason := by
  simp only [ofRecords, dropped_ofRecordsFrom, List.mem_filterMap, refused?_eq_some_iff,
    List.mem_zipIdx_iff_getElem?]
  constructor
  · rintro ⟨⟨r, _⟩, at_index, rfl, resource, reason⟩
    exact ⟨r, at_index, resource, reason⟩
  · rintro ⟨r, at_index, resource, reason⟩
    exact ⟨(r, d.index), at_index, rfl, resource, reason⟩

theorem le_of_mem_dropped {index : Nat} {rs : List (Record c)} {d : Dropped}
    (mem : d ∈ (ofRecordsFrom index rs).dropped) : index ≤ d.index := by
  rw [dropped_ofRecordsFrom, List.mem_filterMap] at mem
  obtain ⟨⟨r, i⟩, mem, entry⟩ := mem
  rw [(refused?_eq_some_iff.mp entry).1]
  exact (List.mem_zipIdx mem).1

theorem pairwise_index (rs : List (Record c)) :
    ((ofRecords rs).dropped.map Dropped.index).Pairwise (· < ·) := by
  have ascending : rs.zipIdx.Pairwise fun p q => p.2 < q.2 := by
    rw [← List.pairwise_map, List.zipIdx_map_snd]
    exact List.pairwise_lt_range'
  rw [List.pairwise_map, ofRecords, dropped_ofRecordsFrom]
  refine ascending.filterMap _ fun p q before d entry d' entry' => ?_
  rw [(refused?_eq_some_iff.mp entry).1, (refused?_eq_some_iff.mp entry').1]
  exact before

def remaining (report : Report c) (rs : List (Record c)) : List (Record c) :=
  (rs.zipIdx.filter fun p => p.2 ∉ report.dropped.map Dropped.index).map Prod.fst

theorem not_mem_dropped_iff {rs : List (Record c)} {r : Record c} {i : Nat}
    (at_index : rs[i]? = some r) :
    i ∉ (ofRecords rs).dropped.map Dropped.index ↔ r.rule.toOption.isSome := by
  rw [List.mem_map]
  cases outcome : r.rule with
  | ok rule =>
    refine iff_of_true ?_ rfl
    rintro ⟨d, mem, rfl⟩
    obtain ⟨s, same, -, refused⟩ := mem_dropped_iff.mp mem
    rw [at_index] at same
    cases same
    rw [outcome] at refused
    cases refused
  | error reason =>
    refine iff_of_false (fun free => free ?_) nofun
    exact ⟨⟨i, r.resource, reason⟩, mem_dropped_iff.mpr ⟨r, at_index, rfl, outcome⟩, rfl⟩

theorem remaining_ofRecords (rs : List (Record c)) :
    remaining (ofRecords rs) rs = rs.filter fun r => r.rule.toOption.isSome := by
  have accepted : ∀ p ∈ rs.zipIdx,
      decide (p.2 ∉ (ofRecords rs).dropped.map Dropped.index) = p.1.rule.toOption.isSome := by
    intro p mem
    rw [Bool.eq_iff_iff, decide_eq_true_iff]
    exact not_mem_dropped_iff (List.mem_zipIdx_iff_getElem?.mp mem)
  rw [remaining, List.filter_congr accepted]
  calc (rs.zipIdx.filter fun p => p.1.rule.toOption.isSome).map Prod.fst
    _ = (rs.zipIdx.map Prod.fst).filter fun r => r.rule.toOption.isSome := by
        rw [List.filter_map]
        rfl
    _ = rs.filter fun r => r.rule.toOption.isSome := by rw [List.zipIdx_map_fst]

theorem map_accepted (rs : List (Record c)) :
    (ofRecords rs).accepted.map Except.ok = (remaining (ofRecords rs) rs).map Record.rule := by
  rw [remaining_ofRecords, ofRecords, accepted_ofRecordsFrom]
  induction rs with
  | nil => rfl
  | cons r rs ih =>
    cases outcome : r.rule with
    | ok rule =>
      have found : r.rule.toOption = some rule := by simp [outcome, Except.toOption]
      simpa [found, ih] using outcome.symm
    | error reason =>
      have lost : r.rule.toOption = none := by simp [outcome, Except.toOption]
      simpa [lost] using ih

/-- The outcomes of the single records: the rules, and each dropped entry back at its position. -/
def outcomes (report : Report c) : List (Except Refusal (Rule c)) :=
  report.dropped.foldl (fun results d => results.insertIdx d.index (.error d.reason))
    (report.accepted.map .ok)

/-- An entry put back into the outcomes of records, the first of which has position `index`. -/
def restore (index : Nat) (results : List (Except Refusal (Rule c))) (d : Dropped) :
    List (Except Refusal (Rule c)) :=
  results.insertIdx (d.index - index) (.error d.reason)

theorem foldl_restore_cons {index : Nat} {dropped : List Dropped}
    (above : ∀ d ∈ dropped, index < d.index) (first : Except Refusal (Rule c))
    (results : List (Except Refusal (Rule c))) :
    dropped.foldl (restore index) (first :: results) =
      first :: dropped.foldl (restore (index + 1)) results := by
  induction dropped generalizing results with
  | nil => rfl
  | cons d dropped ih =>
    obtain ⟨position, above⟩ := List.forall_mem_cons.mp above
    have behind : d.index - index = d.index - (index + 1) + 1 := by omega
    rw [List.foldl_cons, List.foldl_cons, restore, behind, List.insertIdx_succ_cons, ih above]
    rfl

theorem restored_ofRecordsFrom (index : Nat) (rs : List (Record c)) :
    (ofRecordsFrom index rs).dropped.foldl (restore index)
      ((ofRecordsFrom index rs).accepted.map .ok) = rs.map Record.rule := by
  induction rs generalizing index with
  | nil => rfl
  | cons r rs ih =>
    have above : ∀ d ∈ (ofRecordsFrom (index + 1) rs).dropped, index < d.index :=
      fun d mem => le_of_mem_dropped mem
    rw [ofRecordsFrom, List.map_cons, ← ih (index + 1)]
    cases outcome : r.rule with
    | ok rule => exact foldl_restore_cons above _ _
    | error reason =>
      rw [← foldl_restore_cons above]
      simp [drop, restore]

theorem outcomes_ofRecords (rs : List (Record c)) :
    (ofRecords rs).outcomes = rs.map Record.rule :=
  restored_ofRecordsFrom 0 rs

def append (r s : Report c) : Report c := ⟨r.accepted ++ s.accepted, r.dropped ++ s.dropped⟩

theorem shift_ofRecordsFrom (position index : Nat) (rs : List (Record c)) :
    (ofRecordsFrom index rs).shift position = ofRecordsFrom (position + index) rs := by
  induction rs generalizing index with
  | nil => rfl
  | cons r rs ih =>
    rw [ofRecordsFrom, ofRecordsFrom, Nat.add_assoc, ← ih]
    cases r.rule <;> rfl

theorem ofRecordsFrom_append (index : Nat) (rs ss : List (Record c)) :
    ofRecordsFrom index (rs ++ ss) =
      (ofRecordsFrom index rs).append (ofRecordsFrom (rs.length + index) ss) := by
  induction rs generalizing index with
  | nil => simp [ofRecordsFrom, append, empty]
  | cons r rs ih =>
    have behind : (r :: rs).length + index = rs.length + (index + 1) := by
      rw [List.length_cons]
      omega
    rw [List.cons_append, ofRecordsFrom, ofRecordsFrom, ih, behind]
    cases r.rule <;> rfl

theorem ofRecords_append (rs ss : List (Record c)) :
    ofRecords (rs ++ ss) = (ofRecords rs).append ((ofRecords ss).shift rs.length) := by
  rw [ofRecords, ofRecordsFrom_append, ← shift_ofRecordsFrom]
  rfl

/-- A report divides its batch: the positions of what is dropped, with the reasons, and the rules
of all the rest. -/
theorem ofRecords_divides (rs : List (Record c)) :
    (ofRecords rs).accepted.length + (ofRecords rs).dropped.length = rs.length ∧
    ((ofRecords rs).dropped.map Dropped.index).Pairwise (· < ·) ∧
    (∀ d ∈ (ofRecords rs).dropped, ∃ below : d.index < rs.length,
      d.resource = rs[d.index].resource ∧ rs[d.index].rule = .error d.reason) ∧
    (ofRecords rs).accepted.map .ok = ((ofRecords rs).remaining rs).map Record.rule ∧
    (ofRecords rs).outcomes = rs.map Record.rule ∧
    ∀ ss, ofRecords (rs ++ ss) = (ofRecords rs).append ((ofRecords ss).shift rs.length) := by
  refine ⟨total_ofRecordsFrom 0 rs, pairwise_index rs, fun d mem => ?_, map_accepted rs,
    outcomes_ofRecords rs, ofRecords_append rs⟩
  obtain ⟨r, at_index, resource, reason⟩ := mem_dropped_iff.mp mem
  obtain ⟨below, rfl⟩ := List.getElem?_eq_some_iff.mp at_index
  exact ⟨below, resource, reason⟩

/-- A record of no known grade between two others, whose numbers are none. -/
theorem ofRecords_divides_unknown_grade :
    let record (resource : String) (grade : UInt32) : Record .circuitBreaking :=
      { BreakerRecord.blank with
        resource := resource, grade := grade, threshold := .ofBits 0x7ff8000000000000 }
    let rs := [record "a" 1, record "b" 9, record "c" 2]
    let d : Dropped := ⟨1, "b", .unsupportedGrade 9⟩
    d ∈ (ofRecords rs).dropped ∧
      (∃ below : 1 < rs.length, "b" = rs[1].resource ∧
        rs[1].rule = .error (.unsupportedGrade 9)) ∧
      (ofRecords rs).accepted.map .ok = [record "a" 1, record "c" 2].map Record.rule ∧
      (ofRecords rs).outcomes = rs.map Record.rule := by
  intro record rs d
  have mem : d ∈ (ofRecords rs).dropped := by decide +kernel
  have rest : (ofRecords rs).remaining rs = [record "a" 1, record "c" 2] := by rfl
  obtain ⟨-, -, entries, accepted, whole, -⟩ := ofRecords_divides rs
  rw [rest] at accepted
  exact ⟨mem, entries d mem, accepted, whole⟩

end RuleFeed.Report
