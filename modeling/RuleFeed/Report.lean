import RuleFeed.Record

/-!
What became of a batch of records: the rules of those that stand for one, and for each of the
others its position, its resource and the reason.
-/
namespace RuleFeed

structure Dropped where
  index : Nat
  resource : String
  reason : Refusal
  deriving DecidableEq, Repr

structure Report (c : Category) where
  accepted : List (Rule c)
  dropped : List Dropped
  deriving DecidableEq

namespace Report

variable {c : Category}

def empty : Report c := ⟨[], []⟩

def total (r : Report c) : Nat := r.accepted.length + r.dropped.length

def clean (r : Report c) : Bool := r.dropped.isEmpty

def accept (rule : Rule c) (r : Report c) : Report c :=
  { r with accepted := rule :: r.accepted }

def drop (d : Dropped) (r : Report c) : Report c := { r with dropped := d :: r.dropped }

@[simp] theorem total_accept (rule : Rule c) (r : Report c) :
    (r.accept rule).total = r.total + 1 := by
  simp only [total, accept, List.length_cons]
  omega

@[simp] theorem total_drop (d : Dropped) (r : Report c) : (r.drop d).total = r.total + 1 := by
  simp only [total, drop, List.length_cons]
  omega

/-- The report of records, the first of which has position `index`. -/
def ofRecordsFrom (index : Nat) : List (Record c) → Report c
  | [] => empty
  | r :: rs =>
    match r.rule with
    | .ok rule => (ofRecordsFrom (index + 1) rs).accept rule
    | .error reason => (ofRecordsFrom (index + 1) rs).drop ⟨index, r.resource, reason⟩

def ofRecords (rs : List (Record c)) : Report c := ofRecordsFrom 0 rs

@[simp] theorem total_ofRecordsFrom (index : Nat) (rs : List (Record c)) :
    (ofRecordsFrom index rs).total = rs.length := by
  induction rs generalizing index with
  | nil => rfl
  | cons r rs ih =>
    unfold ofRecordsFrom
    split <;> simp only [total_accept, total_drop, ih, List.length_cons]

theorem accepted_ofRecordsFrom (index : Nat) (rs : List (Record c)) :
    (ofRecordsFrom index rs).accepted = rs.filterMap fun r => r.rule.toOption := by
  induction rs generalizing index with
  | nil => rfl
  | cons r rs ih =>
    rw [ofRecordsFrom]
    cases outcome : r.rule <;>
      simp [accept, drop, ih, outcome, Except.toOption]

end Report
end RuleFeed
