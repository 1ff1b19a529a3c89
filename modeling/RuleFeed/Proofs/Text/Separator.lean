import Mathlib.Data.List.Basic

/-!
Texts that are put together with dashes between them. Nothing is escaped, so such a text can be
taken apart again only if the parts before the last dash have none of their own.
-/
namespace RuleFeed

/-- A list is cut in one way only at the first separator in it. -/
theorem cut_unique {α : Type} {separator : α} {xs ys rest rest' : List α}
    (free : separator ∉ xs) (free' : separator ∉ ys) :
    xs ++ separator :: rest = ys ++ separator :: rest' ↔ xs = ys ∧ rest = rest' := by
  induction xs generalizing ys with
  | nil =>
    cases ys with
    | nil => simp only [List.nil_append, List.cons.injEq, true_and]
    | cons y ys =>
      have first : separator ≠ y := fun same => free' (same ▸ List.mem_cons_self)
      simp only [List.nil_append, List.cons_append, List.cons.injEq, first, false_and, reduceCtorEq]
  | cons x xs ih =>
    obtain ⟨first, others⟩ := not_or.mp (List.mem_cons.not.mp free)
    cases ys with
    | nil =>
      simp only [List.nil_append, List.cons_append, List.cons.injEq, Ne.symm first, false_and,
        reduceCtorEq]
    | cons y ys =>
      have others' : separator ∉ ys := fun mem => free' (List.mem_cons_of_mem y mem)
      simp only [List.cons_append, List.cons.injEq, ih others others', and_assoc]

variable {s s' t t' u u' : String}

theorem append_dash_inj (free : '-' ∉ s.toList) (free' : '-' ∉ s'.toList) :
    s ++ "-" ++ t = s' ++ "-" ++ t' ↔ s = s' ∧ t = t' := by
  have dash : "-".toList = ['-'] := rfl
  rw [← String.toList_inj]
  simp only [String.toList_append, dash, List.append_assoc, List.singleton_append,
    cut_unique free free', String.toList_inj]

/-- Of three parts the last may hold dashes. -/
theorem append_dash_append_dash_inj (free : '-' ∉ s.toList) (free' : '-' ∉ s'.toList)
    (between : '-' ∉ t.toList) (between' : '-' ∉ t'.toList) :
    s ++ "-" ++ t ++ "-" ++ u = s' ++ "-" ++ t' ++ "-" ++ u' ↔ s = s' ∧ t = t' ∧ u = u' := by
  have regroup (a b c : String) : a ++ "-" ++ b ++ "-" ++ c = a ++ "-" ++ (b ++ "-" ++ c) := by
    simp only [String.append_assoc]
  rw [regroup, regroup, append_dash_inj free free', append_dash_inj between between']

end RuleFeed
