import RuleFeed.Feed.Listener

/-!
What a document does to an engine, in three cases: it does not decode, its category is refused,
or the set of its category is replaced as a whole. Nothing else about an engine is looked at, so
every law of runs starts from these equations and none of them opens `Engine.apply` again.
-/
namespace RuleFeed.Engine

variable {e : Engine} {c : Category} {payload : String}

def install (e : Engine) (c : Category) (rules : List (Rule c)) : Engine :=
  { e with sets := e.sets.set c rules, replacements := e.replacements ++ [c] }

@[simp] theorem get_install (e : Engine) (c : Category) (rules : List (Rule c)) :
    (e.install c rules).sets.get c = rules := RuleSets.get_set e.sets c rules

theorem get_install_of_ne (e : Engine) {c d : Category} (rules : List (Rule c)) (h : d ≠ c) :
    (e.install c rules).sets.get d = e.sets.get d := RuleSets.get_set_of_ne e.sets rules h

@[simp] theorem rejects_install (e : Engine) (c d : Category) (rules : List (Rule c)) :
    (e.install c rules).rejects d = e.rejects d := rfl

@[simp] theorem rejects_reject (e : Engine) (c d : Category) :
    (e.reject c).rejects d = (d == c || e.rejects d) := List.contains_cons

theorem apply_of_error {f : DecodeError} (h : Report.ofDocument c payload = .error f) :
    e.apply c payload = (.decodeFailed, e) := by
  simp only [apply, h]

theorem apply_of_rejects {r : Report c} (h : Report.ofDocument c payload = .ok r)
    (refused : e.rejects c = true) : e.apply c payload = (.engineRejected, e) := by
  simp only [apply, h, takeReport, replace, refused, if_true]

theorem apply_of_accepts {r : Report c} (h : Report.ofDocument c payload = .ok r)
    (taken : e.rejects c = false) :
    e.apply c payload =
      (.applied r.accepted.length r.dropped.length
        (!Rule.allAgree (e.sets.get c) r.accepted), e.install c r.accepted) := by
  simp only [apply, h, takeReport, replace, taken, Bool.false_eq_true, if_false]
  rfl

theorem apply_cases (e : Engine) (c : Category) (payload : String) :
    (∃ f, Report.ofDocument c payload = .error f ∧ e.apply c payload = (.decodeFailed, e)) ∨
    (∃ r, Report.ofDocument c payload = .ok r ∧ e.rejects c = true ∧
      e.apply c payload = (.engineRejected, e)) ∨
    ∃ r, Report.ofDocument c payload = .ok r ∧ e.rejects c = false ∧
      e.apply c payload =
        (.applied r.accepted.length r.dropped.length
          (!Rule.allAgree (e.sets.get c) r.accepted), e.install c r.accepted) := by
  cases decoded : Report.ofDocument c payload with
  | error f => exact .inl ⟨f, rfl, apply_of_error decoded⟩
  | ok r =>
    cases refused : e.rejects c with
    | true => exact .inr (.inl ⟨r, rfl, rfl, apply_of_rejects decoded refused⟩)
    | false => exact .inr (.inr ⟨r, rfl, rfl, apply_of_accepts decoded refused⟩)

theorem onChange_of_error {f : DecodeError} (h : Report.ofDocument c payload = .error f) :
    e.onChange c payload = e := by
  rw [onChange, apply_of_error h]

theorem onChange_of_rejects {r : Report c} (h : Report.ofDocument c payload = .ok r)
    (refused : e.rejects c = true) : e.onChange c payload = e := by
  rw [onChange, apply_of_rejects h refused]

theorem onChange_of_accepts {r : Report c} (h : Report.ofDocument c payload = .ok r)
    (taken : e.rejects c = false) : e.onChange c payload = e.install c r.accepted := by
  rw [onChange, apply_of_accepts h taken]

end RuleFeed.Engine
