import RuleFeed.Proofs.Feed.Reachable
import RuleFeed.Proofs.Rule.Equality

/-!
What an engine answers to a document. A text that does not decode is answered as such even by an
engine that refuses its category, and neither failure leaves a trace. A document that is taken is
answered with the counts of its report and with whether the rules changed, as rules compare; the
same document at once again changes nothing, because no rule out of a document holds a NaN.
-/
namespace RuleFeed.Engine

variable {e : Engine} {c : Category} {payload : String}

theorem rejects_apply (e : Engine) (c d : Category) (payload : String) :
    (e.apply c payload).2.rejects d = e.rejects d := by
  rcases apply_cases e c payload with ⟨_, _, answer⟩ | ⟨_, _, _, answer⟩ | ⟨_, _, _, answer⟩
  all_goals simp [answer]

theorem rejects_run (e : Engine) (events : List EngineEvent) (d : Category) :
    (e.run events).rejects d = true ↔ e.rejects d = true ∨ .reject d ∈ events := by
  induction events generalizing e with
  | nil => simp [run]
  | cons event events ih =>
    rw [run, List.foldl_cons, ← run, ih]
    cases event with
    | apply c payload => simp [react, rejects_apply]
    | reject c => simp [react, or_left_comm, or_assoc]

theorem outcome_eq_decodeFailed_iff :
    (e.apply c payload).1 = .decodeFailed ↔
      ∃ fault, Report.ofDocument c payload = .error fault := by
  rcases apply_cases e c payload with
    ⟨_, decoded, answer⟩ | ⟨_, decoded, _, answer⟩ | ⟨_, decoded, _, answer⟩
  all_goals simp [answer, decoded]

theorem outcome_eq_engineRejected_iff :
    (e.apply c payload).1 = .engineRejected ↔
      (∃ report, Report.ofDocument c payload = .ok report) ∧ e.rejects c = true := by
  rcases apply_cases e c payload with
    ⟨_, decoded, answer⟩ | ⟨_, decoded, refused, answer⟩ | ⟨_, decoded, taken, answer⟩
  · simp [answer, decoded]
  · simp [answer, decoded, refused]
  · simp [answer, decoded, taken]

theorem unchanged_of_failure
    (failed : (e.apply c payload).1 = .decodeFailed ∨ (e.apply c payload).1 = .engineRejected) :
    (e.apply c payload).2 = e := by
  rcases apply_cases e c payload with ⟨_, _, answer⟩ | ⟨_, _, _, answer⟩ | ⟨_, _, _, answer⟩
  · rw [answer]
  · rw [answer]
  · simp [answer] at failed

section Taken

variable {report : Report c}

theorem updated_eq_false_iff (rules : List (Rule c)) :
    (!Rule.allAgree (e.sets.get c) rules) = false ↔
      List.Forall₂ Rule.SameRule (e.sets.get c) rules := by
  rw [Bool.not_eq_false', Rule.allAgree_iff]

theorem sets_install_of_get {rules : List (Rule c)} (same : e.sets.get c = rules) :
    (e.install c rules).sets = e.sets := by
  subst same
  cases c <;> rfl

/-- The same document once more: the same counts, and nothing is different, not even a bit. -/
theorem apply_again (decoded : Report.ofDocument c payload = .ok report)
    (taken : e.rejects c = false) :
    ((e.apply c payload).2.apply c payload).1 =
        .applied report.accepted.length report.dropped.length false ∧
      ((e.apply c payload).2.apply c payload).2.sets = (e.apply c payload).2.sets := by
  have agreed : Rule.allAgree report.accepted report.accepted = true :=
    Rule.allAgree_self_of_sound (Report.sound_ofDocument decoded)
  rw [apply_of_accepts decoded taken]
  have again : (e.install c report.accepted).rejects c = false := taken
  rw [apply_of_accepts decoded again, get_install, agreed]
  exact ⟨rfl, sets_install_of_get (get_install ..)⟩

end Taken

/-- The answer to a document says why it failed or what it did, and an engine tells a document that
it has just taken from a new one. -/
theorem run_answers (events : List EngineEvent) (c : Category) (payload : String) :
    let e := empty.run events
    let answer := e.apply c payload
    (answer.1 = .decodeFailed ↔ ∃ fault, Report.ofDocument c payload = .error fault) ∧
    (answer.1 = .engineRejected ↔
      (∃ report, Report.ofDocument c payload = .ok report) ∧ .reject c ∈ events) ∧
    (answer.1 = .decodeFailed ∨ answer.1 = .engineRejected → answer.2 = e) ∧
    ∀ report, Report.ofDocument c payload = .ok report → .reject c ∉ events →
      (∃ envelope, Envelope.decode c payload = .ok envelope ∧
        report.accepted.length + report.dropped.length = envelope.records.length) ∧
      answer.2.sets.get c = report.accepted ∧
      (∃ updated, answer.1 = .applied report.accepted.length report.dropped.length updated ∧
        (updated = false ↔ List.Forall₂ Rule.SameRule (e.sets.get c) (answer.2.sets.get c))) ∧
      (answer.2.apply c payload).1 =
        .applied report.accepted.length report.dropped.length false ∧
      (answer.2.apply c payload).2.sets = answer.2.sets := by
  intro e answer
  have refused_iff : e.rejects c = true ↔ .reject c ∈ events := by
    rw [rejects_run]
    simp [rejects, empty]
  refine ⟨outcome_eq_decodeFailed_iff, ?_, unchanged_of_failure, ?_⟩
  · rw [← refused_iff]
    exact outcome_eq_engineRejected_iff
  · intro report decoded free
    have taken : e.rejects c = false := Bool.eq_false_iff.mpr (mt refused_iff.mp free)
    have applied := apply_of_accepts decoded taken
    have held : answer.2.sets.get c = report.accepted := by
      change (e.apply c payload).2.sets.get c = report.accepted
      rw [applied, get_install]
    refine ⟨?_, held, ⟨_, congrArg Prod.fst applied, ?_⟩, apply_again decoded taken⟩
    · obtain ⟨envelope, read, rfl⟩ := Report.ofDocument_eq_ok_iff.mp decoded
      exact ⟨envelope, Envelope.decode_eq_ok_iff.mpr read,
        Report.total_ofRecordsFrom 0 envelope.records⟩
    · rw [held]
      exact updated_eq_false_iff report.accepted

/-- A zero and a negative zero: the engine sees no change, and takes the new one all the same. A
category that is refused still answers that a text does not decode. -/
theorem run_answers_negative_zero :
    let events : List EngineEvent :=
      [.apply .flow "\x7b\"Data\":[\x7b\"count\":0\x7d]\x7d", .reject .system]
    let payload := "\x7b\"Data\":[\x7b\"count\":-0.0\x7d]\x7d"
    let rule : FlowRule := { FlowRule.blank with count := ⟨true, 0, by decide⟩ }
    let e := empty.run events
    (.reject .flow ∉ events ∧ Report.ofDocument .flow payload = .ok ⟨[rule], []⟩ ∧
      (e.apply .flow payload).1 = .applied 1 0 false ∧
      (e.apply .flow payload).2.sets.get .flow = [rule]) ∧
    (e.apply .system "\x7b").1 = .decodeFailed ∧ (e.apply .system "\x7b").2 = e ∧
    (e.apply .system "\x7b\x7d").1 = .engineRejected ∧ (e.apply .system "\x7b\x7d").2 = e := by
  intro events payload rule e
  have free : EngineEvent.reject .flow ∉ events := by decide
  have decoded : Report.ofDocument .flow payload = .ok ⟨[rule], []⟩ := by
    rw [← Json.toOption_eq_some_iff]
    decide +kernel
  have undecodable : (e.apply .system "\x7b").1 = .decodeFailed := by decide +kernel
  have refused : (e.apply .system "\x7b\x7d").1 = .engineRejected := by decide +kernel
  have agreed : Rule.allAgree (e.sets.get .flow) ((e.apply .flow payload).2.sets.get .flow) =
    true := by decide +kernel
  obtain ⟨-, -, -, taken⟩ := run_answers events .flow payload
  obtain ⟨-, held, ⟨updated, answered, updated_iff⟩, -⟩ := taken _ decoded free
  obtain rfl := updated_iff.mpr ((Rule.allAgree_iff _ _).mp agreed)
  have unchanged (text : String) := (run_answers events .system text).2.2.1
  exact ⟨⟨free, decoded, answered, held⟩, undecodable, unchanged _ (.inl undecodable), refused,
    unchanged _ (.inr refused)⟩

end RuleFeed.Engine
