import Mathlib.Data.List.Basic
import Mathlib.Logic.Function.Basic
import RuleFeed.Proofs.Feed.Listener

/-!
Notifications handled at the same time. A handler first reads its document, and then, if it
decodes, replaces the rule set of its category in one step; the steps of all handlers come in any
order. What a category holds, and what its handlers are told, is decided by the order of the
replacements of that category alone.
-/
namespace RuleFeed

namespace RuleSets

end RuleSets

namespace Engine

variable (e : Engine) (c : Category) (r : Report c)

theorem takeReport_of_rejects (refused : e.rejects c = true) :
    e.takeReport c r = (.engineRejected, e) := by
  simp only [takeReport, replace, refused, if_true]

theorem takeReport_of_accepts (taken : e.rejects c = false) :
    e.takeReport c r = (.applied r.accepted.length r.dropped.length
      (!Rule.allAgree (e.sets.get c) r.accepted), e.install c r.accepted) := by
  simp only [takeReport, replace, taken, Bool.false_eq_true, if_false]
  rfl

def verdict (held : List (Rule c)) : Outcome :=
  if e.rejects c then .engineRejected
  else .applied r.accepted.length r.dropped.length (!Rule.allAgree held r.accepted)

theorem outcome_takeReport : (e.takeReport c r).1 = e.verdict c r (e.sets.get c) := by
  rw [verdict]
  cases refused : e.rejects c with
  | true => rw [takeReport_of_rejects e c r refused, if_pos rfl]
  | false => rw [takeReport_of_accepts e c r refused, if_neg Bool.false_ne_true]

theorem rejecting_takeReport : (e.takeReport c r).2.rejecting = e.rejecting := by
  cases refused : e.rejects c with
  | true => rw [takeReport_of_rejects e c r refused]
  | false =>
    rw [takeReport_of_accepts e c r refused]
    rfl

theorem get_takeReport : (e.takeReport c r).2.sets.get c =
    if e.rejects c then e.sets.get c else r.accepted := by
  cases refused : e.rejects c with
  | true => rw [takeReport_of_rejects e c r refused, if_pos rfl]
  | false => rw [takeReport_of_accepts e c r refused, get_install, if_neg Bool.false_ne_true]

theorem get_takeReport_of_ne {d : Category} (other : d ≠ c) :
    (e.takeReport c r).2.sets.get d = e.sets.get d := by
  cases refused : e.rejects c with
  | true => rw [takeReport_of_rejects e c r refused]
  | false => rw [takeReport_of_accepts e c r refused, get_install_of_ne e _ other]

end Engine

structure Notification where
  category : Category
  payload : String
  deriving DecidableEq, Repr

namespace Notification

def report? (n : Notification) : Except DecodeError (Report n.category) :=
  Report.ofDocument n.category n.payload

inductive Stage (c : Category) where
  | received
  | translated (r : Report c)
  | done (o : Outcome)

def Stage.steps {c : Category} : Stage c → Nat
  | .received => 0
  | .translated _ => 1
  | .done _ => 2

def translation (n : Notification) : Stage n.category :=
  match n.report? with
  | .error _ => .done .decodeFailed
  | .ok r => .translated r

end Notification

variable {ι : Type}

/-- The engine and all handlers; the log names the replacements in the order in which they ran. -/
structure Handling (note : ι → Notification) where
  engine : Engine
  stage : (i : ι) → Notification.Stage (note i).category
  log : List ι

namespace Handling

section Order

variable (note : ι → Notification)

def order (log : List ι) (c : Category) : List ι := log.filter fun i => (note i).category = c

variable {note} {log : List ι} {i : ι} {c : Category}

theorem order_snoc_of_eq (own : (note i).category = c) :
    order note (log ++ [i]) c = order note log c ++ [i] := by
  rw [order, List.filter_append, List.filter_cons_of_pos (by simpa using own), List.filter_nil,
    order]

theorem order_snoc_of_ne (other : (note i).category ≠ c) :
    order note (log ++ [i]) c = order note log c := by
  rw [order, List.filter_append, List.filter_cons_of_neg (by simpa using other), List.filter_nil,
    List.append_nil, order]

variable (e : Engine)

def held (note : ι → Notification) (c : Category) (replaced : List ι) : List (Rule c) :=
  if e.rejects c then e.sets.get c
  else match replaced.getLast? with
    | none => e.sets.get c
    | some i => match Report.ofDocument c (note i).payload with
      | .error _ => []
      | .ok r => r.accepted

variable {e}

theorem held_snoc {replaced : List ι} {r : Report c}
    (read : Report.ofDocument c (note i).payload = .ok r) :
    held e note c (replaced ++ [i]) = if e.rejects c then e.sets.get c else r.accepted := by
  rw [held, List.getLast?_concat]
  simp only [read]

end Order

variable {note : ι → Notification}

def first (note : ι → Notification) (e : Engine) : Handling note := ⟨e, fun _ => .received, []⟩

def Complete (s : Handling note) : Prop := ∀ i, ∃ o, s.stage i = .done o

variable [DecidableEq ι]

def translate (s : Handling note) (i : ι) : Handling note where
  engine := s.engine
  stage := Function.update s.stage i (note i).translation
  log := s.log

def replace (s : Handling note) (i : ι) (r : Report (note i).category) : Handling note where
  engine := (s.engine.takeReport (note i).category r).2
  stage := Function.update s.stage i (.done (s.engine.takeReport (note i).category r).1)
  log := s.log ++ [i]

def step (s : Handling note) (i : ι) : Handling note :=
  match s.stage i with
  | .received => s.translate i
  | .translated r => s.replace i r
  | .done _ => s

def after (s : Handling note) (schedule : List ι) : Handling note := schedule.foldl step s

def run (note : ι → Notification) (e : Engine) (schedule : List ι) : Handling note :=
  (first note e).after schedule

theorem stage_translate_of_ne (s : Handling note) {i j : ι} (ne : j ≠ i) :
    (s.translate i).stage j = s.stage j := Function.update_of_ne ne _ _

theorem stage_translate_self (s : Handling note) (i : ι) :
    (s.translate i).stage i = (note i).translation := Function.update_self ..

theorem stage_replace_self (s : Handling note) (i : ι) (r : Report (note i).category) :
    (s.replace i r).stage i = .done (s.engine.takeReport (note i).category r).1 :=
  Function.update_self ..

theorem stage_replace_of_ne (s : Handling note) {i j : ι} (ne : j ≠ i)
    (r : Report (note i).category) : (s.replace i r).stage j = s.stage j :=
  Function.update_of_ne ne _ _

theorem log_replace (s : Handling note) (i : ι) (r : Report (note i).category) :
    (s.replace i r).log = s.log ++ [i] := rfl

theorem engine_replace (s : Handling note) (i : ι) (r : Report (note i).category) :
    (s.replace i r).engine = (s.engine.takeReport (note i).category r).2 := rfl

/-- The two steps of a handler in a row apply its document. -/
theorem step_step_of_received {s : Handling note} {i : ι} (received : s.stage i = .received) :
    ((s.step i).step i).engine = (s.engine.apply (note i).category (note i).payload).2 ∧
      ((s.step i).step i).stage i =
        .done (s.engine.apply (note i).category (note i).payload).1 := by
  have translated : s.step i = s.translate i := by rw [step, received]
  have own := stage_translate_self s i
  rw [translated, Engine.apply]
  cases read : (note i).report? with
  | error f =>
    rw [Notification.translation, read] at own
    rw [Notification.report?] at read
    simp only [step, own, read]
    exact ⟨rfl, trivial⟩
  | ok r =>
    rw [Notification.translation, read] at own
    rw [Notification.report?] at read
    simp only [step, own, read]
    exact ⟨rfl, stage_replace_self _ i r⟩

section Faithful

def before (note : ι → Notification) (log : List ι) (i : ι) : List ι :=
  (order note log (note i).category).takeWhile fun j => j ≠ i

variable {log : List ι} {i j : ι}

theorem before_snoc_self (fresh : i ∉ log) :
    before note (log ++ [i]) i = order note log (note i).category := by
  have others : ∀ j ∈ order note log (note i).category, decide (j ≠ i) = true := by
    intro j mem
    simpa using ne_of_mem_of_not_mem (List.mem_of_mem_filter mem) fresh
  rw [before, order_snoc_of_eq rfl, List.takeWhile_append_of_pos others]
  simp

theorem takeWhile_append_of_mem {l : List ι} (mem : i ∈ l) (m : List ι) :
    (l ++ m).takeWhile (fun j => j ≠ i) = l.takeWhile fun j => j ≠ i := by
  obtain ⟨a, b, rfl, free⟩ := List.eq_append_cons_of_mem mem
  have others : ∀ j ∈ a, decide (j ≠ i) = true := by
    intro j early
    simpa using ne_of_mem_of_not_mem early free
  rw [List.append_assoc, List.takeWhile_append_of_pos others, List.takeWhile_append_of_pos others]
  simp

theorem before_snoc_of_mem (mem : j ∈ log) : before note (log ++ [i]) j = before note log j := by
  have own : j ∈ order note log (note j).category := List.mem_filter.mpr ⟨mem, by simp⟩
  rw [before, order, List.filter_append, ← order, takeWhile_append_of_mem own, before]

variable (e : Engine)

def Explained (log : List ι) (i : ι) : Notification.Stage (note i).category → Prop
  | .received => i ∉ log
  | .translated r => i ∉ log ∧ (note i).report? = .ok r
  | .done o => (∃ f, (note i).report? = .error f) ∧ o = .decodeFailed ∨
    i ∈ log ∧ ∃ r, (note i).report? = .ok r ∧
      o = e.verdict (note i).category r (held e note (note i).category (before note log i))

structure Faithful (s : Handling note) : Prop where
  rejecting : s.engine.rejecting = e.rejecting
  sets : ∀ c, s.engine.sets.get c = held e note c (order note s.log c)
  explained : ∀ i, Explained e s.log i (s.stage i)
  decoded : ∀ i ∈ s.log, ∃ r, (note i).report? = .ok r

variable {e}

theorem explained_translation (fresh : i ∉ log) :
    Explained e log i (note i).translation := by
  rw [Notification.translation]
  cases read : (note i).report? with
  | error f => exact .inl ⟨⟨f, read⟩, rfl⟩
  | ok r => exact ⟨fresh, read⟩

theorem Explained.snoc_of_ne (ne : j ≠ i) {stage : Notification.Stage (note j).category}
    (explained : Explained e log j stage) : Explained e (log ++ [i]) j stage := by
  have fresh (absent : j ∉ log) : j ∉ log ++ [i] := by simp [absent, ne]
  cases stage with
  | received => exact fresh explained
  | translated r => exact ⟨fresh explained.1, explained.2⟩
  | done o =>
    rcases explained with failed | ⟨mem, r, read, told⟩
    · exact .inl failed
    · refine .inr ⟨List.mem_append_left _ mem, r, read, ?_⟩
      rw [before_snoc_of_mem mem, told]

theorem Faithful.translate {s : Handling note} (faithful : s.Faithful e)
    (received : s.stage i = .received) : (s.translate i).Faithful e where
  rejecting := faithful.rejecting
  sets := faithful.sets
  decoded := faithful.decoded
  explained j := by
    by_cases same : j = i
    · subst same
      have fresh := faithful.explained j
      rw [received] at fresh
      rw [stage_translate_self]
      exact explained_translation fresh
    · rw [stage_translate_of_ne s same]
      exact faithful.explained j

theorem Faithful.replace {s : Handling note} (faithful : s.Faithful e)
    {r : Report (note i).category} (translated : s.stage i = .translated r) :
    (s.replace i r).Faithful e := by
  obtain ⟨rejecting, sets, explained, decoded⟩ := faithful
  -- The handler has not replaced yet, so all that the log has of its category came before.
  have own := explained i
  rw [translated] at own
  obtain ⟨fresh, read⟩ := own
  have rejects (c : Category) : s.engine.rejects c = e.rejects c := by
    rw [Engine.rejects, rejecting, Engine.rejects]
  refine ⟨(Engine.rejecting_takeReport ..).trans rejecting, fun c => ?_, fun j => ?_,
    List.forall_mem_append.mpr ⟨decoded, List.forall_mem_singleton.mpr ⟨r, read⟩⟩⟩
  · rw [engine_replace, log_replace]
    by_cases same : (note i).category = c
    · subst same
      rw [Engine.get_takeReport, order_snoc_of_eq rfl, held_snoc read, sets, rejects]
      cases refused : e.rejects (note i).category with
      | true => rw [if_pos rfl, if_pos rfl, held, if_pos refused]
      | false => rfl
    · rw [Engine.get_takeReport_of_ne _ _ _ (Ne.symm same), order_snoc_of_ne same, sets]
  · by_cases same : j = i
    · subst same
      rw [stage_replace_self, log_replace]
      refine .inr ⟨List.mem_append_right _ (List.mem_singleton_self j), r, read, ?_⟩
      rw [Engine.outcome_takeReport, sets, before_snoc_self fresh, Engine.verdict, Engine.verdict,
        rejects]
    · rw [stage_replace_of_ne s same]
      exact (explained j).snoc_of_ne same

theorem Faithful.step {s : Handling note} (faithful : s.Faithful e) (i : ι) :
    (s.step i).Faithful e := by
  rw [Handling.step]
  cases stage : s.stage i with
  | received => exact faithful.translate stage
  | translated r => exact faithful.replace stage
  | done o => exact faithful

theorem Faithful.after {s : Handling note} (faithful : s.Faithful e) (schedule : List ι) :
    (s.after schedule).Faithful e := by
  induction schedule generalizing s with
  | nil => exact faithful
  | cons i schedule ih => exact ih (faithful.step i)

end Faithful

end Handling
end RuleFeed
