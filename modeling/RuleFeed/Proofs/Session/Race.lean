import RuleFeed.Proofs.Session.Timeline

/-!
The answers of a race. Seen from one waiter, a race is its promise, whether the waiter waits, and
what it was told; events of others matter to it through the promise alone. So it is told what a
wait would find that nothing interrupts until its time is up. A delivery succeeds if no token was
there before it. Only the first of all deliveries does.
-/
namespace RuleFeed.Race

def after (r : Race) (es : List TimedEvent) : Race := es.foldl (fun r e => r.step e.2) r

theorem run_eq_after (p : Promise) (ws : List Waiter) (ds : List Delivery) :
    run p ws ds = (start p).after (schedule ws ds) := by
  rw [run, timeline, List.foldl_map]
  rfl

theorem after_append (r : Race) (es fs : List TimedEvent) :
    r.after (es ++ fs) = (r.after es).after fs := List.foldl_append

theorem after_cons (r : Race) (e : TimedEvent) (es : List TimedEvent) :
    r.after (e :: es) = (r.step e.2).after es := rfl

theorem promise_wake (r : Race) : r.wake.promise = r.promise := by
  unfold wake
  split <;> rfl

theorem token_step (r : Race) (e : RaceEvent) :
    (r.step e).promise.token = r.promise.token.or e.token? := by
  cases e with
  | arrive i timeoutMs =>
    rw [step, promise_wake]
    exact (Option.or_none).symm
  | deliver k token =>
    rw [step, promise_wake, Promise.token_deliver]
    cases r.promise.token <;> rfl
  | expire i timeoutMs =>
    rw [step, apply_ite Race.promise, ite_self]
    exact (Option.or_none).symm

theorem token_after (r : Race) (es : List TimedEvent) :
    (r.after es).promise.token = r.promise.token.or (firstToken? es) := by
  induction es generalizing r with
  | nil => exact (Option.or_none).symm
  | cons e es ih =>
    rw [after_cons, ih, token_step, Option.or_assoc, firstToken?, firstToken?,
      List.findSome?_cons]
    cases e.2.token? <;> rfl

abbrev View := List Nat × List (Nat × Except SessionTimeout String)

def view (r : Race) (i : Nat) : View :=
  (r.waiting.filter (· == i), r.waits.filter fun a => a.1 == i)

def View.woken (token : Option String) (v : View) : View :=
  match token with
  | none => v
  | some t => ([], v.1.map (fun i => (i, .ok t)) ++ v.2)

theorem View.woken_or (v : View) (token later : Option String) :
    View.woken (token.or later) (v.woken token) = v.woken (token.or later) := by
  cases token <;> simp [woken]

@[simp] theorem View.woken_nil (token : Option String)
    (answers : List (Nat × Except SessionTimeout String)) :
    View.woken token ([], answers) = ([], answers) := by cases token <;> rfl

/-- Nobody waits for a token that is there. -/
def Calm (r : Race) : Prop := r.promise.token.isSome → r.waiting = []

theorem calm_start (p : Promise) : (start p).Calm := fun _ => rfl

theorem calm_wake (r : Race) : r.wake.Calm := by
  intro settled
  rw [promise_wake] at settled
  obtain ⟨t, token⟩ := Option.isSome_iff_exists.mp settled
  simp only [wake, token]

theorem Calm.step {r : Race} (calm : r.Calm) (e : RaceEvent) : (r.step e).Calm := by
  cases e with
  | arrive i timeoutMs => exact calm_wake _
  | deliver k token => exact calm_wake _
  | expire i timeoutMs =>
    intro settled
    rw [token_step, RaceEvent.token?, Option.or_none] at settled
    rw [Race.step]
    split
    · rw [calm settled]
      rfl
    · exact calm settled

theorem Calm.after {r : Race} (calm : r.Calm) (es : List TimedEvent) : (r.after es).Calm := by
  induction es generalizing r with
  | nil => exact calm
  | cons e es ih => exact ih (calm.step e.2)

theorem Calm.woken_view {r : Race} (calm : r.Calm) (i : Nat) :
    (r.view i).woken r.promise.token = r.view i := by
  cases token : r.promise.token with
  | none => rfl
  | some t =>
    have nobody := calm (by rw [token]; rfl)
    simp [View.woken, view, nobody]

theorem view_wake (r : Race) (i : Nat) : r.wake.view i = (r.view i).woken r.promise.token := by
  cases token : r.promise.token with
  | none => simp only [wake, token, View.woken]
  | some t =>
    simp only [wake, token, View.woken, view, List.filter_nil, List.filter_append, List.filter_map]
    rfl

theorem view_step_of_ne {r : Race} (calm : r.Calm) {i : Nat} {e : RaceEvent}
    (other : e.waiter? ≠ some i) :
    (r.step e).view i = (r.view i).woken (r.step e).promise.token := by
  cases e with
  | arrive j timeoutMs =>
    have ne : j ≠ i := fun same => other (congrArg some same)
    rw [step, view_wake, promise_wake]
    simp [view, ne]
  | deliver k token =>
    rw [step, view_wake, promise_wake]
    rfl
  | expire j timeoutMs =>
    have ne : j ≠ i := fun same => other (congrArg some same)
    rw [token_step, RaceEvent.token?, Option.or_none, calm.woken_view, step]
    split
    · have kept (n : Nat) : (n == i && n != j) = (n == i) := by
        by_cases same : n = i
        · simp [same, Ne.symm ne]
        · simp [same]
      simp [view, ne, List.filter_filter, kept]
    · rfl

theorem view_after_of_ne {r : Race} (calm : r.Calm) {i : Nat} {es : List TimedEvent}
    (others : ∀ e ∈ es, e.2.waiter? ≠ some i) :
    (r.after es).view i = (r.view i).woken (r.after es).promise.token := by
  induction es generalizing r with
  | nil => exact (calm.woken_view i).symm
  | cons e es ih =>
    have own := others e List.mem_cons_self
    rw [after_cons, ih (calm.step e.2) fun f mem => others f (List.mem_cons_of_mem e mem),
      view_step_of_ne calm own, token_after, View.woken_or]

theorem view_step_arrive (r : Race) (i timeoutMs : Nat) :
    (r.step (.arrive i timeoutMs)).view i =
      View.woken r.promise.token (i :: (r.view i).1, (r.view i).2) := by
  rw [step, view_wake]
  simp [view]

theorem view_step_expire (r : Race) (i timeoutMs : Nat) :
    (r.step (.expire i timeoutMs)).view i =
      if (r.view i).1 = [] then r.view i
      else ([], (i, .error (.after timeoutMs)) :: (r.view i).2) := by
  have waits : r.waiting.contains i = true ↔ (r.view i).1 ≠ [] := by
    simp [view, List.filter_eq_nil_iff]
  by_cases here : r.waiting.contains i = true
  · rw [step, if_pos here, if_neg (waits.mp here)]
    simp [view, List.filter_filter]
  · have absent : (r.view i).1 = [] := by
      by_contra waiting
      exact here (waits.mpr waiting)
    rw [step, if_neg here, if_pos absent]

theorem firstToken?_append (es fs : List TimedEvent) :
    firstToken? (es ++ fs) = (firstToken? es).or (firstToken? fs) := List.findSome?_append

/-- A waiter is answered once, as if it had looked only when its time was up. -/
theorem view_after_of_split (p : Promise) {i timeoutMs n m : Nat}
    {before between later : List TimedEvent} (free : ∀ e ∈ before, e.2.waiter? ≠ some i)
    (free' : ∀ e ∈ between, e.2.waiter? ≠ some i) (free'' : ∀ e ∈ later, e.2.waiter? ≠ some i) :
    ((start p).after (before ++ (n, .arrive i timeoutMs) ::
      (between ++ (m, .expire i timeoutMs) :: later))).view i =
      ([], [(i, (Promise.mk (p.token.or (firstToken? (before ++ between)))).wait timeoutMs)]) := by
  have calm := (calm_start p).after before
  have absent : ((start p).after before).view i = ([], []) := by
    rw [view_after_of_ne (calm_start p) free]
    exact View.woken_nil _ _
  have arrived := view_step_arrive ((start p).after before) i timeoutMs
  have same := token_step ((start p).after before) (.arrive i timeoutMs)
  rw [RaceEvent.token?, Option.or_none] at same
  rw [absent] at arrived
  rw [after_append, after_cons, after_append, after_cons]
  have calm' := calm.step (.arrive i timeoutMs)
  generalize ((start p).after before).step (.arrive i timeoutMs) = r at arrived same calm' ⊢
  have token : (r.after between).promise.token =
      p.token.or (firstToken? (before ++ between)) := by
    rw [token_after, same, token_after, Option.or_assoc, firstToken?_append]
    rfl
  have waited : (r.after between).view i =
      View.woken (p.token.or (firstToken? (before ++ between))) ([i], []) := by
    rw [view_after_of_ne calm' free', token_after, arrived, same, View.woken_or, ← same,
      ← token_after, token]
  have expired : ((r.after between).step (.expire i timeoutMs)).view i = ([], [(i,
      (Promise.mk (p.token.or (firstToken? (before ++ between)))).wait timeoutMs)]) := by
    rw [view_step_expire, waited]
    cases p.token.or (firstToken? (before ++ between)) <;> rfl
  rw [view_after_of_ne ((calm'.after between).step _) free'', expired, View.woken_nil]

def outcomes (r : Race) (k : Nat) : List (Nat × Except DeliveryError Unit) :=
  r.deliveries.filter fun a => a.1 == k

theorem deliveries_wake (r : Race) : r.wake.deliveries = r.deliveries := by
  unfold wake
  split <;> rfl

theorem outcomes_step_of_ne {r : Race} {k : Nat} {e : RaceEvent}
    (other : e.delivery? ≠ some k) : (r.step e).outcomes k = r.outcomes k := by
  cases e with
  | arrive i timeoutMs => rw [outcomes, step, deliveries_wake, outcomes]
  | deliver j token =>
    have ne : j ≠ k := fun same => other (congrArg some same)
    rw [outcomes, step, deliveries_wake]
    simp [outcomes, ne]
  | expire i timeoutMs =>
    rw [outcomes, step, apply_ite Race.deliveries, ite_self, outcomes]

theorem outcomes_after_of_ne {r : Race} {k : Nat} {es : List TimedEvent}
    (others : ∀ e ∈ es, e.2.delivery? ≠ some k) : (r.after es).outcomes k = r.outcomes k := by
  induction es generalizing r with
  | nil => rfl
  | cons e es ih =>
    rw [after_cons, ih fun f mem => others f (List.mem_cons_of_mem e mem),
      outcomes_step_of_ne (others e List.mem_cons_self)]

theorem outcomes_step_deliver (r : Race) (k : Nat) (token : String) :
    (r.step (.deliver k token)).outcomes k = (k, (r.promise.deliver token).1) :: r.outcomes k := by
  rw [outcomes, step, deliveries_wake]
  simp [outcomes]

/-- A delivery is answered once, by what the promise holds when its turn comes. -/
theorem outcomes_after_of_split (p : Promise) {k n : Nat} {token : String}
    {before later : List TimedEvent} (free : ∀ e ∈ before, e.2.delivery? ≠ some k)
    (free' : ∀ e ∈ later, e.2.delivery? ≠ some k) :
    ((start p).after (before ++ (n, .deliver k token) :: later)).outcomes k =
      [(k, ((Promise.mk (p.token.or (firstToken? before))).deliver token).1)] := by
  have held : ((start p).after before).promise =
      ⟨p.token.or (firstToken? before)⟩ :=
    congrArg Promise.mk (token_after (start p) before)
  rw [after_append, after_cons, outcomes_after_of_ne free', outcomes_step_deliver,
    outcomes_after_of_ne free, held]
  rfl

end RuleFeed.Race
