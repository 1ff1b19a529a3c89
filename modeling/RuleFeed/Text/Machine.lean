/-!
Machines that read a text one character at a time and hand out tokens as they become complete. A
text that goes on after its first part is read as the first part and then, from where that leaves
the machine, the rest.
-/
namespace RuleFeed

structure Machine (State Token : Type) where
  step : State → Char → State × List Token
  finish : State → List Token

namespace Machine

variable {State Token : Type} (m : Machine State Token)

def run (s : State) : List Char → List Token
  | [] => m.finish s
  | c :: cs => (m.step s c).2 ++ run (m.step s c).1 cs

def after (s : State) (cs : List Char) : State := cs.foldl (fun s c => (m.step s c).1) s

theorem after_cons (s : State) (c : Char) (cs : List Char) :
    m.after s (c :: cs) = m.after (m.step s c).1 cs := rfl

/-- The tokens complete at the end of a text that may go on. -/
def emitted (s : State) : List Char → List Token
  | [] => []
  | c :: cs => (m.step s c).2 ++ emitted (m.step s c).1 cs

theorem run_append (s : State) (cs ds : List Char) :
    m.run s (cs ++ ds) = m.emitted s cs ++ m.run (m.after s cs) ds := by
  induction cs generalizing s with
  | nil => rfl
  | cons c cs ih =>
    simp only [List.cons_append, run, emitted, ih, List.append_assoc, after_cons]

variable {s next : State} {c : Char}

theorem run_of_silent (silent : m.step s c = (next, [])) (cs : List Char) :
    m.run s (c :: cs) = m.run next cs := by
  rw [run, silent]
  rfl

theorem run_of_token {t : Token} (step : m.step s c = (next, [t])) (cs : List Char) :
    m.run s (c :: cs) = t :: m.run next cs := by
  rw [run, step]
  rfl

end Machine
end RuleFeed
