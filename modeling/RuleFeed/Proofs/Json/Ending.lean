import RuleFeed.Json.Shape
import RuleFeed.Proofs.Json.Tree

/-!
How a document ends. A record is a list or an object, so its text ends with a closing bracket.
Behind that bracket the machine is between two tokens and the builder holds the whole value. White
space brings no further token; anything else brings one, and a token behind the value is a fault,
whichever it is.
-/
namespace RuleFeed.Json

def Blank (cs : List Char) : Prop := ∀ c ∈ cs, c = ' ' ∨ c = '\t' ∨ c = '\n' ∨ c = '\r'

instance (cs : List Char) : Decidable (Blank cs) := List.decidableBAll _ cs

theorem isSpace_iff (c : Char) : isSpace c = true ↔ c = ' ' ∨ c = '\t' ∨ c = '\n' ∨ c = '\r' := by
  simp only [isSpace, Bool.or_eq_true, beq_iff_eq, or_assoc]

def Token.Closes : Token → Prop
  | .closeList => True
  | .closeObject => True
  | _ => False

namespace Lexeme

def Busy : Lexeme → Prop
  | .between => False
  | .halted => False
  | _ => True

theorem finish_ne_nil {l : Lexeme} (busy : l.Busy) : l.finish ≠ [] := by
  cases l with
  | between => exact busy.elim
  | halted => exact busy.elim
  | word w owed => nofun
  | text phase pieces => nofun
  | number phase negative n => cases phase <;> nofun

theorem first_of_not_space {c : Char} (ink : isSpace c = false) :
    (first c).2 ≠ [] ∨ (first c).1.Busy := by
  simp only [first, ink, Bool.false_eq_true, if_false]
  repeat' split
  all_goals simp [Busy, ofWord]

theorem stepNumber_of_busy (phase : NumberPhase) (negative : Bool) (n : Numeral) (c : Char) :
    (stepNumber phase negative n c).2 ≠ [] ∨ (stepNumber phase negative n c).1.Busy := by
  unfold stepNumber pointOrMark endNumber badNumber
  repeat' split
  all_goals simp [Busy]

theorem stepText_of_busy (phase : TextPhase) (pieces : List Piece) (c : Char) :
    (stepText phase pieces c).2 ≠ [] ∨ (stepText phase pieces c).1.Busy := by
  unfold stepText badText
  repeat' split
  all_goals simp [Busy]

theorem step_of_busy {l : Lexeme} (busy : l.Busy) (c : Char) :
    (l.step c).2 ≠ [] ∨ (l.step c).1.Busy := by
  cases l with
  | between => exact busy.elim
  | halted => exact busy.elim
  | word w owed =>
    unfold step
    repeat' split
    all_goals simp_all [Busy]
  | number phase negative n => exact stepNumber_of_busy phase negative n c
  | text phase pieces => exact stepText_of_busy phase pieces c

theorem tokens_ne_nil_of_busy {l : Lexeme} (busy : l.Busy) (cs : List Char) :
    machine.run l cs ≠ [] := by
  induction cs generalizing l with
  | nil => exact finish_ne_nil busy
  | cons c cs ih =>
    rw [run_cons]
    rcases step_of_busy busy c with emits | next
    · exact List.append_ne_nil_of_left_ne_nil emits _
    · exact List.append_ne_nil_of_right_ne_nil _ (ih next)

theorem tokens_eq_nil_iff (cs : List Char) : machine.run between cs = [] ↔ Blank cs := by
  induction cs with
  | nil => exact ⟨fun _ => List.forall_mem_nil _, fun _ => rfl⟩
  | cons c cs ih =>
    rw [Blank, List.forall_mem_cons, ← isSpace_iff, ← Blank, ← ih, run_cons, step]
    cases space : isSpace c with
    | true =>
      have silent : first c = (between, []) := if_pos space
      rw [silent]
      exact ⟨fun h => ⟨rfl, h⟩, fun h => h.2⟩
    | false =>
      refine ⟨fun h => ?_, fun h => absurd h.1 Bool.false_ne_true⟩
      obtain ⟨none, rest⟩ := List.append_eq_nil_iff.mp h
      rcases first_of_not_space space with emits | busy
      · exact absurd none emits
      · exact absurd rest (tokens_ne_nil_of_busy busy cs)

theorem first_of_closes {c : Char} {t : Token} (mem : t ∈ (first c).2) (closes : t.Closes) :
    (first c).1 = between := by
  revert mem
  unfold first
  repeat' split
  all_goals grind [Token.Closes, ofWord]

theorem endNumber_of_closes {n : Numeral} {c : Char} {t : Token} (mem : t ∈ (endNumber n c).2)
    (closes : t.Closes) : (endNumber n c).1 = between := by
  rcases List.mem_cons.mp mem with rfl | mem
  · exact closes.elim
  · exact first_of_closes mem closes

theorem stepNumber_of_closes {phase : NumberPhase} {negative : Bool} {n : Numeral} {c : Char}
    {t : Token} (mem : t ∈ (stepNumber phase negative n c).2) (closes : t.Closes) :
    (stepNumber phase negative n c).1 = between := by
  have ended := endNumber_of_closes (n := n) (c := c) (t := t)
  unfold stepNumber pointOrMark badNumber at mem ⊢
  grind [Token.Closes]

theorem stepText_of_closes {phase : TextPhase} {pieces : List Piece} {c : Char} {t : Token}
    (mem : t ∈ (stepText phase pieces c).2) (closes : t.Closes) :
    (stepText phase pieces c).1 = between := by
  unfold stepText badText endText at mem ⊢
  grind [Token.Closes]

/-- A closing bracket leaves the machine between two tokens. -/
theorem step_of_closes {l : Lexeme} {c : Char} {t : Token} (mem : t ∈ (l.step c).2)
    (closes : t.Closes) : (l.step c).1 = between := by
  have started := first_of_closes (c := c) (t := t)
  cases l with
  | between => exact started mem closes
  | halted => cases mem
  | word w owed =>
    unfold step at mem ⊢
    grind [Token.Closes]
  | number phase negative n => exact stepNumber_of_closes mem closes
  | text phase pieces => exact stepText_of_closes mem closes

theorem not_closes_of_finish {l : Lexeme} {t : Token} (mem : t ∈ l.finish) : ¬t.Closes := by
  intro closes
  cases l with
  | between => cases mem
  | halted => cases mem
  | word w owed =>
    obtain rfl := List.mem_singleton.mp mem
    exact closes
  | text phase pieces =>
    obtain rfl := List.mem_singleton.mp mem
    exact closes
  | number phase negative n =>
    cases phase
    all_goals
      obtain rfl := List.mem_singleton.mp mem
      exact closes

theorem after_of_blank {cs : List Char} (blank : Blank cs) :
    machine.after between cs = between := by
  induction cs with
  | nil => rfl
  | cons c cs ih =>
    obtain ⟨space, rest⟩ := List.forall_mem_cons.mp blank
    have silent : machine.step between c = (between, []) := if_pos ((isSpace_iff c).mpr space)
    rw [machine.after_cons, silent]
    exact ih rest

/-- Behind a closing bracket that ends the tokens there is only white space. -/
theorem after_of_closes {l : Lexeme} {cs : List Char} {t : Token}
    (last : (machine.run l cs).getLast? = some t) (closes : t.Closes) :
    machine.after l cs = between := by
  induction cs generalizing l with
  | nil => exact absurd closes (not_closes_of_finish (List.mem_of_getLast? last))
  | cons c cs ih =>
    rw [run_cons, List.getLast?_append] at last
    cases later : (machine.run (l.step c).1 cs).getLast? with
    | some u =>
      rw [later, Option.some_or] at last
      obtain rfl := Option.some.inj last
      exact ih later
    | none =>
      rw [later, Option.none_or] at last
      have closed := step_of_closes (List.mem_of_getLast? last) closes
      have none := List.getLast?_eq_none_iff.mp later
      rw [closed, tokens_eq_nil_iff] at none
      exact (congrArg (machine.after · cs) closed).trans (after_of_blank none)

/-- A text that ends with a closing bracket and a text behind it do not share a token. -/
theorem tokens_append_of_closes {cs : List Char} {t : Token}
    (last : (machine.run between cs).getLast? = some t) (closes : t.Closes) (ds : List Char) :
    machine.run between (cs ++ ds) = machine.run between cs ++ machine.run between ds := by
  have whole := machine.run_append between cs []
  have ended : machine.run between [] = [] := rfl
  rw [after_of_closes last closes, ended, List.append_nil, List.append_nil] at whole
  rw [machine.run_append, after_of_closes last closes, whole]

end Lexeme

/-- A list or an object whose end may be passed. -/
def Node.Enclosed : Node → Prop
  | .list _ close => close.pass = .ok ()
  | .object _ close => close.pass = .ok ()
  | _ => False

theorem Shape.passed_of_readList {α : Type} {value a : α} {fields : List (Field α)}
    {items : List Node} {close : Close} (read : readList value fields items close = .ok a) :
    close.pass = .ok () := by
  induction fields generalizing value items with
  | nil =>
    cases items with
    | nil =>
      obtain ⟨_, passed, -⟩ := (bind_eq_ok_iff _ _ _).mp read
      exact passed
    | cons n items =>
      cases close with
      | lenient => rfl
      | _ => cases read
  | cons f fields ih =>
    cases items with
    | nil =>
      obtain ⟨_, passed, -⟩ := (bind_eq_ok_iff _ _ _).mp read
      exact passed
    | cons n items =>
      obtain ⟨_, -, rest⟩ := (bind_eq_ok_iff _ _ _).mp read
      exact ih rest

theorem Shape.enclosed_of_read {α : Type} {s : Shape α} {n : Node} {a : α}
    (read : s.read n = .ok a) : n.Enclosed := by
  cases n with
  | object members close =>
    obtain ⟨_, -, rest⟩ := (bind_eq_ok_iff _ _ _).mp read
    obtain ⟨_, passed, -⟩ := (bind_eq_ok_iff _ _ _).mp rest
    exact passed
  | list items close => exact passed_of_readList read
  | _ => cases read

namespace Container

theorem closes_of_closedBy {inside : Container} {t : Token} (closed : inside.closedBy t = true) :
    t.Closes := by
  cases inside <;> cases t <;> trivial

theorem not_enclosed_of_broken (inside : Container) (f : Fault) :
    ¬(inside.node (.broken f)).Enclosed := by
  cases inside <;> exact nofun

end Container

namespace Builder

/-- What is left open by the end of the text, or by a token out of place, holds no whole value. -/
theorem not_enclosed_unwind {f : Fault} {node : Node} (unfinished : ¬node.Enclosed)
    (outer : List Frame) : ¬(unwind f node outer).Enclosed := by
  induction outer generalizing node with
  | nil => exact unfinished
  | cons frame outer ih => exact ih (Container.not_enclosed_of_broken _ f)

theorem eq_ended_of_finish {b : Builder} {root : Node} (finished : b.finish = ⟨root, false⟩)
    (enclosed : root.Enclosed) : b = .ended root false := by
  cases b with
  | ended root trailing =>
    cases finished
    rfl
  | within started inside outer =>
    cases finished
    exact absurd enclosed (not_enclosed_unwind (inside.not_enclosed_of_broken _) _)
  | _ =>
    cases finished
    exact absurd enclosed (not_enclosed_unwind (by simp [Node.Enclosed, Close.pass]) _)

theorem abandon_ne_ended {f : Fault} {node root : Node} (unfinished : ¬node.Enclosed)
    (outer : List Frame) (enclosed : root.Enclosed) : abandon f node outer ≠ .ended root false := by
  intro ended
  cases ended
  exact not_enclosed_unwind unfinished outer enclosed

theorem eq_of_put {node root : Node} {outer : List Frame}
    (ended : put node outer = .ended root false) : node = root := by
  cases outer with
  | nil =>
    cases ended
    rfl
  | cons frame outer => cases frame <;> cases ended

theorem beginValue_ne_ended {outer : List Frame} {t : Token} {root : Node}
    (enclosed : root.Enclosed) : beginValue outer t ≠ .ended root false := by
  intro ended
  cases t with
  | openList => cases ended
  | openObject => cases ended
  | word w =>
    obtain rfl := eq_of_put ended
    exact enclosed
  | number n =>
    obtain rfl := eq_of_put ended
    exact enclosed
  | text t =>
    obtain rfl := eq_of_put ended
    exact enclosed
  | _ => exact abandon_ne_ended (by simp [Node.Enclosed]) outer enclosed ended

theorem beginMember_ne_ended {done : List (Node × Node)} {outer : List Frame} {t : Token}
    {root : Node} (enclosed : root.Enclosed) : beginMember done outer t ≠ .ended root false := by
  intro ended
  cases t with
  | text t => cases ended
  | _ => exact abandon_ne_ended (by simp [Node.Enclosed, Close.pass]) outer enclosed ended

theorem beginPart_ne_ended {inside : Container} {outer : List Frame} {t : Token} {root : Node}
    (enclosed : root.Enclosed) : beginPart outer inside t ≠ .ended root false := by
  cases inside with
  | list done => exact beginValue_ne_ended enclosed
  | object done => exact beginMember_ne_ended enclosed

theorem closes_of_step_within {started : Bool} {inside : Container} {outer : List Frame}
    {t : Token} {root : Node} (ended : (within started inside outer).step t = .ended root false)
    (enclosed : root.Enclosed) : t.Closes := by
  rcases step_within_cases started inside outer t with ⟨closed, -⟩ | step | step | step
  · exact Container.closes_of_closedBy closed
  · exact absurd (step ▸ ended) (beginPart_ne_ended enclosed)
  · rw [step] at ended
    cases inside <;> cases ended
  · exact absurd (step ▸ ended)
      (abandon_ne_ended (inside.not_enclosed_of_broken _) outer enclosed)

theorem closes_of_step {b : Builder} {t : Token} {root : Node}
    (ended : b.step t = .ended root false) (enclosed : root.Enclosed) : t.Closes := by
  cases b with
  | value outer => exact absurd ended (beginValue_ne_ended enclosed)
  | nextName done outer => exact absurd ended (beginMember_ne_ended enclosed)
  | ended root trailing => cases ended
  | within started inside outer => exact closes_of_step_within ended enclosed
  | colon done name outer =>
    cases t with
    | colon => cases ended
    | _ => exact absurd ended (abandon_ne_ended (by simp [Node.Enclosed, Close.pass]) _ enclosed)

theorem foldl_ended (root : Node) (trailing : Bool) (tokens : List Token) :
    tokens.foldl step (.ended root trailing) = .ended root (trailing || !tokens.isEmpty) := by
  induction tokens generalizing trailing with
  | nil => simp
  | cons t tokens ih =>
    rw [List.foldl_cons, step, ih]
    simp

end Builder

namespace Document

theorem exists_closing {tokens : List Token} {root : Node} (built : ofTokens tokens = ⟨root, false⟩)
    (enclosed : root.Enclosed) :
    tokens.foldl Builder.step (.value []) = .ended root false ∧
      ∃ t, tokens.getLast? = some t ∧ t.Closes := by
  have ended := Builder.eq_ended_of_finish built enclosed
  refine ⟨ended, ?_⟩
  rcases List.eq_nil_or_concat tokens with rfl | ⟨before, t, rfl⟩
  · cases ended
  · rw [List.concat_eq_append, List.foldl_append, List.foldl_cons, List.foldl_nil] at ended
    exact ⟨t, by simp, Builder.closes_of_step ended enclosed⟩

theorem ofString_append {text : String} {root : Node} (built : ofString text = ⟨root, false⟩)
    (enclosed : root.Enclosed) (s : String) :
    ofString (text ++ s) = ⟨root, !decide (Blank s.toList)⟩ := by
  obtain ⟨ended, t, last, closes⟩ := exists_closing built enclosed
  have behind : (Token.scan s.toList).isEmpty = decide (Blank s.toList) := by
    rw [Bool.eq_iff_iff, List.isEmpty_iff, decide_eq_true_eq]
    exact Lexeme.tokens_eq_nil_iff s.toList
  have scanned := Lexeme.tokens_append_of_closes last closes s.toList
  rw [ofString, String.toList_append, Token.scan, scanned, ofTokens, List.foldl_append,
    ← Token.scan, ended, Builder.foldl_ended, ← Token.scan, behind]
  rfl

end Document

/-- A text behind a document is passed over if it is white space, and a fault otherwise. -/
theorem Shape.readDocument_append {α : Type} {s : Shape α} {text : String} {a : α}
    (read : s.readDocument text = .ok a) (behind : String) :
    s.readDocument (text ++ behind) =
      if Blank behind.toList then .ok a else .error .malformed := by
  obtain ⟨b, valued, rest⟩ := (bind_eq_ok_iff _ _ _).mp read
  cases built : Document.ofString text with
  | mk root trailing =>
    rw [built] at valued rest
    cases trailing with
    | true => cases rest
    | false =>
      cases rest
      rw [readDocument, Document.ofString_append built (enclosed_of_read valued), Document.read,
        valued]
      by_cases blank : Blank behind.toList <;> simp [blank, bind, Except.bind, pure, Except.pure]

end RuleFeed.Json
