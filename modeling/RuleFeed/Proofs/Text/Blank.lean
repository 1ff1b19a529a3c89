import Mathlib.Data.List.TakeWhile
import RuleFeed.Text.Blank

/-!
Trimming. What is left of a text has no blank at either end and only blanks were around it; no
other part of the text is so.
-/
namespace RuleFeed

def AllBlank (cs : List Char) : Prop := ∀ c ∈ cs, isBlank c = true

structure Trimmed (cs body : List Char) : Prop where
  around : ∃ before after, cs = before ++ body ++ after ∧ AllBlank before ∧ AllBlank after
  first : ∀ c ∈ body.head?, isBlank c = false
  last : ∀ c ∈ body.getLast?, isBlank c = false

theorem trimStart_append {before : List Char} (blank : AllBlank before) (cs : List Char) :
    trimStart (before ++ cs) = trimStart cs := by
  induction before with
  | nil => rfl
  | cons c before ih =>
    obtain ⟨first, rest⟩ := List.forall_mem_cons.mp blank
    rw [List.cons_append, trimStart, List.dropWhile_cons, if_pos first]
    exact ih rest

theorem trimStart_eq_self {cs : List Char} (ink : ∀ c ∈ cs.head?, isBlank c = false) :
    trimStart cs = cs := by
  cases cs with
  | nil => rfl
  | cons c cs => rw [trimStart, List.dropWhile_cons, ink c rfl, if_neg Bool.false_ne_true]

theorem exists_trimStart (cs : List Char) :
    ∃ before, cs = before ++ trimStart cs ∧ AllBlank before ∧
      ∀ c ∈ (trimStart cs).head?, isBlank c = false := by
  refine ⟨cs.takeWhile isBlank, List.takeWhile_append_dropWhile.symm, ?_, ?_⟩
  · exact fun c mem => List.mem_takeWhile_imp mem
  · intro c mem
    cases blank : isBlank c with
    | false => rfl
    | true =>
      have stopped := List.head?_dropWhile_not isBlank cs
      rw [← trimStart, Option.mem_def.mp mem] at stopped
      simp [blank] at stopped

theorem head?_of_append {cs ds : List Char} {p : Char → Prop} (h : ∀ c ∈ (cs ++ ds).head?, p c) :
    ∀ c ∈ cs.head?, p c := by
  cases cs with
  | nil => exact nofun
  | cons c cs => exact h

theorem trim_of_trimmed {cs body : List Char} (trimmed : Trimmed cs body) : trim cs = body := by
  obtain ⟨⟨before, after, rfl, blank, blank'⟩, first, last⟩ := trimmed
  have reversed : AllBlank after.reverse := fun c mem => blank' c (List.mem_reverse.mp mem)
  have back : ∀ c ∈ body.reverse.head?, isBlank c = false := by rwa [List.head?_reverse]
  rw [trim, List.append_assoc, trimStart_append blank]
  -- Blanks alone leave nothing for the second pass to look at.
  cases body with
  | nil =>
    have nothing := trimStart_append blank' []
    rw [List.append_nil] at nothing
    rw [List.nil_append, nothing]
    rfl
  | cons c body =>
    have start : ∀ d ∈ (c :: body ++ after).head?, isBlank d = false := first
    rw [trimStart_eq_self start, List.reverse_append,
      trimStart_append reversed, trimStart_eq_self back, List.reverse_reverse]

theorem trimmed_trim (cs : List Char) : Trimmed cs (trim cs) := by
  obtain ⟨before, front, blank, first⟩ := exists_trimStart cs
  obtain ⟨after, back, blank', last⟩ := exists_trimStart (trimStart cs).reverse
  have whole : trimStart cs = trim cs ++ after.reverse := by
    rw [← List.reverse_reverse (trimStart cs), back, List.reverse_append]
    rfl
  refine ⟨⟨before, after.reverse, ?_, blank, ?_⟩, ?_, ?_⟩
  · rw [List.append_assoc, ← whole]
    exact front
  · exact fun c mem => blank' c (List.mem_reverse.mp mem)
  · rw [whole] at first
    exact head?_of_append first
  · rwa [trim, List.getLast?_reverse]

theorem trimmed_iff {cs body : List Char} : Trimmed cs body ↔ trim cs = body :=
  ⟨trim_of_trimmed, fun same => same ▸ trimmed_trim cs⟩

end RuleFeed
