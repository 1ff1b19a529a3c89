import RuleFeed.Proofs.Json.Scan
import RuleFeed.Proofs.Toml.Spelling

/-!
Plain values without quotes. A decimal integer has a sign at most and digits; no date or time is
written so, for these have a colon or a dash between digits. It is read as its number if that fits
into 64 bits.
-/
namespace RuleFeed

namespace Json.NumberSpelling

theorem Decimal.chars_eq {n : NumberSpelling} {z : Int} (h : n.Decimal z) :
    n.chars = (if z < 0 then ['-'] else []) ++ digitChars n.whole.list := by
  simp [chars, h.negative, h.fraction, h.exponent]

end Json.NumberSpelling

namespace Toml

theorem mem_digitChars {ds : List (Fin 10)} {c : Char} (mem : c ∈ Json.digitChars ds) :
    ∃ d : Fin 10, digitChar d.val = c := by
  obtain ⟨d, -, rfl⟩ := List.mem_map.mp mem
  exact ⟨d, rfl⟩

theorem not_mem_digitChars {c : Char} (other : ∀ d : Fin 10, digitChar d.val ≠ c)
    (ds : List (Fin 10)) : c ∉ Json.digitChars ds := by
  intro mem
  obtain ⟨d, same⟩ := mem_digitChars mem
  exact other d same

theorem digits?_digitChars (ds : List (Fin 10)) (nonempty : ds ≠ []) :
    digits? 10 (Json.digitChars ds) = some (ds.map Fin.val) := by
  have digit : ∀ d : Fin 10, digitBelow? 10 (digitChar d.val) = some d.val := by decide
  have plain : ∀ d : Fin 10, digitChar d.val ≠ '_' := by decide
  induction ds with
  | nil => exact absurd rfl nonempty
  | cons d ds ih =>
    cases ds with
    | nil => simp [Json.digitChars, digits?, digit]
    | cons e ds =>
      have rest := ih (List.cons_ne_nil e ds)
      simp only [Json.digitChars, List.map_cons] at rest ⊢
      rw [digits?, digit d, rest]
      exact fun _ _ mark => absurd mark (plain e)

theorem ofDigits_map_val (ds : List (Fin 10)) :
    ofDigits 10 (ds.map Fin.val) = Json.digitsValue ds := by
  rw [ofDigits, List.foldl_map]
  rfl

theorem wholeDigits?_digitChars (w : Json.Whole) :
    wholeDigits? (Json.digitChars w.list) = some (w.list.map Fin.val) := by
  cases w with
  | zero => rfl
  | positive first rest =>
    have all := digits?_digitChars (Json.Whole.positive first rest).list (List.cons_ne_nil _ _)
    rw [wholeDigits?, all]
    rfl

theorem sign_digitChars (w : Json.Whole) :
    sign (Json.digitChars w.list) = (false, Json.digitChars w.list) := by
  have plus := not_mem_digitChars (c := '+') (by decide) w.list
  have minus := not_mem_digitChars (c := '-') (by decide) w.list
  unfold sign
  split
  case h_1 cs same => exact absurd (same ▸ List.mem_cons_self) plus
  case h_2 cs same => exact absurd (same ▸ List.mem_cons_self) minus
  case h_3 => rfl

variable {n : Json.NumberSpelling} {z : Int}

theorem decimalInteger?_chars (decimal : n.Decimal z) : decimalInteger? n.chars = some z := by
  have value := ofDigits_map_val n.whole.list
  rw [decimal.digits] at value
  rw [decimal.chars_eq]
  by_cases negative : z < 0
  · have back : -(z.natAbs : Int) = z := by omega
    rw [if_pos negative, List.singleton_append, decimalInteger?, sign, wholeDigits?_digitChars]
    simp only [Option.map_some, if_true, value, back]
  · have back : (z.natAbs : Int) = z := by omega
    rw [if_neg negative, List.nil_append, decimalInteger?, sign_digitChars,
      wholeDigits?_digitChars]
    simp only [Option.map_some, Bool.false_eq_true, if_false, value, back]

theorem not_mem_of_decimal (decimal : n.Decimal z) {c : Char}
    (other : ∀ d : Fin 10, digitChar d.val ≠ c) :
    c ∉ n.chars.tail ∧ (c ≠ '-' → c ∉ n.chars) := by
  have digits := not_mem_digitChars other n.whole.list
  rw [decimal.chars_eq]
  by_cases negative : z < 0
  · rw [if_pos negative]
    exact ⟨digits, fun dash mem => (List.mem_cons.mp mem).elim dash digits⟩
  · rw [if_neg negative, List.nil_append]
    exact ⟨fun mem => digits (List.mem_of_mem_tail mem), fun _ => digits⟩

theorem integer?_of_unprefixed {cs : List Char} (x : 'x' ∉ cs) (o : 'o' ∉ cs) (b : 'b' ∉ cs) :
    integer? cs = ((decimalInteger? cs).filter fitsInt64).map .integer := by
  unfold integer?
  split
  · simp at x
  · simp at o
  · simp at b
  · rfl

theorem integer?_chars (decimal : n.Decimal z) (fits : fitsInt64 z = true) :
    integer? n.chars = some (.integer z) := by
  have absent {c : Char} (other : ∀ d : Fin 10, digitChar d.val ≠ c) (dash : c ≠ '-') :
      c ∉ n.chars := (not_mem_of_decimal decimal other).2 dash
  rw [integer?_of_unprefixed (absent (by decide) (by decide)) (absent (by decide) (by decide))
    (absent (by decide) (by decide)), decimalInteger?_chars decimal, Option.filter_some,
    if_pos fits, Option.map_some]

theorem dash_mem_of_isDate {cs : List Char} (date : isDate cs = true) : '-' ∈ cs.tail := by
  unfold isDate at date
  split at date
  · simp
  · cases date

theorem colon_mem_of_isTime {cs : List Char} (time : isTime cs = true) : ':' ∈ cs := by
  have clock : isClock (cs.take 5) = true := (Bool.and_eq_true_iff.mp time).1
  unfold isClock at clock
  split at clock
  case h_1 same => exact List.mem_of_mem_take (by rw [same]; simp)
  case h_2 => cases clock

theorem isDate_take_of_decimal (decimal : n.Decimal z) (k : Nat) :
    isDate (n.chars.take k) = false := by
  refine Bool.eq_false_iff.mpr fun date => ?_
  have dash := dash_mem_of_isDate date
  rw [← List.drop_one, List.drop_take, List.drop_one] at dash
  exact (not_mem_of_decimal decimal (by decide)).1 (List.mem_of_mem_take dash)

theorem isDate_of_decimal (decimal : n.Decimal z) : isDate n.chars = false := by
  have whole := isDate_take_of_decimal decimal n.chars.length
  rwa [List.take_length] at whole

theorem isMoment_of_decimal (decimal : n.Decimal z) : isMoment n.chars = false := by
  have time : isTime n.chars = false := Bool.eq_false_iff.mpr fun time =>
    (not_mem_of_decimal decimal (by decide)).2 (by decide) (colon_mem_of_isTime time)
  simp [isMoment, time, isDate_take_of_decimal decimal]

theorem ofBare?_decimal (decimal : n.Decimal z) (fits : fitsInt64 z = true) :
    Value.ofBare? n.chars = some (.integer z) := by
  have letter := (not_mem_of_decimal decimal (c := 'e') (by decide)).2 (by decide)
  have not_true : n.chars ≠ "true".toList := fun same => letter (by rw [same]; decide)
  have not_false : n.chars ≠ "false".toList := fun same => letter (by rw [same]; decide)
  rw [Value.ofBare?, if_neg not_true, if_neg not_false, isMoment_of_decimal decimal,
    integer?_chars decimal fits]
  rfl

end Toml
end RuleFeed
