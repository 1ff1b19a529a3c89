import RuleFeed.Proofs.Json.Kept
import RuleFeed.Proofs.Json.Writing

/-!
Values that some text writes. Nothing but a number can stand in the way. An integer is written
with its digits; the value of a literal is written with the digits that the literal was read for,
scaled by their power of ten.
-/
namespace RuleFeed.Json

theorem Whole.exists_positive (n : Nat) (positive : 0 < n) :
    ∃ first rest, digitsValue (Whole.positive first rest).list = n := by
  induction n using Nat.strongRecOn with
  | ind n ih =>
    by_cases small : n < 10
    · refine ⟨⟨n - 1, by omega⟩, [], ?_⟩
      simp only [list, digitsValue, List.foldl_cons, List.foldl_nil, Fin.val_succ]
      omega
    · obtain ⟨first, rest, value⟩ := ih (n / 10) (by omega) (by omega)
      refine ⟨first, rest ++ [⟨n % 10, Nat.mod_lt n (by decide)⟩], ?_⟩
      have split : (Whole.positive first (rest ++ [⟨n % 10, Nat.mod_lt n (by decide)⟩])).list =
          (Whole.positive first rest).list ++ [⟨n % 10, Nat.mod_lt n (by decide)⟩] := rfl
      rw [split, digitsValue_concat, value]
      exact Nat.div_add_mod' n 10

theorem Whole.exists_digitsValue (n : Nat) : ∃ w : Whole, digitsValue w.list = n := by
  by_cases zero : n = 0
  · exact ⟨.zero, zero.symm⟩
  · obtain ⟨first, rest, value⟩ := exists_positive n (Nat.pos_of_ne_zero zero)
    exact ⟨.positive first rest, value⟩

theorem Exponent.exists_value (z : Int) : ∃ e : Exponent, e.value = z := by
  obtain ⟨whole, value⟩ := Whole.exists_digitsValue z.natAbs
  obtain ⟨digits, same⟩ : ∃ digits : Digits, digits.list = whole.list := by
    cases whole with
    | zero => exact ⟨⟨0, []⟩, rfl⟩
    | positive first rest => exact ⟨⟨first.succ, rest⟩, rfl⟩
  by_cases negative : z < 0
  · refine ⟨⟨false, .minus, digits⟩, ?_⟩
    simp only [Exponent.value, same, value]
    omega
  · refine ⟨⟨false, .absent, digits⟩, ?_⟩
    simp only [Exponent.value, same, value]
    omega

namespace NumberSpelling

theorem exists_decimal (z : Int) : ∃ n : NumberSpelling, n.Decimal z := by
  obtain ⟨whole, value⟩ := Whole.exists_digitsValue z.natAbs
  exact ⟨⟨decide (z < 0), whole, none, none⟩, rfl, value, rfl, rfl⟩

/-- The significand in decimal, with its power of ten as the exponent. -/
theorem exists_scaled (m : Numeral) : ∃ n : NumberSpelling,
    n.numeral = ⟨m.negative, m.significand, 0, false, m.place + m.exponent, false⟩ := by
  obtain ⟨whole, digits⟩ := Whole.exists_digitsValue m.significand.toNat
  obtain ⟨exponent, value⟩ := Exponent.exists_value (m.place + m.exponent)
  have fits : digitsValue whole.list < 0x10000000000000000 := digits ▸ m.significand.toNat_lt
  refine ⟨⟨m.negative, whole, none, some exponent⟩, ?_⟩
  rw [numeral, wholePart, foldl_addWhole _ fits, digits, UInt64.ofNat_toNat, ← value]
  rfl

theorem exists_reads {x : Binary64} (legible : Legible x) : ∃ n : NumberSpelling, n.Reads x := by
  obtain ⟨m, read⟩ := legible
  unfold Numeral.number at read
  split at read
  case h_1 z integer =>
    obtain ⟨low, high⟩ := Numeral.int?_bounds integer
    obtain ⟨n, decimal⟩ := exists_decimal z
    refine ⟨n, ?_⟩
    rw [Reads, decimal.numeral_eq (by omega), Numeral.number_ofInt low high]
    exact read
  case h_2 =>
    obtain ⟨n, scaled⟩ := exists_scaled m
    have value : n.numeral.value = m.value := by simp only [Numeral.value, scaled, Int.zero_add]
    have integral : n.numeral.int? = none := by
      rw [scaled]
      rfl
    refine ⟨n, ?_⟩
    simp only [Reads, Numeral.number, integral, value]
    exact read

end NumberSpelling

namespace Value

def Writable (v : Value) : Prop := ∃ s : Spelling, s.Writes v

theorem writable_bool (b : Bool) : (bool b).Writable := ⟨_, .bool b⟩

theorem writable_text (s : String) : (text s).Writable :=
  ⟨_, .text (TextSpelling.spells_ofString s)⟩

theorem writable_integer (z : Int) : (integer z).Writable := by
  obtain ⟨n, decimal⟩ := NumberSpelling.exists_decimal z
  exact ⟨_, .integer decimal⟩

theorem writable_real {x : Binary64} (legible : Legible x) : (real x).Writable := by
  obtain ⟨n, reads⟩ := NumberSpelling.exists_reads legible
  exact ⟨_, .real reads⟩

theorem writable_list {values : List Value} (each : ∀ v ∈ values, v.Writable) :
    (list values).Writable := by
  have items : ∃ items, Spelling.WritesItems items values := by
    induction values with
    | nil => exact ⟨[], .nil⟩
    | cons v values ih =>
      obtain ⟨s, first⟩ := each v List.mem_cons_self
      obtain ⟨items, rest⟩ := ih fun u mem => each u (List.mem_cons_of_mem v mem)
      exact ⟨.tight s :: items, .cons first rest⟩
  obtain ⟨items, written⟩ := items
  exact ⟨.list items .empty, .list written⟩

theorem writable_object {members : List (String × Value)} (each : ∀ m ∈ members, m.2.Writable) :
    (object members).Writable := by
  have spelled : ∃ ms, Spelling.WritesMembers ms members := by
    induction members with
    | nil => exact ⟨[], .nil⟩
    | cons m members ih =>
      obtain ⟨s, first⟩ := each m List.mem_cons_self
      obtain ⟨ms, rest⟩ := ih fun n mem => each n (List.mem_cons_of_mem m mem)
      exact ⟨Member.plain m.1 s :: ms, .cons (Member.named_plain m.1 s) first rest⟩
  obtain ⟨ms, written⟩ := spelled
  exact ⟨.object ms .empty, .object (.refl ms) written⟩

end Value
end RuleFeed.Json
