import Mathlib.Data.List.Induction
import RuleFeed.Text.Decimal

/-!
The one decimal text of a number: it reads as the number and has no zero before its digits. Writing
gives that text and there is no other, so an id in decimal stands for its number and for nothing
else.
-/
namespace RuleFeed.Decimal

/-- The one decimal text of a number: its digits, and no zero before them. -/
structure Canonical (text : String) (n : Nat) : Prop where
  reads : read? text.toList = some n
  bare : text.toList.head? = some '0' → text = "0"

private theorem digits_of_head? (n : Nat) : (digits n).head? = some '0' → n = 0 := by
  fun_induction digits n with
  | case1 n small =>
    have first : ∀ d : Fin 10, digitChar d = '0' → d.val = 0 := by decide
    simpa using first ⟨n, small⟩
  | case2 n large ih =>
    obtain ⟨c, cs, front⟩ := List.exists_cons_of_ne_nil (digits_ne_nil (n / 10))
    rw [front] at ih ⊢
    intro zero
    have none := ih zero
    omega

theorem canonical_write (n : Nat) : Canonical (write n) n where
  reads := by rw [write, String.toList_ofList, read?_digits]
  bare := by
    rw [write, String.toList_ofList]
    intro zero
    rw [digits_of_head? n zero, digits, if_pos (by decide)]
    rfl

theorem digitChar_of_digit? {c : Char} {d : Nat} (h : digit? c = some d) :
    d < 10 ∧ digitChar d = c := by
  unfold digit? at h
  split at h
  case isFalse => cases h
  case isTrue range =>
    obtain rfl := Option.some.inj h
    have low : 48 ≤ c.toNat := range.1
    have high : c.toNat ≤ 57 := range.2
    have back : 48 + (c.toNat - 48) = c.toNat := by omega
    rw [digitChar, back, Char.ofNat_toNat]
    exact ⟨by omega, rfl⟩

theorem extend_eq_some_iff {value : Option Nat} {c : Char} {n : Nat} :
    extend value c = some n ↔ ∃ v d, value = some v ∧ digit? c = some d ∧ n = v * 10 + d := by
  cases value <;> cases found : digit? c <;> simp [extend, found, eq_comm]

/-- Digits without a zero before them are the digits of their value; from the last digit on. -/
theorem eq_digits_of_foldl {cs : List Char} {n : Nat} (nonempty : cs ≠ [])
    (reads : cs.foldl extend (some 0) = some n) (bare : cs.head? = some '0' → cs = ['0']) :
    cs = digits n := by
  induction cs using List.reverseRecOn generalizing n with
  | nil => exact absurd rfl nonempty
  | append_singleton front last ih =>
    rw [List.foldl_append, List.foldl_cons, List.foldl_nil, extend_eq_some_iff] at reads
    obtain ⟨v, d, front_reads, last_reads, rfl⟩ := reads
    obtain ⟨small, last_eq⟩ := digitChar_of_digit? last_reads
    cases front with
    | nil =>
      obtain rfl : 0 = v := Option.some.inj front_reads
      rw [List.nil_append, Nat.zero_mul, Nat.zero_add, digits, if_pos small, last_eq]
    | cons c cs =>
      have nonzero : c ≠ '0' := fun zero => by simpa using bare (congrArg some zero)
      have written : c :: cs = digits v :=
        ih (List.cons_ne_nil c cs) front_reads (by simp [nonzero])
      have positive : v ≠ 0 := by
        rintro rfl
        rw [digits, if_pos (by decide)] at written
        exact nonzero (List.cons.inj written).1
      have above : (v * 10 + d) / 10 = v := by omega
      have below : (v * 10 + d) % 10 = d := by omega
      rw [digits, if_neg (by omega), above, below, ← written, last_eq]

theorem canonical_iff {text : String} {n : Nat} : Canonical text n ↔ text = write n := by
  refine ⟨fun canonical => ?_, fun same => same ▸ canonical_write n⟩
  obtain ⟨reads, bare⟩ := canonical
  rw [write, ← String.toList_inj, String.toList_ofList]
  cases chars : text.toList with
  | nil =>
    rw [chars] at reads
    cases reads
  | cons c cs =>
    rw [chars] at reads bare
    refine eq_digits_of_foldl (List.cons_ne_nil c cs) reads fun zero => ?_
    rw [← chars, bare zero]
    rfl

theorem Canonical.eq_iff {text text' : String} {m n : Nat} (h : Canonical text m)
    (h' : Canonical text' n) : text = text' ↔ m = n := by
  rw [canonical_iff.mp h, canonical_iff.mp h']
  exact ⟨write_injective, congrArg write⟩

end RuleFeed.Decimal
