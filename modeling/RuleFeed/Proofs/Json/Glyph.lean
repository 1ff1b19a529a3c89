import RuleFeed.Proofs.Json.Spelling

/-!
The characters of a string literal. A character beyond the basic plane takes two `\u` escapes, one
for each unit of its surrogate pair; every other character takes one letter of the literal. Which
string a literal spells is said by its glyphs, apart from how a reader finds it. The reader finds
that string, and refuses a literal that spells none.
-/
namespace RuleFeed.Json

inductive Glyph where
  | bare (c : Char) (allowed : IsBare c)
  | short (e : Escape)
  | unit (c : Char) (q : Quad) (names : q.value = c.toNat)
  | pair (c : Char) (high low : Quad) (beyond : 0x10000 ≤ c.toNat)
      (names_high : high.value = 0xD800 + (c.toNat - 0x10000) / 0x400)
      (names_low : low.value = 0xDC00 + (c.toNat - 0x10000) % 0x400)

namespace Glyph

def char : Glyph → Char
  | bare c _ => c
  | short e => e.char
  | unit c _ _ => c
  | pair c _ _ _ _ _ => c

def letters : Glyph → List Letter
  | bare c allowed => [.bare c allowed]
  | short e => [.short e]
  | unit _ q _ => [.unit q]
  | pair _ high low _ _ _ => [.unit high, .unit low]

end Glyph

/-- The literal spells the string, in any choice of escapes. -/
def TextSpelling.Spells (t : TextSpelling) (s : String) : Prop :=
  ∃ glyphs : List Glyph, glyphs.flatMap Glyph.letters = t.letters ∧ glyphs.map Glyph.char = s.toList

theorem toNat_unit {n : Nat} (bound : n < 0x10000) : (UInt16.ofNat n).toNat = n :=
  UInt16.toNat_ofNat_of_lt' bound

theorem isHighSurrogate_ofNat {n : Nat} (bound : n < 0x10000) :
    isHighSurrogate (UInt16.ofNat n) = decide (0xD800 ≤ n ∧ n ≤ 0xDBFF) := by
  simp [isHighSurrogate, UInt16.le_iff_toNat_le, toNat_unit bound]

theorem isLowSurrogate_ofNat {n : Nat} (bound : n < 0x10000) :
    isLowSurrogate (UInt16.ofNat n) = decide (0xDC00 ≤ n ∧ n ≤ 0xDFFF) := by
  simp [isLowSurrogate, UInt16.le_iff_toNat_le, toNat_unit bound]

theorem toNat_scalar (c : Char) :
    c.toNat < 0xD800 ∨ 0xDFFF < c.toNat ∧ c.toNat < 0x110000 := c.valid

theorem toNat_ofNat_scalar {n : Nat} (valid : n.isValidChar) : (Char.ofNat n).toNat = n := by
  rw [Char.ofNat, dif_pos valid]
  rfl

theorem surrogatePair_ofNat {high low n : Nat} (beyond : 0x10000 ≤ n) (bound : n < 0x110000)
    (names_high : high = 0xD800 + (n - 0x10000) / 0x400)
    (names_low : low = 0xDC00 + (n - 0x10000) % 0x400) :
    surrogatePair (UInt16.ofNat high) (UInt16.ofNat low) = Char.ofNat n := by
  have first := toNat_unit (n := high) (by omega)
  have second := toNat_unit (n := low) (by omega)
  have whole : 0x10000 + (high - 0xD800) * 0x400 + (low - 0xDC00) = n := by omega
  rw [surrogatePair, first, second, whole]

theorem surrogatePair_names {high low : Nat} (is_high : 0xD800 ≤ high ∧ high ≤ 0xDBFF)
    (is_low : 0xDC00 ≤ low ∧ low ≤ 0xDFFF) :
    ∃ c : Char, surrogatePair (UInt16.ofNat high) (UInt16.ofNat low) = c ∧ 0x10000 ≤ c.toNat ∧
      high = 0xD800 + (c.toNat - 0x10000) / 0x400 ∧
      low = 0xDC00 + (c.toNat - 0x10000) % 0x400 := by
  obtain ⟨n, value⟩ : ∃ n, n = 0x10000 + (high - 0xD800) * 0x400 + (low - 0xDC00) := ⟨_, rfl⟩
  have same : (Char.ofNat n).toNat = n := toNat_ofNat_scalar (Or.inr ⟨by omega, by omega⟩)
  refine ⟨Char.ofNat n, ?_, ?_, ?_, ?_⟩
  · exact surrogatePair_ofNat (by omega) (by omega) (by omega) (by omega)
  all_goals
    rw [same]
    omega

theorem characters_char (c : Char) (rest : List Piece) :
    characters none (.char c :: rest) = (characters none rest).map (c :: ·) := by
  rw [characters]
  cases characters none rest <;> rfl

theorem characters_unit {n : Nat} (bound : n < 0x10000) (scalar : n < 0xD800 ∨ 0xDFFF < n)
    (rest : List Piece) :
    characters none (.unit (UInt16.ofNat n) :: rest) =
      (characters none rest).map (Char.ofNat n :: ·) := by
  have not_low : isLowSurrogate (UInt16.ofNat n) = false := by
    rw [isLowSurrogate_ofNat bound, decide_eq_false_iff_not]
    omega
  have not_high : isHighSurrogate (UInt16.ofNat n) = false := by
    rw [isHighSurrogate_ofNat bound, decide_eq_false_iff_not]
    omega
  conv =>
    lhs
    unfold characters
  simp only [not_low, not_high, Bool.false_eq_true, if_false, toNat_unit bound]
  cases characters none rest <;> rfl

theorem characters_pair (high low : Nat) (is_high : 0xD800 ≤ high ∧ high ≤ 0xDBFF)
    (is_low : 0xDC00 ≤ low ∧ low ≤ 0xDFFF) (rest : List Piece) :
    characters none (.unit (UInt16.ofNat high) :: .unit (UInt16.ofNat low) :: rest) =
      (characters none rest).map
        (surrogatePair (UInt16.ofNat high) (UInt16.ofNat low) :: ·) := by
  have first_low : isLowSurrogate (UInt16.ofNat high) = false := by
    rw [isLowSurrogate_ofNat (by omega), decide_eq_false_iff_not]
    omega
  have first_high : isHighSurrogate (UInt16.ofNat high) = true := by
    rw [isHighSurrogate_ofNat (by omega), decide_eq_true_eq]
    exact is_high
  have second_low : isLowSurrogate (UInt16.ofNat low) = true := by
    rw [isLowSurrogate_ofNat (by omega), decide_eq_true_eq]
    exact is_low
  conv =>
    lhs
    unfold characters
  simp only [first_low, first_high, second_low, Bool.false_eq_true, if_false, if_true]
  cases characters none rest <;> rfl

theorem Glyph.characters_letters (g : Glyph) (rest : List Piece) :
    characters none (g.letters.map Letter.piece ++ rest) =
      (characters none rest).map (g.char :: ·) := by
  cases g with
  | bare c _ => exact characters_char c rest
  | short e => exact characters_char e.char rest
  | unit c q names =>
    have scalar := toNat_scalar c
    have read := characters_unit q.value_lt (by omega) rest
    rw [names, Char.ofNat_toNat] at read
    rw [← names] at read
    exact read
  | pair c high low beyond names_high names_low =>
    have scalar := toNat_scalar c
    have read := characters_pair high.value low.value (by omega) (by omega) rest
    rw [surrogatePair_ofNat beyond (by omega) names_high names_low, Char.ofNat_toNat] at read
    exact read

theorem characters_glyphs (glyphs : List Glyph) :
    characters none ((glyphs.flatMap Glyph.letters).map Letter.piece) =
      .ok (glyphs.map Glyph.char) := by
  induction glyphs with
  | nil => rfl
  | cons g glyphs ih =>
    rw [List.flatMap_cons, List.map_append, g.characters_letters, ih]
    rfl

theorem exists_front (l : Letter) (letters : List Letter) {cs : List Char}
    (read : characters none ((l :: letters).map Letter.piece) = .ok cs) :
    ∃ (g : Glyph) (rest : List Letter), g.letters ++ rest = l :: letters := by
  cases l with
  | bare c allowed => exact ⟨.bare c allowed, letters, rfl⟩
  | short e => exact ⟨.short e, letters, rfl⟩
  | unit q =>
    have bound := q.value_lt
    rw [List.map_cons, Letter.piece] at read
    unfold characters at read
    simp only [isLowSurrogate_ofNat bound, isHighSurrogate_ofNat bound, decide_eq_true_eq] at read
    split at read
    case isTrue => cases read
    case isFalse not_low =>
      split at read
      case isFalse not_high =>
        have named := toNat_ofNat_scalar (n := q.value) (by unfold Nat.isValidChar; omega)
        exact ⟨.unit (Char.ofNat q.value) q named.symm, letters, rfl⟩
      case isTrue is_high =>
        cases letters with
        | nil => cases read
        | cons m letters =>
          cases m with
          | bare c allowed => cases read
          | short e => cases read
          | unit r =>
            simp only [List.map_cons, Letter.piece, isLowSurrogate_ofNat r.value_lt,
              decide_eq_true_eq] at read
            split at read
            case isFalse => cases read
            case isTrue is_low =>
              obtain ⟨c, -, beyond, first, second⟩ := surrogatePair_names is_high is_low
              exact ⟨.pair c q r beyond first second, letters, rfl⟩

theorem exists_glyphs (letters : List Letter) {cs : List Char}
    (read : characters none (letters.map Letter.piece) = .ok cs) :
    ∃ glyphs : List Glyph, glyphs.flatMap Glyph.letters = letters ∧ glyphs.map Glyph.char = cs := by
  -- A glyph takes one letter or two, so the induction is on the number of letters left.
  induction size : letters.length using Nat.strongRecOn generalizing letters cs with
  | ind n ih =>
    subst size
    cases letters with
    | nil =>
      cases read
      exact ⟨[], rfl, rfl⟩
    | cons l letters =>
      obtain ⟨g, rest, whole⟩ := exists_front l letters read
      rw [← whole, List.map_append, g.characters_letters] at read
      cases read_rest : characters none (rest.map Letter.piece) with
      | error f =>
        rw [read_rest] at read
        cases read
      | ok ds =>
        have shorter : rest.length < (l :: letters).length := by
          rw [← whole, List.length_append]
          cases g <;> simp only [Glyph.letters, List.length_cons] <;> omega
        obtain ⟨glyphs, spelled, named⟩ := ih rest.length shorter rest read_rest rfl
        rw [read_rest] at read
        refine ⟨g :: glyphs, ?_, ?_⟩
        · rw [List.flatMap_cons, spelled, whole]
        · rw [List.map_cons, named]
          exact Except.ok.inj read

/-- A literal is read as the string that it spells, and not at all if it spells none. -/
theorem TextSpelling.decode_eq_ok_iff (t : TextSpelling) (s : String) :
    t.text.decode = .ok s ↔ t.Spells s := by
  constructor
  · intro read
    cases found : characters none (t.letters.map Letter.piece) with
    | error f =>
      rw [Text.decode, text, found] at read
      cases read
    | ok cs =>
      rw [Text.decode, text, found] at read
      obtain ⟨glyphs, spelled, named⟩ := exists_glyphs t.letters found
      have whole : String.ofList cs = s := Except.ok.inj read
      exact ⟨glyphs, spelled, by rw [named, ← whole, String.toList_ofList]⟩
  · rintro ⟨glyphs, spelled, named⟩
    rw [Text.decode, text, ← spelled, characters_glyphs, named, Except.map, String.ofList_toList]

theorem toNat_lt_of_not_bare {c : Char} (bare : ¬IsBare c) (mark : c ≠ '"') (solidus : c ≠ '\\') :
    c.toNat < 0x10000 := by
  have small : ¬0x20 ≤ c.toNat := fun large => bare ⟨large, mark, solidus⟩
  omega

def Glyph.ofChar (c : Char) : Glyph :=
  if bare : IsBare c then .bare c bare
  else if mark : c = '"' then .short .quotationMark
  else if solidus : c = '\\' then .short .reverseSolidus
  else .unit c (.ofNat c.toNat) (Quad.value_ofNat (toNat_lt_of_not_bare bare mark solidus))

theorem Glyph.char_ofChar (c : Char) : (ofChar c).char = c := by
  unfold ofChar
  split
  case isTrue => rfl
  case isFalse =>
    split
    case isTrue mark => exact mark.symm
    case isFalse =>
      split
      case isTrue solidus => exact solidus.symm
      case isFalse => rfl

namespace TextSpelling

def ofString (s : String) : TextSpelling := ⟨s.toList.flatMap fun c => (Glyph.ofChar c).letters⟩

theorem spells_ofString (s : String) : (ofString s).Spells s := by
  refine ⟨s.toList.map Glyph.ofChar, ?_, ?_⟩
  · rw [List.flatMap_map]
    rfl
  · rw [List.map_map]
    exact (List.map_congr_left fun c _ => Glyph.char_ofChar c).trans (List.map_id _)

end TextSpelling

namespace Member

def Named (m : Member) (key : String) : Prop := m.1.value.Spells key

theorem name_node_eq_ok_iff (m : Member) (key : String) :
    m.node.1.name = .ok key ↔ m.Named key :=
  m.1.value.decode_eq_ok_iff key

theorem Named.unique {m : Member} {key key' : String} (h : m.Named key) (h' : m.Named key') :
    key = key' :=
  Except.ok.inj
    (((m.name_node_eq_ok_iff key).mpr h).symm.trans ((m.name_node_eq_ok_iff key').mpr h'))

def plain (name : String) (value : Spelling) : Member :=
  (.tight (.ofString name), .tight value)

theorem named_plain (name : String) (value : Spelling) : (plain name value).Named name :=
  TextSpelling.spells_ofString name

end Member
end RuleFeed.Json
