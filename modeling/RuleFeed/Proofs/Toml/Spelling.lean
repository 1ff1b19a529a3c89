import RuleFeed.Proofs.Json.Writable
import RuleFeed.Toml.Document

/-!
TOML texts as they can be spelled, as far as a table of plain values needs them: assignments and
headers of tables and of further elements of a list of tables. A line fixes the blanks between its
parts, whether a key stands bare or in quotes, and the escapes in a string. Which text stands for
which lines is said here without a reader; it is the grammar of TOML 1.0 with basic strings and
decimal integers. Every sequence of assignments and headers has a text.
-/
namespace RuleFeed

/-- A value that JSON and TOML both have, without loss. -/
inductive Scalar where
  | text (s : String)
  | bool (b : Bool)
  | integer (z : Int64)
  deriving DecidableEq

namespace Toml

structure Blanks where
  chars : List Char
  blank : ∀ c ∈ chars, c = ' ' ∨ c = '\t'

def Blanks.none : Blanks := ⟨[], nofun⟩

def Blanks.space : Blanks := ⟨[' '], by simp⟩

abbrev IsBasic (c : Char) : Prop :=
  (0x20 ≤ c.toNat ∨ c = '\t') ∧ c.toNat ≠ 0x7f ∧ c ≠ '"' ∧ c ≠ '\\'

inductive Glyph where
  | basic (c : Char) (allowed : IsBasic c)
  | short (e : Json.Escape) (allowed : e ≠ .solidus)
  | code (c : Char) (q : Json.Quad) (names : q.value = c.toNat)
  | longCode (c : Char) (high low : Json.Quad) (names : high.value * 0x10000 + low.value = c.toNat)

namespace Glyph

def char : Glyph → Char
  | basic c _ => c
  | short e _ => e.char
  | code c _ _ => c
  | longCode c _ _ _ => c

def chars : Glyph → List Char
  | basic c _ => [c]
  | short e _ => ['\\', e.letter]
  | code _ q _ => '\\' :: 'u' :: q.chars
  | longCode _ high low _ => '\\' :: 'U' :: (high.chars ++ low.chars)

end Glyph

def quoted (glyphs : List Glyph) : List Char := '"' :: (glyphs.flatMap Glyph.chars ++ ['"'])

inductive WritesText (s : String) : List Char → Prop
  | intro {glyphs : List Glyph} (spelled : glyphs.map Glyph.char = s.toList) :
      WritesText s (quoted glyphs)

abbrev IsBareKey (c : Char) : Prop := c.isAlphanum = true ∨ c = '-' ∨ c = '_'

inductive WritesKey (key : String) : List Char → Prop
  | bare (some : key ≠ "") (allowed : ∀ c ∈ key.toList, IsBareKey c) : WritesKey key key.toList
  | quoted {cs : List Char} (text : WritesText key cs) : WritesKey key cs

inductive WritesScalar : Scalar → List Char → Prop
  | text {s : String} {cs : List Char} (text : WritesText s cs) : WritesScalar (.text s) cs
  | bool (b : Bool) : WritesScalar (.bool b) (if b then "true" else "false").toList
  | integer {n : Json.NumberSpelling} {z : Int64} (decimal : n.Decimal z.toInt) :
      WritesScalar (.integer z) n.chars

inductive Item where
  | entry (key : String) (v : Scalar)
  | table (name : String)
  | further (name : String)

/-- A line, which may be blank, without its end. -/
inductive WritesLine : List Char → List Item → Prop
  | blank (gap : Blanks) : WritesLine gap.chars []
  | entry {key : String} {v : Scalar} {k cs : List Char} (front before behind last : Blanks)
      (named : WritesKey key k) (written : WritesScalar v cs) :
      WritesLine
        (front.chars ++ (k ++ (before.chars ++ '=' :: (behind.chars ++ (cs ++ last.chars)))))
        [.entry key v]
  | table {name : String} {k : List Char} (front before behind last : Blanks)
      (named : WritesKey name k) :
      WritesLine
        (front.chars ++ '[' :: (before.chars ++ (k ++ (behind.chars ++ ']' :: last.chars))))
        [.table name]
  | further {name : String} {k : List Char} (front before behind last : Blanks)
      (named : WritesKey name k) :
      WritesLine
        (front.chars ++
          '[' :: '[' :: (before.chars ++ (k ++ (behind.chars ++ ']' :: ']' :: last.chars))))
        [.further name]

def lineEnd (carriageReturn : Bool) : List Char := if carriageReturn then ['\r', '\n'] else ['\n']

inductive Writes : List Char → List Item → Prop
  | nil : Writes [] []
  | line {cs rest : List Char} {items more : List Item} (first : WritesLine cs items)
      (carriageReturn : Bool) (others : Writes rest more) :
      Writes (cs ++ (lineEnd carriageReturn ++ rest)) (items ++ more)

theorem toNat_lt_of_not_basic {c : Char} (special : ¬IsBasic c) : c.toNat < 0x10000 := by
  refine Nat.lt_of_not_le fun large =>
    special ⟨.inl (by omega), by omega, fun mark => ?_, fun mark => ?_⟩
  all_goals
    rw [mark] at large
    exact absurd large (by decide)

def Glyph.ofChar (c : Char) : Glyph :=
  if allowed : IsBasic c then .basic c allowed
  else .code c (.ofNat c.toNat) (Json.Quad.value_ofNat (toNat_lt_of_not_basic allowed))

theorem Glyph.char_ofChar (c : Char) : (ofChar c).char = c := by
  unfold ofChar
  split <;> rfl

theorem exists_writesText (s : String) : ∃ cs, WritesText s cs := by
  have spelled : (s.toList.map Glyph.ofChar).map Glyph.char = s.toList := by
    rw [List.map_map]
    exact (List.map_congr_left fun c _ => Glyph.char_ofChar c).trans (List.map_id _)
  exact ⟨_, .intro spelled⟩

theorem exists_writesScalar (v : Scalar) : ∃ cs, WritesScalar v cs := by
  cases v with
  | text s =>
    obtain ⟨cs, text⟩ := exists_writesText s
    exact ⟨cs, .text text⟩
  | bool b => exact ⟨_, .bool b⟩
  | integer z =>
    obtain ⟨n, decimal⟩ := Json.NumberSpelling.exists_decimal z.toInt
    exact ⟨_, .integer decimal⟩

theorem exists_writesLine (i : Item) : ∃ cs, WritesLine cs [i] := by
  cases i with
  | entry key v =>
    obtain ⟨k, named⟩ := exists_writesText key
    obtain ⟨cs, value⟩ := exists_writesScalar v
    exact ⟨_, .entry .none .space .space .none (.quoted named) value⟩
  | table name =>
    obtain ⟨k, named⟩ := exists_writesText name
    exact ⟨_, .table .none .none .none .none (.quoted named)⟩
  | further name =>
    obtain ⟨k, named⟩ := exists_writesText name
    exact ⟨_, .further .none .none .none .none (.quoted named)⟩

theorem exists_writes (items : List Item) : ∃ text : String, Writes text.toList items := by
  have chars : ∃ cs, Writes cs items := by
    induction items with
    | nil => exact ⟨[], .nil⟩
    | cons i items ih =>
      obtain ⟨cs, first⟩ := exists_writesLine i
      obtain ⟨rest, others⟩ := ih
      exact ⟨_, .line first false others⟩
  obtain ⟨cs, written⟩ := chars
  exact ⟨String.ofList cs, by rwa [String.toList_ofList]⟩

end Toml
end RuleFeed
