import RuleFeed.Proofs.Json.Scan
import RuleFeed.Proofs.Toml.Spelling

/-!
The tokens of a spelled text. Blanks and bare words are runs that the next character ends; a string
ends itself, but for the empty one, which a third quote would make a long one. A carriage return
stands nowhere but before a line feed, where it is dropped.
-/
namespace RuleFeed

namespace Json.Quad

def digits (q : Quad) : List HexDigit := [q.first, q.second, q.third, q.fourth]

theorem foldl_digits (q : Quad) (n : Nat) :
    q.digits.foldl (fun n d => n * 16 + d.value.val) n = n * 0x10000 + q.value := by
  simp only [digits, List.foldl_cons, List.foldl_nil, value]
  omega

end Json.Quad

namespace Toml

/-- The first character, if there is one, does not belong to the kind. -/
def Stops (p : Char → Bool) (cs : List Char) : Prop := ∀ c ∈ cs.head?, p c = false

namespace Stops

variable {p : Char → Bool}

theorem nil : Stops p [] := nofun

theorem cons {c : Char} (other : p c = false) (cs : List Char) : Stops p (c :: cs) := by
  intro d mem
  obtain rfl : c = d := by simpa using mem
  exact other

end Stops

namespace Lexeme

theorem tokens_endBefore {l : Lexeme} {t : Token} {c : Char}
    (ends : machine.step l c = endBefore t c) (cs : List Char) :
    machine.run l (c :: cs) = t :: machine.run between (c :: cs) := by
  rw [Machine.run, ends]
  rfl

/-- A run of characters, up to one that does not go on with it or the end of the text. -/
theorem tokens_run (run : List Char → Lexeme) (token : List Char → Token) {p : Char → Bool}
    (goes : ∀ seen c, p c = true → machine.step (run seen) c = (run (c :: seen), []))
    (stops : ∀ seen c, p c = false → machine.step (run seen) c = endBefore (token seen.reverse) c)
    (finished : ∀ seen, (run seen).finish = [token seen.reverse]) (seen cs : List Char)
    (each : ∀ c ∈ cs, p c = true) {ds : List Char} (stop : Stops p ds) :
    machine.run (run seen) (cs ++ ds) = token (seen.reverse ++ cs) :: machine.run between ds := by
  induction cs generalizing seen with
  | nil =>
    rw [List.nil_append, List.append_nil]
    cases ds with
    | nil => exact finished seen
    | cons c ds => exact tokens_endBefore (stops seen c (stop c rfl)) ds
  | cons c cs ih =>
    obtain ⟨first, rest⟩ := List.forall_mem_cons.mp each
    rw [List.cons_append, machine.run_of_silent (goes seen c first), ih (c :: seen) rest]
    simp

end Lexeme

def Blanks.tokens (b : Blanks) : List Token := if b.chars = [] then [] else [.blank b.chars]

theorem Blanks.isSpace (b : Blanks) : ∀ c ∈ b.chars, Toml.isSpace c = true := by
  intro c mem
  rcases b.blank c mem with rfl | rfl <;> rfl

theorem Lexeme.tokens_blanks (b : Blanks) {cs : List Char} (stop : Stops isSpace cs) :
    machine.run between (b.chars ++ cs) = b.tokens ++ machine.run between cs := by
  have spaces := b.isSpace
  obtain ⟨chars, blank⟩ := b
  cases chars with
  | nil => rfl
  | cons c chars =>
    obtain ⟨first, rest⟩ := List.forall_mem_cons.mp spaces
    have begins : machine.step between c = (.blank [c], []) := by
      rcases blank c List.mem_cons_self with rfl | rfl <;> rfl
    rw [List.cons_append, machine.run_of_silent begins]
    exact tokens_run .blank .blank (fun seen c space => if_pos space)
      (fun seen c other => if_neg (Bool.eq_false_iff.mp other)) (fun _ => rfl) [c] chars rest stop

theorem Lexeme.first_of_continuesBare {c : Char} (continues : continuesBare c = true) :
    first c = (.bare [c], []) := by
  simp only [continuesBare, Bool.and_eq_true, Bool.not_eq_true', Option.isNone_iff_eq_none,
    bne_iff_ne, ne_eq] at continues
  obtain ⟨⟨⟨⟨⟨mark, space⟩, control⟩, comment⟩, double⟩, single⟩ := continues
  simp [first, mark, space, control, comment, double, single]

theorem Lexeme.tokens_bare {letters : List Char} (nonempty : letters ≠ [])
    (each : ∀ c ∈ letters, continuesBare c = true) {cs : List Char}
    (stop : Stops continuesBare cs) :
    machine.run between (letters ++ cs) = .bare letters :: machine.run between cs := by
  obtain ⟨c, letters, rfl⟩ := List.exists_cons_of_ne_nil nonempty
  obtain ⟨first, rest⟩ := List.forall_mem_cons.mp each
  have begins : machine.step between c = (.bare [c], []) := first_of_continuesBare first
  rw [List.cons_append, machine.run_of_silent begins]
  exact tokens_run .bare .bare (fun seen c goes => if_pos goes)
    (fun seen c other => if_neg (Bool.eq_false_iff.mp other)) (fun _ => rfl) [c] letters rest stop

theorem scalar?_toNat (c : Char) : scalar? c.toNat = some c := by
  have valid : c.toNat.isValidChar := c.valid
  rw [scalar?, if_pos valid, Char.ofNat_toNat]

namespace Lexeme

variable {seen : List Char}

/-- The digits of a code point, the number of them being as many as are owed. -/
theorem tokens_code (ds : List Json.HexDigit) (nonempty : ds ≠ []) (value : Nat) {c : Char}
    (names : ds.foldl (fun n d => n * 16 + d.value.val) value = c.toNat) (cs : List Char) :
    machine.run (lineEscape (.code ds.length value) seen) (ds.map Json.HexDigit.char ++ cs) =
      machine.run (line .double (c :: seen)) cs := by
  induction ds generalizing value with
  | nil => exact absurd rfl nonempty
  | cons d ds ih =>
    have digit := Json.Lexeme.hexDigit?_char d
    rw [List.map_cons, List.cons_append]
    cases ds with
    | nil =>
      have named : value * 16 + d.value.val = c.toNat := names
      have last : machine.step (lineEscape (.code [d].length value) seen) d.char =
          (line .double (c :: seen), []) := by
        simp [machine, step, stepEscape, digit, named, scalar?_toNat]
      exact machine.run_of_silent last _
    | cons e ds =>
      have next : machine.step (lineEscape (.code (d :: e :: ds).length value) seen) d.char =
          (lineEscape (.code (e :: ds).length (value * 16 + d.value.val)) seen, []) := by
        simp [machine, step, stepEscape, digit]
      rw [machine.run_of_silent next]
      exact ih (List.cons_ne_nil e ds) _ names

theorem isControl_of_basic {c : Char} (allowed : IsBasic c) : isControl c = false := by
  obtain ⟨printable, delete, -, -⟩ := allowed
  rcases printable with large | rfl
  · simp [isControl, delete, Nat.not_lt.mpr large]
  · rfl

theorem step_basic {c : Char} (allowed : IsBasic c) :
    machine.step (line .double seen) c = (line .double (c :: seen), []) := by
  obtain ⟨-, -, quote, solidus⟩ := id allowed
  simp [machine, step, stepLine, Quote.char, quote, solidus, isControl_of_basic allowed]

theorem tokens_glyph (g : Glyph) (cs : List Char) :
    machine.run (line .double seen) (g.chars ++ cs) =
      machine.run (line .double (g.char :: seen)) cs := by
  have solidus : machine.step (line .double seen) '\\' = (lineEscape .letter seen, []) := rfl
  cases g with
  | basic c allowed => exact machine.run_of_silent (step_basic allowed) cs
  | short e allowed =>
    have named : machine.step (lineEscape .letter seen) e.letter =
        (line .double (e.char :: seen), []) := by
      cases e with
      | solidus => exact absurd rfl allowed
      | _ => rfl
    simp only [Glyph.chars, Glyph.char, List.cons_append, List.nil_append]
    rw [machine.run_of_silent solidus, machine.run_of_silent named]
  | code c q names =>
    have begins : machine.step (lineEscape .letter seen) 'u' =
        (lineEscape (.code q.digits.length 0) seen, []) := rfl
    have digits : q.digits.foldl (fun n d => n * 16 + d.value.val) 0 = c.toNat := by
      rw [q.foldl_digits, names, Nat.zero_mul, Nat.zero_add]
    simp only [Glyph.chars, Glyph.char, List.cons_append]
    rw [machine.run_of_silent solidus, machine.run_of_silent begins]
    exact tokens_code q.digits (List.cons_ne_nil _ _) 0 digits cs
  | longCode c high low names =>
    have begins : machine.step (lineEscape .letter seen) 'U' =
        (lineEscape (.code (high.digits ++ low.digits).length 0) seen, []) := rfl
    have digits : (high.digits ++ low.digits).foldl (fun n d => n * 16 + d.value.val) 0 =
        c.toNat := by
      rw [List.foldl_append, high.foldl_digits, low.foldl_digits, ← names, Nat.zero_mul,
        Nat.zero_add]
    simp only [Glyph.chars, Glyph.char, List.cons_append]
    rw [machine.run_of_silent solidus, machine.run_of_silent begins]
    exact tokens_code (high.digits ++ low.digits) (List.cons_ne_nil _ _) 0 digits cs

theorem tokens_glyphs (glyphs : List Glyph) (seen cs : List Char) :
    machine.run (line .double seen) (glyphs.flatMap Glyph.chars ++ '"' :: cs) =
      .text (textOf ((glyphs.map Glyph.char).reverse ++ seen)) :: machine.run between cs := by
  induction glyphs generalizing seen with
  | nil => rfl
  | cons g glyphs ih =>
    rw [List.flatMap_cons, List.append_assoc, tokens_glyph, ih, List.map_cons, List.reverse_cons,
      List.append_assoc]
    rfl

/-- Behind its quote a string that is not empty is read like the rest of one. -/
theorem tokens_opening (g : Glyph) (cs : List Char) :
    machine.run (opening .double) (g.chars ++ cs) =
      machine.run (line .double []) (g.chars ++ cs) := by
  have other {c : Char} (quote : c ≠ '"') :
      machine.step (opening .double) c = machine.step (line .double []) c := by
    simp [machine, step, Quote.char, quote]
  cases g with
  | basic c allowed =>
    simp only [Glyph.chars, List.cons_append, Machine.run]
    rw [other allowed.2.2.1]
  | _ => rfl

theorem tokens_text {s : String} {cs ds : List Char} (written : WritesText s cs)
    (stop : Stops (· == '"') ds) :
    machine.run between (cs ++ ds) = .text s :: machine.run between ds := by
  obtain @⟨glyphs, spelled⟩ := written
  have begins : machine.step between '"' = (opening .double, []) := rfl
  simp only [quoted, List.cons_append, List.append_assoc, List.nil_append]
  rw [machine.run_of_silent begins]
  cases glyphs with
  | nil =>
    have empty : machine.step (opening .double) '"' = (emptyText .double, []) := rfl
    have same : s = "" := String.toList_eq_nil_iff.mp spelled.symm
    rw [List.flatMap_nil, List.nil_append, machine.run_of_silent empty, same]
    cases ds with
    | nil => rfl
    | cons d ds =>
      refine tokens_endBefore ?_ ds
      have other := stop d rfl
      simp only [machine, step, Quote.char, other, Bool.false_eq_true, if_false]
  | cons g glyphs =>
    have whole := tokens_glyphs (g :: glyphs) [] ds
    rw [List.flatMap_cons, List.append_assoc] at whole ⊢
    rw [tokens_opening, whole, List.append_nil, textOf, List.reverse_reverse, spelled,
      String.ofList_toList]

end Lexeme
end Toml
end RuleFeed
