import RuleFeed.Proofs.Toml.Bare
import RuleFeed.Proofs.Toml.Scan

/-!
The statements of a spelled text. The tokens of a line lead the machine from the beginning of a line
to the beginning of the next, and what it hands out on the way is what the line says; so a text is
read as the statements of its lines.
-/
namespace RuleFeed

def Scalar.toml : Scalar → Toml.Value
  | text s => .text s
  | bool b => .bool b
  | integer z => .integer z.toInt

namespace Toml

def Item.statement : Item → Statement
  | entry key v => .assign ⟨[], key⟩ v.toml
  | table name => .table ⟨[], name⟩
  | further name => .further ⟨[], name⟩

theorem toNat_lt_of_bareKey {c : Char} (allowed : IsBareKey c) : c.toNat < 128 := by
  rcases allowed with alphanumeric | rfl | rfl
  · change ((decide (65 ≤ c.val ∧ c.val ≤ 90) || (decide (97 ≤ c.val) && decide (c.val ≤ 122))) ||
      (decide (48 ≤ c.val) && decide (c.val ≤ 57))) = true at alphanumeric
    simp only [Bool.or_eq_true, Bool.and_eq_true, decide_eq_true_eq, UInt32.le_iff_toNat_le]
      at alphanumeric
    change (65 ≤ c.toNat ∧ c.toNat ≤ 90 ∨ 97 ≤ c.toNat ∧ c.toNat ≤ 122) ∨
      48 ≤ c.toNat ∧ c.toNat ≤ 57 at alphanumeric
    omega
  · decide
  · decide

theorem continuesBare_of_bareKey {c : Char} (allowed : IsBareKey c) :
    Lexeme.continuesBare c = true := by
  have ascii : ∀ n < 128,
      IsBareKey (Char.ofNat n) → Lexeme.continuesBare (Char.ofNat n) = true := by
    decide +kernel
  have here := ascii c.toNat (toNat_lt_of_bareKey allowed)
  rw [Char.ofNat_toNat] at here
  exact here allowed

theorem continuesBare_of_decimal {n : Json.NumberSpelling} {z : Int} (decimal : n.Decimal z) :
    ∀ c ∈ n.chars, Lexeme.continuesBare c = true := by
  have digit : ∀ d : Fin 10, Lexeme.continuesBare (digitChar d.val) = true := by decide
  intro c mem
  rw [decimal.chars_eq, List.mem_append] at mem
  rcases mem with sign | digits
  · split at sign
    · obtain rfl := List.mem_singleton.mp sign
      rfl
    · cases sign
  · obtain ⟨d, rfl⟩ := mem_digitChars digits
    exact digit d

/-- Something that can stand behind a key or a value comes first. -/
def Ends (cs : List Char) : Prop := ∀ c ∈ cs.head?, c ∈ [' ', '\t', '=', ']', '\n']

namespace Ends

theorem cons {c : Char} (allowed : c ∈ [' ', '\t', '=', ']', '\n']) (cs : List Char) :
    Ends (c :: cs) := by
  intro d mem
  obtain rfl : c = d := by simpa using mem
  exact allowed

theorem blanks (b : Blanks) {cs : List Char} (h : Ends cs) : Ends (b.chars ++ cs) := by
  obtain ⟨chars, blank⟩ := b
  cases chars with
  | nil => exact h
  | cons c chars =>
    refine cons ?_ _
    rcases blank c List.mem_cons_self with rfl | rfl <;> decide

theorem stops_bare {cs : List Char} (h : Ends cs) : Stops Lexeme.continuesBare cs := by
  intro c mem
  have none : ∀ d ∈ [' ', '\t', '=', ']', '\n'], Lexeme.continuesBare d = false := by
    simp only [List.forall_mem_cons, List.not_mem_nil, false_imp_iff, implies_true, and_true]
    decide
  exact none c (h c mem)

theorem stops_quote {cs : List Char} (h : Ends cs) : Stops (· == '"') cs := by
  intro c mem
  have none : ∀ d ∈ [' ', '\t', '=', ']', '\n'], (d == '"') = false := by
    simp only [List.forall_mem_cons, List.not_mem_nil, false_imp_iff, implies_true, and_true]
    decide
  exact none c (h c mem)

end Ends

theorem stops_space_of_bare {letters : List Char} (nonempty : letters ≠ [])
    (each : ∀ c ∈ letters, Lexeme.continuesBare c = true) (cs : List Char) :
    Stops isSpace (letters ++ cs) := by
  obtain ⟨c, letters, rfl⟩ := List.exists_cons_of_ne_nil nonempty
  refine .cons ?_ _
  have first := each c List.mem_cons_self
  simp only [Lexeme.continuesBare, Bool.and_eq_true, Bool.not_eq_true'] at first
  exact first.1.1.1.1.2

theorem WritesText.stops_space {s : String} {cs : List Char} (written : WritesText s cs)
    (ds : List Char) : Stops isSpace (cs ++ ds) := by
  obtain ⟨_⟩ := written
  exact .cons rfl _

variable {key : String} {k cs : List Char} {v : Scalar}

theorem WritesKey.stops_space (named : WritesKey key k) (ds : List Char) :
    Stops isSpace (k ++ ds) := by
  cases named with
  | bare nonempty allowed =>
    exact stops_space_of_bare (mt String.toList_eq_nil_iff.mp nonempty)
      (fun c mem => continuesBare_of_bareKey (allowed c mem)) ds
  | quoted text => exact text.stops_space ds

theorem WritesKey.exists_token (named : WritesKey key k) :
    ∃ t, State.name? t = some key ∧ ∀ ds, Ends ds →
      Lexeme.machine.run .between (k ++ ds) = t :: Lexeme.machine.run .between ds := by
  cases named with
  | bare nonempty allowed =>
    refine ⟨.bare key.toList, ?_, fun ds ends => Lexeme.tokens_bare
      (mt String.toList_eq_nil_iff.mp nonempty)
      (fun c mem => continuesBare_of_bareKey (allowed c mem)) ends.stops_bare⟩
    have all : key.toList.all State.isKeyChar = true := by
      simpa [State.isKeyChar, or_assoc] using allowed
    simp only [State.name?, all, if_true, String.ofList_toList]
  | quoted text => exact ⟨.text key, rfl, fun ds ends => Lexeme.tokens_text text ends.stops_quote⟩

/-- The token is all there is of the value. -/
inductive Token.Denotes : Token → Scalar → Prop
  | text (s : String) : Denotes (.text s) (.text s)
  | bare {letters : List Char} {v : Scalar} (value : Value.ofBare? letters = some v.toml)
      (plain : isDate letters = false) : Denotes (.bare letters) v

theorem fitsInt64_toInt (z : Int64) : fitsInt64 z.toInt = true := by
  have low := z.le_toInt
  have high := z.toInt_lt
  simp only [fitsInt64, Bool.and_eq_true, decide_eq_true_eq]
  omega

/-- A value without quotes is one bare word. -/
theorem WritesScalar.cases_word (written : WritesScalar v cs) :
    (∃ s, v = .text s ∧ WritesText s cs) ∨
      cs ≠ [] ∧ (∀ c ∈ cs, Lexeme.continuesBare c = true) ∧ (Token.bare cs).Denotes v := by
  cases written with
  | text text => exact .inl ⟨_, rfl, text⟩
  | bool b =>
    cases b with
    | false => exact .inr ⟨by decide, List.all_eq_true.mp (by decide), .bare rfl rfl⟩
    | true => exact .inr ⟨by decide, List.all_eq_true.mp (by decide), .bare rfl rfl⟩
  | @integer n z decimal =>
    have nonempty : n.chars ≠ [] := by
      rw [decimal.chars_eq]
      cases n.whole <;> simp [Json.digitChars, Json.Whole.list]
    exact .inr ⟨nonempty, continuesBare_of_decimal decimal,
      .bare (ofBare?_decimal decimal (fitsInt64_toInt z)) (isDate_of_decimal decimal)⟩

theorem WritesScalar.stops_space (written : WritesScalar v cs) (ds : List Char) :
    Stops isSpace (cs ++ ds) := by
  rcases written.cases_word with ⟨s, -, text⟩ | ⟨nonempty, each, -⟩
  · exact text.stops_space ds
  · exact stops_space_of_bare nonempty each ds

theorem WritesScalar.exists_token (written : WritesScalar v cs) :
    ∃ t : Token, t.Denotes v ∧ ∀ ds, Ends ds →
      Lexeme.machine.run .between (cs ++ ds) = t :: Lexeme.machine.run .between ds := by
  rcases written.cases_word with ⟨s, rfl, text⟩ | ⟨nonempty, each, denotes⟩
  · exact ⟨.text s, .text s, fun ds ends => Lexeme.tokens_text text ends.stops_quote⟩
  · exact ⟨.bare cs, denotes, fun ds ends => Lexeme.tokens_bare nonempty each ends.stops_bare⟩

namespace State

theorem statements_of_silent {s s' : State} {t : Token} (silent : s.step t = (s', []))
    (ts : List Token) : s.statements (t :: ts) = s'.statements ts := by
  rw [statements, silent]
  exact Option.map_id'

theorem statements_of_step {s s' : State} {t : Token} {out : Statement}
    (step : s.step t = (s', [out])) (ts : List Token) :
    s.statements (t :: ts) = (s'.statements ts).map (out :: ·) := by
  rw [statements, step]
  rfl

theorem statements_blanks {s : State} (stays : ∀ spaces, s.step (.blank spaces) = (s, []))
    (b : Blanks) (ts : List Token) : s.statements (b.tokens ++ ts) = s.statements ts := by
  by_cases none : b.chars = []
  · rw [Blanks.tokens, if_pos none]
    rfl
  · rw [Blanks.tokens, if_neg none]
    exact statements_of_silent (stays _) ts

variable {t : Token} {n : String} {ts : List Token}

theorem step_line (named : name? t = some n) : line.step t = (.named .assignment [] n, []) := by
  cases t with
  | bare letters => simp only [step, stepSettled, named, stay]
  | text s => simp only [step, stepSettled, named, stay]
  | _ => cases named

theorem step_name (named : name? t = some n) (use : KeyUse) :
    (name use []).step t = (.named use [] n, []) := by
  cases t with
  | bare letters => simp only [step, stepSettled, named, stay]
  | text s => simp only [step, stepSettled, named, stay]
  | _ => cases named

theorem statements_bracket (named : name? t = some n) (b : Blanks) (ts : List Token) :
    bracket.statements (b.tokens ++ t :: ts) = (State.named .header [] n).statements ts := by
  by_cases none : b.chars = []
  · have begins : bracket.step t = (.named .header [] n, []) := by
      cases t with
      | bare letters => simp only [step, stepSettled, named, stay]
      | text s => simp only [step, stepSettled, named, stay]
      | _ => cases named
    rw [Blanks.tokens, if_pos none, List.nil_append, statements_of_silent begins]
  · have blank : bracket.step (.blank b.chars) = (.name .header [], []) := rfl
    rw [Blanks.tokens, if_neg none, List.singleton_append, statements_of_silent blank,
      statements_of_silent (step_name named .header)]

/-- A word that is no date ends at any blank. -/
theorem step_bare_blank {letters : List Char} (plain : isDate letters = false) (nest : Nest)
    (spaces : List Char) :
    (bare letters nest).step (.blank spaces) = endBareBefore letters nest (.blank spaces) := by
  by_cases single : spaces = [' ']
  · subst single
    simp only [step, plain, Bool.false_eq_true, if_false]
  · simp [step, single]

theorem statements_value {v : Scalar} (denotes : t.Denotes v) (key : Path) (b : Blanks)
    (ts : List Token) :
    (value ⟨key, []⟩).statements (t :: (b.tokens ++ .newline :: ts)) =
      (line.statements ts).map (.assign key v.toml :: ·) := by
  have newline : lineEnd.step .newline = (line, []) := rfl
  cases denotes with
  | text s =>
    have ends : (value ⟨key, []⟩).step (.text s) = (.lineEnd, [.assign key (.text s)]) := rfl
    rw [statements_of_step ends, statements_blanks (fun _ => rfl), statements_of_silent newline]
    rfl
  | @bare letters v read plain =>
    have begins : (value ⟨key, []⟩).step (.bare letters) = (.bare letters ⟨key, []⟩, []) := rfl
    have ends : endBare letters ⟨key, []⟩ = (.lineEnd, [.assign key v.toml]) := by
      rw [endBare, read]
      rfl
    rw [statements_of_silent begins]
    by_cases none : b.chars = []
    · have last : (bare letters ⟨key, []⟩).step .newline = (.line, [.assign key v.toml]) := by
        change endBareBefore letters ⟨key, []⟩ .newline = _
        rw [endBareBefore, ends]
        rfl
      rw [Blanks.tokens, if_pos none, List.nil_append, statements_of_step last]
    · have last : (bare letters ⟨key, []⟩).step (.blank b.chars) =
          (.lineEnd, [.assign key v.toml]) := by
        rw [step_bare_blank plain, endBareBefore, ends]
        rfl
      rw [Blanks.tokens, if_neg none, List.singleton_append, statements_of_step last,
        statements_of_silent newline]

end State

theorem statements_line {cs : List Char} {items : List Item} (written : WritesLine cs items)
    (rest : List Char) :
    State.line.statements (Lexeme.machine.run .between (cs ++ '\n' :: rest)) =
      (State.line.statements (Lexeme.machine.run .between rest)).map
        (items.map Item.statement ++ ·) := by
  have newline := Lexeme.machine.run_of_token (s := .between) (c := '\n') rfl
  have equals := Lexeme.machine.run_of_token (s := .between) (c := '=') rfl
  have opens := Lexeme.machine.run_of_token (s := .between) (c := '[') rfl
  have closes := Lexeme.machine.run_of_token (s := .between) (c := ']') rfl
  have space : Stops isSpace ('\n' :: rest) := .cons rfl _
  have next : State.line.step .newline = (.line, []) := rfl
  have ended : State.lineEnd.step .newline = (.line, []) := rfl
  cases written with
  | blank gap =>
    rw [Lexeme.tokens_blanks gap space, State.statements_blanks (fun _ => rfl), newline,
      State.statements_of_silent next]
    exact Option.map_id'.symm
  | @entry key v k cs front before behind last named value =>
    obtain ⟨t, name, key_tokens⟩ := named.exists_token
    obtain ⟨u, denotes, value_tokens⟩ := value.exists_token
    have assigns : (State.named .assignment [] key).step .equals =
        (.value ⟨⟨[], key⟩, []⟩, []) := rfl
    simp only [List.append_assoc, List.cons_append]
    rw [Lexeme.tokens_blanks front (named.stops_space _), State.statements_blanks (fun _ => rfl),
      key_tokens _ (.blanks before (.cons (by decide) _)),
      State.statements_of_silent (State.step_line name),
      Lexeme.tokens_blanks before (.cons rfl _), State.statements_blanks (fun _ => rfl), equals,
      State.statements_of_silent assigns, Lexeme.tokens_blanks behind (value.stops_space _),
      State.statements_blanks (fun _ => rfl), value_tokens _ (.blanks last (.cons (by decide) _)),
      Lexeme.tokens_blanks last space, newline, State.statements_value denotes]
    rfl
  | @table name k front before behind last named =>
    obtain ⟨t, read, key_tokens⟩ := named.exists_token
    have bracket : State.line.step .openList = (.bracket, []) := rfl
    have ends : (State.named .header [] name).step .closeList =
        (.lineEnd, [.table ⟨[], name⟩]) := rfl
    simp only [List.append_assoc, List.cons_append]
    rw [Lexeme.tokens_blanks front (.cons rfl _), State.statements_blanks (fun _ => rfl), opens,
      State.statements_of_silent bracket, Lexeme.tokens_blanks before (named.stops_space _),
      key_tokens _ (.blanks behind (.cons (by decide) _)), State.statements_bracket read,
      Lexeme.tokens_blanks behind (.cons rfl _), State.statements_blanks (fun _ => rfl), closes,
      State.statements_of_step ends, Lexeme.tokens_blanks last space,
      State.statements_blanks (fun _ => rfl), newline, State.statements_of_silent ended]
    rfl
  | @further name k front before behind last named =>
    obtain ⟨t, read, key_tokens⟩ := named.exists_token
    have bracket : State.line.step .openList = (.bracket, []) := rfl
    have second : State.bracket.step .openList = (.name .furtherHeader [], []) := rfl
    have first_end : (State.named .furtherHeader [] name).step .closeList =
        (.closing ⟨[], name⟩, []) := rfl
    have ends : (State.closing ⟨[], name⟩).step .closeList =
        (.lineEnd, [.further ⟨[], name⟩]) := rfl
    simp only [List.append_assoc, List.cons_append]
    rw [Lexeme.tokens_blanks front (.cons rfl _), State.statements_blanks (fun _ => rfl), opens,
      State.statements_of_silent bracket, opens, State.statements_of_silent second,
      Lexeme.tokens_blanks before (named.stops_space _), State.statements_blanks (fun _ => rfl),
      key_tokens _ (.blanks behind (.cons (by decide) _)),
      State.statements_of_silent (State.step_name read .furtherHeader),
      Lexeme.tokens_blanks behind (.cons rfl _), State.statements_blanks (fun _ => rfl), closes,
      State.statements_of_silent first_end, closes, State.statements_of_step ends,
      Lexeme.tokens_blanks last space, State.statements_blanks (fun _ => rfl), newline,
      State.statements_of_silent ended]
    rfl

theorem not_mem_of_bare {letters : List Char}
    (each : ∀ c ∈ letters, Lexeme.continuesBare c = true) : '\r' ∉ letters :=
  fun mem => absurd (each '\r' mem) (by decide)

theorem Blanks.not_mem (b : Blanks) : '\r' ∉ b.chars :=
  fun mem => absurd (b.blank '\r' mem) (by decide)

theorem Glyph.not_mem (g : Glyph) : '\r' ∉ g.chars := by
  have digit (d : Json.HexDigit) : '\r' ≠ d.char := by
    obtain ⟨value, upper⟩ := d
    revert value
    cases upper <;> decide
  cases g with
  | basic c allowed =>
    intro mem
    obtain rfl := List.mem_singleton.mp mem
    exact absurd allowed (by decide)
  | short e allowed => cases e <;> simp [chars, Json.Escape.letter]
  | code c q names => simp [chars, Json.Quad.chars, digit]
  | longCode c high low names => simp [chars, Json.Quad.chars, digit]

theorem WritesText.not_mem {s : String} {cs : List Char} (written : WritesText s cs) :
    '\r' ∉ cs := by
  obtain @⟨glyphs, -⟩ := written
  simp [Toml.quoted, Glyph.not_mem]

theorem WritesKey.not_mem (named : WritesKey key k) : '\r' ∉ k := by
  cases named with
  | bare nonempty allowed =>
    exact not_mem_of_bare fun c mem => continuesBare_of_bareKey (allowed c mem)
  | quoted text => exact text.not_mem

theorem WritesScalar.not_mem (written : WritesScalar v cs) : '\r' ∉ cs := by
  rcases written.cases_word with ⟨s, -, text⟩ | ⟨-, each, -⟩
  · exact text.not_mem
  · exact not_mem_of_bare each

theorem WritesLine.not_mem {items : List Item} (written : WritesLine cs items) : '\r' ∉ cs := by
  cases written with
  | blank gap => exact gap.not_mem
  | entry front before behind last named value =>
    simp [Blanks.not_mem, named.not_mem, value.not_mem]
  | table front before behind last named => simp [Blanks.not_mem, named.not_mem]
  | further front before behind last named => simp [Blanks.not_mem, named.not_mem]

theorem unifyLines_append {cs : List Char} (plain : '\r' ∉ cs) (ds : List Char) :
    unifyLines (cs ++ ds) = cs ++ unifyLines ds := by
  induction cs with
  | nil => rfl
  | cons c cs ih =>
    have first : c ≠ '\r' := fun same => plain (same ▸ List.mem_cons_self)
    have rest := ih fun mem => plain (List.mem_cons_of_mem c mem)
    rw [List.cons_append, unifyLines, rest]
    · rfl
    · exact fun _ same _ => first same

/-- A text is read as what its lines say. -/
theorem Writes.statements {items : List Item} (written : Writes cs items) :
    State.line.statements (Lexeme.machine.run .between (unifyLines cs)) =
      some (items.map Item.statement) := by
  induction written with
  | nil => rfl
  | line first carriageReturn others ih =>
    have ends (rest : List Char) :
        unifyLines (lineEnd carriageReturn ++ rest) = '\n' :: unifyLines rest := by
      cases carriageReturn <;> rfl
    rw [unifyLines_append first.not_mem, ends, statements_line first, ih, List.map_append]
    rfl

theorem Stops.blanks {p : Char → Bool} (space : p ' ' = false) (tab : p '\t' = false) (b : Blanks)
    {cs : List Char} (h : Stops p cs) : Stops p (b.chars ++ cs) := by
  obtain ⟨chars, blank⟩ := b
  cases chars with
  | nil => exact h
  | cons c chars =>
    refine .cons ?_ _
    rcases blank c List.mem_cons_self with rfl | rfl
    · exact space
    · exact tab

theorem WritesKey.stops_mark (named : WritesKey key k) (ds : List Char) :
    Stops (· == '\ufeff') (k ++ ds) := by
  cases named with
  | bare nonempty allowed =>
    obtain ⟨c, rest, front⟩ := List.exists_cons_of_ne_nil (mt String.toList_eq_nil_iff.mp nonempty)
    rw [front] at allowed ⊢
    refine .cons (p := (· == '\ufeff')) (beq_false_of_ne ?_) _
    rintro rfl
    exact absurd (toNat_lt_of_bareKey (allowed _ List.mem_cons_self)) (by decide)
  | quoted text =>
    obtain ⟨_⟩ := text
    exact .cons rfl _

theorem Writes.stops_mark {items : List Item} (written : Writes cs items) :
    Stops (· == '\ufeff') cs := by
  cases written with
  | nil => exact .nil
  | @line line rest _ _ first carriageReturn others =>
    have ends : Stops (· == '\ufeff') (lineEnd carriageReturn ++ rest) := by
      cases carriageReturn <;> exact .cons rfl _
    cases first with
    | blank gap => exact .blanks rfl rfl gap ends
    | entry front before behind last named value =>
      simp only [List.append_assoc]
      exact .blanks rfl rfl front (named.stops_mark _)
    | table front before behind last named =>
      simp only [List.append_assoc]
      exact .blanks rfl rfl front (.cons rfl _)
    | further front before behind last named =>
      simp only [List.append_assoc]
      exact .blanks rfl rfl front (.cons rfl _)

theorem dropMark_of_stops {cs : List Char} (h : Stops (· == '\ufeff') cs) : dropMark cs = cs := by
  unfold dropMark
  split
  · exact absurd (h _ rfl) (by decide)
  · rfl

theorem Statement.read_of_writes {text : String} {items : List Item}
    (written : Writes text.toList items) : read text = some (items.map Item.statement) := by
  rw [read, Token.scan, dropMark_of_stops written.stops_mark, written.statements]

end Toml
end RuleFeed
