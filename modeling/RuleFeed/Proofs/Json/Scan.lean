import RuleFeed.Json.Token
import RuleFeed.Proofs.Json.Spelling

/-!
Scanning a spelling. The tokens of a text that begins with a spelling are those of the spelling
and then those of the rest. Only a number looks past its end, so the one condition is that the
rest does not continue a number; `Delimits` states it, and all that can follow a value in a
document meets it.
-/
namespace RuleFeed.Json

/-- The text does not continue a number that ends before it. -/
def Delimits (cs : List Char) : Prop :=
  ∀ c ∈ cs.head?, digit? c = none ∧ c ≠ '.' ∧ c ≠ 'e' ∧ c ≠ 'E'

namespace Delimits

theorem nil : Delimits [] := nofun

theorem cons {c : Char} (h : digit? c = none ∧ c ≠ '.' ∧ c ≠ 'e' ∧ c ≠ 'E') (cs : List Char) :
    Delimits (c :: cs) := by
  intro d mem
  obtain rfl : c = d := by simpa using mem
  exact h

theorem comma (cs : List Char) : Delimits (',' :: cs) := cons (by decide) cs

theorem closeList (cs : List Char) : Delimits (']' :: cs) := cons (by decide) cs

theorem closeObject (cs : List Char) : Delimits ('}' :: cs) := cons (by decide) cs

theorem gap (g : Gap) {cs : List Char} (h : Delimits cs) : Delimits (g.chars ++ cs) := by
  obtain ⟨chars, blank⟩ := g
  cases chars with
  | nil => exact h
  | cons c chars =>
    refine cons ?_ _
    rcases blank c List.mem_cons_self with rfl | rfl | rfl | rfl <;> decide

end Delimits

namespace Lexeme

theorem tokens_gap (g : Gap) (cs : List Char) :
    machine.run between (g.chars ++ cs) = machine.run between cs := by
  obtain ⟨chars, blank⟩ := g
  induction chars with
  | nil => rfl
  | cons c chars ih =>
    have space : machine.step between c = (between, []) := by
      rcases blank c List.mem_cons_self with rfl | rfl | rfl | rfl <;> rfl
    rw [List.cons_append, machine.run_of_silent space]
    exact ih fun d mem => blank d (List.mem_cons_of_mem c mem)

theorem tokens_word (w : Word) (cs : List Char) :
    machine.run between (w.letters ++ cs) = .word (.ok w) :: machine.run between cs := by
  cases w <;> rfl

theorem hexDigit?_char (d : HexDigit) : hexDigit? d.char = some d.value.val := by
  obtain ⟨value, upper⟩ := d
  revert value
  cases upper <;> decide

theorem utf8Size_char (d : HexDigit) : d.char.utf8Size = 1 := by
  obtain ⟨value, upper⟩ := d
  revert value
  cases upper <;> decide

theorem hexUnit?_chars (q : Quad) : hexUnit? q.chars = some (UInt16.ofNat q.value) := by
  simp only [hexUnit?, Quad.chars, hexDigit?_char, Quad.value]
  rfl

theorem tokens_letter (l : Letter) (pieces : List Piece) (cs : List Char) :
    machine.run (text .plain pieces) (l.chars ++ cs) =
      machine.run (text .plain (l.piece :: pieces)) cs := by
  cases l with
  | bare c allowed =>
    obtain ⟨printable, quote, solidus⟩ := allowed
    simp only [Letter.chars, Letter.piece, List.cons_append, List.nil_append, run_cons, step,
      stepText, if_neg quote, if_neg solidus, if_neg (Nat.not_lt.mpr printable)]
  | short e => cases e <;> rfl
  | unit q =>
    have unit := hexUnit?_chars q
    simp only [Quad.chars] at unit
    simp [Letter.chars, Letter.piece, Quad.chars, run_cons, step, stepText, byteLength,
      utf8Size_char, unit]

theorem tokens_letters (letters : List Letter) (pieces : List Piece) (cs : List Char) :
    machine.run (text .plain pieces) (letters.flatMap Letter.chars ++ '"' :: cs) =
      .text ⟨pieces.reverse ++ letters.map Letter.piece, none⟩ :: machine.run between cs := by
  induction letters generalizing pieces with
  | nil =>
    simp only [List.flatMap_nil, List.nil_append, List.map_nil, List.append_nil]
    rfl
  | cons l letters ih =>
    rw [List.flatMap_cons, List.append_assoc, tokens_letter, ih, List.reverse_cons,
      List.append_assoc, List.map_cons]
    rfl

theorem tokens_text (t : TextSpelling) (cs : List Char) :
    machine.run between (t.chars ++ cs) = .text t.text :: machine.run between cs := by
  have inside := tokens_letters t.letters [] cs
  simp only [TextSpelling.chars, List.cons_append, List.append_assoc, List.nil_append]
  exact inside

private theorem digit?_digit (d : Fin 10) : digit? (digitChar d.val) = some d.val :=
  digit?_digitChar d.isLt

def Complete (phase : NumberPhase) : Prop :=
  phase = .leadingZero ∨ phase = .whole ∨ phase = .fraction ∨ phase = .exponent

theorem tokens_endNumber {phase : NumberPhase} (complete : Complete phase) (negative : Bool)
    (n : Numeral) {cs : List Char} (h : Delimits cs) :
    machine.run (number phase negative n) cs = .number (.ok n) :: machine.run between cs := by
  cases cs with
  | nil => rcases complete with rfl | rfl | rfl | rfl <;> rfl
  | cons c cs =>
    obtain ⟨noDigit, point, lower, upper⟩ := h c rfl
    have stays : stepNumber phase negative n c = endNumber n c := by
      rcases complete with rfl | rfl | rfl | rfl <;>
        simp [stepNumber, pointOrMark, noDigit, point, lower, upper]
    simp only [run_cons, step, stays, endNumber, List.cons_append]

/-- Digits at a phase that they do not change are added one by one. -/
theorem tokens_digits {phase : NumberPhase} {negative : Bool} {add : Numeral → Nat → Numeral}
    (next : ∀ (n : Numeral) (d : Fin 10), machine.step (number phase negative n) (digitChar d.val) =
      (number phase negative (add n d.val), [])) (n : Numeral) (ds : List (Fin 10))
    (cs : List Char) :
    machine.run (number phase negative n) (digitChars ds ++ cs) =
      machine.run (number phase negative (ds.foldl (fun n d => add n d.val) n)) cs := by
  induction ds generalizing n with
  | nil => rfl
  | cons d ds ih =>
    have digits : digitChars (d :: ds) ++ cs = digitChar d.val :: (digitChars ds ++ cs) := rfl
    rw [digits, machine.run_of_silent (next n d), ih, List.foldl_cons]

theorem exponent_foldl {add : Numeral → Nat → Numeral}
    (keeps : ∀ n d, (add n d).exponent = n.exponent) (n : Numeral) (ds : List (Fin 10)) :
    (ds.foldl (fun n d => add n d.val) n).exponent = n.exponent := by
  induction ds generalizing n with
  | nil => rfl
  | cons d ds ih => rw [List.foldl_cons, ih, keeps]

def extendExponent (negative : Bool) (exponent : Int) (ds : List (Fin 10)) : Int :=
  ds.foldl (fun x d => x * 10 + if negative then -(d.val : Int) else d.val) exponent

theorem foldl_addExponent (negative : Bool) (n : Numeral) (ds : List (Fin 10)) :
    ds.foldl (fun n d => n.addExponent negative d.val) n =
      { n with exponent := extendExponent negative n.exponent ds } := by
  induction ds generalizing n with
  | nil => rfl
  | cons d ds ih =>
    rw [List.foldl_cons, ih]
    rfl

theorem tokens_exponentDigits (negative : Bool) (n : Numeral) (ds : List (Fin 10))
    (cs : List Char) :
    machine.run (number .exponent negative n) (digitChars ds ++ cs) =
      machine.run (number .exponent negative
        { n with exponent := extendExponent negative n.exponent ds }) cs := by
  rw [← foldl_addExponent]
  refine tokens_digits (fun n d => ?_) n ds cs
  simp only [machine, step, stepNumber, digit?_digit]

private def signed (negative : Bool) (k : Nat) : Int := if negative then -k else k

private theorem extendExponent_signed (negative : Bool) (k : Nat) (ds : List (Fin 10)) :
    extendExponent negative (signed negative k) ds =
      signed negative (ds.foldl (fun n d => n * 10 + d.val) k) := by
  induction ds generalizing k with
  | nil => rfl
  | cons d ds ih =>
    have digit : signed negative k * 10 + (if negative then -(d.val : Int) else d.val) =
        signed negative (k * 10 + d.val) := by
      cases negative with
      | false => simp [signed]
      | true =>
        simp only [signed, if_true]
        omega
    rw [extendExponent, List.foldl_cons, digit, List.foldl_cons, ← ih]
    rfl

private theorem tokens_exponentFirst {phase : NumberPhase} (negative : Bool)
    (start : phase = .mark ∧ negative = false ∨ phase = .markSign) (n : Numeral)
    (zero : n.exponent = 0) (ds : Digits) {cs : List Char} (h : Delimits cs) :
    machine.run (number phase negative n) (digitChars ds.list ++ cs) =
      .number (.ok { n with exponent := signed negative (digitsValue ds.list) }) ::
        machine.run between cs := by
  have text : digitChars ds.list ++ cs =
      digitChar ds.first.val :: (digitChars ds.rest ++ cs) := rfl
  have first : machine.step (number phase negative n) (digitChar ds.first.val) =
      (number .exponent negative (n.addExponent negative ds.first.val), []) := by
    rcases start with ⟨rfl, rfl⟩ | rfl <;> simp only [machine, step, stepNumber, digit?_digit]
  have value : extendExponent negative (n.addExponent negative ds.first.val).exponent ds.rest =
      signed negative (digitsValue ds.list) := by
    rw [digitsValue, ← extendExponent_signed]
    simp [Digits.list, extendExponent, Numeral.addExponent, zero, signed]
  rw [text, machine.run_of_silent first, tokens_exponentDigits,
    tokens_endNumber (by simp [Complete]) negative _ h, value]
  rfl

theorem tokens_exponent (n : Numeral) (zero : n.exponent = 0) (e : Exponent) {cs : List Char}
    (h : Delimits cs) :
    machine.run (number .mark false n) (e.sign.chars ++ digitChars e.digits.list ++ cs) =
      .number (.ok { n with exponent := e.value }) :: machine.run between cs := by
  obtain ⟨upper, sign, digits⟩ := e
  cases sign with
  | absent => exact tokens_exponentFirst false (.inl ⟨rfl, rfl⟩) n zero digits h
  | plus => exact tokens_exponentFirst false (.inr rfl) n zero digits h
  | minus => exact tokens_exponentFirst true (.inr rfl) n zero digits h

theorem tokens_optionalExponent {phase : NumberPhase} (n : Numeral) (zero : n.exponent = 0)
    (start : phase = .leadingZero ∨ phase = .whole ∨ phase = .fraction) (e : Option Exponent)
    {cs : List Char} (h : Delimits cs) :
    machine.run (number phase false n) (e.elim [] Exponent.chars ++ cs) =
      .number (.ok (NumberSpelling.withExponent n e)) :: machine.run between cs := by
  cases e with
  | none =>
    have complete : Complete phase := by
      rcases start with rfl | rfl | rfl <;> simp [Complete]
    exact tokens_endNumber complete false n h
  | some e =>
    have noDigit : digit? (if e.upper then 'E' else 'e') = none := by
      cases e.upper <;> decide
    have marked : machine.step (number phase false n) (if e.upper then 'E' else 'e') =
        (number .mark false n.mark, []) := by
      rcases start with rfl | rfl | rfl <;>
        simp only [machine, step, stepNumber, noDigit, pointOrMark] <;> cases e.upper <;> rfl
    rw [Option.elim_some, Exponent.chars, List.cons_append, machine.run_of_silent marked]
    exact tokens_exponent n.mark zero e h

theorem tokens_optionalFraction {phase : NumberPhase} (n : Numeral) (zero : n.exponent = 0)
    (start : phase = .leadingZero ∨ phase = .whole) (f : Option Digits) (e : Option Exponent)
    {cs : List Char} (h : Delimits cs) :
    machine.run (number phase false n)
        ((f.elim [] fun f => '.' :: digitChars f.list) ++ (e.elim [] Exponent.chars ++ cs)) =
      .number (.ok (NumberSpelling.withExponent (NumberSpelling.withFraction n f) e)) ::
        machine.run between cs := by
  cases f with
  | none => exact tokens_optionalExponent n zero (start.imp_right .inl) e h
  | some f =>
    have point : machine.step (number phase false n) '.' = (number .point false n.point, []) := by
      rcases start with rfl | rfl <;> rfl
    have text : digitChars f.list ++ (e.elim [] Exponent.chars ++ cs) =
        digitChar f.first.val :: (digitChars f.rest ++ (e.elim [] Exponent.chars ++ cs)) := rfl
    have first : machine.step (number .point false n.point) (digitChar f.first.val) =
        (number .fraction false (n.point.addFraction f.first.val), []) := by
      simp only [machine, step, stepNumber, digit?_digit]
    have next (m : Numeral) (d : Fin 10) :
        machine.step (number .fraction false m) (digitChar d.val) =
          (number .fraction false (m.addFraction d.val), []) := by
      simp only [machine, step, stepNumber, digit?_digit]
    rw [Option.elim_some, List.cons_append, machine.run_of_silent point, text,
      machine.run_of_silent first, tokens_digits next]
    refine tokens_optionalExponent _ ?_ (.inr (.inr rfl)) e h
    rw [exponent_foldl Numeral.exponent_addFraction, Numeral.exponent_addFraction]
    exact zero

private theorem tokens_whole (n : NumberSpelling) (cs : List Char) :
    ∃ phase, (phase = .leadingZero ∨ phase = .whole) ∧
      machine.run between ((if n.negative then ['-'] else []) ++ (digitChars n.whole.list ++ cs)) =
        machine.run (number phase false n.wholePart) cs := by
  obtain ⟨negative, whole, fraction, exponent⟩ := n
  cases whole with
  | zero =>
    refine ⟨.leadingZero, .inl rfl, ?_⟩
    cases negative <;> rfl
  | positive first rest =>
    have nonzero : ∀ d : Fin 9, machine.step between (digitChar d.succ.val) =
          (number .whole false ((Numeral.start false).addWhole d.succ.val), []) ∧
        machine.step (number .sign false (.start true)) (digitChar d.succ.val) =
          (number .whole false ((Numeral.start true).addWhole d.succ.val), []) := by
      intro ⟨d, bound⟩
      rcases d with _ | _ | _ | _ | _ | _ | _ | _ | _ | d <;> first | exact ⟨rfl, rfl⟩ | omega
    have next (m : Numeral) (d : Fin 10) : machine.step (number .whole false m) (digitChar d.val) =
        (number .whole false (m.addWhole d.val), []) := by
      simp only [machine, step, stepNumber, digit?_digit]
    have text : digitChars (Whole.positive first rest).list ++ cs =
        digitChar first.succ.val :: (digitChars rest ++ cs) := rfl
    refine ⟨.whole, .inr rfl, ?_⟩
    rw [text]
    cases negative with
    | false =>
      rw [if_neg Bool.false_ne_true, List.nil_append, machine.run_of_silent (nonzero first).1,
        tokens_digits next]
      rfl
    | true =>
      have sign : machine.step between '-' = (number .sign false (.start true), []) := rfl
      rw [if_pos rfl, List.singleton_append, machine.run_of_silent sign,
        machine.run_of_silent (nonzero first).2, tokens_digits next]
      rfl

theorem tokens_number (n : NumberSpelling) {cs : List Char} (h : Delimits cs) :
    machine.run between (n.chars ++ cs) = .number (.ok n.numeral) :: machine.run between cs := by
  obtain ⟨phase, start, whole⟩ := tokens_whole n
    ((n.fraction.elim [] fun f => '.' :: digitChars f.list) ++
      (n.exponent.elim [] Exponent.chars ++ cs))
  have zero : n.wholePart.exponent = 0 := exponent_foldl Numeral.exponent_addWhole _ _
  simp only [NumberSpelling.chars, List.append_assoc]
  rw [whole, tokens_optionalFraction _ zero start n.fraction n.exponent h]
  rfl

end Lexeme

namespace Spelling

def commaToken (started : Bool) : List Token := if started then [.comma] else []

mutual
/-- The tokens of a spelling, which white space and escapes leave no trace in. -/
def tokens : Spelling → List Token
  | word w => [.word (.ok w)]
  | number n => [.number (.ok n.numeral)]
  | text t => [.text t.text]
  | list items _ => .openList :: (itemTokens false items ++ [.closeList])
  | object members _ => .openObject :: (memberTokens false members ++ [.closeObject])

def itemTokens (started : Bool) : List (Padded Spelling) → List Token
  | [] => []
  | ⟨_, value, _⟩ :: items => commaToken started ++ value.tokens ++ itemTokens true items

def memberTokens (started : Bool) : List (Padded TextSpelling × Padded Spelling) → List Token
  | [] => []
  | (name, ⟨_, value, _⟩) :: members =>
    commaToken started ++ [.text name.value.text, .colon] ++ value.tokens ++
      memberTokens true members
end

theorem scan_comma (started : Bool) (cs : List Char) :
    Lexeme.machine.run .between (comma started ++ cs) =
      commaToken started ++ Lexeme.machine.run .between cs := by
  cases started <;> rfl

theorem delimits_itemChars (items : List (Padded Spelling)) {cs : List Char} (h : Delimits cs) :
    Delimits (itemChars true items ++ cs) := by
  cases items with
  | nil => exact h
  | cons item items => exact Delimits.comma _

theorem delimits_memberChars (members : List Member) {cs : List Char} (h : Delimits cs) :
    Delimits (memberChars true members ++ cs) := by
  cases members with
  | nil => exact h
  | cons member members => exact Delimits.comma _

open Lexeme in
mutual
theorem scan_chars (s : Spelling) {cs : List Char} (h : Delimits cs) :
    machine.run between (s.chars ++ cs) = s.tokens ++ machine.run between cs :=
  match s with
  | word w => tokens_word w cs
  | number n => tokens_number n h
  | text t => tokens_text t cs
  | list items gap => by
    have inside := scan_itemChars false items
      (Delimits.gap gap (Delimits.closeList cs))
    have opened : machine.run between ((list items gap).chars ++ cs) =
        .openList :: machine.run between (itemChars false items ++ (gap.chars ++ ']' :: cs)) := by
      simp only [chars, List.cons_append, List.append_assoc, List.nil_append]
      rfl
    rw [opened, inside, tokens_gap]
    simp only [tokens, List.cons_append, List.append_assoc]
    rfl
  | object members gap => by
    have inside := scan_memberChars false members
      (Delimits.gap gap (Delimits.closeObject cs))
    have opened : machine.run between ((object members gap).chars ++ cs) =
        .openObject ::
          machine.run between (memberChars false members ++ (gap.chars ++ '}' :: cs)) := by
      simp only [chars, List.cons_append, List.append_assoc, List.nil_append]
      rfl
    rw [opened, inside, tokens_gap]
    simp only [tokens, List.cons_append, List.append_assoc]
    rfl

theorem scan_itemChars (started : Bool) (items : List (Padded Spelling)) {cs : List Char}
    (h : Delimits cs) :
    machine.run between (itemChars started items ++ cs) =
      itemTokens started items ++ machine.run between cs :=
  match items with
  | [] => rfl
  | ⟨before, value, after⟩ :: items => by
    have here := scan_chars value (Delimits.gap after (delimits_itemChars items h))
    have rest := scan_itemChars true items h
    simp only [itemChars, itemTokens, List.append_assoc]
    rw [scan_comma, tokens_gap, here, tokens_gap, rest]

theorem scan_memberChars (started : Bool) (members : List (Padded TextSpelling × Padded Spelling))
    {cs : List Char} (h : Delimits cs) :
    machine.run between (memberChars started members ++ cs) =
      memberTokens started members ++ machine.run between cs :=
  match members with
  | [] => rfl
  | (name, ⟨before, value, after⟩) :: members => by
    have here := scan_chars value
      (Delimits.gap after (delimits_memberChars members h))
    have rest := scan_memberChars true members h
    have colon := machine.run_of_token (s := .between) (c := ':') rfl
    simp only [memberChars, memberTokens, List.append_assoc, List.cons_append, List.nil_append]
    rw [scan_comma, tokens_gap, tokens_text, tokens_gap, colon, tokens_gap, here, tokens_gap, rest]
end

end Spelling

theorem Token.scan_document (p : Padded Spelling) :
    Token.scan p.document.toList = p.value.tokens := by
  have value := Spelling.scan_chars p.value (Delimits.gap p.after .nil)
  have after : Lexeme.machine.run .between p.after.chars = [] := by
    rw [← List.append_nil p.after.chars, Lexeme.tokens_gap]
    rfl
  rw [List.append_nil] at value
  rw [Padded.document, String.toList_ofList, Padded.chars, Token.scan, List.append_assoc,
    Lexeme.tokens_gap, value, after, List.append_nil]

end RuleFeed.Json
