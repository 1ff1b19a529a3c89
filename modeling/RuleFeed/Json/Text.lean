import RuleFeed.Json.Fault

/-!
String literals as their pieces. A literal is kept with the fault that stopped it, if one did, so
that a reader who only skips the literal and one who wants its text find each its own first fault:
pairing of surrogate escapes matters to the second reader alone.
-/
namespace RuleFeed.Json

inductive Piece where
  | char (c : Char)
  | unit (u : UInt16)
  deriving DecidableEq, Repr

structure Text where
  pieces : List Piece
  fault : Option Fault
  deriving DecidableEq, Repr

def isHighSurrogate (u : UInt16) : Bool := 0xD800 ≤ u && u ≤ 0xDBFF

def isLowSurrogate (u : UInt16) : Bool := 0xDC00 ≤ u && u ≤ 0xDFFF

def surrogatePair (high low : UInt16) : Char :=
  Char.ofNat (0x10000 + (high.toNat - 0xD800) * 0x400 + (low.toNat - 0xDC00))

def characters (fault : Option Fault) : List Piece → Reading (List Char)
  | [] =>
    match fault with
    | none => .ok []
    | some f => .error f
  | .char c :: rest => do
    let cs ← characters fault rest
    return c :: cs
  | .unit u :: rest =>
    if isLowSurrogate u then .error .malformed
    else if isHighSurrogate u then
      match rest with
      | [] => .error (fault.getD .malformed)
      | .char _ :: _ => .error .malformed
      | .unit v :: rest =>
        if isLowSurrogate v then do
          let cs ← characters fault rest
          return surrogatePair u v :: cs
        else .error .malformed
    else do
      let cs ← characters fault rest
      return Char.ofNat u.toNat :: cs

namespace Text

def ofString (s : String) : Text := ⟨s.toList.map .char, none⟩

def decode (t : Text) : Reading String :=
  (characters t.fault t.pieces).map String.ofList

def skip (t : Text) : Reading Unit :=
  match t.fault with
  | none => .ok ()
  | some f => .error f

private theorem characters_map_char (cs : List Char) :
    characters none (cs.map .char) = .ok cs := by
  induction cs with
  | nil => rfl
  | cons c cs ih =>
    simp only [List.map_cons, characters, ih]
    rfl

@[simp] theorem decode_ofString (s : String) : (ofString s).decode = .ok s := by
  simp only [decode, ofString, characters_map_char, Except.map, String.ofList_toList]

end Text
end RuleFeed.Json
