/-! The three literal words. -/
namespace RuleFeed.Json

inductive Word where
  | null
  | true
  | false
  deriving DecidableEq, Repr

def Word.letters : Word → List Char
  | .null => ['n', 'u', 'l', 'l']
  | .true => ['t', 'r', 'u', 'e']
  | .false => ['f', 'a', 'l', 's', 'e']

end RuleFeed.Json
