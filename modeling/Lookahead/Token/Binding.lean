import Lookahead.Reader.Scan

/-!
# Tokens of a binding language

A small language of bindings: the word `let`, names, numbers, text between double quotes, the arrow
`=>`, and single characters for everything else.  Text goes on over line ends up to the next quote
or the end of the input.

* `Binding.next`     reads one token;
* `Binding.tokens`   reads all of them;
* `Binding.render`   shows them, one line for each.
-/

namespace Lookahead.Binding

inductive Token where
  /-- the word `let` -/
  | letWord
  | name (cs : List Char)
  | number (cs : List Char)
  /-- what stands between the quotes -/
  | text (cs : List Char)
  /-- the arrow `=>` -/
  | arrow
  /-- any other character -/
  | mark (c : Char)
  deriving DecidableEq

/-! ## showing tokens -/

def Token.shown : Token → List Char
  | letWord => "keyword let".toList
  | name cs => "ident ".toList ++ cs
  | number cs => "number ".toList ++ cs
  | text cs => "string ".toList ++ cs
  | arrow => "punct =>".toList
  | mark c => "punct ".toList ++ [c]

/-- the tokens one after another, each on a line of its own -/
def render (ts : List Token) : List Char := ts.flatMap fun t => t.shown ++ ['\n']

/-! ## reading tokens -/

section
variable {σ ε : Type} [Source σ ε] (limit : Nat)
open Reader Scan

/-- the token that begins with `c`, the next character -/
def beginning (c : Char) : Scan σ ε Token := do
  if ← step (acceptWord .standard ['l', 'e', 't']) then return .letWord
  if Character.isNameStart c then
    return .name (← takeWhile Character.isNameChar limit)
  if Character.isDigit c then
    return .number (← takeWhile Character.isDigit limit)
  if ← step (acceptChar '"') then
    let cs ← takeWhile (· != '"') limit
    let _ ← step (acceptChar '"')
    return .text cs
  if ← step (acceptText ['=', '>']) then return .arrow
  let _ ← step read
  return .mark c

def next : Scan σ ε (Option Token) := do
  skipTrivia .standard limit
  match ← step peek with
  | none => return none
  | some c => return some (← beginning limit c)

def tokens : Scan σ ε (List Token) := do
  match ← collect (next limit) limit with
  | (ts, none) => return ts
  | (_, some e) => throw (.error e)

/-- all tokens to the end of the input, shown -/
def listing : Scan σ ε (List Char) := render <$> tokens limit

end

end Lookahead.Binding
