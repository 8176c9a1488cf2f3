import Lookahead.Reader.Scan
import Lookahead.Text.Quoted

/-!
# Tokens of a settings language

A small language of settings: the words `let`, `true` and `false`, names, numbers, text between
double quotes, and single characters for everything else.  Text ends with its line, also without a
closing quote.

* `Settings.next`     reads one token;
* `Settings.tokens`   reads all of them, up to the first failure;
* `Token.shown`        shows a token, text between quotes again.
-/

namespace Lookahead.Settings

inductive Keyword where
  | letWord
  | trueWord
  | falseWord
  deriving DecidableEq

namespace Keyword

def spelling : Keyword → List Char
  | .letWord => ['l', 'e', 't']
  | .trueWord => ['t', 'r', 'u', 'e']
  | .falseWord => ['f', 'a', 'l', 's', 'e']

/-- the words, in the order in which they are tried -/
def all : List Keyword := [.letWord, .trueWord, .falseWord]

theorem mem_all (k : Keyword) : k ∈ all := by cases k <;> simp [all]

end Keyword

inductive Token where
  | keyword (k : Keyword)
  | name (cs : List Char)
  | number (cs : List Char)
  /-- what stands between the quotes -/
  | text (cs : List Char)
  /-- any other character -/
  | mark (c : Char)
  deriving DecidableEq

/-! ## showing tokens -/

def Token.shown : Token → List Char
  | keyword k => "keyword ".toList ++ k.spelling
  | name cs => "ident   ".toList ++ cs
  | number cs => "number  ".toList ++ cs
  | text cs => "string  ".toList ++ Quoted.encode cs
  | mark c => "punct   ".toList ++ [c]

/-! ## reading tokens -/

section
variable {σ ε : Type} [Source σ ε]
open Reader Scan

/-- the first of the words that stands here -/
def acceptKeyword : List Keyword → Step σ ε (Option Keyword)
  | [] => pure none
  | k :: ks => do
    if ← acceptWord .standard k.spelling then return some k
    acceptKeyword ks

/-- goes on with a text up to its quote or the end of the line -/
def insideText (c : Char) : Bool := c != '"' && !Character.isLineEnd c

variable (limit : Nat)

/-- the token that begins with `c`, the next character -/
def beginning (c : Char) : Scan σ ε Token := do
  if let some k := ← step (acceptKeyword Keyword.all) then return .keyword k
  if Character.isNameStart c then
    return .name (← takeWhile Character.isNameChar limit)
  if Character.isDigit c then
    return .number (← takeWhile Character.isDigit limit)
  if ← step (acceptChar '"') then
    let cs ← takeWhile insideText limit
    let _ ← step (acceptChar '"')
    return .text cs
  let _ ← step read
  return .mark c

def next : Scan σ ε (Option Token) := do
  skipTrivia .standard limit
  match ← step peek with
  | none => return none
  | some c => return some (← beginning limit c)

/-- the tokens up to the end of the input or the first failure, and that failure -/
def tokens : Scan σ ε (List Token × Option (ReadError ε)) := collect (next limit) limit

end

/-- how far ahead a reader of settings looks where nothing else is said -/
def readerOptions : ReaderOptions := { capacity := 8 }

end Lookahead.Settings
