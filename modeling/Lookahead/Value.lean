/-!
# Structured data

Data of no fixed shape, as options are read from, and the readers of its parts.  A part that is
missing takes its default; a part of the wrong type is refused, which the readers say by giving
nothing.
-/

namespace Lookahead

/-- the largest number that can be counted to -/
def maxCount : Nat := UInt64.size - 1

inductive Value where
  | null
  | bool (b : Bool)
  /-- a number without sign, fraction or exponent -/
  | nat (n : Nat)
  /-- any other number -/
  | otherNumber
  | text (s : String)
  | list (vs : List Value)
  | object (fields : List (String × Value))
  deriving Inhabited

namespace Value

def count? : Value → Option Nat
  | nat n => if n ≤ maxCount then some n else none
  | _ => none

def bool? : Value → Option Bool
  | bool b => some b
  | _ => none

def text? : Value → Option String
  | text s => some s
  | _ => none

/-- the option of that name: its default where the name is missing, nothing where its type is
wrong -/
def field? {α : Type} (read : Value → Option α) (default : α) (name : String)
    (fields : List (String × Value)) : Option α :=
  match fields.lookup name with
  | none => some default
  | some v => read v

/-- the option at that place: its default where the list is shorter -/
def item? {α : Type} (read : Value → Option α) (default : α) (i : Nat) (vs : List Value) :
    Option α :=
  match vs[i]? with
  | none => some default
  | some v => read v

end Value

end Lookahead
