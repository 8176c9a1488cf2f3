import Lookahead.Character.Space
import Lookahead.Rules
import Lookahead.Value

/-!
# Options

Options are read from structured data and written to it.  They are given by name, where a missing
option takes its default and unknown names are ignored, or in order, where the last ones may be
missing but none may be added.  An option of the wrong type is refused.

* `ReaderOptions`   how far a reader looks ahead;
* `RuleOptions`     the lexical rules that can be chosen without writing predicates.
-/

namespace Lookahead

/-! ## how far a reader looks ahead -/

structure ReaderOptions where
  /-- how many characters can be looked at ahead -/
  capacity : Nat := 128
  deriving DecidableEq

namespace ReaderOptions

/-- the options taken where nothing is said -/
def standard : ReaderOptions := {}

def ofValue? : Value → Option ReaderOptions
  | .object fields => do
    let capacity ← Value.field? Value.count? standard.capacity "capacity" fields
    return { capacity }
  | .list vs => do
    guard (vs.length ≤ 1)
    let capacity ← Value.item? Value.count? standard.capacity 0 vs
    return { capacity }
  | _ => none

def toValue (o : ReaderOptions) : Value := .object [("capacity", .nat o.capacity)]

/-- what was written is read back -/
theorem ofValue?_toValue (o : ReaderOptions) (h : o.capacity ≤ maxCount) :
    ofValue? o.toValue = some o := by
  simp [ofValue?, toValue, Value.field?, Value.count?, h]

end ReaderOptions

/-! ## the lexical rules to choose from -/

structure RuleOptions where
  /-- what begins a comment -/
  commentPrefix : String := "#"
  /-- all white space of Unicode is blank -/
  unicodeBlanks : Bool := false
  deriving DecidableEq

namespace RuleOptions

/-- the options taken where nothing is said -/
def standard : RuleOptions := {}

/-- the default rules with another way to begin a comment -/
def lineComments (start : String) : RuleOptions := { commentPrefix := start }

def rules (o : RuleOptions) : Rules where
  isBlank c := Character.isBlank c || (o.unicodeBlanks && Character.isSpace c)
  commentStart := o.commentPrefix.toList

def ofValue? : Value → Option RuleOptions
  | .object fields => do
    let commentPrefix ← Value.field? Value.text? standard.commentPrefix "comment_prefix" fields
    let unicodeBlanks ←
      Value.field? Value.bool? standard.unicodeBlanks "allow_unicode_whitespace" fields
    return { commentPrefix, unicodeBlanks }
  | .list vs => do
    guard (vs.length ≤ 2)
    let commentPrefix ← Value.item? Value.text? standard.commentPrefix 0 vs
    let unicodeBlanks ← Value.item? Value.bool? standard.unicodeBlanks 1 vs
    return { commentPrefix, unicodeBlanks }
  | _ => none

def toValue (o : RuleOptions) : Value :=
  .object [("comment_prefix", .text o.commentPrefix),
    ("allow_unicode_whitespace", .bool o.unicodeBlanks)]

/-- what was written is read back -/
theorem ofValue?_toValue (o : RuleOptions) : ofValue? o.toValue = some o := by
  simp [ofValue?, toValue, Value.field?, Value.text?, Value.bool?, List.lookup_cons]

theorem rules_standard : standard.rules = Rules.standard := by
  simp [standard, rules, Rules.standard]

end RuleOptions

end Lookahead
