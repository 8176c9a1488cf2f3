import Lookahead.Value

/-!
# Checked steps

A machine counts up to `maxCount` and keeps its data in slots that are numbered from zero.  It stops
where a sum is larger than it can count, where more is taken away than there is, and where a slot or
a stretch of slots is not there.  The steps here are the single ones of a program, each with the
check that the machine makes.

* `Fault`                      why a machine stops;
* `Checked.plus`, `Checked.minus`, `Checked.rem`      counting;
* `Checked.get`, `Checked.set`, `Checked.slice`       slots;
* `Checked.copyInto`, `Checked.copyWithin`            moving what stands in several slots.
-/

namespace Lookahead

/-- why a machine stops -/
inductive Fault where
  /-- a sum is larger than the largest count -/
  | overflow
  /-- more is taken away than there is -/
  | underflow
  /-- a remainder is asked for of a division by zero -/
  | division
  /-- a slot, or a stretch of slots, is not there -/
  | bounds
  /-- what is copied is not as long as the stretch it is to fill -/
  | lengths
  /-- what was taken for granted is not so -/
  | assertion
  deriving DecidableEq

namespace Checked

/-! ## going on without a fault -/

@[simp] theorem ok_bind {α β : Type} (a : α) (f : α → Except Fault β) :
    (Except.ok a >>= f) = f a := rfl

@[simp] theorem pure_eq {α : Type} (a : α) : (pure a : Except Fault α) = .ok a := rfl

/-! ## counting -/

def plus (a b : Nat) : Except Fault Nat :=
  if a + b ≤ maxCount then .ok (a + b) else .error .overflow

def minus (a b : Nat) : Except Fault Nat := if b ≤ a then .ok (a - b) else .error .underflow

def rem (a b : Nat) : Except Fault Nat := if b = 0 then .error .division else .ok (a % b)

def ensure (p : Prop) [Decidable p] : Except Fault Unit :=
  if p then .ok () else .error .assertion

theorem plus_of_le {a b : Nat} (h : a + b ≤ maxCount) : plus a b = .ok (a + b) := if_pos h

theorem minus_of_le {a b : Nat} (h : b ≤ a) : minus a b = .ok (a - b) := if_pos h

theorem rem_of_pos {b : Nat} (h : 0 < b) (a : Nat) : rem a b = .ok (a % b) :=
  if_neg (Nat.ne_of_gt h)

theorem ensure_of {p : Prop} [Decidable p] (h : p) : ensure p = .ok () := if_pos h

/-! ## slots -/

section
variable {α : Type}

def get (xs : Array α) (i : Nat) : Except Fault α :=
  if h : i < xs.size then .ok xs[i] else .error .bounds

def set (xs : Array α) (i : Nat) (a : α) : Except Fault (Array α) :=
  if i < xs.size then .ok (xs.setIfInBounds i a) else .error .bounds

def slice (xs : Array α) (i j : Nat) : Except Fault (List α) :=
  if i ≤ j ∧ j ≤ xs.size then .ok (xs.extract i j).toList else .error .bounds

/-- a destination with `as` from `i` on and before `j`, which must be as long -/
def copyInto (dst : List α) (i j : Nat) (as : List α) : Except Fault (List α) :=
  if i ≤ j ∧ j ≤ dst.length then
    if as.length = j - i then .ok (dst.take i ++ as ++ dst.drop j) else .error .lengths
  else .error .bounds

/-- what stands in the slots from `i` on and before `j` goes to the slots from `k` on too -/
def copyWithin (xs : Array α) (i j k : Nat) : Except Fault (Array α) :=
  if i ≤ j ∧ j ≤ xs.size ∧ k ≤ xs.size - (j - i) then
    .ok (xs.extract 0 k ++ xs.extract i j ++ xs.extract (k + (j - i)) xs.size)
  else .error .bounds

theorem get_of_lt {xs : Array α} {i : Nat} (h : i < xs.size) (a : α) :
    get xs i = .ok (xs.getD i a) := by
  rw [get, dif_pos h, Array.getD_eq_getD_getElem?, Array.getElem?_eq_getElem h, Option.getD_some]

theorem set_of_lt {xs : Array α} {i : Nat} (h : i < xs.size) (a : α) :
    set xs i a = .ok (xs.setIfInBounds i a) := if_pos h

theorem slice_of_le {xs : Array α} {i j : Nat} (hij : i ≤ j) (hj : j ≤ xs.size) :
    slice xs i j = .ok (xs.extract i j).toList := if_pos ⟨hij, hj⟩

theorem copyInto_of_le {dst as : List α} {i j : Nat} (hij : i ≤ j) (hj : j ≤ dst.length)
    (has : as.length = j - i) :
    copyInto dst i j as = .ok (dst.take i ++ as ++ dst.drop j) := by
  rw [copyInto, if_pos ⟨hij, hj⟩, if_pos has]

theorem copyInto_front {dst as : List α} {i : Nat} (hi : i ≤ dst.length) (has : as.length = i) :
    copyInto dst 0 i as = .ok (as ++ dst.drop i) := by
  rw [copyInto_of_le (Nat.zero_le i) hi has, List.take_zero, List.nil_append]

theorem copyInto_after {dst as bs : List α} {i j : Nat} (has : as.length = i) (hij : i ≤ j)
    (hj : j ≤ dst.length) (hbs : bs.length = j - i) :
    copyInto (as ++ dst.drop i) i j bs = .ok (as ++ bs ++ dst.drop j) := by
  have hlen : (as ++ dst.drop i).length = dst.length := by
    rw [List.length_append, List.length_drop]
    omega
  rw [copyInto_of_le hij (hlen ▸ hj) hbs, List.take_left' has, List.drop_append, has,
    List.drop_eq_nil_of_le (by omega), List.nil_append, List.drop_drop, Nat.add_sub_of_le hij]

/-- moving a stretch to the front leaves nothing before it -/
theorem copyWithin_front {xs : Array α} {i j : Nat} (hij : i ≤ j) (hj : j ≤ xs.size) :
    copyWithin xs i j 0 = .ok (xs.extract i j ++ xs.extract (j - i) xs.size) := by
  rw [copyWithin, if_pos ⟨hij, hj, Nat.zero_le _⟩, Array.extract_zero, Array.empty_append,
    Nat.zero_add]

end

end Checked

end Lookahead
