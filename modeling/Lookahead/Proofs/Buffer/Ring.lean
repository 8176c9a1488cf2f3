import Lookahead.Buffer.Window

/-!
# Positions on the ring

A ring position is counted on from the first slot and `wrap` brings it back to a slot.  `around i k`
reads `k` slots from position `i` on; here is how it is cut, and when writing a slot leaves it as it
was.

* `around_add`         a run of slots is two shorter ones, the second going on where the first ends;
* `around_push`        writing the tail changes no run that does not meet it;
* `around_push_tail`   a run that ends at the tail grows by the character that is written.
-/

namespace Lookahead.Buffer

/-! ## wrapping -/

section
variable (b : Buffer)

theorem wrap_lt (h : 0 < b.capacity) (i : Nat) : b.wrap i < b.capacity := Nat.mod_lt i h

theorem wrap_of_lt {i : Nat} (h : i < b.capacity) : b.wrap i = i := Nat.mod_eq_of_lt h

theorem wrap_wrap_add (i j : Nat) : b.wrap (b.wrap i + j) = b.wrap (i + j) :=
  Nat.mod_add_mod i b.capacity j

theorem wrap_capacity : b.wrap b.capacity = 0 := Nat.mod_self _

theorem wrap_ne {i j : Nat} (hij : i < j) (hj : j < i + b.capacity) : b.wrap i ≠ b.wrap j := by
  intro h
  have hz : (j - i) % b.capacity = 0 := Nat.sub_mod_eq_zero_of_mod_eq h.symm
  rw [Nat.mod_eq_of_lt (show j - i < b.capacity by omega)] at hz
  omega

/-! ## runs of slots -/

theorem length_around (i k : Nat) : (b.around i k).length = k := by
  simp [around]

theorem around_zero (i : Nat) : b.around i 0 = [] := rfl

theorem around_one (i : Nat) : b.around i 1 = [b.slot (b.wrap i)] := rfl

theorem around_add (i j k : Nat) : b.around i (j + k) = b.around i j ++ b.around (i + j) k := by
  simp only [around, List.range_add, List.map_append, List.map_map]
  congr 1
  apply List.map_congr_left
  intro l _
  show b.slot (b.wrap (i + (j + l))) = b.slot (b.wrap (i + j + l))
  rw [Nat.add_assoc]

theorem around_wrap (i k : Nat) : b.around (b.wrap i) k = b.around i k := by
  apply List.map_congr_left
  intro j _
  rw [wrap_wrap_add]

theorem take_around {j k : Nat} (i : Nat) (h : j ≤ k) : (b.around i k).take j = b.around i j := by
  obtain ⟨l, rfl⟩ := Nat.exists_eq_add_of_le h
  rw [around_add, List.take_left' (length_around b i j)]

theorem drop_around {j k : Nat} (i : Nat) (h : j ≤ k) :
    (b.around i k).drop j = b.around (i + j) (k - j) := by
  obtain ⟨l, rfl⟩ := Nat.exists_eq_add_of_le h
  rw [around_add, List.drop_left' (length_around b i j), Nat.add_sub_cancel_left]

theorem around_eq_extract {i k : Nat} (h : i + k ≤ b.capacity) :
    b.around i k = (b.slots.extract i (i + k)).toList := by
  have hs : i + k ≤ b.slots.size := h
  apply List.ext_getElem
  · rw [length_around, Array.length_toList, Array.size_extract]
    omega
  · intro j hj _
    rw [length_around] at hj
    have hw : b.wrap (i + j) = i + j := b.wrap_of_lt (by omega)
    have hlt : i + j < b.slots.size := by omega
    simp [around, slot, hw, hlt]

end

/-! ## writing a slot -/

section
variable {b : Buffer} (c : Char)

theorem capacity_push : (b.push c).capacity = b.capacity := Array.size_setIfInBounds

theorem wrap_push (i : Nat) : (b.push c).wrap i = b.wrap i := by
  show i % (b.push c).capacity = i % b.capacity
  rw [capacity_push]

theorem slot_push_of_ne {i : Nat} (h : i ≠ b.tail) : (b.push c).slot i = b.slot i := by
  show (b.slots.setIfInBounds b.tail c).getD i '\x00' = b.slots.getD i '\x00'
  rw [Array.getD_eq_getD_getElem?, Array.getD_eq_getD_getElem?,
    Array.getElem?_setIfInBounds_ne h.symm]

theorem slot_push_tail (h : b.tail < b.capacity) : (b.push c).slot b.tail = c := by
  show (b.slots.setIfInBounds b.tail c).getD b.tail '\x00' = c
  rw [Array.getD_eq_getD_getElem?, Array.getElem?_setIfInBounds_self_of_lt h, Option.getD_some]

theorem around_push {i k : Nat} (h : ∀ j < k, b.wrap (i + j) ≠ b.tail) :
    (b.push c).around i k = b.around i k := by
  apply List.map_congr_left
  intro j hj
  rw [wrap_push, slot_push_of_ne c (h j (List.mem_range.1 hj))]

/-- a run that ends where the tail is, and is shorter than a turn, takes in what is written -/
theorem around_push_tail {i k : Nat} (hk : k < b.capacity) (ht : b.tail = b.wrap (i + k)) :
    (b.push c).around i k = b.around i k ∧ (b.push c).around (i + k) 1 = [c] := by
  constructor
  · apply around_push
    intro j hj
    rw [ht]
    exact b.wrap_ne (by omega) (by omega)
  · have hlt : b.tail < b.capacity := ht ▸ b.wrap_lt (by omega) (i + k)
    rw [around_one, wrap_push, ← ht, slot_push_tail c hlt]

end

end Lookahead.Buffer
