/-!
# Rows of one length

Rows of one length that follow one another are counted by division: so many full rows, and so many
places in the next one.

* `length_rows` -- how many there are in all;
* `getElem?_rows` -- what stands in a place.
-/

namespace Cantilena

variable {α β : Type} {f : α → List β} {l : List α} {size : Nat}

theorem length_rows (hsize : ∀ a ∈ l, (f a).length = size) :
    (l.flatMap f).length = l.length * size := by
  induction l with
  | nil => rw [List.flatMap_nil, List.length_nil, List.length_nil, Nat.zero_mul]
  | cons a l ih =>
    obtain ⟨hfirst, hrest⟩ := List.forall_mem_cons.mp hsize
    rw [List.flatMap_cons, List.length_append, hfirst, ih hrest, List.length_cons, Nat.succ_mul,
      Nat.add_comm]

/-- **What stands in a place** stands in the row of the quotient, in the place of the remainder. -/
theorem getElem?_rows (hpos : 0 < size) (hsize : ∀ a ∈ l, (f a).length = size) (i : Nat) :
    (l.flatMap f)[i]? = l[i / size]?.bind fun a => (f a)[i % size]? := by
  induction l generalizing i with
  | nil => rfl
  | cons a l ih =>
    obtain ⟨hfirst, hrest⟩ := List.forall_mem_cons.mp hsize
    rw [List.flatMap_cons]
    rcases Nat.lt_or_ge i size with hi | hi
    · rw [List.getElem?_append_left (hfirst ▸ hi), Nat.div_eq_of_lt hi, Nat.mod_eq_of_lt hi]
      rfl
    · obtain ⟨k, rfl⟩ := Nat.exists_eq_add_of_le hi
      rw [List.getElem?_append_right (hfirst ▸ hi), hfirst, Nat.add_sub_cancel_left, ih hrest,
        Nat.add_div_left k hpos, Nat.add_mod_left]
      rfl

end Cantilena
