import EthBatch.Abi.Encode

/-!
# Heads and tails

The parts of a container are laid out one after the other: cutting the list of parts cuts the
head and the tail at corresponding places. An offset in the head is the distance at which the
tail of its part begins, so it leads to the body of that part.
-/

namespace EthBatch.Abi.Layout

@[simp] theorem headSize_nil : headSize [] = 0 := rfl

@[simp] theorem headSize_cons (p : Part) (ps : List Part) :
    headSize (p :: ps) = p.headSize + headSize ps := rfl

@[simp] theorem tail_nil : tail [] = [] := rfl

@[simp] theorem tail_cons (p : Part) (ps : List Part) :
    tail (p :: ps) = (if p.inTail then p.body else []) ++ tail ps := rfl

theorem head_append (ps qs : List Part) (offset : Nat) :
    head (ps ++ qs) offset = head ps offset ++ head qs (offset + (tail ps).length) := by
  induction ps generalizing offset with
  | nil => simp [head]
  | cons p ps ih =>
      cases hp : p.inTail <;> simp [head, hp, ih, Nat.add_assoc]

@[simp] theorem length_head (ps : List Part) (offset : Nat) :
    (head ps offset).length = headSize ps := by
  induction ps generalizing offset with
  | nil => rfl
  | cons p ps ih => cases hp : p.inTail <;> simp [head, hp, ih, Part.headSize]

theorem length_join (ps : List Part) : (join ps).length = headSize ps + (tail ps).length := by
  simp [join]

/-- The body of a part is no longer than the whole. -/
theorem length_body_le {p : Part} {ps : List Part} (h : p ∈ ps) :
    p.body.length ≤ (join ps).length := by
  rw [length_join]
  induction ps with
  | nil => simp at h
  | cons q ps ih =>
      simp only [headSize_cons, tail_cons, List.length_append]
      rcases List.mem_cons.mp h with rfl | h
      · cases hp : p.inTail <;> simp [Part.headSize, hp] <;> omega
      · have := ih h
        omega

end EthBatch.Abi.Layout
