/-! A list of bytes that is written to at any position. -/

namespace Comp310.Lib

/-- `bytes` put at a position of `content`, which grows as far as it has to; what
lies between its old end and the position is zero. -/
def overwrite (content : List UInt8) (pos : Nat) (bytes : List UInt8) : List UInt8 :=
  content.take pos ++ List.replicate (pos - content.length) 0 ++ bytes ++ content.drop (pos + bytes.length)

variable {content bytes : List UInt8} {pos : Nat}

theorem overwrite_length (positive : 0 < bytes.length) :
    (overwrite content pos bytes).length = max content.length (pos + bytes.length) := by
  simp only [overwrite, List.length_append, List.length_take, List.length_replicate, List.length_drop]
  omega

theorem overwrite_all (short : content.length ≤ bytes.length) : overwrite content 0 bytes = bytes := by
  simp [overwrite, List.drop_eq_nil_of_le short]

theorem overwrite_append (front rest : List UInt8) : overwrite (front ++ rest) front.length bytes = front ++ bytes ++ rest.drop bytes.length := by
  have reached : front.length - (front ++ rest).length = 0 := by
    rw [List.length_append]
    omega
  rw [overwrite, List.take_left, reached, List.drop_append, List.drop_eq_nil_of_le (Nat.le_add_right _ _), Nat.add_sub_cancel_left]
  simp only [List.replicate_zero, List.append_nil, List.nil_append]

/-- Lists are the same when they have the same length and the same bytes. -/
theorem bytes_ext {first second : List UInt8} (length : first.length = second.length)
    (same : ∀ i < first.length, first.getD i 0 = second.getD i 0) : first = second := by
  apply List.ext_getElem length
  intro i inside inside'
  simpa [inside, inside'] using same i inside

theorem overwrite_getD (i : Nat) : (overwrite content pos bytes).getD i 0 =
    if pos ≤ i ∧ i < pos + bytes.length then bytes.getD (i - pos) 0 else content.getD i 0 := by
  have head : (content.take pos ++ List.replicate (pos - content.length) 0).length = pos := by
    simp only [List.length_append, List.length_take, List.length_replicate]
    omega
  simp only [overwrite, List.getD_eq_getElem?_getD]
  by_cases before : i < pos
  · rw [if_neg (by omega), List.append_assoc, List.getElem?_append_left (by omega)]
    by_cases inside : i < content.length
    · rw [List.getElem?_append_left (by rw [List.length_take]; omega), List.getElem?_take_of_lt before]
    · rw [List.getElem?_append_right (by rw [List.length_take]; omega), List.getElem?_eq_none (l := content) (by omega),
        List.getElem?_replicate]
      split <;> rfl
  · by_cases inside : i < pos + bytes.length
    · rw [if_pos ⟨by omega, inside⟩, List.getElem?_append_left (by rw [List.length_append, head]; exact inside),
        List.getElem?_append_right (by rw [head]; omega), head]
    · rw [if_neg (by omega), List.getElem?_append_right (by rw [List.length_append, head]; omega), List.length_append, head,
        List.getElem?_drop, Nat.add_sub_cancel' (by omega)]

end Comp310.Lib
