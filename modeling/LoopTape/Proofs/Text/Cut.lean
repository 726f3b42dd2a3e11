/-! A text cut at a mark.

What is written in front of a mark is found again if the mark does not occur in it, whatever stands behind.
-/

set_option autoImplicit false

namespace LoopTape

def cut? (mark : Char) : List Char → Option (List Char × List Char)
  | [] => none
  | c :: rest =>
    if c = mark then some ([], rest)
    else (cut? mark rest).map fun (front, behind) => (c :: front, behind)

theorem cut?_append {mark : Char} {front : List Char} (behind : List Char) (missing : mark ∉ front) :
    cut? mark (front ++ mark :: behind) = some (front, behind) := by
  induction front with
  | nil => simp [cut?]
  | cons c rest ih =>
    obtain ⟨other, later⟩ := List.ne_and_not_mem_of_not_mem_cons missing
    rw [List.cons_append, cut?, if_neg (Ne.symm other), ih later]
    rfl

theorem cut?_eq_none {mark : Char} {text : List Char} (missing : mark ∉ text) :
    cut? mark text = none := by
  induction text with
  | nil => rfl
  | cons c rest ih =>
    obtain ⟨other, later⟩ := List.ne_and_not_mem_of_not_mem_cons missing
    rw [cut?, if_neg (Ne.symm other), ih later]
    rfl

theorem eq_append_of_cut? {mark : Char} {text front behind : List Char}
    (cut : cut? mark text = some (front, behind)) : text = front ++ mark :: behind := by
  induction text generalizing front with
  | nil => cases cut
  | cons c rest ih =>
    rw [cut?] at cut
    split at cut
    · next same =>
      cases cut
      rw [same, List.nil_append]
    · obtain ⟨⟨first, second⟩, found, pair⟩ := Option.map_eq_some_iff.mp cut
      cases pair
      rw [ih found, List.cons_append]

end LoopTape
