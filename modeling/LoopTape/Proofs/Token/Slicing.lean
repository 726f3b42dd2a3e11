import LoopTape.Proofs.Token.Tiling

/-! Parts of a text that are lexed alone.

A piece of a text that starts where one of its tokens starts, and stops where one stops, has those of
its tokens that lie in it. Where a text starts makes no difference but to the places of its tokens.
-/

set_option autoImplicit false

namespace LoopTape

def Placed.shift (p : Placed) (offset : Nat) : Placed := ⟨p.token, p.span.shift offset⟩

/-- Where the last token stops, or `start` if there is none. -/
def lastStop (start : Nat) (placed : List Placed) : Nat :=
  (placed.getLast?.map (·.span.stop)).getD start

@[simp] theorem lastStop_nil (start : Nat) : lastStop start [] = start := rfl

@[simp] theorem lastStop_cons (start : Nat) (p : Placed) (rest : List Placed) :
    lastStop start (p :: rest) = lastStop p.span.stop rest := by
  cases rest with
  | nil => rfl
  | cons next rest => simp [lastStop, List.getLast?_cons]

@[simp] theorem lastStop_append (start : Nat) (a b : List Placed) :
    lastStop start (a ++ b) = lastStop (lastStop start a) b := by
  induction a generalizing start with
  | nil => rfl
  | cons p rest ih => rw [List.cons_append, lastStop_cons, lastStop_cons, ih]

theorem Tiling.unshift {offset more : Nat} {text : List Char} {placed : List Placed}
    (tiling : Tiling (offset + more) text placed) :
    ∃ own, Tiling offset text own ∧ placed = own.map (·.shift more) := by
  generalize start : offset + more = begun at tiling
  induction tiling generalizing offset with
  | last skipped => exact ⟨[], .last skipped, rfl⟩
  | @token _ gap lexeme rest token placed skipped munch after ih =>
    subst start
    have start : offset + byteLength (gap ++ lexeme) + more =
        offset + more + byteLength (gap ++ lexeme) := by omega
    obtain ⟨own, behind, rfl⟩ := ih start
    refine ⟨_, .token skipped munch behind, ?_⟩
    simp only [List.map_cons, Placed.shift, Span.shift, List.cons.injEq, Placed.mk.injEq,
      Span.mk.injEq, true_and, and_true]
    constructor <;> omega

section

variable {offset : Nat} {text : List Char} {before piece after : List Placed}

theorem Tiling.behind (tiling : Tiling offset text (before ++ after)) :
    ∃ front back, text = front ++ back ∧ Tiling (offset + byteLength front) back after := by
  induction before generalizing offset text with
  | nil => exact ⟨[], text, rfl, tiling⟩
  | cons p rest ih =>
    cases tiling with
    | @token _ gap lexeme others token placed skipped munch following =>
      obtain ⟨front, back, rfl, tiled⟩ := ih following
      refine ⟨gap ++ lexeme ++ front, back, by simp only [List.append_assoc], ?_⟩
      rwa [byteLength_append, ← Nat.add_assoc]

theorem Tiling.front (tiling : Tiling offset text (piece ++ after)) :
    ∃ front back, text = front ++ back ∧ Tiling offset front piece ∧
      lastStop offset piece = offset + byteLength front := by
  induction piece generalizing offset text with
  | nil => exact ⟨[], text, rfl, .last .nil, rfl⟩
  | cons p rest ih =>
    cases tiling with
    | @token _ gap lexeme others token placed skipped munch following =>
      obtain ⟨front, back, rfl, tiled, stop⟩ := ih following
      have cut : front <+: front ++ back := List.prefix_append front back
      have gapCut : lexeme ++ front <+: lexeme ++ (front ++ back) :=
        (List.prefix_append_right_inj lexeme).mpr cut
      refine ⟨gap ++ (lexeme ++ front), back, by simp only [List.append_assoc],
        .token (skipped.cut gapCut) (munch.cut cut) tiled, ?_⟩
      rw [lastStop_cons, stop]
      simp only [byteLength_append, Nat.add_assoc]

/-- The text from where a token starts to where one stops has the tokens from the one to the other. -/
theorem Tiling.slice {first : Placed}
    (tiling : Tiling offset text (before ++ (first :: piece ++ after))) :
    ∃ front middle back, text = front ++ (middle ++ back) ∧
      first.span.start = offset + byteLength front ∧
      lastStop first.span.stop piece = offset + byteLength (front ++ middle) ∧
      Tiling first.span.start middle (first :: piece) := by
  obtain ⟨front, rest, rfl, tiled⟩ := tiling.behind
  cases tiled with
  | @token _ gap lexeme others token placed skipped munch following =>
    -- Without the gap in front the text starts where the token does.
    have here : Tiling (offset + byteLength front + byteLength gap) (lexeme ++ others)
        ((⟨token, offset + byteLength front + byteLength gap,
          offset + byteLength front + byteLength (gap ++ lexeme)⟩ :: piece) ++ after) := by
      rw [byteLength_append, ← Nat.add_assoc] at following ⊢
      exact .lexeme munch following
    obtain ⟨middle, back, split, own, stop⟩ := here.front
    refine ⟨front ++ gap, middle, back, ?_, ?_, ?_, own⟩
    · rw [split, List.append_assoc]
    · simp only [byteLength_append, Nat.add_assoc]
    · rw [lastStop_cons] at stop
      rw [stop]
      simp only [byteLength_append, Nat.add_assoc]

end

end LoopTape
