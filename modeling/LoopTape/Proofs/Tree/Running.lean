import LoopTape.Proofs.Token.Slicing
import LoopTape.Tree.Reading

/-! What holds of the states that reading gets to.

Reading feeds one token after the other to its state, with the place where the token before it
stopped, and settles the state in the end. What holds at first, and is kept by every token and by
settling, holds of the block that was read.
-/

set_option autoImplicit false

namespace LoopTape

theorem Reading.run_keeps {Keeps : List Placed → Reading → Prop}
    (settles : ∀ read state, Keeps read state → Keeps read (state.settle (lastStop 0 read)))
    (feeds : ∀ read state token span next, Keeps read state →
      state.feed token span (lastStop 0 read) = .ok next → Keeps (read ++ [⟨token, span⟩]) next)
    {placed read : List Placed} {state : Reading} {position : Nat} {block : Block}
    (kept : Keeps read state) (ran : state.run position (lastStop 0 read) placed = .ok block) :
    Keeps (read ++ placed) (.complete block) := by
  induction placed generalizing state position read with
  | nil =>
    have settled := settles read state kept
    unfold run finish at ran
    cases ended : state.settle (lastStop 0 read) with
    | complete whole =>
      rw [ended] at ran settled
      cases ran
      rwa [List.append_nil]
    | _ => rw [ended] at ran; cases ran
  | cons first rest ih =>
    obtain ⟨token, span⟩ := first
    unfold run at ran
    cases fed : state.feed token span (lastStop 0 read) with
    | error missing => rw [fed] at ran; cases ran
    | ok next =>
      rw [fed] at ran
      have stop : span.stop = lastStop 0 (read ++ [⟨token, span⟩]) := by
        rw [lastStop_append, lastStop_cons, lastStop_nil]
      rw [stop] at ran
      have all := ih (feeds read state token span next kept fed) ran
      rwa [List.append_assoc] at all

/-- What holds at first and is kept by every step holds in the end. -/
theorem parse_keeps (Keeps : List Placed → Reading → Prop) (initial : Keeps [] .initial)
    (settles : ∀ read state, Keeps read state → Keeps read (state.settle (lastStop 0 read)))
    (feeds : ∀ read state token span next, Keeps read state →
      state.feed token span (lastStop 0 read) = .ok next → Keeps (read ++ [⟨token, span⟩]) next)
    {placed : List Placed} {block : Block} (parsed : parse placed = .ok block) :
    Keeps placed (.complete block) := Reading.run_keeps settles feeds initial parsed

end LoopTape
