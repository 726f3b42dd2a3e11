import LoopTape.Proofs.Meaning.Scopes

/-! What a tree means, without slots and without a tape.

The interpreter walks the tree. A block has a scope of its own while it is open, a loop one for all of
its rounds. Slots written in the tree are not looked at. Rounds of a loop are limited by `fuel`, so
that a loop without end shows as one that is unfinished with any amount of it. A tree that cannot be
compiled, since a name is declared nowhere or a call is no statement, is stuck.
-/

set_option autoImplicit false

namespace LoopTape

variable {σ : Type}

structure Store (σ : Type) where
  scopes : Scopes
  state : σ

inductive Fault where
  | unknownFunction (name : String)
  | host (name message : String)
  | conditionNotBool (subject found : String)
  deriving Repr, DecidableEq

inductive Completion (σ : Type) where
  | done (store : Store σ)
  | left (label : Option String) (store : Store σ)
  | failed (fault : Fault) (store : Store σ)
  | unfinished (store : Store σ)
  | stuck

namespace Store

def enter (names : List String) (store : Store σ) : Store σ :=
  { store with scopes := store.scopes.enter names }

def leave (store : Store σ) : Store σ := { store with scopes := store.scopes.tail }

end Store

namespace Completion

def andThen (next : Store σ → Completion σ) : Completion σ → Completion σ
  | .done store => next store
  | other => other

def leaveBlock : Completion σ → Completion σ
  | .done store => .done store.leave
  | .left label store => .left label store.leave
  | other => other

def endLoop (label : Option String) : Completion σ → Completion σ
  | .left wanted store =>
    if wanted = none ∨ wanted = label then .done store else .left wanted store
  | other => other

end Completion

/-- Repeats a loop's body until it does not end in order. -/
def repeatBody (body : Store σ → Completion σ) : (fuel : Nat) → Store σ → Completion σ
  | 0, store => .unfinished store
  | fuel + 1, store => (body store).andThen (repeatBody body fuel)

def Expr.subject? : Expr → Option String
  | .variable v => some v.name
  | .paren inner => inner.subject?
  | .call .. => none

def Scopes.readAll? (scopes : Scopes) : List Expr → Option (List Value)
  | [] => some []
  | e :: rest => do
    let value ← scopes.read? (← e.subject?)
    let values ← scopes.readAll? rest
    return value :: values

def Scopes.writeResult? (scopes : Scopes) (result : Option Variable) (value : Value) :
    Option Scopes :=
  match result with
  | none => some scopes
  | some v => scopes.write? v.name value

/-- Calls a host function; nothing is ever cancelled. -/
def Store.call (host : HostTable σ) (result : Option Variable) (name : String) (args : List Expr)
    (store : Store σ) : Completion σ :=
  match host.get? name with
  | none => .failed (.unknownFunction name) store
  | some function =>
    match store.scopes.readAll? args with
    | none => .stuck
    | some values =>
      let reply := function values false store.state
      match reply.result with
      | .error message => .failed (.host name message) ⟨store.scopes, reply.state⟩
      | .ok value =>
        match store.scopes.writeResult? result value with
        | none => .stuck
        | some scopes => .done ⟨scopes, reply.state⟩

def Store.choose (condition : Expr) (whenTrue whenFalse : Store σ → Completion σ) (store : Store σ) :
    Completion σ :=
  match condition.subject? with
  | none => .stuck
  | some name =>
    match store.scopes.read? name with
    | none => .stuck
    | some (.bool true) => whenTrue store
    | some (.bool false) => whenFalse store
    | some other => .failed (.conditionNotBool name other.typeName) store

mutual

/-- Runs a block; `seen` are the names that occurred in the blocks around it before. -/
def Block.execute (host : HostTable σ) (fuel : Nat) (seen : List String) :
    Block → Store σ → Completion σ
  | .mk stmts _, store =>
    (Stmt.executeAll host fuel seen stmts (store.enter (declaredNames seen stmts))).leaveBlock

def Stmt.executeAll (host : HostTable σ) (fuel : Nat) (seen : List String) :
    List Stmt → Store σ → Completion σ
  | [], store => .done store
  | s :: rest, store =>
    let seen := seen ++ ownNames [s]
    (s.execute host fuel seen store).andThen (Stmt.executeAll host fuel seen rest)

def Stmt.execute (host : HostTable σ) (fuel : Nat) (seen : List String) :
    Stmt → Store σ → Completion σ
  | .cond condition thenBlock none, store =>
    store.choose condition (thenBlock.execute host fuel seen) .done
  | .cond condition thenBlock (some elseBlock), store =>
    store.choose condition (thenBlock.execute host fuel seen) (elseBlock.execute host fuel seen)
  | .loop label (.mk stmts _) _, store =>
    ((repeatBody (Stmt.executeAll host fuel seen stmts) fuel
      (store.enter (declaredNames seen stmts))).endLoop label).leaveBlock
  | .leave label _, store => .left label store
  | .call result name args _, store => store.call host result name args
  | .block inner, store => inner.execute host fuel seen store

end

def Completion.Settled : Completion σ → Prop
  | .unfinished _ => False
  | _ => True

def Completion.Below (less more : Completion σ) : Prop := less.Settled → more = less

namespace Completion.Below

theorem refl (completion : Completion σ) : completion.Below completion := fun _ => rfl

theorem andThen {less more : Completion σ} (first : less.Below more)
    {next moreNext : Store σ → Completion σ} (second : ∀ store, (next store).Below (moreNext store)) :
    (less.andThen next).Below (more.andThen moreNext) := by
  intro settled
  cases less with
  | done store =>
    rw [first trivial]
    exact second store settled
  | unfinished store => exact settled.elim
  | left label store => rw [first trivial]; rfl
  | failed fault store => rw [first trivial]; rfl
  | stuck => rw [first trivial]; rfl

theorem leaveBlock {less more : Completion σ} (below : less.Below more) :
    less.leaveBlock.Below more.leaveBlock := by
  intro settled
  have unchanged : more = less := by
    apply below
    cases less <;> trivial
  rw [unchanged]

theorem endLoop {less more : Completion σ} (label : Option String) (below : less.Below more) :
    (less.endLoop label).Below (more.endLoop label) := by
  intro settled
  have unchanged : more = less := by
    apply below
    cases less <;> trivial
  rw [unchanged]

theorem repeatBody {body moreBody : Store σ → Completion σ}
    (below : ∀ store, (body store).Below (moreBody store)) {fuel more : Nat} (enough : fuel ≤ more)
    (store : Store σ) : (repeatBody body fuel store).Below (repeatBody moreBody more store) := by
  induction fuel generalizing more store with
  | zero => exact fun settled => settled.elim
  | succ fuel ih =>
    obtain ⟨larger, rfl⟩ : ∃ larger, more = larger + 1 := ⟨more - 1, by omega⟩
    exact (below store).andThen (ih (by omega))

theorem choose {whenTrue moreTrue whenFalse moreFalse : Store σ → Completion σ}
    (first : ∀ store, (whenTrue store).Below (moreTrue store))
    (second : ∀ store, (whenFalse store).Below (moreFalse store)) (condition : Expr)
    (store : Store σ) :
    (store.choose condition whenTrue whenFalse).Below
      (store.choose condition moreTrue moreFalse) := by
  unfold Store.choose
  split
  · exact refl _
  · split
    · exact refl _
    · exact first store
    · exact second store
    · exact refl _

end Completion.Below

section

variable {host : HostTable σ} {fuel more : Nat}

mutual

/-- More fuel changes no completion that was reached with less. -/
theorem Block.execute_below (block : Block) (enough : fuel ≤ more) (seen : List String)
    (store : Store σ) :
    (block.execute host fuel seen store).Below (block.execute host more seen store) := by
  cases block with
  | mk stmts slots => exact (Stmt.executeAll_below stmts enough seen _).leaveBlock

theorem Stmt.executeAll_below (stmts : List Stmt) (enough : fuel ≤ more) (seen : List String)
    (store : Store σ) :
    (Stmt.executeAll host fuel seen stmts store).Below
      (Stmt.executeAll host more seen stmts store) := by
  cases stmts with
  | nil => exact .refl _
  | cons s rest =>
    exact (Stmt.execute_below s enough _ store).andThen (Stmt.executeAll_below rest enough _)

theorem Stmt.execute_below (s : Stmt) (enough : fuel ≤ more) (seen : List String)
    (store : Store σ) :
    (s.execute host fuel seen store).Below (s.execute host more seen store) := by
  match s with
  | .cond condition thenBlock none =>
    exact .choose (Block.execute_below thenBlock enough seen) (fun _ => .refl _) condition store
  | .cond condition thenBlock (some elseBlock) =>
    exact .choose (Block.execute_below thenBlock enough seen)
      (Block.execute_below elseBlock enough seen) condition store
  | .loop label (.mk stmts _) _ =>
    exact ((Completion.Below.repeatBody (Stmt.executeAll_below stmts enough seen) enough _).endLoop
      label).leaveBlock
  | .leave _ _ => exact .refl _
  | .call _ _ _ _ => exact .refl _
  | .block inner => exact Block.execute_below inner enough seen store

end

end

end LoopTape
