import LoopTape.Proofs.Tree.Grouping
import LoopTape.Proofs.Tree.Running

/-! What is read is grouped.

While a call is read its arguments are no calls: a call among them would have taken whatever follows.
Only the end of the call gives it an argument that is one, and that is its last.
-/

set_option autoImplicit false

namespace LoopTape

theorem Stmt.groupedAll_of_grouped {stmts : List Stmt} (all : ∀ s ∈ stmts, s.grouped = s) :
    Stmt.groupedAll stmts = stmts := by
  induction stmts with
  | nil => rfl
  | cons s rest ih =>
    rw [groupedAll, all s List.mem_cons_self, ih fun other mem => all other (.tail _ mem)]

theorem Block.grouped_unscoped {before : List Stmt} (all : ∀ s ∈ before, s.grouped = s) :
    (Block.unscoped before.reverse).grouped = .unscoped before.reverse := by
  rw [unscoped, grouped]
  rw [Stmt.groupedAll_of_grouped fun s mem => all s (List.mem_reverse.mp mem)]

def Expr.Leading (e : Expr) : Prop := e.grouped = e ∧ e.isCall = false

theorem Expr.groupedArgs_append {args : List Expr} (leading : ∀ e ∈ args, e.Leading)
    (rest : List Expr) : Expr.groupedArgs (args ++ rest) = args ++ Expr.groupedArgs rest := by
  induction args with
  | nil => rfl
  | cons e others ih =>
    obtain ⟨grouped, plain⟩ := leading e List.mem_cons_self
    rw [List.cons_append, groupedArgs, ih fun other mem => leading other (.tail _ mem), plain,
      grouped]
    rfl

def OpenCall.Grouped (call : OpenCall) : Prop := ∀ e ∈ call.args, e.Leading

def Wrap.Grouped : Wrap → Prop
  | .paren => True
  | .argument call => call.Grouped

def Root.Grouped : Root → Prop
  | .condition => True
  | .argument _ call => call.Grouped

def Place.Grouped : Place → Prop
  | .root => True
  | .statement before outer => (∀ s ∈ before, s.grouped = s) ∧ outer.Grouped
  | .thenBranch condition before outer =>
    condition.grouped = condition ∧ (∀ s ∈ before, s.grouped = s) ∧ outer.Grouped
  | .elseBranch condition thenBlock before outer =>
    condition.grouped = condition ∧ thenBlock.grouped = thenBlock ∧
      (∀ s ∈ before, s.grouped = s) ∧ outer.Grouped
  | .loopBody _ _ before outer => (∀ s ∈ before, s.grouped = s) ∧ outer.Grouped

structure Around (before : List Stmt) (place : Place) : Prop where
  before : ∀ s ∈ before, s.grouped = s
  place : place.Grouped

structure Inside (wraps : List Wrap) (root : Root) : Prop where
  wraps : ∀ wrap ∈ wraps, wrap.Grouped
  root : root.Grouped

def Reading.Grouped : Reading → Prop
  | .atBlock place => place.Grouped
  | .inBlock before place | .afterLoop _ before place | .afterBreak _ before place
  | .afterLabel _ _ before place | .afterResult _ before place | .atCall _ before place =>
    Around before place
  | .afterThen condition thenBlock before place =>
    condition.grouped = condition ∧ thenBlock.grouped = thenBlock ∧ Around before place
  | .inExpr wraps root before place => Inside wraps root ∧ Around before place
  | .afterExpr inner wraps root before place =>
    inner.grouped = inner ∧ Inside wraps root ∧ Around before place
  | .afterCall call before place => call.grouped = call ∧ Around before place
  | .complete block => block.grouped = block

theorem Around.cons {before : List Stmt} {place : Place} (around : Around before place) {s : Stmt}
    (grouped : s.grouped = s) : Around (s :: before) place :=
  ⟨List.forall_mem_cons.mpr ⟨grouped, around.before⟩, around.place⟩

theorem Inside.cons {wraps : List Wrap} {root : Root} (inside : Inside wraps root) {wrap : Wrap}
    (grouped : wrap.Grouped) : Inside (wrap :: wraps) root :=
  ⟨List.forall_mem_cons.mpr ⟨grouped, inside.wraps⟩, inside.root⟩

theorem Inside.tail {wrap : Wrap} {wraps : List Wrap} {root : Root}
    (inside : Inside (wrap :: wraps) root) : Inside wraps root :=
  ⟨fun other mem => inside.wraps other (.tail _ mem), inside.root⟩

namespace OpenCall

variable {call : OpenCall} {e : Expr}

theorem grouped_start (name : String) (start : Nat) : OpenCall.Grouped ⟨name, [], start⟩ :=
  List.forall_mem_nil _

theorem Grouped.cons (inside : call.Grouped) (leading : e.Leading) :
    OpenCall.Grouped { call with args := e :: call.args } :=
  List.forall_mem_cons.mpr ⟨leading, inside⟩

theorem Grouped.groupedArgs (inside : call.Grouped) (rest : List Expr) :
    Expr.groupedArgs (call.args.reverse ++ rest) = call.args.reverse ++ Expr.groupedArgs rest :=
  Expr.groupedArgs_append (fun e mem => inside e (List.mem_reverse.mp mem)) rest

theorem Grouped.groupedArgs_reverse (inside : call.Grouped) :
    Expr.groupedArgs call.args.reverse = call.args.reverse := by
  have all := inside.groupedArgs []
  rwa [Expr.groupedArgs, List.append_nil] at all

theorem Grouped.groupedArgs_last (inside : call.Grouped) (last : e.grouped = e) :
    Expr.groupedArgs (e :: call.args).reverse = (e :: call.args).reverse := by
  rw [List.reverse_cons, inside.groupedArgs]
  simp only [Expr.groupedArgs, List.isEmpty_nil, Bool.not_true, Bool.and_false, if_false, last,
    Bool.false_eq_true]

end OpenCall

namespace Reading

variable {wraps : List Wrap} {root : Root} {before : List Stmt} {place : Place}

theorem closeBlock_grouped {block : Block} (grouped : block.grouped = block)
    (place : Place) (around : place.Grouped) : (closeBlock block place).Grouped := by
  cases place with
  | root => exact grouped
  | statement before outer =>
    exact Around.cons ⟨around.1, around.2⟩ (by rw [Stmt.grouped, grouped])
  | thenBranch condition before outer =>
    exact ⟨around.1, grouped, around.2.1, around.2.2⟩
  | elseBranch condition thenBlock before outer =>
    obtain ⟨condition', thenBlock', before', outer'⟩ := around
    exact Around.cons ⟨before', outer'⟩ (by rw [Stmt.grouped, condition', thenBlock', grouped])
  | loopBody label span before outer =>
    exact Around.cons ⟨around.1, around.2⟩ (by rw [Stmt.grouped, grouped])

theorem add_grouped {e : Expr} (leading : e.Leading) (inside : Inside wraps root)
    (around : Around before place) : (add e wraps root before place).Grouped := by
  match wraps, root with
  | .paren :: wraps, root => exact ⟨leading.1, inside.tail, around⟩
  | .argument call :: wraps, root =>
    -- More arguments may follow, so the new one must be no call.
    have taken := (inside.wraps _ List.mem_cons_self : call.Grouped).cons leading
    exact ⟨inside.tail.cons taken, around⟩
  | [], .condition => exact ⟨leading.1, around.before, around.place⟩
  | [], .argument result call => exact ⟨⟨inside.wraps, inside.root.cons leading⟩, around⟩

theorem closeCalls_grouped (stop : Nat) {e : Expr} (grouped : e.grouped = e)
    (inside : Inside wraps root) (around : Around before place) :
    (closeCalls stop e wraps root before place).Grouped := by
  induction wraps generalizing e with
  | nil =>
    cases root with
    | condition => exact ⟨grouped, around.before, around.place⟩
    | argument result call =>
      have args := OpenCall.Grouped.groupedArgs_last inside.root grouped
      exact ⟨by rw [Stmt.grouped, args], around⟩
  | cons wrap wraps ih =>
    cases wrap with
    | paren => exact ⟨grouped, inside.tail, around⟩
    | argument call =>
      -- The call that is closed becomes the last argument of the one around it.
      have args := OpenCall.Grouped.groupedArgs_last (inside.wraps _ List.mem_cons_self) grouped
      have closed : (OpenCall.close { call with args := e :: call.args } stop).grouped =
          OpenCall.close { call with args := e :: call.args } stop := by
        rw [OpenCall.close, Expr.grouped, args]
      exact ih closed inside.tail

theorem settle_grouped (stop : Nat) {state : Reading} (grouped : state.Grouped) :
    (state.settle stop).Grouped := by
  cases state with
  | inExpr wraps root before place =>
    obtain ⟨inside, around⟩ := grouped
    match wraps, root with
    | .argument call :: wraps, root =>
      have args := OpenCall.Grouped.groupedArgs_reverse (inside.wraps _ List.mem_cons_self)
      exact closeCalls_grouped stop (by rw [OpenCall.close, Expr.grouped, args]) inside.tail around
    | [], .argument result call =>
      have args := OpenCall.Grouped.groupedArgs_reverse inside.root
      exact ⟨by rw [Stmt.grouped, args], around⟩
    | .paren :: _, _ => exact ⟨inside, around⟩
    | [], .condition => exact ⟨inside, around⟩
  | afterThen condition thenBlock before place =>
    obtain ⟨condition', thenBlock', around⟩ := grouped
    exact around.cons (by rw [Stmt.grouped, condition', thenBlock'])
  | _ => exact grouped

theorem feedBlock_grouped {token : Token} {span : Span} {next : Reading}
    (around : Around before place) (fed : feedBlock token span before place = .ok next) :
    next.Grouped := by
  cases token with
  | closeBrace =>
    cases fed
    exact closeBlock_grouped (Block.grouped_unscoped around.before) place around.place
  | condWord => cases fed; exact ⟨⟨List.forall_mem_nil _, trivial⟩, around⟩
  | identifier name => cases fed; exact ⟨⟨List.forall_mem_nil _, OpenCall.grouped_start name _⟩, around⟩
  | loopWord => cases fed; exact around
  | breakWord => cases fed; exact around
  | openBrace => cases fed; exact ⟨List.forall_mem_nil _, around.before, around.place⟩
  | «variable» name => cases fed; exact around
  | _ => cases fed

theorem expected_of_ok {expected : Prop} [Decidable expected] {goal next : Reading}
    {missing : Missing} (fed : (if expected then .ok goal else .error missing) = Except.ok next) :
    expected ∧ next = goal := by
  split at fed
  · next came => exact ⟨came, (Except.ok.inj fed).symm⟩
  · cases fed

theorem feedSettled_grouped {token : Token} {span : Span} {stop : Nat} {state next : Reading}
    (grouped : state.Grouped) (fed : feedSettled token span stop state = .ok next) :
    next.Grouped := by
  cases state with
  | inBlock before place => exact feedBlock_grouped grouped fed
  | afterThen condition thenBlock before place =>
    obtain ⟨condition', thenBlock', around⟩ := grouped
    exact feedBlock_grouped (around.cons (by rw [Stmt.grouped, condition', thenBlock'])) fed
  | atBlock place =>
    obtain ⟨-, rfl⟩ := expected_of_ok fed
    exact ⟨List.forall_mem_nil _, grouped⟩
  | afterLoop start before place =>
    obtain ⟨-, rfl⟩ := expected_of_ok fed
    exact ⟨List.forall_mem_nil _, grouped.before, grouped.place⟩
  | afterBreak start before place | afterLabel label start before place =>
    obtain ⟨-, rfl⟩ := expected_of_ok fed
    exact grouped.cons rfl
  | afterResult result before place =>
    obtain ⟨-, rfl⟩ := expected_of_ok fed
    exact grouped
  | afterExpr inner wraps root before place =>
    obtain ⟨inner', inside, around⟩ := grouped
    obtain ⟨-, rfl⟩ := expected_of_ok fed
    exact add_grouped ⟨by rw [Expr.grouped, inner'], rfl⟩ inside around
  | afterCall call before place =>
    obtain ⟨-, rfl⟩ := expected_of_ok fed
    exact grouped.2.cons grouped.1
  | atCall | inExpr | complete => cases fed

theorem feed_grouped {token : Token} {span : Span} {stop : Nat} {state next : Reading}
    (grouped : state.Grouped) (fed : feed token span stop state = .ok next) : next.Grouped := by
  have goes (fed : feedSettled token span stop (state.settle stop) = .ok next) : next.Grouped :=
    feedSettled_grouped (settle_grouped stop grouped) fed
  cases state with
  | inExpr wraps root before place =>
    obtain ⟨inside, around⟩ := grouped
    cases token with
    | «variable» name => cases fed; exact add_grouped ⟨rfl, rfl⟩ inside around
    | identifier name => cases fed; exact ⟨inside.cons (OpenCall.grouped_start name _), around⟩
    | openParen => cases fed; exact ⟨inside.cons trivial, around⟩
    | _ => exact goes fed
  | afterThen condition thenBlock before place =>
    cases token with
    | elseWord =>
      cases fed
      exact ⟨grouped.1, grouped.2.1, grouped.2.2.before, grouped.2.2.place⟩
    | _ => exact goes fed
  | afterLoop start before place =>
    cases token with
    | identifier name => cases fed; exact ⟨grouped.before, grouped.place⟩
    | _ => exact goes fed
  | afterBreak start before place =>
    cases token with
    | identifier name => cases fed; exact grouped
    | _ => exact goes fed
  | atCall result before place =>
    cases token with
    | identifier name =>
      cases fed
      exact ⟨⟨List.forall_mem_nil _, OpenCall.grouped_start name _⟩, grouped⟩
    | _ => exact goes fed
  | _ => exact goes fed

end Reading

theorem Block.grouped_of_parse {placed : List Placed} {block : Block}
    (parsed : parse placed = .ok block) : block.grouped = block := by
  have initial : Reading.initial.Grouped := trivial
  exact parse_keeps (fun _ state => state.Grouped) initial
    (fun read _ => Reading.settle_grouped (lastStop 0 read))
    (fun _ _ _ _ _ => Reading.feed_grouped) parsed

end LoopTape
