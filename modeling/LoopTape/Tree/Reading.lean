import LoopTape.Token.Basic
import LoopTape.Tree.Basic

/-! From tokens to the tree.

Reading goes from left to right and needs no token twice. What was opened and not yet closed is kept
as a path from the point reached up to the root, so a reading state always says which tokens may come
next, and the first token that may not come is where reading fails.

    block     := "{" statement* "}"
    statement := "cond" expr block ("else" block)? | "loop" label? block | "break" label? ";"
               | ($variable "=")? call ";" | block
    call      := name expr*
    expr      := $variable | "(" expr ")" | call

A call takes every expression that follows it as its argument.
-/

set_option autoImplicit false

namespace LoopTape

/-- Where a block stands. `before` holds the statements in front of it in the block around it, the
last one first, and `outer` says where that block stands. -/
inductive Place where
  | root
  | statement (before : List Stmt) (outer : Place)
  | thenBranch (condition : Expr) (before : List Stmt) (outer : Place)
  | elseBranch (condition : Expr) (thenBlock : Block) (before : List Stmt) (outer : Place)
  | loopBody (label : Option String) (span : Span) (before : List Stmt) (outer : Place)

/-- A call whose arguments are being read; `args` holds those read so far, the last one first. -/
structure OpenCall where
  name : String
  args : List Expr
  start : Nat

def OpenCall.close (call : OpenCall) (stop : Nat) : Expr :=
  .call call.name call.args.reverse ⟨call.start, stop⟩

/-- What an expression being read is a direct part of, inside its statement. -/
inductive Wrap where
  | paren
  | argument (call : OpenCall)

/-- The part of a statement that its outermost expression belongs to. -/
inductive Root where
  | condition
  | argument (result : Option Variable) (call : OpenCall)

/-- How far reading has come. Every state but the last one stands inside a block, of which `before`
holds the finished statements, the last one first, and `place` says where it stands. -/
inductive Reading where
  | atBlock (place : Place)
  | inBlock (before : List Stmt) (place : Place)
  | afterThen (condition : Expr) (thenBlock : Block) (before : List Stmt) (place : Place)
  | afterLoop (start : Nat) (before : List Stmt) (place : Place)
  | afterBreak (span : Span) (before : List Stmt) (place : Place)
  | afterLabel (label : String) (span : Span) (before : List Stmt) (place : Place)
  | afterResult (result : Variable) (before : List Stmt) (place : Place)
  | atCall (result : Variable) (before : List Stmt) (place : Place)
  | inExpr (wraps : List Wrap) (root : Root) (before : List Stmt) (place : Place)
  | afterExpr (inner : Expr) (wraps : List Wrap) (root : Root) (before : List Stmt) (place : Place)
  | afterCall (call : Stmt) (before : List Stmt) (place : Place)
  | complete (block : Block)

inductive Missing where
  | endOfInput
  | closeBrace
  | token (expected : Token)
  | assign
  | name
  | statement
  | expression
  deriving Repr, DecidableEq

namespace Reading

def initial : Reading := .atBlock .root

def closeBlock (block : Block) : Place → Reading
  | .root => .complete block
  | .statement before outer => .inBlock (.block block :: before) outer
  | .thenBranch condition before outer => .afterThen condition block before outer
  | .elseBranch condition thenBlock before outer =>
    .inBlock (.cond condition thenBlock (some block) :: before) outer
  | .loopBody label span before outer => .inBlock (.loop label block span :: before) outer

def add (e : Expr) (wraps : List Wrap) (root : Root) (before : List Stmt) (place : Place) :
    Reading :=
  match wraps, root with
  | .paren :: wraps, root => .afterExpr e wraps root before place
  | .argument call :: wraps, root =>
    .inExpr (.argument { call with args := e :: call.args } :: wraps) root before place
  | [], .condition => .atBlock (.thenBranch e before place)
  | [], .argument result call =>
    .inExpr [] (.argument result { call with args := e :: call.args }) before place

/-- The state when the calls that `e` is the last argument of are closed as well; `stop` is where
the last token ended. -/
def closeCalls (stop : Nat) (e : Expr) (wraps : List Wrap) (root : Root) (before : List Stmt)
    (place : Place) : Reading :=
  match wraps, root with
  | .paren :: wraps, root => .afterExpr e wraps root before place
  | .argument call :: wraps, root =>
    closeCalls stop ({ call with args := e :: call.args }.close stop) wraps root before place
  | [], .condition => .atBlock (.thenBranch e before place)
  | [], .argument result call =>
    .afterCall (.call result call.name (e :: call.args).reverse ⟨call.start, stop⟩) before place

/-- The state when the calls around the point reached take no more arguments. An expression that
is still owed stays owed. -/
def settle (stop : Nat) : Reading → Reading
  | .inExpr (.argument call :: wraps) root before place =>
    closeCalls stop (call.close stop) wraps root before place
  | .inExpr [] (.argument result call) before place =>
    .afterCall (.call result call.name call.args.reverse ⟨call.start, stop⟩) before place
  | .afterThen condition thenBlock before place =>
    .inBlock (.cond condition thenBlock none :: before) place
  | state => state

def feedBlock (token : Token) (span : Span) (before : List Stmt) (place : Place) :
    Except Missing Reading :=
  match token with
  | .closeBrace => .ok (closeBlock (.unscoped before.reverse) place)
  | .condWord => .ok (.inExpr [] .condition before place)
  | .loopWord => .ok (.afterLoop span.start before place)
  | .breakWord => .ok (.afterBreak span before place)
  | .openBrace => .ok (.inBlock [] (.statement before place))
  | .variable name => .ok (.afterResult (.unbound name) before place)
  | .identifier name => .ok (.inExpr [] (.argument none ⟨name, [], span.start⟩) before place)
  | _ => .error .statement

def feedSettled (token : Token) (span : Span) (stop : Nat) : Reading → Except Missing Reading
  | .atBlock place =>
    if token = .openBrace then .ok (.inBlock [] place) else .error (.token .openBrace)
  | .inBlock before place => feedBlock token span before place
  | .afterThen condition thenBlock before place =>
    feedBlock token span (.cond condition thenBlock none :: before) place
  | .afterLoop start before place =>
    if token = .openBrace then .ok (.inBlock [] (.loopBody none ⟨start, stop⟩ before place))
    else .error (.token .openBrace)
  | .afterBreak start before place =>
    if token = .semicolon then .ok (.inBlock (.leave none (start.merge span) :: before) place)
    else .error (.token .semicolon)
  | .afterLabel label start before place =>
    if token = .semicolon then
      .ok (.inBlock (.leave (some label) (start.merge span) :: before) place)
    else .error (.token .semicolon)
  | .afterResult result before place =>
    if token = .assign then .ok (.atCall result before place) else .error .assign
  | .atCall .. => .error .name
  | .inExpr .. => .error .expression
  | .afterExpr inner wraps root before place =>
    if token = .closeParen then .ok (add (.paren inner) wraps root before place)
    else .error (.token .closeParen)
  | .afterCall call before place =>
    if token = .semicolon then .ok (.inBlock (call :: before) place)
    else .error (.token .semicolon)
  | .complete _ => .error .endOfInput

def feed (token : Token) (span : Span) (stop : Nat) (state : Reading) : Except Missing Reading :=
  match state, token with
  | .inExpr wraps root before place, .variable name =>
    .ok (add (.variable (.unbound name)) wraps root before place)
  | .inExpr wraps root before place, .identifier name =>
    .ok (.inExpr (.argument ⟨name, [], span.start⟩ :: wraps) root before place)
  | .inExpr wraps root before place, .openParen => .ok (.inExpr (.paren :: wraps) root before place)
  | .afterThen condition thenBlock before place, .elseWord =>
    .ok (.atBlock (.elseBranch condition thenBlock before place))
  | .afterLoop start before place, .identifier label =>
    .ok (.atBlock (.loopBody (some label) ⟨start, span.stop⟩ before place))
  | .afterBreak start before place, .identifier label =>
    .ok (.afterLabel label start before place)
  | .atCall result before place, .identifier name =>
    .ok (.inExpr [] (.argument (some result) ⟨name, [], span.start⟩) before place)
  | state, token => feedSettled token span stop (settle stop state)

def finish (stop : Nat) (state : Reading) : Except Missing Block :=
  match settle stop state with
  | .complete block => .ok block
  | .inBlock .. | .afterThen .. => .error .closeBrace
  | .atBlock _ | .afterLoop .. => .error (.token .openBrace)
  | .afterBreak .. | .afterLabel .. | .afterCall .. => .error (.token .semicolon)
  | .afterResult .. => .error .assign
  | .atCall .. => .error .name
  | .inExpr .. => .error .expression
  | .afterExpr .. => .error (.token .closeParen)

end Reading

/-- A token list that is no block: at index `position` something was missing, and `found` stood
there instead, or nothing. -/
structure ParseError where
  missing : Missing
  found : Option Token
  position : Nat
  span : Span
  deriving Repr, DecidableEq

namespace ParseError

def code (e : ParseError) : String :=
  match e.missing, e.found with
  | .endOfInput, _ => "LL-P001"
  | .closeBrace, _ => "LL-P002"
  | .token _, some _ | .assign, some _ => "LL-P003"
  | .token _, none | .assign, none => "LL-P004"
  | .name, some _ => "LL-P005"
  | .name, none => "LL-P006"
  | .statement, _ => "LL-P007"
  | .expression, some _ => "LL-P009"
  | .expression, none => "LL-P010"

def got (e : ParseError) : String :=
  match e.found with
  | some token => token.describe
  | none => "EOF"

def text (e : ParseError) : String :=
  match e.missing with
  | .endOfInput => "unexpected Some(" ++ e.got ++ ") after the root block"
  | .closeBrace => "unclosed block, expected '\x7d'"
  | .token expected => "expected " ++ expected.describe ++ ", got " ++ e.got
  | .assign =>
    "expected Assign, got " ++ e.got ++
      "\n  hint: a variable on its own is not a statement, assign a call to it: $x = f;"
  | .name => "expected identifier, got " ++ e.got
  | .statement =>
    "expected statement, got " ++ e.got ++
      if e.found = some .elseWord then
        "\n  hint: 'else' must directly follow the block of a 'cond'"
      else ""
  | .expression => "expected expression, got " ++ e.got

def message (e : ParseError) : String :=
  "Parse error at token " ++ toString e.position ++ ": " ++ e.text

end ParseError

/-- Reads on from a state. `position` counts the tokens read so far, and `stop` is where the last
of them ended. -/
def Reading.run (position stop : Nat) (state : Reading) :
    List Placed → Except ParseError Block
  | [] => (state.finish stop).mapError (⟨·, none, position, ⟨stop, stop⟩⟩)
  | ⟨token, span⟩ :: rest =>
    match state.feed token span stop with
    | .ok next => next.run (position + 1) span.stop rest
    | .error missing => .error ⟨missing, some token, position, span⟩

def parse (tokens : List Placed) : Except ParseError Block :=
  Reading.initial.run 0 0 tokens

end LoopTape
