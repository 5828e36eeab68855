import Flowgate.Script.Token

/-!
Terms and statements of controller scripts, and their grammar. The language covers what controllers
do with their inputs: look fields up, compare, join texts, call a function, assign a global name,
and choose between branches.
-/

namespace Flowgate.Script

inductive Unary where
  | not
  | length
  | negate
deriving DecidableEq

inductive Binary where
  | or
  | and
  | equal
  | differ
  | join
  | add
  | subtract
  | multiply
deriving DecidableEq

inductive Term where
  | nil
  | bool (b : Bool)
  | integer (n : Nat)
  | string (text : String)
  | global (name : String)
  | field (line : Nat) (table : Term) (name : String)
  | index (line : Nat) (table key : Term)
  | call (line : Nat) (function : Term) (arguments : List Term)
  | unary (line : Nat) (op : Unary) (operand : Term)
  | binary (line : Nat) (op : Binary) (left right : Term)

inductive Statement where
  | assign (line : Nat) (target value : Term)
  | call (term : Term)
  -- The first branch whose condition holds, or else the last block.
  | branch (condition : Term) (body otherwise : List Statement)

abbrev Block := List Statement

/-! ### Grammar -/

private def Binary.ofToken? : TokenKind → Option Binary
  | .keyword "or" => some .or
  | .keyword "and" => some .and
  | .symbol "==" => some .equal
  | .symbol "~=" => some .differ
  | .symbol ".." => some .join
  | .symbol "+" => some .add
  | .symbol "-" => some .subtract
  | .symbol "*" => some .multiply
  | _ => none

-- How strongly an operator binds to its left and to its right. Joining associates to the right.
def Binary.strength : Binary → Nat × Nat
  | .or => (1, 1)
  | .and => (2, 2)
  | .equal => (3, 3)
  | .differ => (3, 3)
  | .join => (9, 8)
  | .add => (10, 10)
  | .subtract => (10, 10)
  | .multiply => (11, 11)

private def unaryStrength : Nat := 12

private def Unary.ofToken? : TokenKind → Option Unary
  | .keyword "not" => some .not
  | .symbol "#" => some .length
  | .symbol "-" => some .negate
  | _ => none

private abbrev Parse (α : Type) := List Token → Except SyntaxFault (α × List Token)

private def refuse (tokens : List Token) (reason : String) : Except SyntaxFault α :=
  match tokens with
  | [] => .error { line := 1, reason := reason ++ " near <eof>" }
  | t :: _ => .error { line := t.line, reason := reason ++ " near " ++ t.kind.near }

private def expect (kind : TokenKind) (tokens : List Token) : Except SyntaxFault (List Token) :=
  match tokens with
  | t :: rest => if t.kind = kind then .ok rest else refuse tokens (kind.near ++ " expected")
  | [] => refuse tokens (kind.near ++ " expected")

-- More than the depth that the grammar reaches on some tokens.
private def depthFor (tokens : List Token) : Nat := 4 * tokens.length + 8

-- All parts of a term in one recursion; the first argument bounds its depth.
mutual

private def term : Nat → Nat → Parse Term
  | 0, _, tokens => refuse tokens "too many levels"
  | steps + 1, limit, tokens =>
    match tokens with
    | t :: rest =>
      match Unary.ofToken? t.kind with
      | some op => do
        let (operand, rest) ← term steps unaryStrength rest
        operators steps limit (.unary t.line op operand) rest
      | none => do
        let (left, rest) ← simple steps tokens
        operators steps limit left rest
    | [] => refuse tokens "unexpected symbol"

private def operators : Nat → Nat → Term → Parse Term
  | 0, _, _, tokens => refuse tokens "too many levels"
  | steps + 1, limit, left, tokens =>
    match tokens with
    | t :: rest =>
      match Binary.ofToken? t.kind with
      | some op =>
        if op.strength.1 > limit then do
          let (right, rest) ← term steps op.strength.2 rest
          operators steps limit (.binary t.line op left right) rest
        else .ok (left, tokens)
      | none => .ok (left, tokens)
    | [] => .ok (left, tokens)

private def simple : Nat → Parse Term
  | 0, tokens => refuse tokens "too many levels"
  | steps + 1, tokens =>
    match tokens with
    | [] => refuse tokens "unexpected symbol"
    | t :: rest =>
      match t.kind with
      | .keyword "nil" => .ok (.nil, rest)
      | .keyword "true" => .ok (.bool true, rest)
      | .keyword "false" => .ok (.bool false, rest)
      | .integer n => .ok (.integer n, rest)
      | .string text => .ok (.string text, rest)
      | _ => suffixed steps tokens

-- A name or a term in parentheses, with the fields, keys and calls after it.
private def suffixed : Nat → Parse Term
  | 0, tokens => refuse tokens "too many levels"
  | steps + 1, tokens =>
    match tokens with
    | [] => refuse tokens "unexpected symbol"
    | t :: rest =>
      match t.kind with
      | .name name => suffixes steps (.global name) rest
      | .symbol "(" => do
        let (inner, rest) ← term steps 0 rest
        suffixes steps inner (← expect (.symbol ")") rest)
      | _ => refuse tokens "unexpected symbol"

private def suffixes : Nat → Term → Parse Term
  | 0, _, tokens => refuse tokens "too many levels"
  | steps + 1, head, tokens =>
    match tokens with
    | t :: rest =>
      match t.kind with
      | .symbol "." =>
        match rest with
        | { line := _, kind := .name name } :: rest =>
          suffixes steps (.field t.line head name) rest
        | rest => refuse rest "<name> expected"
      | .symbol "[" => do
        let (key, rest) ← term steps 0 rest
        suffixes steps (.index t.line head key) (← expect (.symbol "]") rest)
      | .symbol "(" => do
        let (args, rest) ← arguments steps rest
        suffixes steps (.call t.line head args) rest
      | .string text => suffixes steps (.call t.line head [.string text]) rest
      | _ => .ok (head, tokens)
    | [] => .ok (head, tokens)

private def arguments : Nat → Parse (List Term)
  | 0, tokens => refuse tokens "too many levels"
  | steps + 1, tokens =>
    match tokens with
    | { line := _, kind := .symbol ")" } :: rest => .ok ([], rest)
    | tokens => do
      let (first, rest) ← term steps 0 tokens
      match rest with
      | { line := _, kind := .symbol "," } :: next => do
        let (others, rest) ← arguments steps next
        return (first :: others, rest)
      | rest => return ([first], ← expect (.symbol ")") rest)

end

private def isStatementEnd : TokenKind → Bool
  | .finish => true
  | .keyword word => ["end", "else", "elseif", "until"].contains word
  | _ => false

mutual

private def block : Nat → Parse Block
  | 0, tokens => refuse tokens "too many levels"
  | steps + 1, tokens =>
    match tokens with
    | [] => .ok ([], [])
    | t :: rest =>
      if t.kind = .symbol ";" then block steps rest
      else if isStatementEnd t.kind then .ok ([], tokens)
      else do
        let (first, rest) ← statement steps tokens
        let (others, rest) ← block steps rest
        return (first :: others, rest)

private def statement : Nat → Parse Statement
  | 0, tokens => refuse tokens "too many levels"
  | steps + 1, tokens =>
    match tokens with
    | { line := _, kind := .keyword "if" } :: rest => branches steps rest
    | tokens => do
      let (target, rest) ← suffixed (depthFor tokens) tokens
      match target, rest with
      | .call .., rest => return (.call target, rest)
      | target, t :: rest =>
        if t.kind = .symbol "=" then do
          let (value, rest) ← term (depthFor rest) 0 rest
          return (.assign t.line target value, rest)
        else refuse (t :: rest) "syntax error"
      | _, [] => refuse [] "syntax error"

-- What follows `if` or `elseif`.
private def branches : Nat → Parse Statement
  | 0, tokens => refuse tokens "too many levels"
  | steps + 1, tokens => do
    let (condition, rest) ← term (depthFor tokens) 0 tokens
    let (body, rest) ← block steps (← expect (.keyword "then") rest)
    match rest with
    | { line := _, kind := .keyword "elseif" } :: rest => do
      let (other, rest) ← branches steps rest
      return (.branch condition body [other], rest)
    | { line := _, kind := .keyword "else" } :: rest => do
      let (other, rest) ← block steps rest
      return (.branch condition body other, ← expect (.keyword "end") rest)
    | rest => return (.branch condition body [], ← expect (.keyword "end") rest)

end

def parse (source : String) : Except SyntaxFault Block := do
  let tokens ← tokens source
  let (found, rest) ← block (depthFor tokens) tokens
  match rest with
  | [] => return found
  | { line := _, kind := .finish } :: _ => return found
  | rest => refuse rest "<eof> expected"

end Flowgate.Script
