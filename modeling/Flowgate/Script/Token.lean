import Flowgate.Text.Split

/-!
Tokens of the Lua that controllers are written in: names, keywords, symbols, integers and quoted
strings, each with its line. Comments and blanks separate tokens.
-/

namespace Flowgate.Script

inductive TokenKind where
  | name (text : String)
  | keyword (text : String)
  | symbol (text : String)
  | integer (n : Nat)
  | string (text : String)
  | finish
deriving DecidableEq

structure Token where
  line : Nat
  kind : TokenKind

-- A text that is not Lua, with the line where that shows.
structure SyntaxFault where
  line : Nat
  reason : String

def keywords : List String :=
  ["and", "break", "do", "else", "elseif", "end", "false", "for", "function", "goto", "if", "in",
   "local", "nil", "not", "or", "repeat", "return", "then", "true", "until", "while"]

def TokenKind.near : TokenKind → String
  | .name text => "'" ++ text ++ "'"
  | .keyword text => "'" ++ text ++ "'"
  | .symbol text => "'" ++ text ++ "'"
  | .integer n => "'" ++ toString n ++ "'"
  | .string text => "'" ++ text ++ "'"
  | .finish => "<eof>"

private def isNameStart (c : Char) : Bool := c.isAlpha || c = '_'

private def isNameChar (c : Char) : Bool := c.isAlphanum || c = '_'

-- Symbols, longer ones before those they start with.
private def symbols : List (List Char) :=
  ["...", "..", "==", "~=", "<=", ">=", "//", "::", "<<", ">>", "+", "-", "*", "/", "%", "^", "#",
   "&", "~", "|", "<", ">", "=", "(", ")", "\x7b", "\x7d", "[", "]", ";", ":", ",", "."].map
    String.toList

private def escaped? : Char → Option Char
  | 'n' => some '\n'
  | 't' => some '\t'
  | 'r' => some '\r'
  | '\\' => some '\\'
  | '"' => some '"'
  | '\'' => some '\''
  | _ => none

-- The characters of a string up to its closing quote.
private def quotedBody (quote : Char) : List Char → List Char → Option (List Char × List Char)
  | _, [] => none
  | done, '\\' :: c :: rest =>
    match escaped? c with
    | some c => quotedBody quote (c :: done) rest
    | none => none
  | done, c :: rest =>
    if c = quote then some (done.reverse, rest)
    else if c = '\n' then none
    else quotedBody quote (c :: done) rest

-- The token at the start of a text that is not blank, and the rest.
private def token (line : Nat) (cs : List Char) : Except SyntaxFault (TokenKind × List Char) :=
  match cs with
  | [] => .ok (.finish, [])
  | c :: rest =>
    if isNameStart c then
      let text := String.ofList (cs.takeWhile isNameChar)
      let kind := if keywords.contains text then TokenKind.keyword text else .name text
      .ok (kind, cs.dropWhile isNameChar)
    else if c.isDigit then
      let digits := cs.takeWhile Char.isDigit
      .ok (.integer (digits.foldl (fun n d => n * 10 + (d.toNat - '0'.toNat)) 0),
        cs.dropWhile Char.isDigit)
    else if c = '"' || c = '\'' then
      match quotedBody c [] rest with
      | some (body, rest) => .ok (.string (String.ofList body), rest)
      | none => .error { line, reason := "unfinished string" }
    else
      match symbols.find? (·.isPrefixOf cs) with
      | some symbol => .ok (.symbol (String.ofList symbol), cs.drop symbol.length)
      | none =>
        .error { line, reason := "unexpected symbol near '" ++ String.singleton c ++ "'" }

-- The tokens of a text, the last of which marks its end. The first argument bounds the number of
-- steps and is more than the number of characters.
def tokensFrom : Nat → Nat → List Char → Except SyntaxFault (List Token)
  | 0, line, _ => .ok [{ line, kind := .finish }]
  | _ + 1, line, [] => .ok [{ line, kind := .finish }]
  | steps + 1, line, '-' :: '-' :: rest => tokensFrom steps line (rest.dropWhile (· ≠ '\n'))
  | steps + 1, line, c :: rest =>
    if c = '\n' then tokensFrom steps (line + 1) rest
    else if c = ' ' || c = '\t' || c = '\r' then tokensFrom steps line rest
    else do
      let (kind, rest) ← token line (c :: rest)
      let others ← tokensFrom steps line rest
      return { line, kind } :: others

def tokens (source : String) : Except SyntaxFault (List Token) :=
  tokensFrom (source.length + 1) 1 source.toList

end Flowgate.Script
