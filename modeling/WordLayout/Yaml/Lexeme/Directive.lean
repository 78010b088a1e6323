import WordLayout.Yaml.Lexeme.Tag
import WordLayout.Yaml.Token

namespace WordLayout.Yaml.Lexeme

open Scan

def versionDigits (context : Mark) (length value : Nat) : Nat → Scan Nat
  | 0 => refuse .longVersion context
  | fuel + 1 => do
    let x ← head
    if x.isDigit then
      if length = 2 then refuse .longVersion context
      skip
      demand 1
      versionDigits context (length + 1) (value * 10 + (x.toNat - 48)) fuel
    else if length = 0 then refuse .noVersion context
    else pure value

def versionNumber (context : Mark) : Scan Nat := do
  demand 1
  versionDigits context 0 0 3

def versionDirective (context : Mark) : Scan TokenKind := do
  skipGap
  let major ← versionNumber context
  if (← head) != '.' then refuse .versionDigit context
  skip
  let minor ← versionNumber context
  pure (.version major minor)

def tagDirective (context : Mark) : Scan TokenKind := do
  skipGap
  let handle ← tagHandle true context
  demand 1
  if !isGap (← head) then refuse .noBlank context
  skipGap
  let start ← tagUri context none
  demand 1
  if !isGapOrEnd (← head) then refuse .noTagEnd context
  pure (.tagDirective handle start)

def directive : Scan (TokenKind × Mark) := do
  let context := (← get).mark
  skip
  demand 1
  let name ← takeWhile isWordChar
  if name.isEmpty then refuse .noDirectiveName context
  if !isGapOrEnd (← head) then refuse .directiveNameEnd context
  let kind ←
    match name with
    | "YAML" => versionDirective context
    | "TAG" => tagDirective context
    | _ => refuse .unknownDirective context
  let stop := (← get).mark
  finishLine context
  pure (kind, stop)

end WordLayout.Yaml.Lexeme
