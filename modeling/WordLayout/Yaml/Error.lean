namespace WordLayout.Yaml

structure Mark where
  index : Nat := 0
  line : Nat := 0
  column : Nat := 0
  deriving DecidableEq, Inhabited

inductive Problem
  -- bytes
  | leadingOctet
  | incompleteSequence
  | trailingOctet
  | sequenceLength
  | invalidCharacter
  | incompleteUnit
  | lowSurrogate
  | incompletePair
  | noLowSurrogate
  | controlCharacter
  -- tokens
  | noToken
  | noColon
  | noEntryHere
  | noKeyHere
  | noValueHere
  | tooDeep
  | noDirectiveName
  | directiveNameEnd
  | unknownDirective
  | versionDigit
  | longVersion
  | noVersion
  | noBlank
  | noLineEnd
  | anchorName
  | noTagClose
  | noTagEnd
  | noTagUri
  | noEscapedOctet
  | leadingTagOctet
  | trailingTagOctet
  | noTagMark
  | zeroIndent
  | tabIndent
  | tabInPlain
  | documentInQuotes
  | endInQuotes
  | unknownEscape
  | noHexDigit
  | escapeCode
  -- structure
  | noDocumentStart
  | repeatedVersion
  | otherVersion
  | repeatedTagDirective
  | unknownTagHandle
  | noContent
  | noEntry
  | noKey
  | noFlowSequenceEnd
  | noFlowMappingEnd
  | unknownAnchor (name : String)
  deriving DecidableEq, Inhabited

def Problem.text : Problem → String
  | .leadingOctet => "invalid leading UTF-8 octet"
  | .incompleteSequence => "incomplete UTF-8 octet sequence"
  | .trailingOctet => "invalid trailing UTF-8 octet"
  | .sequenceLength => "invalid length of a UTF-8 sequence"
  | .invalidCharacter => "invalid Unicode character"
  | .incompleteUnit => "incomplete UTF-16 character"
  | .lowSurrogate => "unexpected low surrogate area"
  | .incompletePair => "incomplete UTF-16 surrogate pair"
  | .noLowSurrogate => "expected low surrogate area"
  | .controlCharacter => "control characters are not allowed"
  | .noToken => "found character that cannot start any token"
  | .noColon => "could not find expected ':'"
  | .noEntryHere => "block sequence entries are not allowed in this context"
  | .noKeyHere => "mapping keys are not allowed in this context"
  | .noValueHere => "mapping values are not allowed in this context"
  | .tooDeep => "exceeded max depth of 10000"
  | .noDirectiveName => "could not find expected directive name"
  | .directiveNameEnd => "found unexpected non-alphabetical character"
  | .unknownDirective => "found unknown directive name"
  | .versionDigit => "did not find expected digit or '.' character"
  | .longVersion => "found extremely long version number"
  | .noVersion => "did not find expected version number"
  | .noBlank => "did not find expected whitespace"
  | .noLineEnd => "did not find expected comment or line break"
  | .anchorName => "did not find expected alphabetic or numeric character"
  | .noTagClose => "did not find the expected '>'"
  | .noTagEnd => "did not find expected whitespace or line break"
  | .noTagUri => "did not find expected tag URI"
  | .noEscapedOctet => "did not find URI escaped octet"
  | .leadingTagOctet => "found an incorrect leading UTF-8 octet"
  | .trailingTagOctet => "found an incorrect trailing UTF-8 octet"
  | .noTagMark => "did not find expected '!'"
  | .zeroIndent => "found an indentation indicator equal to 0"
  | .tabIndent => "found a tab character where an indentation space is expected"
  | .tabInPlain => "found a tab character that violates indentation"
  | .documentInQuotes => "found unexpected document indicator"
  | .endInQuotes => "found unexpected end of stream"
  | .unknownEscape => "found unknown escape character"
  | .noHexDigit => "did not find expected hexdecimal number"
  | .escapeCode => "found invalid Unicode character escape code"
  | .noDocumentStart => "did not find expected <document start>"
  | .repeatedVersion => "found duplicate %YAML directive"
  | .otherVersion => "found incompatible YAML document"
  | .repeatedTagDirective => "found duplicate %TAG directive"
  | .unknownTagHandle => "found undefined tag handle"
  | .noContent => "did not find expected node content"
  | .noEntry => "did not find expected '-' indicator"
  | .noKey => "did not find expected key"
  | .noFlowSequenceEnd => "did not find expected ',' or ']'"
  | .noFlowMappingEnd => "did not find expected ',' or '\x7d'"
  | .unknownAnchor name => "unknown anchor '" ++ name ++ "' referenced"

structure Error where
  problem : Problem
  line : Option Nat := none
  deriving DecidableEq, Inhabited

inductive Layer
  | bytes
  | token
  | order
  deriving DecidableEq, Inhabited

structure Trouble where
  layer : Layer
  problem : Problem
  context : Mark := {}
  mark : Mark := {}
  deriving DecidableEq, Inhabited

namespace Trouble

def ofBytes (earlier : Option Trouble) (problem : Problem) : Trouble :=
  { earlier.getD default with layer := .bytes, problem }

def ofOrder (earlier : Option Trouble) (problem : Problem) (context : Option Mark) (mark : Mark) :
    Trouble :=
  { layer := .order, problem, mark
    context := context.getD ((earlier.map (·.context)).getD {}) }

def line? (t : Trouble) : Option Nat :=
  if t.context.line ≠ 0 then some t.context.line
  else if t.mark.line ≠ 0 then some t.mark.line
  else none

/-- A trouble is reported at the line where the broken construct starts, or else at the line where
it breaks; on the first line it is reported without a line. Outside of tokens it is reported one
line too early. -/
def error (t : Trouble) : Error :=
  { problem := t.problem
    line := if t.layer = .token then t.line?.map (· + 1) else t.line? }

end Trouble

end WordLayout.Yaml
