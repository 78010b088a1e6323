namespace WordLayout.Text

def isIdentifierStart (c : Char) : Bool :=
  c == '_' || ('a' ≤ c && c ≤ 'z') || ('A' ≤ c && c ≤ 'Z')

def isAsciiDigit (c : Char) : Bool := '0' ≤ c && c ≤ '9'

def isIdentifierChars : List Char → Bool
  | [] => false
  | c :: cs => isIdentifierStart c && cs.all fun d => isIdentifierStart d || isAsciiDigit d

def isIdentifier (s : String) : Bool := isIdentifierChars s.toList

end WordLayout.Text
