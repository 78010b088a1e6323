namespace WordLayout.Text

/-- The lower case of a character. U+0130 and U+212A are the characters above ASCII whose lower
case is an ASCII letter; any other character above ASCII stays, since it can meet no ASCII word. -/
def lowerChar (c : Char) : Char :=
  if 'A' ≤ c && c ≤ 'Z' then Char.ofNat (c.toNat + 32)
  else if c.toNat = 0x130 then 'i'
  else if c.toNat = 0x212a then 'k'
  else c

def lower (s : String) : String := String.ofList (s.toList.map lowerChar)

def foldChar (c : Char) : Char :=
  if 'A' ≤ c && c ≤ 'Z' then Char.ofNat (c.toNat + 32)
  else if c.toNat = 0x17f then 's'
  else if c.toNat = 0x212a then 'k'
  else c

def equalFold (s word : String) : Bool :=
  s.toList.map foldChar == word.toList.map foldChar

end WordLayout.Text
