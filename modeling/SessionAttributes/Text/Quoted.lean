import SessionAttributes.Text.Invisible

namespace SessionAttributes.Text

/-- Lower-case hexadecimal digits without leading zeros. -/
def hexNumber (n : Nat) : String := String.ofList (Nat.toDigits 16 n)

/-- A character inside quotation marks. Invisible characters are shown by number. -/
def quotedChar (c : Char) : String :=
  if c = '\x00' then "\\0"
  else if c = '\t' then "\\t"
  else if c = '\n' then "\\n"
  else if c = '\r' then "\\r"
  else if c = '\\' then "\\\\"
  else if c = '\x22' then "\\\""
  else if isInvisible c then "\\u\x7b" ++ hexNumber c.toNat ++ "\x7d"
  else c.toString

def quoted (s : String) : String :=
  "\"" ++ "".intercalate (s.toList.map quotedChar) ++ "\""

def ticked (s : String) : String := "`" ++ s ++ "`"

end SessionAttributes.Text
