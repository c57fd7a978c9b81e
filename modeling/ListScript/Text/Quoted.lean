import ListScript.Text.Unprintable
import ListScript.Text.Combining

/-!
# Quoted text

Two ways to write a text so that every character of it can be seen: the quoted form of strings and
characters, which keeps every visible character, and the plain escape of a character, which keeps
the visible ASCII characters only.
-/

namespace ListScript.Text

/-- An escape by code point, in lowercase hexadecimal digits without padding. -/
def codePointEscape (c : Char) : String :=
  "\\u\x7b" ++ String.ofList (Nat.toDigits 16 c.toNat) ++ "\x7d"

/-- The backslash escapes that every quoted form shares. -/
def sharedEscape? : Char → Option String
  | '\n' => some "\\n"
  | '\r' => some "\\r"
  | '\t' => some "\\t"
  | '\\' => some "\\\\"
  | _ => none

/-- A character as it stands between the given quotes: the shared escapes, the null character, the
quote itself, and code points for what has no visible form of its own. -/
def quotedChar (quote c : Char) : String :=
  match sharedEscape? c with
  | some escape => escape
  | none =>
    if c = '\x00' then "\\0"
    else if c = quote then String.ofList ['\\', c]
    else if combining.contains c || unprintable.contains c then codePointEscape c
    else c.toString

/-- A string between double quotes. -/
def quoteString (s : String) : String :=
  "\"" ++ String.join (s.toList.map (quotedChar '\x22')) ++ "\""

/-- A character between single quotes. -/
def quoteChar (c : Char) : String :=
  "'" ++ quotedChar '\x27' c ++ "'"

/-- A character in visible ASCII: the shared escapes, both quotes, and code points for the rest. -/
def escapeChar (c : Char) : String :=
  match sharedEscape? c with
  | some escape => escape
  | none =>
    if c = '\x27' || c = '\x22' then String.ofList ['\\', c]
    else if 0x20 ≤ c.toNat && c.toNat ≤ 0x7E then c.toString
    else codePointEscape c

end ListScript.Text
