/-!
# Escapes in literals

Inside a string or character literal a backslash and the character after it stand for one character.
-/

namespace ListScript.Escape

/-- The character that a backslash and the given character stand for. -/
def unescape? : Char → Option Char
  | 'n' => some '\n'
  | 't' => some '\t'
  | 'r' => some '\r'
  | '0' => some '\x00'
  | '\\' => some '\\'
  | '\x22' => some '\x22'
  | '\x27' => some '\x27'
  | _ => none

/-- The characters that the body of a literal stands for. A backslash that starts no escape is
dropped together with the character after it. -/
def decode : List Char → List Char
  | [] => []
  | '\\' :: c :: rest => (unescape? c).toList ++ decode rest
  | ['\\'] => []
  | c :: rest => c :: decode rest

end ListScript.Escape
