import ListScript.Source.Span

/-!
# Tokens

A token is a symbol, a keyword, a name or a literal, or the end of the text. Symbols and keywords
have one spelling each. A token remembers its text and whether a newline stands between it and the
token before, which is all of the layout that the grammar looks at.
-/

namespace ListScript

/-- The tokens made of punctuation. -/
inductive Symbol where
  | leftParen | rightParen | leftBrace | rightBrace | leftBracket | rightBracket | comma
  | semicolon | dot | plus | minus | star | slash | percent | plusPlus | minusMinus | bang
  | andAnd | orOr | equalEqual | less | lessEqual | greater | greaterEqual | equal | colonEqual
  | plusEqual | minusEqual | starEqual | slashEqual | percentEqual | arrow | ampersand | fatArrow
  | doubleDot | doubleDotEqual | doubleColon | leftShift | rightShift
  deriving DecidableEq, Repr

namespace Symbol

/-- How the symbol is written. -/
def spelling : Symbol → String
  | .leftParen => "("
  | .rightParen => ")"
  | .leftBrace => "\x7b"
  | .rightBrace => "\x7d"
  | .leftBracket => "["
  | .rightBracket => "]"
  | .comma => ","
  | .semicolon => ";"
  | .dot => "."
  | .plus => "+"
  | .minus => "-"
  | .star => "*"
  | .slash => "/"
  | .percent => "%"
  | .plusPlus => "++"
  | .minusMinus => "--"
  | .bang => "!"
  | .andAnd => "&&"
  | .orOr => "||"
  | .equalEqual => "=="
  | .less => "<"
  | .lessEqual => "<="
  | .greater => ">"
  | .greaterEqual => ">="
  | .equal => "="
  | .colonEqual => ":="
  | .plusEqual => "+="
  | .minusEqual => "-="
  | .starEqual => "*="
  | .slashEqual => "/="
  | .percentEqual => "%="
  | .arrow => "->"
  | .ampersand => "&"
  | .fatArrow => "=>"
  | .doubleDot => ".."
  | .doubleDotEqual => "..="
  | .doubleColon => "::"
  | .leftShift => "<<"
  | .rightShift => ">>"

/-- What messages and token listings call the symbol. -/
def label : Symbol → String
  | .leftParen => "LEFT_PAREN"
  | .rightParen => "RIGHT_PAREN"
  | .leftBrace => "LEFT_BRACE"
  | .rightBrace => "RIGHT_BRACE"
  | .leftBracket => "LEFT_BRACKET"
  | .rightBracket => "RIGHT_BRACKET"
  | .comma => "COMMA"
  | .semicolon => "SEMICOLON"
  | .dot => "DOT"
  | .plus => "PLUS"
  | .minus => "MINUS"
  | .star => "STAR"
  | .slash => "SLASH"
  | .percent => "PERCENT"
  | .plusPlus => "PLUS_PLUS"
  | .minusMinus => "MINUS_MINUS"
  | .bang => "BANG"
  | .andAnd => "AND_AND"
  | .orOr => "OR_OR"
  | .equalEqual => "EQUAL_EQUAL"
  | .less => "LESS"
  | .lessEqual => "LESS_EQUAL"
  | .greater => "GREATER"
  | .greaterEqual => "GREATER_EQUAL"
  | .equal => "EQUAL"
  | .colonEqual => "COLON_EQUAL"
  | .plusEqual => "PLUS_EQUAL"
  | .minusEqual => "MINUS_EQUAL"
  | .starEqual => "STAR_EQUAL"
  | .slashEqual => "SLASH_EQUAL"
  | .percentEqual => "PERCENT_EQUAL"
  | .arrow => "ARROW"
  | .ampersand => "AMPERSAND"
  | .fatArrow => "FAT_ARROW"
  | .doubleDot => "DOUBLE_DOT"
  | .doubleDotEqual => "DOUBLE_DOT_EQUAL"
  | .doubleColon => "DOUBLE_COLON"
  | .leftShift => "LEFT_SHIFT"
  | .rightShift => "RIGHT_SHIFT"

/-- The symbol's name in structural text. -/
def inspect : Symbol → String
  | .leftParen => "LeftParenthesis"
  | .rightParen => "RightParenthesis"
  | .leftBrace => "LeftBrace"
  | .rightBrace => "RightBrace"
  | .leftBracket => "LeftBracket"
  | .rightBracket => "RightBracket"
  | .comma => "Comma"
  | .semicolon => "Semicolon"
  | .dot => "Dot"
  | .plus => "Plus"
  | .minus => "Minus"
  | .star => "Star"
  | .slash => "Slash"
  | .percent => "Percent"
  | .plusPlus => "PlusPlus"
  | .minusMinus => "MinusMinus"
  | .bang => "Bang"
  | .andAnd => "AndAnd"
  | .orOr => "OrOr"
  | .equalEqual => "EqualEqual"
  | .less => "LessThan"
  | .lessEqual => "LessThanEqual"
  | .greater => "GreaterThan"
  | .greaterEqual => "GreaterThanEqual"
  | .equal => "Equal"
  | .colonEqual => "ColonEqual"
  | .plusEqual => "PlusEqual"
  | .minusEqual => "MinusEqual"
  | .starEqual => "StarEqual"
  | .slashEqual => "SlashEqual"
  | .percentEqual => "PercentEqual"
  | .arrow => "Arrow"
  | .ampersand => "Ampersand"
  | .fatArrow => "FatArrow"
  | .doubleDot => "DoubleDot"
  | .doubleDotEqual => "DoubleDotEqual"
  | .doubleColon => "DoubleColon"
  | .leftShift => "LeftShift"
  | .rightShift => "RightShift"

end Symbol

/-- The reserved words. -/
inductive Keyword where
  | nullWord | trueWord | falseWord | ifWord | elseWord | whileWord | forWord | inWord | ofWord
  | breakWord | continueWord
  deriving DecidableEq, Repr

namespace Keyword

/-- The words that are keywords. -/
def table : List (String × Keyword) := [
  ("null", .nullWord), ("true", .trueWord), ("false", .falseWord), ("if", .ifWord),
  ("else", .elseWord), ("while", .whileWord), ("for", .forWord), ("in", .inWord),
  ("of", .ofWord), ("break", .breakWord), ("continue", .continueWord)]

/-- How the keyword is written. -/
def spelling : Keyword → String
  | .nullWord => "null"
  | .trueWord => "true"
  | .falseWord => "false"
  | .ifWord => "if"
  | .elseWord => "else"
  | .whileWord => "while"
  | .forWord => "for"
  | .inWord => "in"
  | .ofWord => "of"
  | .breakWord => "break"
  | .continueWord => "continue"

/-- What messages and token listings call the keyword. -/
def label : Keyword → String
  | .nullWord => "NULL"
  | .trueWord => "TRUE"
  | .falseWord => "FALSE"
  | .ifWord => "IF"
  | .elseWord => "ELSE"
  | .whileWord => "WHILE"
  | .forWord => "FOR"
  | .inWord => "IN"
  | .ofWord => "OF"
  | .breakWord => "BREAK"
  | .continueWord => "CONTINUE"

/-- The keyword's name in structural text. -/
def inspect : Keyword → String
  | .nullWord => "KeywordNull"
  | .trueWord => "KeywordTrue"
  | .falseWord => "KeywordFalse"
  | .ifWord => "KeywordIf"
  | .elseWord => "KeywordElse"
  | .whileWord => "KeywordWhile"
  | .forWord => "KeywordFor"
  | .inWord => "KeywordIn"
  | .ofWord => "KeywordOf"
  | .breakWord => "KeywordBreak"
  | .continueWord => "KeywordContinue"

end Keyword

namespace Token

/-- What a token is. -/
inductive Kind where
  /-- Punctuation. -/
  | symbol (symbol : Symbol)
  /-- A reserved word. -/
  | keyword (keyword : Keyword)
  /-- A numeric literal. -/
  | number
  /-- A string literal. -/
  | string
  /-- A character literal. -/
  | character
  /-- A name. -/
  | identifier
  /-- The end of the text. -/
  | endOfText
  deriving DecidableEq, Repr

namespace Kind

/-- The one spelling of the tokens of this kind, if they have one. -/
def spelling? : Kind → Option String
  | .symbol s => some s.spelling
  | .keyword k => some k.spelling
  | _ => none

/-- What messages and token listings call the kind. -/
def label : Kind → String
  | .symbol s => s.label
  | .keyword k => k.label
  | .number => "NUMBER"
  | .string => "STRING"
  | .character => "CHARACTER"
  | .identifier => "IDENTIFIER"
  | .endOfText => "EOF"

/-- The kind's name in structural text. -/
def inspect : Kind → String
  | .symbol s => s.inspect
  | .keyword k => k.inspect
  | .number => "NumericLiteral"
  | .string => "StringLiteral"
  | .character => "CharacterLiteral"
  | .identifier => "Ident"
  | .endOfText => "Eof"

end Kind

end Token

/-- A token of a source text. -/
structure Token where
  /-- What the token is. -/
  kind : Token.Kind
  /-- Where it stands. -/
  span : Span
  /-- The text under the span. -/
  lexeme : String
  /-- A newline stands between the token and what comes before it. -/
  startsLine : Bool
  deriving DecidableEq, Repr

/-- The structural text of a token. -/
def Token.inspect (token : Token) : String :=
  Text.Inspect.record "Token" [("kind", token.kind.inspect), ("span", token.span.inspect)]

end ListScript
