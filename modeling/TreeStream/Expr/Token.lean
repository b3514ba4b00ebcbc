import TreeStream.Number.Decimal

/-!
# Tokens of expressions

An expression text is a sequence of tokens with blanks between them.

* `Symbol` and `Token` are the tokens; `===` and `!==` are other spellings of `==` and `!=`.
* `Token.next?` takes the longest token from the front of a text that does not start with a blank.
* `Token.scan` cuts a whole text into tokens, and fails when some part of it is none.
-/

namespace TreeStream
set_option autoImplicit false

/-- The tokens without content. -/
inductive Symbol where
  | semicolon | comma | colon | dot
  | leftParen | rightParen | leftBracket | rightBracket | leftBrace | rightBrace
  | assign
  | or | and | eq | ne | le | ge | lt | gt
  | plus | minus | star | slash | percent | bang
deriving Repr, DecidableEq, Inhabited

/-- A token of an expression text. -/
inductive Token where
  | null
  | bool (b : Bool)
  | num (x : Float)
  | str (s : String)
  | ident (name : String)
  | symbol (s : Symbol)
deriving Inhabited

namespace Token

/-- What may stand between tokens. -/
def isBlank (c : Char) : Bool :=
  c = ' ' || c = '\t' || c = '\r' || c = '\n'

/-- What may start a name. -/
def isNameStart (c : Char) : Bool :=
  c.isAlpha || c = '_' || c = '$'

/-- What may stand in a name. -/
def isNameChar (c : Char) : Bool :=
  c.isAlphanum || c = '_' || c = '$'

/-- A word is a name, unless it is one of three that stand for values. -/
def ofWord (word : List Char) : Token :=
  if word = ['n', 'u', 'l', 'l'] then .null
  else if word = ['t', 'r', 'u', 'e'] then .bool true
  else if word = ['f', 'a', 'l', 's', 'e'] then .bool false
  else .ident (String.ofList word)

/-- The character that a character after a backslash stands for. -/
def unescape : Char → Char
  | 'n' => '\n'
  | 't' => '\t'
  | 'r' => '\r'
  | c => c

/-- The rest of a string after its opening quote: its content, and what follows its closing
quote. -/
def scanString (quote : Char) : List Char → Option (List Char × List Char)
  | [] => none
  | '\\' :: c :: rest =>
    (scanString quote rest).map fun result => (unescape c :: result.1, result.2)
  | c :: rest =>
    if c = quote then some ([], rest)
    else if c = '\\' then none
    else (scanString quote rest).map fun result => (c :: result.1, result.2)

/-- A number is a run of digits, with a fraction when a point and a digit follow. -/
def scanNumber (cs : List Char) : Token × List Char :=
  let whole := cs.takeWhile Char.isDigit
  let rest := cs.dropWhile Char.isDigit
  match rest with
  | '.' :: more =>
    let fraction := more.takeWhile Char.isDigit
    if fraction.isEmpty then (.num (Number.nearestDecimal whole [] 0), rest)
    else (.num (Number.nearestDecimal whole fraction 0), more.dropWhile Char.isDigit)
  | _ => (.num (Number.nearestDecimal whole [] 0), rest)

/-- The longest symbol at the front of a text. -/
def scanSymbol? : List Char → Option (Symbol × List Char)
  | ';' :: rest => some (.semicolon, rest)
  | ',' :: rest => some (.comma, rest)
  | ':' :: rest => some (.colon, rest)
  | '.' :: rest => some (.dot, rest)
  | '(' :: rest => some (.leftParen, rest)
  | ')' :: rest => some (.rightParen, rest)
  | '[' :: rest => some (.leftBracket, rest)
  | ']' :: rest => some (.rightBracket, rest)
  | '\x7b' :: rest => some (.leftBrace, rest)
  | '\x7d' :: rest => some (.rightBrace, rest)
  | '=' :: '=' :: '=' :: rest => some (.eq, rest)
  | '=' :: '=' :: rest => some (.eq, rest)
  | '=' :: rest => some (.assign, rest)
  | '!' :: '=' :: '=' :: rest => some (.ne, rest)
  | '!' :: '=' :: rest => some (.ne, rest)
  | '!' :: rest => some (.bang, rest)
  | '|' :: '|' :: rest => some (.or, rest)
  | '&' :: '&' :: rest => some (.and, rest)
  | '<' :: '=' :: rest => some (.le, rest)
  | '<' :: rest => some (.lt, rest)
  | '>' :: '=' :: rest => some (.ge, rest)
  | '>' :: rest => some (.gt, rest)
  | '+' :: rest => some (.plus, rest)
  | '-' :: rest => some (.minus, rest)
  | '*' :: rest => some (.star, rest)
  | '/' :: rest => some (.slash, rest)
  | '%' :: rest => some (.percent, rest)
  | _ => none

/-- The longest token at the front of a text, and the rest of the text. -/
def next? : List Char → Option (Token × List Char)
  | [] => none
  | c :: cs =>
    if isNameStart c then
      some (ofWord (c :: cs.takeWhile isNameChar), cs.dropWhile isNameChar)
    else if c.isDigit then some (scanNumber (c :: cs))
    else if c = '"' ∨ c = '\'' then
      (scanString c cs).map fun result => (.str (String.ofList result.1), result.2)
    else (scanSymbol? (c :: cs)).map fun result => (.symbol result.1, result.2)

/-- At most `count` tokens that make up a whole text. -/
def scanAtMost : Nat → List Char → Option (List Token)
  | 0, cs => if (cs.dropWhile isBlank).isEmpty then some [] else none
  | count + 1, cs =>
    match cs.dropWhile isBlank with
    | [] => some []
    | c :: cs =>
      match next? (c :: cs) with
      | none => none
      | some (token, rest) => (scanAtMost count rest).map (token :: ·)

/-- The tokens of a text; there are no more of them than characters. -/
def scan (cs : List Char) : Option (List Token) :=
  scanAtMost cs.length cs

end Token
end TreeStream
