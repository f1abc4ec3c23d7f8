/-!
# Words and punctuators

The tokens with a fixed spelling. A word is a keyword or one of the names reserved for later; a
punctuator is made of the characters that occur in no name, number or text.
-/

namespace Scriptlet.Token

/-- Keywords, and after them the reserved words. -/
inductive Word where
  | «break» | case | «catch» | «continue» | debugger | default | delete | «do» | «else» | «finally»
  | «for» | function | «if» | «in» | instanceof | new | «return» | switch | this | throw | «try»
  | typeof | var | void | while | «with»
  | «class» | const | enum | «export» | «extends» | «import» | super
  deriving DecidableEq, Repr

/-- Punctuators. -/
inductive Punct where
  | leftBrace | rightBrace | leftParen | rightParen | leftBracket | rightBracket | dot | semicolon
  | comma | lessThan | greaterThan | lessThanEqual | greaterThanEqual | equalEqual | notEqual
  | strictEqual | strictNotEqual | plus | minus | star | slash | percent | plusPlus | minusMinus
  | leftShift | rightShift | unsignedRightShift | ampersand | pipe | caret | bang | tilde
  | ampersandAmpersand | pipePipe | question | colon | equal | plusEqual | minusEqual | starEqual
  | slashEqual | percentEqual | leftShiftEqual | rightShiftEqual | unsignedRightShiftEqual
  | ampersandEqual | pipeEqual | caretEqual
  deriving DecidableEq, Repr

namespace Word

/-- The characters of a word. -/
def spelling : Word → String
  | .«break» => "break"
  | .case => "case"
  | .«catch» => "catch"
  | .«continue» => "continue"
  | .debugger => "debugger"
  | .default => "default"
  | .delete => "delete"
  | .«do» => "do"
  | .«else» => "else"
  | .«finally» => "finally"
  | .«for» => "for"
  | .function => "function"
  | .«if» => "if"
  | .«in» => "in"
  | .instanceof => "instanceof"
  | .new => "new"
  | .«return» => "return"
  | .switch => "switch"
  | .this => "this"
  | .throw => "throw"
  | .«try» => "try"
  | .typeof => "typeof"
  | .var => "var"
  | .void => "void"
  | .while => "while"
  | .«with» => "with"
  | .«class» => "class"
  | .const => "const"
  | .enum => "enum"
  | .«export» => "export"
  | .«extends» => "extends"
  | .«import» => "import"
  | .super => "super"

/-- Words that no construct uses. -/
def isReserved : Word → Bool
  | .«class» | .const | .enum | .«export» | .«extends» | .«import» | .super => true
  | _ => false

end Word

namespace Punct

/-- The characters of a punctuator. -/
def spelling : Punct → String
  | .leftBrace => "\x7b"
  | .rightBrace => "\x7d"
  | .leftParen => "("
  | .rightParen => ")"
  | .leftBracket => "["
  | .rightBracket => "]"
  | .dot => "."
  | .semicolon => ";"
  | .comma => ","
  | .lessThan => "<"
  | .greaterThan => ">"
  | .lessThanEqual => "<="
  | .greaterThanEqual => ">="
  | .equalEqual => "=="
  | .notEqual => "!="
  | .strictEqual => "==="
  | .strictNotEqual => "!=="
  | .plus => "+"
  | .minus => "-"
  | .star => "*"
  | .slash => "/"
  | .percent => "%"
  | .plusPlus => "++"
  | .minusMinus => "--"
  | .leftShift => "<<"
  | .rightShift => ">>"
  | .unsignedRightShift => ">>>"
  | .ampersand => "&"
  | .pipe => "|"
  | .caret => "^"
  | .bang => "!"
  | .tilde => "~"
  | .ampersandAmpersand => "&&"
  | .pipePipe => "||"
  | .question => "?"
  | .colon => ":"
  | .equal => "="
  | .plusEqual => "+="
  | .minusEqual => "-="
  | .starEqual => "*="
  | .slashEqual => "/="
  | .percentEqual => "%="
  | .leftShiftEqual => "<<="
  | .rightShiftEqual => ">>="
  | .unsignedRightShiftEqual => ">>>="
  | .ampersandEqual => "&="
  | .pipeEqual => "|="
  | .caretEqual => "^="

end Punct

end Scriptlet.Token
