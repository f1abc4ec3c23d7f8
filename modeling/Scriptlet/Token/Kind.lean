import Scriptlet.Number.Layout
import Scriptlet.Token.Fixed

/-!
# Token kinds

What a token is, apart from where it stands: a literal with its value, a name, a token of fixed
spelling, a run of line ends, or the end of the text.
-/

namespace Scriptlet.Token

/-- The kinds of tokens. -/
inductive Kind where
  | number (value : Float)
  | string (body : String)
  | regExp (pattern flags : String)
  | boolean (value : Bool)
  | null
  | identifier (name : String)
  | word (w : Word)
  | punct (p : Punct)
  | lineBreak
  | eof
  deriving DecidableEq

namespace Kind

/-- The kind that a name denotes if it is a keyword, a reserved word or the name of a literal. -/
def ofWord? : String → Option Kind
  | "break" => some (.word .«break»)
  | "case" => some (.word .case)
  | "catch" => some (.word .«catch»)
  | "class" => some (.word .«class»)
  | "const" => some (.word .const)
  | "continue" => some (.word .«continue»)
  | "debugger" => some (.word .debugger)
  | "default" => some (.word .default)
  | "delete" => some (.word .delete)
  | "do" => some (.word .«do»)
  | "else" => some (.word .«else»)
  | "enum" => some (.word .enum)
  | "export" => some (.word .«export»)
  | "extends" => some (.word .«extends»)
  | "false" => some (.boolean false)
  | "finally" => some (.word .«finally»)
  | "for" => some (.word .«for»)
  | "function" => some (.word .function)
  | "if" => some (.word .«if»)
  | "import" => some (.word .«import»)
  | "in" => some (.word .«in»)
  | "instanceof" => some (.word .instanceof)
  | "new" => some (.word .new)
  | "null" => some (.null)
  | "return" => some (.word .«return»)
  | "super" => some (.word .super)
  | "switch" => some (.word .switch)
  | "this" => some (.word .this)
  | "throw" => some (.word .throw)
  | "true" => some (.boolean true)
  | "try" => some (.word .«try»)
  | "typeof" => some (.word .typeof)
  | "var" => some (.word .var)
  | "void" => some (.word .void)
  | "while" => some (.word .while)
  | "with" => some (.word .«with»)
  | _ => none

/-- The characters of a token, if its kind fixes them. -/
def spelling? : Kind → Option String
  | .boolean true => some "true"
  | .boolean false => some "false"
  | .null => some "null"
  | .word w => some w.spelling
  | .punct p => some p.spelling
  | _ => none

/-- Whether two kinds are the same up to the values and texts that they carry. -/
def alike : Kind → Kind → Bool
  | .number _, .number _ | .string _, .string _ | .regExp .., .regExp .. | .boolean _, .boolean _
  | .identifier _, .identifier _ => true
  | k, k' => k = k'

@[simp] theorem alike_self (k : Kind) : k.alike k = true := by
  cases k <;> simp [alike]

/-- A kind that carries no value and no text. -/
class Fixed (k : Kind) : Prop where
  alike_iff : ∀ k' : Kind, k'.alike k = true ↔ k' = k

theorem alike_eq_false {k k' : Kind} [Fixed k] (h : k' ≠ k) : k'.alike k = false :=
  Bool.eq_false_iff.2 (mt (Fixed.alike_iff k').1 h)

instance (w : Word) : Fixed (.word w) := ⟨fun k => by simp [alike]⟩

instance (p : Punct) : Fixed (.punct p) := ⟨fun k => by simp [alike]⟩

instance : Fixed .eof := ⟨fun k => by simp [alike]⟩

/-- A word that some construct uses. -/
def isKeyword : Kind → Bool
  | .word w => !w.isReserved
  | _ => false

/-- A word set aside for later use. -/
def isReserved : Kind → Bool
  | .word w => w.isReserved
  | _ => false

/-- Numbers, strings, regular expressions, booleans and null. -/
def isLiteral : Kind → Bool
  | .number _ | .string _ | .regExp .. | .boolean _ | .null => true
  | _ => false

/-- Whether an operator, and not an operand, is expected after a token of this kind. -/
def endsOperand : Kind → Bool
  | .identifier _ | .word .this | .punct .rightParen | .punct .rightBracket | .punct .plusPlus
  | .punct .minusMinus => true
  | k => k.isLiteral

/-- The kind in words, as messages and token lists show it. -/
def describe : Kind → String
  | .number x => "number `" ++ Number.Layout.ofMessage.render x ++ "`"
  | .string s => "string `" ++ s ++ "`"
  | .regExp pattern flags => "regular expression `/" ++ pattern ++ "/" ++ flags ++ "`"
  | .identifier name => "identifier `" ++ name ++ "`"
  | .lineBreak => "line break"
  | .eof => "end of input"
  | .boolean true => "`true`"
  | .boolean false => "`false`"
  | .null => "`null`"
  | .word w => "`" ++ w.spelling ++ "`"
  | .punct p => "`" ++ p.spelling ++ "`"

end Kind

end Scriptlet.Token
