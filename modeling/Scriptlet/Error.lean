import Scriptlet.Value
import Scriptlet.Token.Kind

/-!
# Errors

Reading a program fails at a character that starts no token, or at a token that the grammar does not
allow. Running it fails at a call of something that is not a function. Defects are failures that no
program read from text can meet: they arise from trees made by other means.
-/

namespace Scriptlet

open Token

/-- What the grammar allows in place of a token. -/
inductive Expected where
  | kind (k : Kind)
  | identifier
  | expression
  | operator
  | target
  /-- A jump needs a loop around it. -/
  | loop

/-- Failures that show a malformed tree. -/
inductive Defect where
  /-- A jump reached the end of a program. -/
  | strayJump
  /-- A jump reached the end of a function. -/
  | escapedJump
  /-- A node used as an operand completed abruptly. -/
  | noValue (c : Completion)
  /-- A node other than a name or a property was assigned to. -/
  | noTarget (target : Node)
  /-- The token ahead was scanned and is not remembered. -/
  | noLookahead
  /-- The grammar was followed to a greater depth than the text allows. -/
  | depth

/-- Why reading or running a program failed. -/
inductive Error where
  | invalidToken (offset : Nat)
  | unexpected (found : Kind) (offset : Nat) (expected : Expected)
  | notCallable (description : String)
  | internal (defect : Defect)

/-- What was expected, in words. -/
def Expected.describe : Expected → String
  | .kind k => k.describe
  | .identifier => "identifier"
  | .expression => "expression"
  | .operator => "operator"
  | .target => "assignment target"
  | .loop => "statement outside of a loop"

/-- The defect in words. -/
def Defect.describe : Defect → String
  | .strayJump => "loop control outside of a loop"
  | .escapedJump => "loop control escaped a function body"
  | .noValue c => c.outline.line ++ " completion in expression position"
  | .noTarget target => "cannot assign to " ++ target.outline.line
  | .noLookahead => "lookahead missing after scan"
  | .depth => "nesting deeper than the text"

namespace Error

/-- The message of an error: its type, a colon and the cause. -/
def message : Error → String
  | .invalidToken offset => "SyntaxError: invalid token at offset " ++ toString offset
  | .unexpected found offset expected =>
    "SyntaxError: unexpected " ++ found.describe ++ " at offset " ++ toString offset ++
      ", expected " ++ expected.describe
  | .notCallable description => "TypeError: " ++ description ++ " is not a function"
  | .internal defect => "InternalError: " ++ defect.describe

/-- Whether the error arose from reading, before anything ran. -/
def isSyntaxError : Error → Bool
  | .invalidToken _ => true
  | .unexpected .. => true
  | _ => false

end Error

end Scriptlet
