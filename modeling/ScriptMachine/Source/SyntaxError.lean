import ScriptMachine.Source.Token

/-!
# Why a source text is refused

Each refusal has a cause and a place. The wording of every cause is in one function.
-/

namespace ScriptMachine.Source

/-- The position at which an assignment target is required. -/
inductive TargetUse where
  | assignment
  | beforeOperand
  | afterOperand
  deriving DecidableEq, Repr

inductive SyntaxCause where
  | escapeInIdentifier
  | unexpectedCharacter (c : Char)
  | unterminatedComment
  | unterminatedString
  | octalEscape
  | badHexEscape
  | badUnicodeEscape
  | badHexLiteral
  | octalLiteral
  | badNumber
  | numberRunsOn
  | withStatement
  | duplicateParameter
  | badForInTarget
  | duplicateDefault
  | tryAlone
  | returnOutside
  | undefinedLabel (name : String)
  | breakOutside
  | continueOutside
  | notALoop (name : String)
  | newlineAfterThrow
  | duplicateLabel (name : String)
  | badTarget (use : TargetUse)
  | restrictedName
  | deleteName (name : String)
  | regularExpression
  | reservedWord (word : String)
  | accessor
  | duplicateKey (key : String)
  /-- The token found, if the text did not end, and what was expected in its place. -/
  | unexpected (found : Option String) (expected : String)
  /-- The nesting exceeds the depth that was allowed for. -/
  | tooDeep
  deriving DecidableEq, Repr

/-- The wording of a cause. -/
def SyntaxCause.message : SyntaxCause → String
  | .escapeInIdentifier => "Unicode escapes in identifiers are not supported"
  | .unexpectedCharacter c => "Unexpected character '" ++ c.toString ++ "'"
  | .unterminatedComment => "Unterminated comment"
  | .unterminatedString => "Unterminated string literal"
  | .octalEscape => "Octal escape sequences are not allowed in strict mode"
  | .badHexEscape => "Invalid hexadecimal escape sequence"
  | .badUnicodeEscape => "Invalid Unicode escape sequence"
  | .badHexLiteral => "Invalid hexadecimal literal"
  | .octalLiteral => "Octal literals are not allowed in strict mode"
  | .badNumber => "Invalid number literal"
  | .numberRunsOn => "Invalid or unexpected token"
  | .withStatement => "Strict mode code may not include a with statement"
  | .duplicateParameter => "Duplicate parameter name not allowed in this context"
  | .badForInTarget => "Invalid left-hand side in for-in loop"
  | .duplicateDefault => "More than one default clause in switch statement"
  | .tryAlone => "Missing catch or finally after try"
  | .returnOutside => "Illegal return statement"
  | .undefinedLabel name => "Undefined label '" ++ name ++ "'"
  | .breakOutside => "Illegal break statement"
  | .continueOutside => "Illegal continue statement"
  | .notALoop name =>
    "Illegal continue statement: '" ++ name ++ "' does not denote an iteration statement"
  | .newlineAfterThrow => "Illegal newline after throw"
  | .duplicateLabel name => "Label '" ++ name ++ "' has already been declared"
  | .badTarget .assignment => "Invalid left-hand side in assignment"
  | .badTarget .beforeOperand => "Invalid left-hand side expression in prefix operation"
  | .badTarget .afterOperand => "Invalid left-hand side expression in postfix operation"
  | .restrictedName => "Unexpected eval or arguments in strict mode"
  | .deleteName name => "Delete of an unqualified identifier '" ++ name ++ "' in strict mode"
  | .regularExpression => "Regular expression literals are not supported"
  | .reservedWord word => "Unexpected strict mode reserved word '" ++ word ++ "'"
  | .accessor => "Accessor properties are not supported"
  | .duplicateKey key => "Duplicate data property '" ++ key ++ "' in object literal"
  | .unexpected found expected =>
    let what :=
      match found with
      | some text => "token '" ++ text ++ "'"
      | none => "end of input"
    "Unexpected " ++ what ++ ", expected " ++ expected
  | .tooDeep => "Source is nested too deeply"

/-- A refusal: its cause and the line and column it is reported at. -/
structure SyntaxError where
  cause : SyntaxCause
  line : Count
  column : Count
  deriving DecidableEq, Repr

end ScriptMachine.Source
