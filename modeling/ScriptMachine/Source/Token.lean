/-!
# Tokens and their places

Offsets in a source text count bytes of the UTF-8 form, columns count characters from one. A token
is a literal, a name, a keyword, a punctuator or the end of the text. Keywords and punctuators are
closed lists; each has its spelling and the label used in messages.
-/

namespace ScriptMachine.Source

/-- A count in 32 bits, which starts over behind the greatest one. -/
abbrev Count := Fin 4294967296

def Count.ofNat (n : Nat) : Count := ⟨n % 4294967296, Nat.mod_lt n (by decide)⟩

instance (priority := 2000) (n : Nat) : OfNat Count n := ⟨Count.ofNat n⟩

theorem Count.val_succ (n : Count) : (n + 1).val = (n.val + 1) % 4294967296 := rfl

/-- A stretch of source text with the line and column of its start. -/
structure Span where
  start : Nat
  stop : Nat
  line : Count
  column : Count
  deriving DecidableEq, Repr, Inhabited

/-- The characters of a text between two byte offsets, or nothing when an offset falls inside a
character or behind the end. `skipped` is how many bytes precede the list. -/
def sliceFrom (start stop skipped : Nat) : List Char → Option (List Char)
  | [] => if skipped = start ∧ skipped = stop then some [] else none
  | c :: rest =>
    if skipped < start then sliceFrom start stop (skipped + c.utf8Size) rest
    else if skipped = start then takeTo stop skipped (c :: rest)
    else none
where
  /-- The characters up to a byte offset. -/
  takeTo (stop offset : Nat) : List Char → Option (List Char)
    | [] => if offset = stop then some [] else none
    | c :: rest =>
      if offset = stop then some []
      else if offset < stop then (takeTo stop (offset + c.utf8Size) rest).map (c :: ·)
      else none

/-- The text between two byte offsets; empty when they do not cut the text between characters. -/
def slice (source : String) (start stop : Nat) : String :=
  String.ofList ((sliceFrom start stop 0 source.toList).getD [])

inductive Keyword where
  | true | false | null | var | function | return | if | else | for | while | do | break
  | continue | switch | case | default | try | catch | finally | throw | new | this | typeof
  | instanceof | in | void | delete | debugger
  deriving DecidableEq, Repr

namespace Keyword

/-- Every keyword with its spelling and its label. -/
def table : List (Keyword × String × String) :=
  [(.true, "true", "True"), (.false, "false", "False"), (.null, "null", "Null"),
   (.var, "var", "Var"), (.function, "function", "Function"), (.return, "return", "Return"),
   (.if, "if", "If"), (.else, "else", "Else"), (.for, "for", "For"), (.while, "while", "While"),
   (.do, "do", "Do"), (.break, "break", "Break"), (.continue, "continue", "Continue"),
   (.switch, "switch", "Switch"), (.case, "case", "Case"), (.default, "default", "Default"),
   (.try, "try", "Try"), (.catch, "catch", "Catch"), (.finally, "finally", "Finally"),
   (.throw, "throw", "Throw"), (.new, "new", "New"), (.this, "this", "This"),
   (.typeof, "typeof", "Typeof"), (.instanceof, "instanceof", "Instanceof"), (.in, "in", "In"),
   (.void, "void", "Void"), (.delete, "delete", "Delete"), (.debugger, "debugger", "Debugger")]

def ofText? (s : String) : Option Keyword :=
  (table.find? fun (_, text, _) => text == s).map (·.1)

def text (k : Keyword) : String :=
  ((table.find? fun (k', _, _) => k' == k).map (·.2.1)).getD ""

def label (k : Keyword) : String :=
  ((table.find? fun (k', _, _) => k' == k).map (·.2.2)).getD ""

theorem ofText?_text (k : Keyword) : ofText? k.text = some k := by
  cases k <;> decide

end Keyword

/-- Words that are reserved in strict code and have no meaning here. -/
def reservedWords : List String :=
  ["with", "class", "const", "enum", "export", "extends", "import", "super", "implements",
   "interface", "let", "package", "private", "protected", "public", "static", "yield"]

inductive Punctuator where
  | plus | minus | star | slash | percent | plusPlus | minusMinus | eq | eqEq | eqEqEq | bangEq
  | bangEqEq | lt | ltEq | gt | gtEq | ltLt | gtGt | gtGtGt | amp | ampAmp | pipe | pipePipe
  | caret | tilde | bang | question | plusEq | minusEq | starEq | slashEq | percentEq | ampEq
  | pipeEq | caretEq | ltLtEq | gtGtEq | gtGtGtEq | lParen | rParen | lBrace | rBrace | lBracket
  | rBracket | dot | comma | colon | semicolon
  deriving DecidableEq, Repr

namespace Punctuator

/-- Every punctuator with its spelling and its label; of two spellings of which one begins the
other, the longer one comes first. -/
def table : List (Punctuator × String × String) :=
  [(.plusPlus, "++", "PlusPlus"), (.plusEq, "+=", "PlusEq"), (.plus, "+", "Plus"),
   (.minusMinus, "--", "MinusMinus"), (.minusEq, "-=", "MinusEq"), (.minus, "-", "Minus"),
   (.starEq, "*=", "StarEq"), (.star, "*", "Star"), (.slashEq, "/=", "SlashEq"),
   (.slash, "/", "Slash"), (.percentEq, "%=", "PercentEq"), (.percent, "%", "Percent"),
   (.caretEq, "^=", "CaretEq"), (.caret, "^", "Caret"), (.ampAmp, "&&", "AmpAmp"),
   (.ampEq, "&=", "AmpEq"), (.amp, "&", "Amp"), (.pipePipe, "||", "PipePipe"),
   (.pipeEq, "|=", "PipeEq"), (.pipe, "|", "Pipe"), (.eqEqEq, "===", "EqEqEq"),
   (.eqEq, "==", "EqEq"), (.eq, "=", "Eq"), (.bangEqEq, "!==", "BangEqEq"),
   (.bangEq, "!=", "BangEq"), (.bang, "!", "Bang"), (.ltLtEq, "<<=", "LtLtEq"),
   (.ltLt, "<<", "LtLt"), (.ltEq, "<=", "LtEq"), (.lt, "<", "Lt"),
   (.gtGtGtEq, ">>>=", "GtGtGtEq"), (.gtGtGt, ">>>", "GtGtGt"), (.gtGtEq, ">>=", "GtGtEq"),
   (.gtGt, ">>", "GtGt"), (.gtEq, ">=", "GtEq"), (.gt, ">", "Gt"), (.lParen, "(", "LParen"),
   (.rParen, ")", "RParen"), (.lBrace, "\x7b", "LBrace"), (.rBrace, "\x7d", "RBrace"),
   (.lBracket, "[", "LBracket"), (.rBracket, "]", "RBracket"), (.dot, ".", "Dot"),
   (.comma, ",", "Comma"), (.colon, ":", "Colon"), (.semicolon, ";", "Semicolon"),
   (.tilde, "~", "Tilde"), (.question, "?", "Question")]

/-- The longest punctuator at the head of a text, with the number of its characters. -/
def scan? (cs : List Char) : Option (Punctuator × Nat) :=
  (table.find? fun (_, text, _) => text.toList.isPrefixOf cs).map fun (p, text, _) =>
    (p, text.length)

def label (p : Punctuator) : String :=
  ((table.find? fun (p', _, _) => p' == p).map (·.2.2)).getD ""

end Punctuator

inductive TokenKind where
  | number (value : Float)
  | text (value : String)
  | identifier (name : String)
  | reserved (word : String)
  | keyword (k : Keyword)
  | punct (p : Punctuator)
  | eof
  deriving DecidableEq, Repr

/-- The name of a kind in messages and listings. -/
def TokenKind.label : TokenKind → String
  | .number _ => "Number"
  | .text _ => "String"
  | .identifier _ => "Identifier"
  | .reserved _ => "Reserved"
  | .keyword k => k.label
  | .punct p => p.label
  | .eof => "Eof"

/-- A token with its place. `newlineBefore` holds when a line ends between the previous token and
this one. -/
structure Token where
  kind : TokenKind
  span : Span
  newlineBefore : Bool
  deriving DecidableEq, Repr

end ScriptMachine.Source
