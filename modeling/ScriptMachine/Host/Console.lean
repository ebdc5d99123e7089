/-!
# Console lines

The console keeps every line with its level, in the order of writing.
-/

namespace ScriptMachine.Host

inductive Level where
  | log | info | debug | warn | error
  deriving DecidableEq, Repr

def Level.name : Level → String
  | .log => "log"
  | .info => "info"
  | .debug => "debug"
  | .warn => "warn"
  | .error => "error"

structure Console where
  lines : Array (Level × String) := #[]

namespace Console

def write (c : Console) (level : Level) (text : String) : Console :=
  ⟨c.lines.push (level, text)⟩

def messages (c : Console) : List String :=
  c.lines.toList.map (·.2)

def messagesAt (c : Console) (level : Level) : List String :=
  (c.lines.toList.filter (·.1 == level)).map (·.2)

/-- All messages with line ends between them. -/
def output (c : Console) : String :=
  String.intercalate "\n" c.messages

@[simp] theorem messages_write (c : Console) (level : Level) (text : String) :
    (c.write level text).messages = c.messages ++ [text] := by
  simp [write, messages]

end Console

end ScriptMachine.Host
