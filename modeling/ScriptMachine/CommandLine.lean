import ScriptMachine.Config
import ScriptMachine.Number.Reading

/-!
# The command line

The options of a run: a configuration, a time limit, a snapshot to start from, a snapshot to leave
behind, and the scripts, each of which gets a thread of its own.
-/

namespace ScriptMachine.CommandLine

structure Options where
  config : Option String := none
  timeLimit : Option Float := none
  save : Option String := none
  restore : Option String := none
  /-- In the order of their threads. -/
  files : List String := []

/-- Why a command line is refused. -/
inductive Refusal where
  | unknown (argument : String)
  | valueMissing (option : String)
  | notANumber (option value : String)
  | repeated (option : String)
  deriving DecidableEq

def Refusal.message : Refusal → String
  | .unknown argument => "unexpected argument '" ++ argument ++ "' found"
  | .valueMissing option => "a value is required for '" ++ option ++ "' but none was supplied"
  | .notANumber option value => "invalid value '" ++ value ++ "' for '" ++ option ++ "'"
  | .repeated option => "the argument '" ++ option ++ "' cannot be used multiple times"

def usage : String :=
  "Usage: [--config FILE] [--time-limit MS] [--save SNAPSHOT] [--restore SNAPSHOT] [FILE...]"

/-- The names of the options; each takes a value. -/
def names : List String := ["--config", "--time-limit", "--save", "--restore"]

/-- Sets an option that must not be set yet. -/
def fill {α : Type} (name : String) (old : Option α) (new : α) : Except Refusal (Option α) :=
  if old.isSome then .error (.repeated name) else .ok (some new)

def Options.set (o : Options) (name value : String) : Except Refusal Options := do
  match name with
  | "--config" => return { o with config := ← fill name o.config value }
  | "--save" => return { o with save := ← fill name o.save value }
  | "--restore" => return { o with restore := ← fill name o.restore value }
  | "--time-limit" =>
    let limit := Number.parseFloat value
    if limit.isNaN then throw (.notANumber name value)
    return { o with timeLimit := ← fill name o.timeLimit limit }
  | _ => throw (.unknown name)

/-- An argument of the form `--name=value`. -/
def assignment? (argument : String) : Option (String × String) :=
  names.findSome? fun name =>
    let start := name.toList ++ ['=']
    if start.isPrefixOf argument.toList then
      some (name, String.ofList (argument.toList.drop start.length))
    else none

/-- Reads arguments one after the other; what is no option is a script. -/
def parseFrom (o : Options) : List String → Except Refusal Options
  | [] => .ok o
  | "--" :: files => .ok { o with files := o.files ++ files }
  | [argument] => single o argument
  | argument :: value :: rest =>
    if names.contains argument then do parseFrom (← o.set argument value) rest
    else do parseFrom (← single o argument) (value :: rest)
where
  single (o : Options) (argument : String) : Except Refusal Options :=
    match assignment? argument with
    | some (name, value) => o.set name value
    | none =>
      if names.contains argument then .error (.valueMissing argument)
      else if "--".toList.isPrefixOf argument.toList then .error (.unknown argument)
      else .ok { o with files := o.files ++ [argument] }

def parse (arguments : List String) : Except Refusal Options :=
  parseFrom {} arguments

/-- The configuration of a run: the one given, changed by the options. -/
def Options.apply (o : Options) (gcThreshold : Option Nat) (c : Config) : Config :=
  { c with
    defaultTimeLimit := o.timeLimit.or c.defaultTimeLimit
    gcThreshold := gcThreshold.getD c.gcThreshold }

end ScriptMachine.CommandLine
