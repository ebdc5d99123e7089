import ScriptMachine.Builtin.Basic

/-!
# Builtins of the console

Arguments are rendered without running any code of the program, and joined by blanks.
-/

namespace ScriptMachine.Builtin.Consoles

open Machine Exec

/-- The text of one value: errors by name and message, other objects by their description. -/
def renderFlat (m : Machine) (v : Value) : String :=
  match v.object?.bind m.heap.object? with
  | some o => if o.cls == .error then m.renderError v else m.describe v
  | none => if v.isObject then m.describe v else v.toText

/-- The text of one argument; an array shows its elements. -/
def render (m : Machine) (v : Value) : String :=
  match v.object?.bind m.heap.object? with
  | some o =>
    if o.isArray then
      ",".intercalate ((List.range o.length).map fun i =>
        match o.ownValue (Number.natText i) with
        | .undefined => ""
        | v => renderFlat m v)
    else renderFlat m v
  | none => renderFlat m v

def writer (level : Host.Level) : Method :=
  .direct level.name 0 fun c => do
    let m ← get
    write level (" ".intercalate (c.args.map (render m)))
    return .undefined

def methods : List Method := [.log, .info, .debug, .warn, .error].map writer

def natives : Natives := methodNatives "console" methods

def install : Exec Unit := do
  attach (← createNamespace "console") "console" methods

end ScriptMachine.Builtin.Consoles
