import ScriptMachine.Inspect.Records
import ScriptMachine.Json.Edit
import ScriptMachine.Main
import ScriptMachine.Proofs.JsonReading
import ScriptMachine.Proofs.JsonRoundTrip
import ScriptMachine.Proofs.Encoding.Text
import ScriptMachine.Proofs.Arena
import ScriptMachine.Proofs.Change
import ScriptMachine.Proofs.Effect.Operation
import ScriptMachine.Proofs.Effect.Step
import ScriptMachine.Proofs.Effect.Call
import ScriptMachine.Proofs.Collection
import ScriptMachine.Proofs.Confinement
import ScriptMachine.Proofs.Start
import ScriptMachine.Proofs.Beginning
import ScriptMachine.Proofs.Authority
import ScriptMachine.Proofs.Isolation
import ScriptMachine.Proofs.Attributes
import ScriptMachine.Proofs.Arrays.Uses
import ScriptMachine.Proofs.Writes
import ScriptMachine.Proofs.Pairing.Basic
import ScriptMachine.Proofs.Pairing.Builtin
import ScriptMachine.Proofs.Pairing.Roots
import ScriptMachine.Proofs.Order.Alteration
import ScriptMachine.Proofs.Order.Operation
import ScriptMachine.Proofs.Order.Call
import ScriptMachine.Proofs.Order.Run
import ScriptMachine.Proofs.Order.Return
import ScriptMachine.Proofs.Order.Settlement
import ScriptMachine.Proofs.Order.Overtaking
import ScriptMachine.Proofs.Order.Ending
import ScriptMachine.Proofs.Order.Parking
import ScriptMachine.Proofs.Restore.Chains
import ScriptMachine.Proofs.Order.Delivery
import ScriptMachine.Proofs.Exactness
import ScriptMachine.Proofs.Fault
import ScriptMachine.Proofs.Pairing.Collect
import ScriptMachine.Proofs.Pairing.Control
import ScriptMachine.Proofs.Pairing.Install
import ScriptMachine.Proofs.Pairing.Run
import ScriptMachine.Proofs.Sound.Basic
import ScriptMachine.Proofs.Sound.Chains
import ScriptMachine.Proofs.Sound.Collections
import ScriptMachine.Proofs.Tree.Scope
import ScriptMachine.Proofs.Reparse.Text
import ScriptMachine.Proofs.Roster.Failure
import ScriptMachine.Proofs.Roster.Change
import ScriptMachine.Proofs.Beats.Started
import ScriptMachine.Proofs.Finally.Run
import ScriptMachine.Proofs.Literals.Closed
import ScriptMachine.Proofs.Evaluation.Switch
import ScriptMachine.Proofs.Enumeration.Loop
import ScriptMachine.Proofs.Lexing.Tiling
import ScriptMachine.Proofs.Tree.Precedence
import ScriptMachine.Proofs.JsonText.Nesting
import ScriptMachine.Proofs.JsonText.Building
import ScriptMachine.Proofs.Numbers.Nearest
import ScriptMachine.Proofs.Numbers.Literals
import ScriptMachine.Proofs.Strings.Methods
import ScriptMachine.Proofs.Numbers.Radix
import ScriptMachine.Proofs.Strings.Escapes
