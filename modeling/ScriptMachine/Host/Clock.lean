/-!
# A clock that moves when told

The clock stands still between operations. With a tick, every reading moves it, which makes time
limits reproducible.
-/

namespace ScriptMachine.Host

structure Clock where
  now : Float := 0
  tick : Float := 0

namespace Clock

/-- A reading and the clock after it. -/
def read (c : Clock) : Float × Clock :=
  (c.now, { c with now := c.now + c.tick })

def advance (c : Clock) (millis : Float) : Clock :=
  { c with now := c.now + millis }

/-- Waiting moves the clock by a positive finite time and does nothing otherwise. -/
def wait (c : Clock) (millis : Float) : Clock :=
  if millis > 0 && millis.isFinite then c.advance millis else c

end Clock

end ScriptMachine.Host
