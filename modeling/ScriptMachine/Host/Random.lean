/-!
# Random numbers from a seed

A xorshift generator over 64 bits; a number is the upper 53 bits of the state as a fraction.
-/

namespace ScriptMachine.Host

structure Random where
  state : UInt64

namespace Random

/-- The seed zero would never leave zero, so another one stands in for it. -/
def ofSeed (seed : UInt64) : Random :=
  ⟨if seed == 0 then 0x123456789abcdef0 else seed⟩

/-- The next number from zero up to one, and the generator after it. -/
def next (r : Random) : Float × Random :=
  let x := r.state
  let x := x ^^^ (x <<< 13)
  let x := x ^^^ (x >>> 7)
  let x := x ^^^ (x <<< 17)
  ((x >>> 11).toFloat / 9007199254740992, ⟨x⟩)

end Random

end ScriptMachine.Host
