/-!
# The timers

Two counters run down towards zero, one step for each tick: a program waits by the delay timer,
and a tone sounds while the sound timer runs.  Programs set them to bytes; a host may set them to
any integer, and one that is not positive stands still.
-/

namespace Chip8

structure Timers where
  delay : Int := 0
  sound : Int := 0
  deriving DecidableEq, Repr

namespace Timers

def countDown (t : Int) : Int := if 0 < t then t - 1 else t

def tick (t : Timers) : Timers := ⟨countDown t.delay, countDown t.sound⟩

def reset (t : Timers) : Timers := { t with delay := 0, sound := 0 }

def isSoundActive (t : Timers) : Bool := 0 < t.sound

end Timers

end Chip8
