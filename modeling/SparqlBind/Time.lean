import SparqlBind.Number.Shortest

/-!
# Durations and instants

A duration is a count of seconds below 2 ^ 64 with nanoseconds; an instant counts signed 64-bit
seconds. A computation that may ask the time is a tree with one branch for every answer the clock
can give: it runs against any clock, and none runs in this module.
-/

namespace SparqlBind

structure Duration where
  seconds : Nat
  nanoseconds : Nat
deriving DecidableEq, Inhabited

structure Instant where
  seconds : Int
  nanoseconds : Nat
deriving DecidableEq, Inhabited

namespace Duration

def ofMillis (n : Nat) : Duration := ⟨n / 1000, n % 1000 * 1000000⟩

/-- The number of seconds as a single precision float. -/
def toFloat32 (d : Duration) : Float32 :=
  Float32.ofNat d.seconds + Float32.ofNat d.nanoseconds / 1000000000.0

def secondsText (d : Duration) : String :=
  Shortest.render Shortest.plainStyle (Shortest.decodeFloat32 d.toFloat32)

end Duration

namespace Instant

def minSeconds : Int := -0x8000000000000000
def maxSeconds : Int := 0x7FFFFFFFFFFFFFFF

/-- The instant a duration later, unless its seconds leave the signed 64-bit range. -/
def add? (i : Instant) (d : Duration) : Option Instant :=
  let nanoseconds := i.nanoseconds + d.nanoseconds
  let seconds := i.seconds + d.seconds + (nanoseconds / 1000000000 : Nat)
  if i.seconds + d.seconds ≤ maxSeconds && seconds ≤ maxSeconds then
    some ⟨seconds, nanoseconds % 1000000000⟩
  else none

def le (a b : Instant) : Bool :=
  a.seconds < b.seconds || (a.seconds == b.seconds && a.nanoseconds ≤ b.nanoseconds)

end Instant

/-- A computation that may read the clock. -/
inductive Timed (α : Type) : Type
  | done (value : α)
  | read (next : Instant → Timed α)

namespace Timed

def bind {α β : Type} : Timed α → (α → Timed β) → Timed β
  | done a, f => f a
  | read next, f => read fun now => bind (next now) f

instance : Monad Timed where
  pure := done
  bind := bind

def now : Timed Instant := read done

/-- A result without any reading, with its error seen as another kind of error. -/
def ofExcept {ε δ α : Type} (f : ε → δ) : Except ε α → ExceptT δ Timed α
  | .ok a => pure a
  | .error e => throw (f e)

/-- The result when the clock gives the readings `clock n`, `clock (n + 1)`, … in turn. -/
def runFrom {α : Type} (clock : Nat → Instant) : Nat → Timed α → α
  | _, done a => a
  | n, read next => runFrom clock (n + 1) (next (clock n))

def run {α : Type} (clock : Nat → Instant) (computation : Timed α) : α :=
  runFrom clock 0 computation

end Timed

end SparqlBind
