import SparqlBind.CommandLine.Program
import SparqlBind.Evaluation.Engine

/-!
# The command line program

Reads the files and the input that the arguments name, runs the program against the clock, and writes
what it gives. This host has no listener: a server that is ready to listen is reported and given up.
-/

namespace SparqlBind.Host

open CommandLine

def nanoseconds : Nat := 1000000000

/-- The time since some fixed moment, which never goes back. -/
def clock : IO Instant := do
  let now ← IO.monoNanosNow
  pure ⟨now / nanoseconds, now % nanoseconds⟩

def perform {α : Type} : Timed α → IO α
  | .done a => pure a
  | .read next => do perform (next (← clock))

def leadingNumber (text : String) : Nat :=
  (text.toList.takeWhile Char.isDigit).foldl (fun n d => 10 * n + (d.toNat - 48)) 0

/-- The number of seconds since 1970, from the start of the system and its uptime. -/
def secondsNow : IO Nat := do
  try
    let boot := ((← IO.FS.readFile "/proc/stat").splitOn "btime ").getD 1 ""
    let uptime ← IO.FS.readFile "/proc/uptime"
    pure (leadingNumber boot + leadingNumber uptime)
  catch _ => pure 0

/-- The number of seconds from the year 1 to 1970. -/
def epoch : Nat := 62135596800

def readIfThere (path : String) : IO (Option (List UInt8)) := do
  try
    pure (some (← IO.FS.readBinFile path).toList)
  catch _ => pure none

def filesOf (paths : List String) : IO (List (String × List UInt8)) := do
  let read ← paths.mapM fun path => do pure (path, ← readIfThere path)
  pure (read.filterMap fun p => p.2.map (p.1, ·))

def environment (arguments : List String) : IO Environment := do
  let seed := Digest.hexText ((← IO.getRandomBytes 16).toList.map (·.toNat))
  let now : Timestamp := ⟨((epoch + (← secondsNow) : Nat) : Int) * Decimal.one, some 0⟩
  let engine := Engine.standard now seed
  match CommandLine.parse arguments with
  | .error _ => pure ⟨fun _ => none, [], engine, seed⟩
  | .ok a =>
    let files ← filesOf a.command.paths
    let input ← if a.command.readsInput then do
        pure (← (← IO.getStdin).readBinToEnd).toList
      else pure []
    pure ⟨(files.lookup ·), input, engine, seed⟩

def report : Outcome → IO Unit
  | .written text => do
    let output ← IO.getStdout
    output.putStr text
    output.flush
  | .failed failure => IO.eprintln failure.report
  | .refused error => IO.eprintln (error.message?.getD ("error: " ++ error.name))
  | .listening server => IO.eprintln ("Error: no listener for " ++ server.address)
  | .brokenOff => IO.eprintln EndpointError.deadlineOverflow.message

end SparqlBind.Host

open SparqlBind in
def main (arguments : List String) : IO UInt32 := do
  let environment ← Host.environment arguments
  let started ← Host.clock
  let outcome ← Host.perform (CommandLine.run environment arguments (some started))
  Host.report outcome
  pure (UInt32.ofNat outcome.exitCode)
