import Rerun.Decimal.Fixed
import Rerun.Error

/-!
# Metrics

Counters of what was built and run, the averages over them, and the report that shows both. Times
are whole nanoseconds of sixty-four bits and wrap around.
-/

namespace Rerun

/-- What was built and run so far. -/
structure Metrics where
  builds : UInt64 := 0
  buildNanos : UInt64 := 0
  buildFailures : UInt64 := 0
  launched : UInt64 := 0
  succeeded : UInt64 := 0
  failed : UInt64 := 0
  cancelled : UInt64 := 0
  runNanos : UInt64 := 0
  panics : UInt64 := 0
  deriving DecidableEq

namespace Metrics

/-- A time in nanoseconds, cut to sixty-four bits. -/
def nanos (seconds nanoseconds : Nat) : UInt64 := UInt64.ofNat (seconds * 1000000000 + nanoseconds)

def recordBuild (m : Metrics) (time : UInt64) (success : Bool) : Metrics :=
  { m with
    builds := m.builds + 1
    buildNanos := m.buildNanos + time
    buildFailures := if success then m.buildFailures else m.buildFailures + 1 }

def recordLaunch (m : Metrics) : Metrics := { m with launched := m.launched + 1 }

/-- A run ended, with an error or without. A run that was given up counts as cancelled. -/
def recordOutcome (m : Metrics) (time : UInt64) (error : Option Error) : Metrics :=
  let m := { m with runNanos := m.runNanos + time }
  match error with
  | none => { m with succeeded := m.succeeded + 1 }
  | some e =>
    if e.isCancelled then { m with cancelled := m.cancelled + 1 }
    else { m with failed := m.failed + 1 }

def recordPanic (m : Metrics) : Metrics := { m with panics := m.panics + 1 }

/-- Milliseconds for each of `count` events; zero if there was none. -/
def averageMs (count nanos : UInt64) : Float :=
  if count = 0 then 0.0 else nanos.toFloat / count.toFloat / 1000000.0

def averageBuildMs (m : Metrics) : Float := averageMs m.builds m.buildNanos

/-- The average time of a run that ended. -/
def averageRunMs (m : Metrics) : Float :=
  averageMs (m.succeeded + m.failed + m.cancelled) m.runNanos

/-! ## The report -/

/-- A text moved to the right end of `width` columns. -/
def padLeft (width : Nat) (s : String) : String :=
  String.ofList (List.replicate (width - s.length) ' ') ++ s

/-- A horizontal line of the report between two corners. -/
def ruler (left right : String) : String :=
  left ++ String.ofList (List.replicate 59 '═') ++ right

def countLine (label : String) (n : UInt64) : String :=
  s!"║   {label}{padLeft 8 (toString n)}                                   ║"

def averageLine (label : String) (n : UInt64) (average : Float) : String :=
  let shown := padLeft 8 (Decimal.Double.fixed 3 average.toBits)
  s!"║   {label}{padLeft 8 (toString n)} (avg: {shown} ms)              ║"

def reportLines (m : Metrics) : List String :=
  [ruler "╔" "╗",
   "║         Validator Metrics Report                          ║",
   ruler "╠" "╣",
   "║ Machine Loader                                            ║",
   averageLine "Builds:      " m.builds m.averageBuildMs,
   countLine "Failures:    " m.buildFailures,
   ruler "╠" "╣",
   "║ Validation Runs                                           ║",
   averageLine "Launched:    " m.launched m.averageRunMs,
   countLine "Succeeded:   " m.succeeded,
   countLine "Failed:      " m.failed,
   countLine "Cancelled:   " m.cancelled,
   countLine "Panics:      " m.panics,
   ruler "╚" "╝"]

def report (m : Metrics) : String := String.join (m.reportLines.map (· ++ "\n"))

end Metrics

end Rerun
