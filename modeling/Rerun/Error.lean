import Rerun.Digest

/-!
# Errors

Everything that can go wrong while machines are built, run and proved, one constructor a cause, and
the wording of each.
-/

namespace Rerun

/-- A failure that is reported to the caller. -/
inductive Error where
  | frozen
  | destroyed
  | engineFault (text : String)
  | buildFailed (root : Digest) (reason : String)
  | preimageFailed (hash : Digest) (token : Nat) (reason : String)
  /-- The caller's time or patience ended first. -/
  | cancelled
  | engineUnavailable (text : String)
  | invalidConfig (text : String)
  | invalidInput (text : String)
  | io (text : String)
  deriving DecidableEq

namespace Error

def message : Error → String
  | .frozen => "machine frozen"
  | .destroyed => "machine destroyed"
  | .engineFault text => s!"execution engine fault: {text}"
  | .buildFailed root reason => s!"failed to build machines for module root {root}: {reason}"
  | .preimageFailed hash token reason =>
    s!"preimage resolution failed for {hash} (resolver token {token}): {reason}"
  | .cancelled => "operation cancelled"
  | .engineUnavailable text => s!"execution engine unavailable: {text}"
  | .invalidConfig text => s!"invalid configuration: {text}"
  | .invalidInput text => s!"invalid validation input: {text}"
  | .io text => s!"i/o error: {text}"

/-- Whether the caller gave up, as against something having gone wrong. -/
def isCancelled : Error → Bool
  | .cancelled => true
  | _ => false

/-- Whether the same request may succeed when it is made again. -/
def isRetryable : Error → Bool
  | .buildFailed .. | .cancelled | .preimageFailed .. => true
  | _ => false

def ofDigestFault (fault : Digest.Fault) : Error := .invalidInput fault.message

end Error

/-- What a panic carries. -/
inductive Payload where
  | text (message : String)
  | other
  deriving DecidableEq

/-- How a call ends without a value. -/
inductive Failure where
  | error (e : Error)
  | panic (payload : Payload)
  | endless
  deriving DecidableEq

/-- How a call ends. -/
abbrev Result := Except Failure

/-- The failure that reports an error. -/
def fail {α : Type} (e : Error) : Result α := .error (.error e)

end Rerun
