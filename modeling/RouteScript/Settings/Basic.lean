import RouteScript.Text.Blank

/-!
# Settings

What a host can choose about the running of scripts.
-/

namespace RouteScript

structure Settings where
  /-- Debug events are wanted. -/
  trace : Bool := false
  /-- Reading from the console gives an empty line. -/
  nonInteractive : Bool := false
  /-- Scripts may run programs of the system. -/
  allowPrograms : Bool := false
  /-- The largest number of calls inside each other. -/
  callLimit : Nat := 200
  /-- Where the entry script looks for what it loads. -/
  baseDirectory : Option String := none
  envFile : Option String := none

def isFlagSet (text : String) : Bool :=
  ["1", "true", "TRUE", "yes"].contains (Text.trim text)

def Settings.withCallLimit (limit : Nat) (s : Settings) : Settings :=
  { s with callLimit := max limit 1 }

end RouteScript
