import RouteScript.Text.Split

/-!
# The machine around an interpreter

Scripts can run programs and draw random numbers. Neither is up to the interpreter: a machine
answers, and may answer otherwise each time that it is asked.
-/

namespace RouteScript

structure Machine where
  /-- What a program writes to its output and to its errors, unless it cannot be started. -/
  program (turn : Nat) (name : String) (args : List String) : Option (String × String)
  draw (turn : Nat) : Nat

namespace Machine

def isEchoOption (arg : String) : Bool :=
  match arg.toList with
  | '-' :: letters => !letters.isEmpty && letters.all fun c => c == 'n' || c == 'e' || c == 'E'
  | _ => false

/-- What the program `echo` writes: its arguments in a row, and a newline unless that is
declined. -/
def echo (args : List String) : String :=
  let options := args.takeWhile isEchoOption
  let newline := if options.any (·.toList.contains 'n') then "" else "\n"
  Text.join " " (args.dropWhile isEchoOption) ++ newline

/-- A machine that has the program `echo` only, and counts where it should draw. -/
def plain : Machine where
  program _ name args :=
    if ["echo", "/bin/echo", "/usr/bin/echo"].contains name then some (echo args, "") else none
  draw turn := turn

end Machine

end RouteScript
