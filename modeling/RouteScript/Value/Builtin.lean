/-!
# Built-in functions

The functions that every script can call without declaring them.
-/

namespace RouteScript

inductive Builtin where
  | print | echo | printf | env | len | count | keys | values | explode | implode | last | append
  | merge | jsonEncode | jsonDecode | jsonVerify | fileGetContents | str | int | float | typeOf
  | async | await | makeChan | send | recv | close
  deriving DecidableEq

structure Arity where
  least : Nat
  most : Option Nat

namespace Arity

def exactly (n : Nat) : Arity := ⟨n, some n⟩

def accepts (a : Arity) (n : Nat) : Bool :=
  a.least ≤ n && a.most.all (n ≤ ·)

def describe (a : Arity) : String :=
  match a.most with
  | none => "at least " ++ toString a.least
  | some most =>
    if a.least = most then toString most else toString a.least ++ " to " ++ toString most

end Arity

namespace Builtin

def name : Builtin → String
  | .print => "print"
  | .echo => "echo"
  | .printf => "printf"
  | .env => "env"
  | .len => "len"
  | .count => "count"
  | .keys => "keys"
  | .values => "values"
  | .explode => "explode"
  | .implode => "implode"
  | .last => "end"
  | .append => "append"
  | .merge => "merge"
  | .jsonEncode => "json_encode"
  | .jsonDecode => "json_decode"
  | .jsonVerify => "json_verify"
  | .fileGetContents => "file_get_contents"
  | .str => "str"
  | .int => "int"
  | .float => "float"
  | .typeOf => "typeof"
  | .async => "async"
  | .await => "await"
  | .makeChan => "make_chan"
  | .send => "send"
  | .recv => "recv"
  | .close => "close"

def all : List Builtin :=
  [.print, .echo, .printf, .env, .len, .count, .keys, .values, .explode, .implode, .last, .append,
   .merge, .jsonEncode, .jsonDecode, .jsonVerify, .fileGetContents, .str, .int, .float, .typeOf,
   .async, .await, .makeChan, .send, .recv, .close]

def ofName? (word : String) : Option Builtin := all.find? (·.name == word)

def arity : Builtin → Arity
  | .print | .echo => ⟨0, none⟩
  | .printf | .append => ⟨1, none⟩
  | .env => ⟨1, some 2⟩
  | .makeChan => ⟨0, some 1⟩
  | .explode | .implode | .merge | .send => .exactly 2
  | _ => .exactly 1

end Builtin

end RouteScript
