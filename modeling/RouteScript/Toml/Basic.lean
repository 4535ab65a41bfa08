/-!
# TOML documents

A document is a table of keys and values. Tables remember how they came about, because that decides
which later lines may still add to them.
-/

namespace RouteScript

namespace Toml

inductive Form where
  /-- By the header of a table inside it. -/
  | implied
  /-- By a dotted key. -/
  | dotted
  /-- By a header of its own. -/
  | header
  /-- Within braces. -/
  | inline
  deriving DecidableEq

end Toml

inductive Toml where
  | bool (value : Bool)
  | int (value : Int64)
  | float (value : Float)
  | text (value : String)
  /-- A date, a time or both. -/
  | moment
  | array (items : List Toml)
  | table (form : Toml.Form) (entries : List (String × Toml))
  /-- Tables under one header, of which the last one is open. -/
  | tables (items : List Toml)

namespace Toml

def lookup? (key : String) (entries : List (String × Toml)) : Option Toml :=
  (entries.find? (·.1 == key)).map Prod.snd

def replace (key : String) (value : Toml) : List (String × Toml) → List (String × Toml)
  | [] => [(key, value)]
  | (k, v) :: rest => if k = key then (key, value) :: rest else (k, v) :: replace key value rest

def isOpen (dotted : Bool) : Toml → Bool
  | .table .implied _ | .table .dotted _ | .tables _ => true
  | .table .header _ => !dotted
  | _ => false

/-- Change the table that a path leads to. Tables on the way that are not there yet are made. -/
def alter? (dotted : Bool) (change : Toml → Option Toml) : List String → Toml → Option Toml
  | [], t => change t
  | key :: path, .table form entries => do
    let child := (lookup? key entries).getD (.table (if dotted then .dotted else .implied) [])
    if isOpen dotted child then
      let changed ← match child with
        | .tables items => do
          let last ← alter? dotted change path (← items.getLast?)
          some (.tables (items.dropLast ++ [last]))
        | t => alter? dotted change path t
      some (.table form (replace key changed entries))
    else none
  | _, _ => none

/-- Add an entry to a table that the key alone (`nested` is false) or a dotted key has led to. A key
may be given once only, and dotted keys add to tables of dotted keys only. -/
def addUnder? (nested : Bool) (key : String) (value : Toml) : Toml → Option Toml
  | .table form entries =>
    if (form == .dotted) == nested && (lookup? key entries).isNone then
      some (.table form (entries ++ [(key, value)]))
    else none
  | _ => none

def add? (t : Toml) (keys : List String) (value : Toml) : Option Toml := do
  let path := keys.dropLast
  t.alter? true (addUnder? (!path.isEmpty) (← keys.getLast?) value) path

def openTable? (keys : List String) (t : Toml) : Option Toml := do
  let key ← keys.getLast?
  let opened : Toml → Option Toml
    | .table form entries =>
      match lookup? key entries with
      | none => some (.table form (entries ++ [(key, .table .header [])]))
      | some (.table .implied inner) =>
        some (.table form (replace key (.table .header inner) entries))
      | some _ => none
    | _ => none
  t.alter? false opened keys.dropLast

def openTables? (keys : List String) (t : Toml) : Option Toml := do
  let key ← keys.getLast?
  let opened : Toml → Option Toml
    | .table form entries =>
      match lookup? key entries with
      | none => some (.table form (entries ++ [(key, .tables [.table .header []])]))
      | some (.tables items) =>
        some (.table form (replace key (.tables (items ++ [.table .header []])) entries))
      | some _ => none
    | _ => none
  t.alter? false opened keys.dropLast

end Toml

end RouteScript
