/-!
# Dictionaries

A dictionary lists its entries in strictly increasing order of their keys. Keys are compared code
point by code point, and a later entry for a key takes the place of the earlier one.
-/

namespace RouteScript

abbrev Dict (α : Type) := List (String × α)

namespace Dict

variable {α β : Type}

def get? (key : String) : Dict α → Option α
  | [] => none
  | (k, v) :: rest => if k = key then some v else get? key rest

def contains (key : String) (d : Dict α) : Bool := (get? key d).isSome

def insert (key : String) (value : α) : Dict α → Dict α
  | [] => [(key, value)]
  | (k, v) :: rest =>
    if key = k then (key, value) :: rest
    else if key < k then (key, value) :: (k, v) :: rest
    else (k, v) :: insert key value rest

def erase (key : String) : Dict α → Dict α
  | [] => []
  | (k, v) :: rest => if k = key then rest else (k, v) :: erase key rest

def merge (d other : Dict α) : Dict α :=
  other.foldl (fun acc entry => insert entry.1 entry.2 acc) d

/-- The dictionary of a list of entries, of which the last one for a key counts. -/
def ofList (entries : List (String × α)) : Dict α := merge [] entries

def keys (d : Dict α) : List String := d.map Prod.fst

def values (d : Dict α) : List α := d.map Prod.snd

/-! ## Lookup after an insertion -/

@[simp] theorem get?_insert_self (key : String) (value : α) (d : Dict α) :
    get? key (insert key value d) = some value := by
  fun_induction insert key value d with
  | case1 | case2 | case3 => simp [get?]
  | case4 k v rest hne _ ih => simp [get?, Ne.symm hne, ih]

theorem get?_insert_of_ne {key other : String} (h : other ≠ key) (value : α) (d : Dict α) :
    get? other (insert key value d) = get? other d := by
  fun_induction insert key value d with
  | case1 | case2 | case3 => simp [get?, Ne.symm h]
  | case4 k v rest _ _ ih => simp [get?, ih]

theorem get?_insert (key other : String) (value : α) (d : Dict α) :
    get? other (insert key value d) = if other = key then some value else get? other d := by
  split
  · rename_i h
    rw [h, get?_insert_self]
  · rename_i h
    exact get?_insert_of_ne h value d

end Dict

end RouteScript
