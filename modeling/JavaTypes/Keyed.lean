/-!
Lists of entries in ascending order of their keys, at most one for each key.
-/
namespace JavaTypes.Keyed

/-- Puts a value under a key; a value the key had before is replaced. -/
def insert {α : Type} (key : String) (value : α) : List (String × α) → List (String × α)
  | [] => [(key, value)]
  | (k, v) :: rest =>
    if key < k then (key, value) :: (k, v) :: rest
    else if k < key then (k, v) :: insert key value rest
    else (key, value) :: rest

def insertAll {α : Type} (keyOf : α → String) (values : List α) (entries : List (String × α)) :
    List (String × α) :=
  values.foldl (fun entries value => insert (keyOf value) value entries) entries

end JavaTypes.Keyed
