/-! # Names

A table lists what is kept under names in ascending order of name, which is the order in which it is
let go together. -/
namespace Nonblocking

abbrev NameTable (β : Type u) := List (String × β)

namespace NameTable

variable {β : Type u}

def find? (name : String) (table : NameTable β) : Option β := table.lookup name

def insert (name : String) (value : β) : NameTable β → NameTable β
  | [] => [(name, value)]
  | (key, old) :: rest =>
    if name = key then (name, value) :: rest
    else if name < key then (name, value) :: (key, old) :: rest
    else (key, old) :: insert name value rest

def erase (name : String) (table : NameTable β) : NameTable β :=
  table.filter fun filed => filed.1 != name

def values (table : NameTable β) : List β := table.map Prod.snd

end NameTable

end Nonblocking
