
namespace StreamSql

/-- The names with their aliases, and for each first letter (or none) how often it was taken. -/
structure Aliases where
  assigned : List (String × String)
  taken : List (String × Nat)

namespace Aliases

def empty : Aliases := ⟨[], []⟩

def find? (a : Aliases) (name : String) : Option String := a.assigned.lookup name

def letter (name : String) : String := .ofList (name.toList.take 1)

def count (a : Aliases) (letter : String) : Nat := (a.taken.lookup letter).getD 0

def numbered (letter : String) (n : Nat) : String := if n = 0 then letter else letter ++ toString n

def assign (a : Aliases) (name : String) : String × Aliases :=
  match a.find? name with
  | some known => (known, a)
  | none =>
    let l := letter name
    let fresh := numbered l (a.count l)
    (fresh, ⟨(name, fresh) :: a.assigned, (l, a.count l + 1) :: a.taken⟩)

def assignAll (a : Aliases) : List String → List String
  | [] => []
  | n :: ns => (a.assign n).1 :: assignAll (a.assign n).2 ns

end Aliases
end StreamSql
