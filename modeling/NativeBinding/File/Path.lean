/-!
Paths. Empty names and names of one dot are dropped when a path is read. Two dots stay, because
what they lead to depends on the directories before them.
-/

namespace NativeBinding

structure Path where
  /-- The slashes at the start: none, one or exactly two. -/
  slashes : Nat
  names : List String
  deriving DecidableEq

namespace Path

def pieces : List Char → List (List Char)
  | [] => [[]]
  | c :: cs =>
      match pieces cs with
      | [] => [[c]]
      | p :: ps => if c == '/' then [] :: p :: ps else (c :: p) :: ps

/-- More than two slashes at the start mean one. -/
def ofString (s : String) : Path :=
  let slashes := (s.toList.takeWhile (· == '/')).length
  let names := (pieces s.toList).map String.ofList
  { slashes := if slashes ≤ 2 then slashes else 1
    names := names.filter fun name => !name.isEmpty && name != "." }

def text (p : Path) : String :=
  if p.slashes == 0 && p.names.isEmpty then "."
  else String.ofList (List.replicate p.slashes '/') ++ "/".intercalate p.names

def child (p : Path) (name : String) : Path :=
  { p with names := p.names ++ [name] }

theorem pieces_ne_nil (cs : List Char) : pieces cs ≠ [] := by
  fun_induction pieces cs <;> simp_all

example : (ofString "a//b/./../c").names = ["a", "b", "..", "c"] := by decide +kernel

end Path

end NativeBinding
