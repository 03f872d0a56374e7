/-! Values collected under ordered keys: keys ascend, and under one key values keep the order in
which they came. -/

namespace Pedigree

abbrev Grouping (κ α : Type) := List (κ × List α)

namespace Grouping

variable {κ α : Type} [LT κ] [DecidableLT κ]

def add (k : κ) (a : α) : Grouping κ α → Grouping κ α
  | [] => [(k, [a])]
  | (j, as) :: rest =>
    if k < j then (k, [a]) :: (j, as) :: rest
    else if j < k then (j, as) :: add k a rest
    else (j, as ++ [a]) :: rest

def ofList (xs : List (κ × α)) : Grouping κ α :=
  xs.foldl (fun g x => add x.1 x.2 g) []

def toList (g : Grouping κ α) : List (κ × α) :=
  g.flatMap fun x => x.2.map (x.1, ·)

end Grouping
end Pedigree
