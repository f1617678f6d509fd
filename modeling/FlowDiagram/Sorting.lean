namespace FlowDiagram.Sorting

variable {β : Type} (lt : β → β → Bool)

def ascending : β → List β → List β × List β
  | _, [] => ([], [])
  | a, x :: xs =>
    if lt x a then ([], x :: xs)
    else (x :: (ascending x xs).1, (ascending x xs).2)

def descending : β → List β → List β × List β
  | _, [] => ([], [])
  | a, x :: xs =>
    if lt x a then (x :: (descending x xs).1, (descending x xs).2)
    else ([], x :: xs)

/-- Puts x into a sorted list, behind all entries that are not larger: it is compared with the
middle entry and goes on in that half. The length of the list bounds the steps. -/
def placeWithin (x : β) : Nat → List β → List β
  | 0, xs => x :: xs
  | n + 1, xs =>
    match xs.drop (xs.length / 2) with
    | [] => [x]
    | p :: above =>
      if lt x p then placeWithin x n (xs.take (xs.length / 2)) ++ p :: above
      else xs.take (xs.length / 2) ++ p :: placeWithin x n above

def place (xs : List β) (x : β) : List β := placeWithin lt x xs.length xs

def leadingRun : List β → List β × List β
  | a :: b :: xs =>
    if lt b a then ((a :: b :: (descending lt b xs).1).reverse, (descending lt b xs).2)
    else (a :: b :: (ascending lt b xs).1, (ascending lt b xs).2)
  | xs => (xs, [])

/-- The leading run is kept, or reversed when it strictly descends, and every further entry is put into
place by halving. On a total preorder this is the one stable sort; the steps are fixed because a comparison
that is none, such as one of keys that are not numbers, shows them. -/
def sort (xs : List β) : List β := (leadingRun lt xs).2.foldl (place lt) (leadingRun lt xs).1

example : sort (fun a b : Nat × Nat => a.1 < b.1) [(2, 0), (1, 1), (2, 2), (1, 3), (0, 4)] =
    [(0, 4), (1, 1), (1, 3), (2, 0), (2, 2)] := by decide

end FlowDiagram.Sorting
