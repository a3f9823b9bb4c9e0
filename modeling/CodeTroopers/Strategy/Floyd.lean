import CodeTroopers.Strategy.Point

set_option autoImplicit false

/-! # The distance table

`floyd()` and `min_distance` of `MyStrategy.cpp`, on the nested vectors of the source. A vector
access outside its bounds has no result, so `floyd` is `none` exactly when the source reads or
writes out of bounds (or asks for a vector of negative size). -/

namespace CodeTroopers

open CheckedVector

/-- `const int inf = 1e9`. -/
def inf : Int := 1000000000

/-- `floyd_dist`. -/
abbrev DistanceTable := List (List (List (List Int)))

/-- `min_distance`: `floyd_dist[a.x][a.y][b.x][b.y]`. -/
def minDistance (t : DistanceTable) (a b : Point) : Option Int := do
  let plane ← at? t a.x
  let grid ← at? plane a.y
  let row ← at? grid b.x
  at? row b.y

/-- `floyd_dist[p.x][p.y][q.x][q.y] = v`. -/
def setDistance (t : DistanceTable) (p q : Point) (v : Int) : Option DistanceTable := do
  let plane ← at? t p.x
  let grid ← at? plane p.y
  let row ← at? grid q.x
  let row ← set? row q.y v
  let grid ← set? grid q.x row
  let plane ← set? plane p.y grid
  set? t p.x plane

/-- `cells[p.x][p.y]`. -/
def cellAt (cells : Cells) (p : Point) : Option CellType := do
  let column ← at? cells p.x
  at? column p.y

/-- The points of the board, in the order of the source's loops over `x` and `y`. -/
def boardPoints (b : BoardSize) : List Point :=
  (List.range b.sizeX.toNat).flatMap fun x : ℕ =>
    (List.range b.sizeY.toNat).map fun y : ℕ => ⟨x, y⟩

/-- The body of the loop that collects `free_points`. -/
def collectStep (cells : Cells) (freePoints : List Point) (p : Point) : Option (List Point) := do
  let cell ← cellAt cells p
  if cell = .free then some (freePoints ++ [p]) else some freePoints

/-- The loop that collects `free_points`. -/
def collectFreePoints (b : BoardSize) (cells : Cells) : Option (List Point) :=
  (boardPoints b).foldlM (collectStep cells) []

/-- `floyd_dist.resize(sizeX, ...)`, the new entries filled with `inf`. -/
def resizeTable (b : BoardSize) (t : DistanceTable) : Option DistanceTable := do
  let row ← resize? [] b.sizeY inf
  let grid ← resize? [] b.sizeX row
  let plane ← resize? [] b.sizeY grid
  resize? t b.sizeX plane

/-- The body of the loop that sets the distance of free neighbours to `1`. -/
def connectStep (cells : Cells) (p : Point) (t : DistanceTable) (n : Point) :
    Option DistanceTable := do
  let cell ← cellAt cells n
  if cell = .free then setDistance t p n 1 else some t

/-- The loop that sets the distance of free neighbours to `1`. -/
def connectNeighs (b : BoardSize) (cells : Cells) (freePoints : List Point) (t : DistanceTable) :
    Option DistanceTable :=
  freePoints.foldlM (fun t p => (p.neighs b).foldlM (connectStep cells p) t) t

/-- The body of the innermost relaxation loop. -/
def relaxPoint (k i : Point) (t : DistanceTable) (j : Point) : Option DistanceTable := do
  let kj ← minDistance t k j
  if kj = inf then some t
  else
    let ij ← minDistance t i j
    let ik ← minDistance t i k
    setDistance t i j (min ij (ik + kj))

/-- The body of the middle relaxation loop. -/
def relaxFrom (freePoints : List Point) (k : Point) (t : DistanceTable) (i : Point) :
    Option DistanceTable := do
  let ik ← minDistance t i k
  if ik = inf then some t else freePoints.foldlM (relaxPoint k i) t

/-- The triple loop. -/
def relaxAll (freePoints : List Point) (t : DistanceTable) : Option DistanceTable :=
  freePoints.foldlM (fun t k => freePoints.foldlM (relaxFrom freePoints k) t) t

/-- `floyd()`, run on the table the process holds (empty before the first move). -/
def floyd (b : BoardSize) (cells : Cells) (floydDist : DistanceTable) : Option DistanceTable := do
  let freePoints ← collectFreePoints b cells
  let t ← resizeTable b floydDist
  let t ← connectNeighs b cells freePoints t
  relaxAll freePoints t

end CodeTroopers
