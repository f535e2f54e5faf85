/-
Module: VectorRisc.Sorting
Layer: Sorting
Purpose: Quicksort in place that looks out for runs and equal items. Short ranges are sorted by
  insertion, so that up to twelve items keep the order of equals; in longer ranges the choice of pivots
  fixes where equal items end up.
Imports: none
Trusted boundary: none
Main exports: Sorting.sort
Open obligations: none
-/

namespace VectorRisc

namespace Sorting

variable {α : Type}

/-- The item at one place comes before the item at another. -/
def before (less : α → α → Bool) (items : Array α) (i j : Nat) : Bool :=
  match items[i]?, items[j]? with
  | some x, some y => less x y
  | _, _ => false

/-! ### Insertion -/

/-- Move an item down to its place, but not below `lo`. -/
def sink (less : α → α → Bool) (lo : Nat) : (place : Nat) → Array α → Array α
  | 0, items => items
  | i + 1, items =>
    if lo ≤ i && before less items (i + 1) i then sink less lo i (items.swapIfInBounds (i + 1) i)
    else items

/-- Move an item up to its place below `hi`, in at most `fuel` steps. -/
def rise (less : α → α → Bool) (hi : Nat) : (fuel : Nat) → (place : Nat) → Array α → Array α
  | 0, _, items => items
  | fuel + 1, i, items =>
    if i + 1 < hi && before less items (i + 1) i then
      rise less hi fuel (i + 1) (items.swapIfInBounds (i + 1) i)
    else items

/-- Sort a range by insertion. -/
def insertionSort (less : α → α → Bool) (lo hi : Nat) (items : Array α) : Array α :=
  (List.range' (lo + 1) (hi - lo - 1)).foldl (fun a i => sink less lo i a) items

/-- The first place from `i` on, below `hi`, whose item comes before the one below it. -/
def firstDrop (less : α → α → Bool) (hi : Nat) (items : Array α) : (fuel : Nat) → (i : Nat) → Nat
  | 0, i => i
  | fuel + 1, i =>
    if i < hi && !before less items i (i - 1) then firstDrop less hi items fuel (i + 1) else i

/-- Ranges below this length are not worth mending. -/
def mendMinimum : Nat := 50

/-- Sort a range in which few items are out of place: find a drop and mend it, at most `steps` times.
    Tells whether the range is sorted. -/
def mend (less : α → α → Bool) (lo hi : Nat) : (steps : Nat) → (i : Nat) → Array α → Array α × Bool
  | 0, _, items => (items, false)
  | steps + 1, i, items =>
    let i := firstDrop less hi items (hi - i) i
    if hi ≤ i then (items, true)
    else if hi - lo < mendMinimum then (items, false)
    else
      let items := items.swapIfInBounds i (i - 1)
      let items := if 2 ≤ i - lo then sink less 0 (i - 1) items else items
      let items := if 2 ≤ hi - i then rise less hi (hi - i) i items else items
      mend less lo hi steps i items

/-! ### Heaps -/

/-- Move an item of the heap of `size` items at `first` down below greater ones. -/
def siftDown (less : α → α → Bool) (first size : Nat) : (fuel : Nat) → (root : Nat) → Array α → Array α
  | 0, _, items => items
  | fuel + 1, root, items =>
    let left := 2 * root + 1
    if size ≤ left then items
    else
      let rightIsGreater := left + 1 < size && before less items (first + left) (first + left + 1)
      let child := if rightIsGreater then left + 1 else left
      if before less items (first + root) (first + child) then
        siftDown less first size fuel child (items.swapIfInBounds (first + root) (first + child))
      else items

/-- Sort a range by building a heap and taking the greatest item off it again and again. -/
def heapSort (less : α → α → Bool) (lo hi : Nat) (items : Array α) : Array α :=
  let size := hi - lo
  let heap := (List.range ((size - 1) / 2 + 1)).reverse.foldl
    (fun a i => siftDown less lo size size i a) items
  (List.range size).reverse.foldl
    (fun a i => siftDown less lo i size 0 (a.swapIfInBounds lo (lo + i))) heap

/-! ### Pivots -/

/-- What the choice of a pivot says about its range. -/
inductive Trend where
  | rising
  | falling
  | unknown
deriving DecidableEq, Repr, Inhabited

/-- Two places in the order of their items, and the number of exchanges so far. -/
def ordered (less : α → α → Bool) (items : Array α) (i j swaps : Nat) : Nat × Nat × Nat :=
  if before less items j i then (j, i, swaps + 1) else (i, j, swaps)

/-- The place of the median of three, and the number of exchanges so far. -/
def median (less : α → α → Bool) (items : Array α) (i j k swaps : Nat) : Nat × Nat :=
  let (i, j, swaps) := ordered less items i j swaps
  let (j, _, swaps) := ordered less items j k swaps
  let (_, j, swaps) := ordered less items i j swaps
  (j, swaps)

/-- Ranges of at least this length take the median of three medians. -/
def ninthMinimum : Nat := 50

/-- The place of a pivot near the median of a range. A range in which no comparison asked for an
    exchange seems to rise; one in which all twelve did seems to fall. -/
def choosePivot (less : α → α → Bool) (lo hi : Nat) (items : Array α) : Nat × Trend :=
  let n := hi - lo
  let i := lo + n / 4
  let j := lo + n / 4 * 2
  let k := lo + n / 4 * 3
  let near (p swaps : Nat) : Nat × Nat :=
    if ninthMinimum ≤ n then median less items (p - 1) p (p + 1) swaps else (p, swaps)
  let (i, swaps) := near i 0
  let (j, swaps) := near j swaps
  let (k, swaps) := near k swaps
  let (j, swaps) := median less items i j k swaps
  (j, if swaps = 0 then .rising else if swaps = 12 then .falling else .unknown)

/-- The next number of a shift register. -/
def scramble (x : UInt64) : UInt64 :=
  let x := x ^^^ (x <<< 13)
  let x := x ^^^ (x >>> 7)
  x ^^^ (x <<< 17)

/-- Exchange three items around the middle of a range with scattered ones. -/
def scatter (lo hi : Nat) (items : Array α) : Array α :=
  let n := hi - lo
  let mask := UInt64.ofNat (1 <<< (n.log2 + 1)) - 1
  let middle := lo + n / 4 * 2
  let x := scramble (UInt64.ofNat n)
  let y := scramble x
  let z := scramble y
  let other (w : UInt64) : Nat :=
    let place := (w &&& mask).toNat
    lo + if n ≤ place then place - n else place
  ((items.swapIfInBounds (middle - 1) (other x)).swapIfInBounds middle (other y)).swapIfInBounds
    (middle + 1) (other z)

/-- Reverse a range. -/
def reverse (lo hi : Nat) (items : Array α) : Array α :=
  (List.range ((hi - lo) / 2)).foldl (fun a i => a.swapIfInBounds (lo + i) (hi - 1 - i)) items

/-! ### Partitions -/

/-- The first place from `i` up to `j` that fails a test, or the place behind `j`. -/
def upWhile (test : Nat → Bool) : (fuel : Nat) → (i j : Nat) → Nat
  | 0, i, _ => i
  | fuel + 1, i, j => if i ≤ j && test i then upWhile test fuel (i + 1) j else i

/-- The last place from `j` down to `i` that fails a test, or the place before `i`. -/
def downWhile (test : Nat → Bool) : (fuel : Nat) → (i j : Nat) → Nat
  | 0, _, j => j
  | fuel + 1, i, j => if i ≤ j && test j then downWhile test fuel i (j - 1) else j

/-- Exchange items from both ends of the places `i` to `j` until those that belong low stand below the
    others. Gives the bounds where the ends meet, and whether nothing had to be exchanged. -/
def part (low : Array α → Nat → Bool) :
    (fuel : Nat) → (i j : Nat) → (untouched : Bool) → Array α → Array α × Nat × Nat × Bool
  | 0, i, j, untouched, items => (items, i, j, untouched)
  | fuel + 1, i, j, untouched, items =>
    let up := upWhile (low items) (fuel + 1) i j
    let down := downWhile (fun k => !low items k) (fuel + 1) up j
    if down < up then (items, up, down, untouched)
    else part low fuel (up + 1) (down - 1) false (items.swapIfInBounds up down)

/-- Put items before the pivot below it and the others above it. Gives the pivot's place, and whether
    the range was so already. -/
def partition (less : α → α → Bool) (lo hi pivot : Nat) (items : Array α) : Array α × Nat × Bool :=
  let items := items.swapIfInBounds lo pivot
  let (items, _, j, untouched) :=
    part (fun a k => before less a k lo) (hi - lo) (lo + 1) (hi - 1) true items
  (items.swapIfInBounds j lo, j, untouched)

/-- Put items equal to the pivot below those that come after it; none comes before it. Gives the first
    place after the equal ones. -/
def partitionEqual (less : α → α → Bool) (lo hi pivot : Nat) (items : Array α) : Array α × Nat :=
  let items := items.swapIfInBounds lo pivot
  let (items, i, _, _) :=
    part (fun a k => !before less a lo k) (hi - lo) (lo + 1) (hi - 1) true items
  (items, i)

/-! ### Sorting -/

/-- A range still to be sorted. `limit` bad pivots are tolerated; `balanced` and `partitioned` tell how
    the last partition around the range went. -/
structure Range where
  lo : Nat
  hi : Nat
  limit : Nat
  balanced : Bool := true
  partitioned : Bool := true
deriving DecidableEq, Repr, Inhabited

/-- The longest range that is sorted by insertion. -/
def insertionMaximum : Nat := 12

/-- How often a range is mended before it is partitioned. -/
def mendSteps : Nat := 5

/-- Sort a range. Every round takes at least one item out of it, so that `fuel` items need no more than
    `fuel` rounds. -/
def sortRange (less : α → α → Bool) : (fuel : Nat) → Range → Array α → Array α
  | 0, _, items => items
  | fuel + 1, r, items =>
    let n := r.hi - r.lo
    if n ≤ insertionMaximum then insertionSort less r.lo r.hi items
    else if r.limit = 0 then heapSort less r.lo r.hi items
    else
      let items := if r.balanced then items else scatter r.lo r.hi items
      let limit := if r.balanced then r.limit else r.limit - 1
      let (chosen, trend) := choosePivot less r.lo r.hi items
      let falls := trend = .falling
      let items := if falls then reverse r.lo r.hi items else items
      let pivot := if falls then r.hi - 1 - (chosen - r.lo) else chosen
      let (items, sorted) :=
        if r.balanced && r.partitioned && trend ≠ .unknown then
          mend less r.lo r.hi mendSteps (r.lo + 1) items
        else (items, false)
      if sorted then items
      else if 0 < r.lo && !before less items (r.lo - 1) pivot then
        let (items, mid) := partitionEqual less r.lo r.hi pivot items
        sortRange less fuel { r with lo := mid, limit := limit } items
      else
        let (items, mid, already) := partition less r.lo r.hi pivot items
        let left := mid - r.lo
        let right := r.hi - mid
        if left < right then
          let items := sortRange less fuel { lo := r.lo, hi := mid, limit := limit } items
          sortRange less fuel
            { lo := mid + 1, hi := r.hi, limit := limit, balanced := n / 8 ≤ left
              partitioned := already } items
        else
          let items := sortRange less fuel { lo := mid + 1, hi := r.hi, limit := limit } items
          sortRange less fuel
            { lo := r.lo, hi := mid, limit := limit, balanced := n / 8 ≤ right
              partitioned := already } items

/-- Items in the order of `less`. -/
def sort (less : α → α → Bool) (items : List α) : List α :=
  let n := items.length
  (sortRange less n { lo := 0, hi := n, limit := n.log2 + 1 } items.toArray).toList

end Sorting

end VectorRisc
