/-!
A cell for a value that is computed when first asked for. Suppliers may ask the cell for its value
and fetch from it again while they run; the first value that is stored stays, and a failure stores
nothing.
-/
namespace JavaTypes

/-- A cell without a value yet, or with one. The value may itself stand for absence. -/
structure MemoCell (α : Type) where
  value? : Option α := none

/-- What computes a value for a cell: a result, or first a look at the cell or another fetch from
it, whose answer decides what follows. -/
inductive Supplier (ε α : Type) where
  | done (result : Except ε α)
  | look (next : Option α → Supplier ε α)
  | fetch (inner : Supplier ε α) (next : Except ε α → Supplier ε α)

structure Fetched (ε α : Type) where
  result : Except ε α
  cell : MemoCell α
  runs : Nat

/-- Stores the result of a supplier that was run. A value that was stored meanwhile is kept and
becomes the answer. -/
def Fetched.store {ε α : Type} (f : Fetched ε α) : Fetched ε α :=
  match f.result with
  | .ok v =>
    let kept := f.cell.value?.getD v
    { result := .ok kept, cell := ⟨some kept⟩, runs := f.runs + 1 }
  | .error e => { result := .error e, cell := f.cell, runs := f.runs + 1 }

def Supplier.run {ε α : Type} : Supplier ε α → MemoCell α → Fetched ε α
  | .done result, cell => { result, cell, runs := 0 }
  | .look next, cell => (next cell.value?).run cell
  | .fetch inner next, cell =>
    match cell.value? with
    | some v => (next (.ok v)).run cell
    | none =>
      let first := (inner.run cell).store
      let rest := (next first.result).run first.cell
      { rest with runs := first.runs + rest.runs }

namespace MemoCell

/-- The value of a cell; only a cell without one runs the supplier. -/
def fetch {ε α : Type} (cell : MemoCell α) (supplier : Supplier ε α) : Fetched ε α :=
  match cell.value? with
  | some v => { result := .ok v, cell, runs := 0 }
  | none => (supplier.run cell).store

end MemoCell

/-- Fetches one level deeper on the same cell and passes a success on through `step`. -/
def Supplier.nested {ε α : Type} (step : α → α) (inner : Supplier ε α) : Supplier ε α :=
  .fetch inner fun result => .done (result.map step)

end JavaTypes
