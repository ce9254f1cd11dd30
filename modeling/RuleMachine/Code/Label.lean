/-!
Labels and the pool that hands them out. The smallest label that is not in use is always the next
one, and labels come back to the pool all together.
-/

set_option autoImplicit false

namespace RuleMachine

structure Label where
  id : Nat
  deriving DecidableEq, Repr

def Label.name (l : Label) : String := s!"L{l.id}"

/-- Labels in use, ascending; returned labels, the next one on top; the first number never handed
out; and how many labels were ever in use at once. -/
structure LabelPool where
  inUse : List Nat
  returned : List Nat
  issued : Nat
  peak : Nat
  deriving DecidableEq, Repr

def insertAscending (n : Nat) : List Nat → List Nat
  | [] => [n]
  | m :: rest => if n < m then n :: m :: rest else if n = m then m :: rest
    else m :: insertAscending n rest

namespace LabelPool

def empty : LabelPool := ⟨[], [], 0, 0⟩

instance : Inhabited LabelPool := ⟨empty⟩

def use (pool : LabelPool) (n : Nat) : LabelPool :=
  let inUse := insertAscending n pool.inUse
  { pool with inUse := inUse, peak := max pool.peak inUse.length }

def allocate (pool : LabelPool) : Label × LabelPool :=
  match pool.returned with
  | n :: rest => (⟨n⟩, { pool with returned := rest }.use n)
  | [] => (⟨pool.issued⟩, { pool with issued := pool.issued + 1 }.use pool.issued)

/-- Takes every label back; the smallest comes to lie on top. -/
def releaseAll (pool : LabelPool) : LabelPool :=
  { pool with inUse := [], returned := pool.inUse ++ pool.returned }

def isInUse (pool : LabelPool) (l : Label) : Bool := pool.inUse.contains l.id

end LabelPool

end RuleMachine
