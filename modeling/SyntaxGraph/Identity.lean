/-!
# Identities

Every node of a graph has an id. New ids come from a counter, a 64-bit word that goes up by one with
each id; ids that come from outside are reserved, so that the counter never hands them out again.
-/

namespace SyntaxGraph

/-- The identity of a node. -/
structure InstanceId where
  number : UInt64
deriving DecidableEq, Hashable, Repr, Inhabited

namespace InstanceId

/-- The largest number that an id from outside may have, `2 ^ 63 - 1`. -/
def maxNumber : UInt64 := 9223372036854775807

/-- An id from outside is accepted. -/
def inRange (id : InstanceId) : Bool :=
  id.number ≤ maxNumber

/-- The id as it stands in labels and messages. -/
def text (id : InstanceId) : String :=
  "#" ++ toString id.number.toNat

end InstanceId

/-- The source of new ids. -/
structure Counter where
  /-- The number of the next id. -/
  next : UInt64 := 1
deriving DecidableEq, Repr, Inhabited

namespace Counter

/-- The next id and the counter after it. -/
def fresh (c : Counter) : InstanceId × Counter :=
  (⟨c.next⟩, ⟨c.next + 1⟩)

/-- The counter raised above `id`, or `none` when `id` is out of range. -/
def reserve? (c : Counter) (id : InstanceId) : Option Counter :=
  if id.inRange then some ⟨max c.next (id.number + 1)⟩ else none

@[simp] theorem fresh_fst (c : Counter) : c.fresh.1 = ⟨c.next⟩ := rfl

@[simp] theorem fresh_snd (c : Counter) : c.fresh.2 = ⟨c.next + 1⟩ := rfl

theorem reserve?_isSome (c : Counter) (id : InstanceId) :
    (c.reserve? id).isSome = id.inRange := by
  unfold reserve?
  split <;> simp_all

end Counter

end SyntaxGraph
