import NodeView.Keyed
/-!
# NodeView.Message.Validators

The votes on a transaction: for each validator's address, whether it approved.

A map is held as its entries in ascending order of addresses, so that maps with the same votes
are equal and the approving addresses come out sorted.
-/

namespace NodeView

/-- A finite map from addresses to votes. -/
structure Validators where
  /-- The votes, in ascending order of addresses. -/
  entries : List (String × Bool)
  sorted : Keyed.Sorted entries
  deriving DecidableEq

namespace Validators

/-- No votes. -/
def empty : Validators := ⟨[], Keyed.sorted_nil⟩

instance : Inhabited Validators := ⟨empty⟩
instance : EmptyCollection Validators := ⟨empty⟩

/-- Records a vote, in place of an earlier one of the same address. -/
def insert (map : Validators) (address : String) (vote : Bool) : Validators :=
  ⟨Keyed.insert address vote map.entries, map.sorted.insert address vote⟩

/-- The vote of an address. -/
def get? (map : Validators) (address : String) : Option Bool := Keyed.lookup? address map.entries

/-- The number of addresses that voted. -/
def size (map : Validators) : Nat := map.entries.length

/-- The votes cast in order; an address keeps its last one. -/
def ofList (votes : List (String × Bool)) : Validators :=
  votes.foldl (fun map vote => map.insert vote.1 vote.2) empty

/-- The addresses that approved, in ascending order. -/
def approving (map : Validators) : List String :=
  (map.entries.filter (·.2)).map (·.1)

@[simp] theorem get?_empty (address : String) : empty.get? address = none := rfl

@[simp] theorem get?_insert (map : Validators) (address other : String) (vote : Bool) :
    (map.insert address vote).get? other
      = if other = address then some vote else map.get? other :=
  Keyed.lookup?_insert address other vote map.entries

/-- Maps with the same votes are the same. -/
@[ext] theorem ext {a b : Validators} (h : ∀ address, a.get? address = b.get? address) :
    a = b := by
  obtain ⟨as, ha⟩ := a
  obtain ⟨bs, hb⟩ := b
  have : as = bs := Keyed.Sorted.ext ha hb h
  subst this
  rfl

theorem length_approving_le (map : Validators) : map.approving.length ≤ map.size := by
  simpa [approving, size] using List.length_filter_le _ map.entries

end Validators

end NodeView
