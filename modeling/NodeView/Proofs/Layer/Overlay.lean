import NodeView.Layer.Basic
import NodeView.Proofs.Keyed
/-!
# NodeView.Proofs.Layer.Overlay

What stands under a key of two layers that are laid over each other.

The newer entry stands, laid over the older one where both layers have one
(`lookup?_overlayLayer`). Where either of them is no table the newer one stands as it is
(`IsPlain.overlay`, `IsPlain.overlay_left`), so that what is no table leaves nothing of the older
entry (`merge_overlay_of_isPlain`).
-/

namespace NodeView

namespace Entry

/-- Whether an entry is no table. -/
def IsPlain (entry : Entry) : Prop := ∀ origin members, entry ≠ .table origin members

instance : DecidablePred IsPlain
  | .scalar _ _ => isTrue fun _ _ h => nomatch h
  | .list _ _ => isTrue fun _ _ h => nomatch h
  | .table origin members => isFalse fun h => h origin members rfl

theorem IsPlain.overlay {entry : Entry} (h : entry.IsPlain) (other : Entry) :
    entry.overlay other = entry := by
  cases entry with
  | scalar origin value => simp [Entry.overlay]
  | list origin items => simp [Entry.overlay]
  | table origin members => exact absurd rfl (h origin members)

theorem IsPlain.overlay_left {other : Entry} (h : other.IsPlain) (entry : Entry) :
    entry.overlay other = entry := by
  cases other with
  | scalar origin value => cases entry <;> simp [Entry.overlay]
  | list origin items => cases entry <;> simp [Entry.overlay]
  | table origin members => exact absurd rfl (h origin members)

/-- Under each key the newer entry stands, laid over the older one if there is one. -/
theorem lookup?_overlayLayer {newer : List (String × Entry)}
    (hsorted : Keyed.Sorted newer) (older : List (String × Entry)) (key : String) :
    Keyed.lookup? key (overlayLayer newer older)
      = Option.merge overlay (Keyed.lookup? key newer) (Keyed.lookup? key older) := by
  induction newer generalizing older with
  | nil => simp [overlayLayer, Keyed.lookup?]
  | cons member newer ih =>
      obtain ⟨other, entry⟩ := member
      obtain ⟨hhead, hrest⟩ := List.pairwise_cons.mp hsorted
      rw [overlayLayer, ih hrest, Keyed.lookup?_insert, Keyed.lookup?]
      by_cases hkey : key = other
      · subst hkey
        -- The key is laid over the older layer here and not behind, where the keys are greater.
        rw [Keyed.lookup?_eq_none_of_lt hhead, if_pos rfl, if_pos rfl]
        cases Keyed.lookup? key older <;> rfl
      · rw [if_neg hkey, if_neg hkey]

/-- An overlay keeps the order of the older layer. -/
theorem sorted_overlayLayer (newer : List (String × Entry))
    {older : List (String × Entry)} (h : Keyed.Sorted older) :
    Keyed.Sorted (overlayLayer newer older) := by
  induction newer generalizing older with
  | nil => rwa [overlayLayer]
  | cons member newer ih =>
      rw [overlayLayer]
      exact ih (h.insert _ _)

theorem overlayLayer_singleton (key : String) (entry : Entry) (older : List (String × Entry)) :
    overlayLayer [(key, entry)] older
      = Keyed.insert key (((Keyed.lookup? key older).map entry.overlay).getD entry) older := by
  rw [overlayLayer, overlayLayer]
  cases Keyed.lookup? key older <;> rfl

theorem overlayLayer_singleton_of_isPlain {entry : Entry} (h : entry.IsPlain) (key : String)
    (older : List (String × Entry)) :
    overlayLayer [(key, entry)] older = Keyed.insert key entry older := by
  rw [overlayLayer_singleton]
  cases Keyed.lookup? key older with
  | none => rfl
  | some other => rw [Option.map_some, Option.getD_some, h.overlay]

/-- Laid over another entry or over none, what is no table stands as it is. -/
theorem merge_overlay_of_isPlain {newer : Option Entry}
    (h : ∀ entry, newer = some entry → entry.IsPlain) (older : Option Entry) :
    Option.merge overlay newer older = newer.or older := by
  cases newer with
  | none => simp
  | some entry =>
      cases older with
      | none => rfl
      | some other => exact congrArg some ((h entry rfl).overlay other)

end Entry

end NodeView
