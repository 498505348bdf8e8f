import Mathlib

/-! Exact covers: a family of sets that are pairwise disjoint and fill a given set. -/

namespace Foundation

variable {α ι : Type}

/-- The members of `family`, read through `part`, are disjoint and together are `whole`. -/
structure Tiles (part : ι → Set α) (family : List ι) (whole : Set α) : Prop where
  disjoint : family.Pairwise fun i j => Disjoint (part i) (part j)
  cover : (⋃ i ∈ family, part i) = whole

namespace Tiles
variable {part : ι → Set α}

theorem singleton (i : ι) : Tiles part [i] (part i) :=
  ⟨List.pairwise_singleton _ _, by simp⟩

theorem part_subset {family : List ι} {whole : Set α} (h : Tiles part family whole) {i : ι}
    (hi : i ∈ family) : part i ⊆ whole :=
  h.cover ▸ Set.subset_biUnion_of_mem (u := part) (s := {i | i ∈ family}) hi

theorem append {family family' : List ι} {whole whole' : Set α} (h : Tiles part family whole)
    (h' : Tiles part family' whole') (hd : Disjoint whole whole') :
    Tiles part (family ++ family') (whole ∪ whole') := by
  refine ⟨List.pairwise_append.mpr ⟨h.disjoint, h'.disjoint, fun i hi j hj => ?_⟩, ?_⟩
  · exact hd.mono (h.part_subset hi) (h'.part_subset hj)
  · simp only [List.mem_append, Set.iUnion_or, Set.iUnion_union_distrib]
    rw [h.cover, h'.cover]

end Tiles
end Foundation
