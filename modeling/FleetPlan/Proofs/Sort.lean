/-
Sorting by a text.

Texts are totally ordered, so what is sorted by a text of its own comes to stand in the
order of these texts, and what stands in that order already stays where it is.  Entries
that their keys tell apart are the same list in whatever order they were given, and so are
texts that are sorted by themselves.
-/
import Mathlib.Data.List.Nodup
import Mathlib.Data.List.Perm.Basic

namespace FleetPlan

variable {α : Type}

theorem pairwise_mergeSort_by (key : α → String) (xs : List α) :
    (xs.mergeSort fun a b => decide (key a ≤ key b)).Pairwise
      fun a b => decide (key a ≤ key b) = true := by
  refine List.pairwise_mergeSort ?_ ?_ xs
  · intro a b c hab hbc
    exact decide_eq_true (String.le_trans (of_decide_eq_true hab) (of_decide_eq_true hbc))
  · intro a b
    simpa using String.le_total (key a) (key b)

/-- What was given another form and sorted is not changed by doing so again. -/
theorem mergeSort_map_mergeSort_by (key : α → String) {f : α → α} (hf : ∀ a, f (f a) = f a)
    (xs : List α) :
    ((((xs.map f).mergeSort fun a b => decide (key a ≤ key b)).map f).mergeSort
        fun a b => decide (key a ≤ key b)) =
      (xs.map f).mergeSort fun a b => decide (key a ≤ key b) := by
  have hmap : ((xs.map f).mergeSort fun a b => decide (key a ≤ key b)).map f =
      (xs.map f).mergeSort fun a b => decide (key a ≤ key b) := by
    refine (List.map_congr_left (g := id) ?_).trans (List.map_id _)
    intro a ha
    obtain ⟨b, -, rfl⟩ := List.mem_map.mp ((List.mergeSort_perm _ _).mem_iff.mp ha)
    exact hf b
  rw [hmap]
  exact List.mergeSort_of_pairwise (pairwise_mergeSort_by key _)

/-- Lists in another order are sorted into the same list if the keys tell their entries apart. -/
theorem mergeSort_by_eq_of_perm (key : α → String) {xs ys : List α}
    (hkey : ∀ a ∈ xs, ∀ b ∈ xs, key a = key b → a = b) (h : xs.Perm ys) :
    (xs.mergeSort fun a b => decide (key a ≤ key b)) =
      ys.mergeSort fun a b => decide (key a ≤ key b) := by
  have hxs : (xs.mergeSort fun a b => decide (key a ≤ key b)).Perm xs := List.mergeSort_perm xs _
  have hys : (ys.mergeSort fun a b => decide (key a ≤ key b)).Perm ys := List.mergeSort_perm ys _
  refine List.Perm.eq_of_pairwise ?_ (pairwise_mergeSort_by key xs) (pairwise_mergeSort_by key ys)
    (hxs.trans (h.trans hys.symm))
  intro a b ha hb hab hba
  refine hkey a (hxs.subset ha) b (h.symm.subset (hys.subset hb)) ?_
  exact String.le_antisymm (of_decide_eq_true hab) (of_decide_eq_true hba)

/-- What stands in the strict order of its keys is what any rearrangement of it is sorted into. -/
theorem mergeSort_by_eq_of_pairwise (key : α → String) {xs ys : List α} (h : xs.Perm ys)
    (hys : ys.Pairwise fun a b => key a < key b) :
    (xs.mergeSort fun a b => decide (key a ≤ key b)) = ys := by
  have hle : ys.Pairwise fun a b => decide (key a ≤ key b) = true :=
    hys.imp fun hlt => decide_eq_true (String.not_lt.mp (String.lt_asymm hlt))
  have hne : ys.Pairwise fun a b => key a ≠ key b := by
    refine hys.imp ?_
    intro a b hlt heq
    exact String.lt_irrefl (key b) (heq ▸ hlt)
  have hkey : ∀ a ∈ ys, ∀ b ∈ ys, key a = key b → a = b := fun a ha b hb =>
    List.inj_on_of_nodup_map (List.pairwise_map.mpr hne) ha hb
  rw [← mergeSort_by_eq_of_perm key hkey h.symm]
  exact List.mergeSort_of_pairwise hle

/-- Texts in another order are sorted into the same list. -/
theorem mergeSort_texts_eq_of_perm {xs ys : List String} (h : xs.Perm ys) :
    (xs.mergeSort fun a b => decide (a ≤ b)) = ys.mergeSort fun a b => decide (a ≤ b) :=
  mergeSort_by_eq_of_perm id (fun _ _ _ _ hab => hab) h

end FleetPlan
