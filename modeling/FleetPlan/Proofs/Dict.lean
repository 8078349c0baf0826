/-
What a dictionary made from a list holds.

Entries go in one after another, and an entry takes the place of an earlier one of
the same name.  So the entries that last are those that no later one replaces, and
`ofList_perm` says that a dictionary holds exactly these.  A list whose names differ
loses nothing, and one that stands in order already is the dictionary's own list.
-/
import FleetPlan.Names
import Mathlib.Data.List.Perm.Basic
import Mathlib.Data.List.Pairwise
import Mathlib.Data.List.Nodup
import Mathlib.Order.Basic

namespace FleetPlan

namespace Dict

variable {α : Type}

/-! ### Looking up -/

/-- A list in strict order names nothing twice. -/
theorem nodup_names {es : List (String × α)} (h : es.Pairwise (fun a b => a.1 < b.1)) :
    (es.map (·.1)).Nodup := by
  unfold List.Nodup
  rw [List.pairwise_map]
  refine h.imp ?_
  intro a b hab heq
  rw [heq] at hab
  exact String.lt_irrefl _ hab

theorem nodup_keys (d : Dict α) : d.keys.Nodup := nodup_names d.sorted

/-- Under a name that differs from all others, an entry is found. -/
theorem find?_name {es : List (String × α)} (h : (es.map (·.1)).Nodup) {key : String} {value : α}
    (hmem : (key, value) ∈ es) : es.find? (·.1 == key) = some (key, value) := by
  induction es with
  | nil => simp at hmem
  | cons e rest ih =>
    obtain ⟨hnot, hrest⟩ := List.nodup_cons.mp h
    rcases List.mem_cons.mp hmem with rfl | hmem
    · simp
    · have hne : e.1 ≠ key := by
        intro heq
        exact hnot (List.mem_map.mpr ⟨(key, value), hmem, heq.symm⟩)
      rw [List.find?_cons_of_neg (by simpa using hne)]
      exact ih hrest hmem

theorem get?_eq_some_iff {d : Dict α} {key : String} {value : α} :
    d.get? key = some value ↔ (key, value) ∈ d.entries := by
  constructor
  · intro h
    obtain ⟨e, hfind, rfl⟩ := Option.map_eq_some_iff.mp h
    have hkey : e.1 = key := by simpa using List.find?_some hfind
    exact hkey ▸ List.mem_of_find?_eq_some hfind
  · intro h
    rw [get?, find?_name d.nodup_keys h]
    rfl

/-! ### Inserting -/

theorem insertEntry_perm {key : String} {value : α} {es : List (String × α)}
    (h : es.Pairwise (fun a b => a.1 < b.1)) :
    (insertEntry key value es).Perm ((key, value) :: es.filter (·.1 != key)) := by
  induction es with
  | nil => simp [insertEntry]
  | cons a rest ih =>
    obtain ⟨k, v⟩ := a
    obtain ⟨hk, hrest⟩ := List.pairwise_cons.mp h
    -- Names behind one that is not smaller than `key` all differ from `key`.
    have keeps (hle : ¬k < key) : rest.filter (·.1 != key) = rest := by
      refine List.filter_eq_self.mpr ?_
      intro e he
      have hne : e.1 ≠ key := by
        intro heq
        have hlt := hk e he
        rw [heq] at hlt
        exact hle hlt
      simpa using hne
    simp only [insertEntry]
    split
    · rename_i hlt
      have hne : (k != key) = true := by
        simpa using fun heq : k = key => String.lt_irrefl key (heq ▸ hlt)
      rw [List.filter_cons_of_pos (by exact hne), keeps (String.lt_asymm hlt)]
    · rename_i hnlt
      split
      · rename_i hgt
        have hne : (k != key) = true := by
          simpa using fun heq : k = key => String.lt_irrefl key (heq ▸ hgt)
        rw [List.filter_cons_of_pos (by exact hne)]
        exact ((ih hrest).cons (k, v)).trans (List.Perm.swap _ _ _)
      · rename_i hngt
        have heq : key = k := String.le_antisymm (String.not_lt.mp hngt) (String.not_lt.mp hnlt)
        subst heq
        rw [List.filter_cons_of_neg (by simp), keeps (String.lt_irrefl _)]

theorem insert_perm (d : Dict α) (key : String) (value : α) :
    (d.insert key value).entries.Perm ((key, value) :: d.entries.filter (·.1 != key)) :=
  insertEntry_perm d.sorted

/-! ### Dictionaries from lists -/

theorem entries_foldl_insert (es : List (String × α)) (d : Dict α) :
    (es.foldl (fun d e => d.insert e.1 e.2) d).entries =
      es.foldl (fun g e => insertEntry e.1 e.2 g) d.entries := by
  induction es generalizing d with
  | nil => rfl
  | cons e es ih => exact ih (d.insert e.1 e.2)

/-- The entries that no later entry of the same name replaces. -/
def lasting : List (String × α) → List (String × α)
  | [] => []
  | e :: rest => if rest.any (·.1 == e.1) then lasting rest else e :: lasting rest

theorem lasting_cons (e : String × α) (rest : List (String × α)) : lasting (e :: rest) =
    if e.1 ∈ rest.map (·.1) then lasting rest else e :: lasting rest := by
  have hany : rest.any (·.1 == e.1) = decide (e.1 ∈ rest.map (·.1)) := by
    rw [Bool.eq_iff_iff, List.any_eq_true, decide_eq_true_iff, List.mem_map]
    simp only [beq_iff_eq]
  rw [lasting, hany]
  simp only [decide_eq_true_eq]

theorem foldl_insert_perm : ∀ (es : List (String × α)) (d : Dict α),
    (es.foldl (fun d e => d.insert e.1 e.2) d).entries.Perm
      (d.entries.filter (fun e => !es.any (·.1 == e.1)) ++ lasting es) := by
  intro es
  induction es with
  | nil => intro d; simp [lasting]
  | cons e rest ih =>
    intro d
    have hkept : (d.entries.filter (·.1 != e.1)).filter (fun f => !rest.any (·.1 == f.1)) =
        d.entries.filter (fun f => !(e :: rest).any (·.1 == f.1)) := by
      rw [List.filter_filter]
      refine List.filter_congr ?_
      intro f _
      by_cases hf : e.1 = f.1
      · simp [hf]
      · have hne : (f.1 != e.1) = true := by simpa using Ne.symm hf
        have hbeq : (e.1 == f.1) = false := by simpa using hf
        simp [hne, hbeq]
    refine (ih (d.insert e.1 e.2)).trans ?_
    refine (((d.insert_perm e.1 e.2).filter _).append_right _).trans ?_
    rw [List.filter_cons, hkept, lasting]
    by_cases hany : rest.any (·.1 == e.1) = true
    · simp [hany]
    · simp only [Bool.not_eq_true] at hany
      simp only [hany, Bool.not_false, if_true]
      exact List.perm_middle.symm

/-- **A dictionary made from a list holds the entries that last.** -/
theorem ofList_perm (es : List (String × α)) : (ofList es).entries.Perm (lasting es) := by
  simpa [ofList, empty] using foldl_insert_perm es empty

theorem lasting_sublist (es : List (String × α)) : (lasting es).Sublist es := by
  induction es with
  | nil => exact List.Sublist.refl _
  | cons e rest ih =>
    unfold lasting
    split
    · exact ih.cons e
    · exact ih.cons_cons e

/-- Entries of different names all last. -/
theorem lasting_of_nodup {es : List (String × α)} (h : (es.map (·.1)).Nodup) :
    lasting es = es := by
  induction es with
  | nil => rfl
  | cons e rest ih =>
    obtain ⟨hnot, hrest⟩ := List.nodup_cons.mp h
    rw [lasting_cons, if_neg hnot, ih hrest]

/-- An entry lasts where none of its name comes behind it. -/
theorem mem_lasting_iff {es : List (String × α)} {e : String × α} :
    e ∈ lasting es ↔ ∃ before after, es = before ++ e :: after ∧ e.1 ∉ after.map (·.1) := by
  induction es with
  | nil => simp [lasting]
  | cons a rest ih =>
    rw [lasting_cons]
    constructor
    · intro h
      split at h
      · obtain ⟨before, after, rfl, hafter⟩ := ih.mp h
        exact ⟨a :: before, after, rfl, hafter⟩
      · rename_i hnone
        rcases List.mem_cons.mp h with rfl | h
        · exact ⟨[], rest, rfl, hnone⟩
        · obtain ⟨before, after, rfl, hafter⟩ := ih.mp h
          exact ⟨a :: before, after, rfl, hafter⟩
    · rintro ⟨before, after, hsplit, hafter⟩
      cases before with
      | nil =>
        obtain ⟨rfl, rfl⟩ := List.cons.inj hsplit
        rw [if_neg hafter]
        exact List.mem_cons_self
      | cons b before =>
        obtain ⟨rfl, rfl⟩ := List.cons.inj hsplit
        have hlasts := ih.mpr ⟨before, after, rfl, hafter⟩
        split
        · exact hlasts
        · exact List.mem_cons_of_mem _ hlasts

/-- Under each name some entry lasts. -/
theorem exists_mem_lasting {es : List (String × α)} {key : String}
    (h : key ∈ es.map (·.1)) : ∃ value, (key, value) ∈ lasting es := by
  induction es with
  | nil => exact absurd h List.not_mem_nil
  | cons a rest ih =>
    rw [lasting_cons]
    by_cases hrest : key ∈ rest.map (·.1)
    · obtain ⟨value, hvalue⟩ := ih hrest
      split
      · exact ⟨value, hvalue⟩
      · exact ⟨value, List.mem_cons_of_mem _ hvalue⟩
    · obtain rfl : key = a.1 := (List.mem_cons.mp h).resolve_right hrest
      rw [if_neg hrest]
      exact ⟨a.2, List.mem_cons_self⟩

theorem ofList_perm_of_nodup {es : List (String × α)} (h : (es.map (·.1)).Nodup) :
    (ofList es).entries.Perm es := by
  have := ofList_perm es
  rwa [lasting_of_nodup h] at this

theorem mem_ofList_of_nodup {es : List (String × α)} (h : (es.map (·.1)).Nodup)
    {e : String × α} : e ∈ (ofList es).entries ↔ e ∈ es :=
  (ofList_perm_of_nodup h).mem_iff

/-- Lists in strict order that hold the same entries are equal. -/
theorem eq_of_perm {es fs : List (String × α)} (hes : es.Pairwise (fun a b => a.1 < b.1))
    (hfs : fs.Pairwise (fun a b => a.1 < b.1)) (h : es.Perm fs) : es = fs :=
  h.eq_of_pairwise (fun _ _ _ _ hab hba => absurd hab (String.lt_asymm hba)) hes hfs

/-- A list in strict order is what the dictionary made from it holds. -/
theorem entries_ofList {es : List (String × α)} (h : es.Pairwise (fun a b => a.1 < b.1)) :
    (ofList es).entries = es :=
  eq_of_perm (ofList es).sorted h (ofList_perm_of_nodup (nodup_names h))

/-- Entries of distinct names make the same dictionary in any order. -/
theorem ofList_eq_of_perm {es fs : List (String × α)} (hnodup : (es.map (·.1)).Nodup)
    (h : es.Perm fs) : ofList es = ofList fs := by
  refine ext (eq_of_perm (ofList es).sorted (ofList fs).sorted ?_)
  have hfs := ofList_perm_of_nodup ((h.map _).nodup_iff.mp hnodup)
  exact (ofList_perm_of_nodup hnodup).trans (h.trans hfs.symm)

/-- Entries made from things that have names of their own are named as the things are. -/
theorem names_filterMap_sublist {σ : Type} {f : σ → Option (String × α)} {name : σ → String}
    (h : ∀ s e, f s = some e → e.1 = name s) (things : List σ) :
    ((things.filterMap f).map (·.1)).Sublist (things.map name) := by
  induction things with
  | nil => exact List.Sublist.refl _
  | cons s rest ih =>
    cases hs : f s with
    | none =>
      rw [List.filterMap_cons_none hs]
      exact ih.cons _
    | some e =>
      rw [List.filterMap_cons_some hs, List.map_cons, List.map_cons, h s e hs]
      exact ih.cons_cons _

/-- A dictionary is made from its own entries. -/
theorem ofList_entries (d : Dict α) : ofList d.entries = d := ext (entries_ofList d.sorted)

end Dict

/-! ### Names -/

namespace Names

/-- A name lasts when it is there at all: the later entry of a name is the same entry. -/
theorem mem_lasting {names : List String} {n : String} :
    (n, ()) ∈ Dict.lasting (names.map fun n => (n, ())) ↔ n ∈ names := by
  constructor
  · intro h
    simpa using (Dict.lasting_sublist _).subset h
  · intro h
    have hname : n ∈ (names.map fun n => (n, ())).map (·.1) := by simpa using h
    obtain ⟨⟨⟩, hlasts⟩ := Dict.exists_mem_lasting hname
    exact hlasts

theorem mem_sorted {names : List String} {n : String} : n ∈ sorted names ↔ n ∈ names := by
  have hperm := (Dict.ofList_perm (names.map fun n => (n, ()))).mem_iff (a := (n, ()))
  rw [mem_lasting] at hperm
  rw [← hperm, sorted, Dict.keys, List.mem_map]
  constructor
  · rintro ⟨⟨m, ⟨⟩⟩, hmem, rfl⟩
    exact hmem
  · intro hmem
    exact ⟨(n, ()), hmem, rfl⟩

theorem pairwise_sorted (names : List String) : (sorted names).Pairwise (· < ·) := by
  unfold sorted Dict.keys
  rw [List.pairwise_map]
  exact Dict.sorted _

/-- The same names are listed alike, however often they were given and in whatever order. -/
theorem sorted_congr {names names' : List String} (h : ∀ n, n ∈ names ↔ n ∈ names') :
    sorted names = sorted names' := by
  refine List.Perm.eq_of_pairwise ?_ (pairwise_sorted names) (pairwise_sorted names') ?_
  · exact fun _ _ _ _ hab hba => absurd hab (String.lt_asymm hba)
  · refine (List.perm_ext_iff_of_nodup (Dict.nodup_keys _) (Dict.nodup_keys _)).mpr fun n => ?_
    change n ∈ sorted names ↔ n ∈ sorted names'
    rw [mem_sorted, mem_sorted, h]

theorem firstRepeated?_eq_none_iff {seen names : List String} :
    firstRepeated? seen names = none ↔ names.Nodup ∧ ∀ n ∈ names, n ∉ seen := by
  induction names generalizing seen with
  | nil => simp [firstRepeated?]
  | cons n rest ih =>
    unfold firstRepeated?
    by_cases hn : n ∈ seen
    · rw [if_pos (by simpa using hn)]
      simp [hn]
    · rw [if_neg (by simpa using hn), ih, List.nodup_cons]
      constructor
      · rintro ⟨hnodup, hfresh⟩
        refine ⟨⟨fun hmem => hfresh n hmem List.mem_cons_self, hnodup⟩, ?_⟩
        intro m hm
        rcases List.mem_cons.mp hm with rfl | hm
        · exact hn
        · exact fun hseen => hfresh m hm (List.mem_cons_of_mem _ hseen)
      · rintro ⟨⟨hnot, hnodup⟩, hfresh⟩
        refine ⟨hnodup, ?_⟩
        intro m hm hseen
        rcases List.mem_cons.mp hseen with rfl | hseen
        · exact hnot hm
        · exact hfresh m (List.mem_cons_of_mem _ hm) hseen

end Names

end FleetPlan
