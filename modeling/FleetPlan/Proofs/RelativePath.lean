/-
When a path in its one form is given that form again.

`RelativePath.normalize` drops the blanks at the ends before it looks at the slashes, so
dropping a slash at the end can bring a blank to the end.  Apart from that the form is
final: slashes stay single, and no part and no beginning appears that was not there
before.  Hence `normalize_again`: a path that `normalize` gave is what it gives once more
just when no blank is left at an end of it.

What the form is like, however it came about, is said by `IsProper`.
-/
import Mathlib.Data.List.DropRight
import FleetPlan.Inputs.RelativePath

namespace FleetPlan

/-! ### Trimming -/

namespace Text

theorem trimChars_eq (cs : List Char) : trimChars cs = (cs.dropWhile isBlank).rdropWhile isBlank :=
  rfl

theorem trimChars_sublist (cs : List Char) : (trimChars cs).Sublist cs :=
  (List.rdropWhile_prefix _ _).sublist.trans (List.dropWhile_sublist _)

theorem trimChars_trimChars (cs : List Char) : trimChars (trimChars cs) = trimChars cs := by
  have hfront : (trimChars cs).dropWhile isBlank = trimChars cs := by
    refine List.dropWhile_eq_self_iff.mpr fun hlt hblank => ?_
    -- What comes first after trimming came first after the blanks in front were dropped.
    have hstart : trimChars cs <+: cs.dropWhile isBlank := List.rdropWhile_prefix _ _
    have hlt' := Nat.lt_of_lt_of_le hlt hstart.length_le
    rw [hstart.getElem hlt] at hblank
    exact List.dropWhile_get_zero_not isBlank cs hlt' hblank
  rw [trimChars_eq (trimChars cs), hfront, trimChars_eq cs]
  exact List.rdropWhile_idempotent _ _

@[simp] theorem toList_trim (s : String) : (trim s).toList = trimChars s.toList :=
  String.toList_ofList

@[simp] theorem trim_trim (s : String) : trim (trim s) = trim s := by
  rw [← String.toList_inj, toList_trim, toList_trim, trimChars_trimChars]

theorem trim_eq_self_iff {s : String} : trim s = s ↔ trimChars s.toList = s.toList := by
  rw [← String.toList_inj, toList_trim]

/-- What trimming does not make shorter it does not change. -/
theorem trim_eq_self_of_length_le {s : String} (h : s.toList.length ≤ (trimChars s.toList).length) :
    trim s = s :=
  trim_eq_self_iff.mpr ((trimChars_sublist _).eq_of_length_le h)

/-! ### Pieces -/

section

variable {separator : Char}

theorem not_mem_of_mem_pieces {cs p : List Char} (h : p ∈ pieces separator cs) : separator ∉ p := by
  induction cs generalizing p with
  | nil =>
    rw [pieces, List.mem_singleton] at h
    simp [h]
  | cons c rest ih =>
    rw [pieces] at h
    split at h
    · rcases List.mem_cons.mp h with rfl | h
      · exact List.not_mem_nil
      · exact ih h
    · rename_i hc
      split at h
      · rw [List.mem_singleton] at h
        simpa [h] using Ne.symm hc
      · rename_i q qs hpieces
        rcases List.mem_cons.mp h with rfl | h
        · have hq : separator ∉ q := ih (hpieces ▸ List.mem_cons_self)
          simpa [hq] using Ne.symm hc
        · exact ih (hpieces ▸ List.mem_cons_of_mem _ h)

theorem pieces_of_not_mem {p : List Char} (h : separator ∉ p) : pieces separator p = [p] := by
  induction p with
  | nil => rfl
  | cons c p ih =>
    rw [List.mem_cons, not_or] at h
    rw [pieces, if_neg (Ne.symm h.1), ih h.2]

theorem pieces_append_separator {p : List Char} (h : separator ∉ p) (rest : List Char) :
    pieces separator (p ++ separator :: rest) = p :: pieces separator rest := by
  induction p with
  | nil => rw [List.nil_append, pieces, if_pos rfl]
  | cons c p ih =>
    rw [List.mem_cons, not_or] at h
    rw [List.cons_append, pieces, if_neg (Ne.symm h.1), ih h.2]

theorem unite_cons_cons (p q : List Char) (qs : List (List Char)) :
    unite separator (p :: q :: qs) = p ++ separator :: unite separator (q :: qs) := by
  rw [unite]
  simp

/-- Pieces without separators are found again when they were joined. -/
theorem pieces_unite {ps : List (List Char)} (hne : ps ≠ []) (h : ∀ p ∈ ps, separator ∉ p) :
    pieces separator (unite separator ps) = ps := by
  induction ps with
  | nil => exact absurd rfl hne
  | cons p ps ih =>
    have hp := h p List.mem_cons_self
    cases ps with
    | nil => rw [unite, pieces_of_not_mem hp]
    | cons q qs =>
      rw [unite_cons_cons, pieces_append_separator hp,
        ih (by simp) fun p hp => h p (List.mem_cons_of_mem _ hp)]

theorem sublist_unite_cons (p : List Char) (ps : List (List Char)) :
    (unite separator ps).Sublist (unite separator (p :: ps)) := by
  cases ps with
  | nil => exact List.nil_sublist _
  | cons q qs =>
    rw [unite_cons_cons]
    exact (List.sublist_cons_self _ _).trans (List.sublist_append_right _ _)

/-- Joining fewer pieces leaves characters out and adds none. -/
theorem unite_sublist (separator : Char) {ps qs : List (List Char)} (h : ps.Sublist qs) :
    (unite separator ps).Sublist (unite separator qs) := by
  induction h with
  | slnil => exact List.Sublist.refl _
  | cons p _ ih => exact ih.trans (sublist_unite_cons p _)
  | @cons_cons ps qs p h ih =>
    cases qs with
    | nil => rw [List.eq_nil_of_sublist_nil h]
    | cons q qs =>
      cases ps with
      | nil =>
        rw [unite_cons_cons]
        exact List.sublist_append_left _ _
      | cons p' ps =>
        rw [unite_cons_cons, unite_cons_cons]
        exact (ih.cons_cons _).append_left _

theorem unite_eq_intercalate (separator : Char) (ps : List (List Char)) :
    unite separator ps = [separator].intercalate ps := by
  induction ps with
  | nil => rfl
  | cons p ps ih =>
    cases ps with
    | nil => simp [unite, List.intercalate]
    | cons q qs =>
      rw [unite_cons_cons, ih]
      simp [List.intercalate]

end

end Text

/-! ### Paths -/

namespace RelativePath

theorem not_mem_unified (raw : String) : '\\' ∉ unified raw := by
  intro h
  obtain ⟨c, -, hc⟩ := List.mem_map.mp ((Text.trimChars_sublist _).subset h)
  split at hc
  · exact absurd hc (by decide)
  · rename_i hne
    exact hne hc

theorem length_unified_le (raw : String) : (unified raw).length ≤ raw.toList.length := by
  have h := (Text.trimChars_sublist (raw.toList.map fun c => if c = '\\' then '/' else c)).length_le
  rwa [List.length_map] at h

/-- Without backslashes there is nothing to do but to trim. -/
theorem unified_of_not_mem {p : List Char} (h : '\\' ∉ p) :
    unified (String.ofList p) = Text.trimChars p := by
  have hmap : p.map (fun c => if c = '\\' then '/' else c) = p := by
    refine (List.map_congr_left (g := id) fun c hc => ?_).trans (List.map_id p)
    refine if_neg fun heq => ?_
    rw [heq] at hc
    exact h hc
  rw [unified, String.toList_ofList, hmap]

/-- The path with its slashes single and none at an end. -/
def squeezed (path : List Char) : List Char := Text.unite '/' (segments path)

theorem squeezed_sublist (path : List Char) : (squeezed path).Sublist path := by
  have hsegments : (segments path).Sublist (Text.pieces '/' path) := List.filter_sublist
  have h := Text.unite_sublist '/' hsegments
  rwa [Text.unite_pieces] at h

theorem mem_segments {path p : List Char} (h : p ∈ segments path) : p ≠ [] ∧ '/' ∉ p := by
  obtain ⟨hp, hne⟩ := List.mem_filter.mp h
  exact ⟨by simpa using hne, Text.not_mem_of_mem_pieces hp⟩

theorem segments_slash (rest : List Char) : segments ('/' :: rest) = segments rest := by
  rw [segments, Text.pieces, if_pos rfl, List.filter_cons_of_neg (by simp)]
  rfl

theorem segments_squeezed {path : List Char} (h : segments path ≠ []) :
    segments (squeezed path) = segments path := by
  rw [squeezed, segments, Text.pieces_unite h fun p hp => (mem_segments hp).2]
  refine List.filter_eq_self.mpr fun p hp => ?_
  simpa using (mem_segments hp).1

theorem squeezed_eq_nil_iff {path : List Char} : squeezed path = [] ↔ segments path = [] := by
  constructor
  · intro h
    by_contra hne
    rw [← segments_squeezed hne, h] at hne
    exact hne rfl
  · intro h
    rw [squeezed, h]
    rfl

theorem unite_char_cons (c : Char) (p : List Char) (ps : List (List Char)) :
    Text.unite '/' ((c :: p) :: ps) = c :: Text.unite '/' (p :: ps) := by
  cases ps with
  | nil => rfl
  | cons q qs => rw [Text.unite_cons_cons, Text.unite_cons_cons, List.cons_append]

/-- A part ends where a slash follows, which is kept when more parts do. -/
theorem squeezed_cons {c : Char} (hc : c ≠ '/') (rest : List Char) :
    squeezed (c :: rest) = c :: (if rest.head? = some '/' ∧ squeezed rest ≠ [] then
      '/' :: squeezed rest else squeezed rest) := by
  cases rest with
  | nil => simp [squeezed, segments, Text.pieces, Text.unite, hc]
  | cons d rest =>
    by_cases hd : d = '/'
    · subst hd
      have hsegments : segments (c :: '/' :: rest) = [c] :: segments rest := by
        simp [segments, Text.pieces, hc]
      rw [squeezed, hsegments, unite_char_cons]
      by_cases hnil : segments rest = []
      · rw [if_neg (by simp [squeezed_eq_nil_iff, segments_slash, hnil]), squeezed, segments_slash,
          hnil]
        rfl
      · rw [if_pos (by simp [squeezed_eq_nil_iff, segments_slash, hnil])]
        obtain ⟨p, ps, hcons⟩ := List.exists_cons_of_ne_nil hnil
        rw [squeezed, segments_slash, hcons]
        rfl
    · obtain ⟨p, ps, hpieces⟩ := List.exists_cons_of_ne_nil (Text.pieces_ne_nil '/' rest)
      have hrest : segments (d :: rest) = (d :: p) :: ps.filter (!·.isEmpty) := by
        simp [segments, Text.pieces, hd, hpieces]
      have hsegments : segments (c :: d :: rest) = (c :: d :: p) :: ps.filter (!·.isEmpty) := by
        simp [segments, Text.pieces, hc, hd, hpieces]
      rw [if_neg (by simp [hd]), squeezed, squeezed, hsegments, hrest, unite_char_cons]

theorem head?_squeezed {path : List Char} (h : path.head? ≠ some '/') :
    (squeezed path).head? = path.head? := by
  cases path with
  | nil => rfl
  | cons c rest => rw [squeezed_cons (by simpa using h), List.head?_cons, List.head?_cons]

/-- A path that does not begin with a slash has a part. -/
theorem segments_ne_nil {path : List Char} (hhead : path.head? ≠ some '/') (hne : path ≠ []) :
    segments path ≠ [] := by
  intro hnil
  have hsqueezed := head?_squeezed hhead
  rw [squeezed_eq_nil_iff.mpr hnil] at hsqueezed
  exact hne (List.head?_eq_none_iff.mp hsqueezed.symm)

theorem head?_squeezed_ne (path : List Char) : (squeezed path).head? ≠ some '/' := by
  induction path with
  | nil => simp [squeezed, segments, Text.pieces, Text.unite]
  | cons c rest ih =>
    by_cases hc : c = '/'
    · rw [hc, squeezed, segments_slash]
      exact ih
    · rw [squeezed_cons hc]
      simpa using hc

theorem hasScheme_cons {c : Char} {rest : List Char} :
    hasScheme (c :: rest) = true ↔ (c = ':' ∧ rest.head? = some '/') ∨ hasScheme rest = true := by
  cases rest with
  | nil => simp [hasScheme]
  | cons d rest =>
    by_cases h : c = ':' ∧ d = '/'
    · simp [h, hasScheme]
    · have hskip : hasScheme (c :: d :: rest) = hasScheme (d :: rest) := by
        rw [hasScheme]
        rintro r rfl ⟨⟩
        exact h ⟨rfl, rfl⟩
      rw [hskip]
      simp [h]

/-- Dropping slashes brings no slash next to a colon. -/
theorem hasScheme_of_squeezed {path : List Char} (h : hasScheme (squeezed path) = true) :
    hasScheme path = true := by
  induction path with
  | nil => exact h
  | cons c rest ih =>
    rw [hasScheme_cons]
    by_cases hc : c = '/'
    · rw [hc, squeezed, segments_slash] at h
      exact .inr (ih h)
    · rw [squeezed_cons hc, hasScheme_cons] at h
      split at h
      · rename_i hslash
        rcases h with ⟨hcolon, -⟩ | h
        · exact .inl ⟨hcolon, hslash.1⟩
        · rw [hasScheme_cons] at h
          exact .inr (ih (h.resolve_left fun h => absurd h.1 (by decide)))
      · rcases h with ⟨-, hhead⟩ | h
        · exact absurd hhead (head?_squeezed_ne rest)
        · exact .inr (ih h)

/-! ### The form -/

/-- When a path is given its form, and which one. -/
theorem normalize_eq_ok_iff {raw p : String} : normalize raw = .ok p ↔
    (unified raw).head? ≠ some '/' ∧ (unified raw).head? ≠ some '~' ∧
      hasScheme (unified raw) = false ∧ unified raw ≠ [] ∧
        (unified raw = ['.'] ∧ p = "." ∨ (segments (unified raw)).any isDotSegment = false ∧
          p = String.ofList (squeezed (unified raw))) := by
  unfold normalize
  by_cases hempty : unified raw = []
  · simp [hempty]
  by_cases hrelative : (unified raw).head? = some '/' ∨ (unified raw).head? = some '~' ∨
      hasScheme (unified raw) = true
  · rw [if_neg (by simpa using hempty), if_pos (by simpa [or_assoc] using hrelative)]
    constructor
    · intro h
      cases h
    · rintro ⟨hslash, htilde, hscheme, -⟩
      simp [hslash, htilde, hscheme] at hrelative
  · rw [if_neg (by simpa using hempty), if_neg (by simpa [or_assoc] using hrelative)]
    simp only [not_or, Bool.not_eq_true] at hrelative
    obtain ⟨hslash, htilde, hscheme⟩ := hrelative
    by_cases hdot : unified raw = ['.']
    · have hany : (segments (unified raw)).any isDotSegment = true := by
        rw [hdot]
        decide
      rw [if_pos hdot]
      constructor
      · intro h
        exact ⟨hslash, htilde, hscheme, hempty, .inl ⟨hdot, (Except.ok.inj h).symm⟩⟩
      · rintro ⟨-, -, -, -, ⟨-, rfl⟩ | ⟨hnone, -⟩⟩
        · rfl
        · rw [hany] at hnone
          cases hnone
    · rw [if_neg hdot]
      by_cases hany : (segments (unified raw)).any isDotSegment = true
      · simp [hdot, hany]
      · rw [if_neg hany]
        constructor
        · intro h
          exact ⟨hslash, htilde, hscheme, hempty,
            .inr ⟨Bool.eq_false_iff.mpr hany, (Except.ok.inj h).symm⟩⟩
        · rintro ⟨-, -, -, -, ⟨hdot', -⟩ | ⟨-, rfl⟩⟩
          · exact absurd hdot' hdot
          · rfl

variable {raw p : String}

theorem length_le_of_normalize (h : normalize raw = .ok p) :
    p.toList.length ≤ (unified raw).length := by
  obtain ⟨-, -, -, -, ⟨hdot, rfl⟩ | ⟨-, rfl⟩⟩ := normalize_eq_ok_iff.mp h
  · rw [hdot]
    decide
  · rw [String.toList_ofList]
    exact (squeezed_sublist _).length_le

theorem not_mem_of_normalize (h : normalize raw = .ok p) : '\\' ∉ p.toList := by
  obtain ⟨-, -, -, -, ⟨-, rfl⟩ | ⟨-, rfl⟩⟩ := normalize_eq_ok_iff.mp h
  · decide
  · rw [String.toList_ofList]
    exact fun hmem => not_mem_unified raw ((squeezed_sublist _).subset hmem)

theorem unified_eq_trimChars (h : normalize raw = .ok p) :
    unified p = Text.trimChars p.toList := by
  have hunified := unified_of_not_mem (not_mem_of_normalize h)
  rwa [String.ofList_toList] at hunified

/-- **A path in its form is given it again just when no blank is at an end of it.** -/
theorem normalize_again (h : normalize raw = .ok p) : normalize p = .ok p ↔ Text.trim p = p := by
  have hunified := unified_eq_trimChars h
  constructor
  · intro hagain
    exact Text.trim_eq_self_of_length_le (hunified ▸ length_le_of_normalize hagain)
  · intro htrim
    rw [Text.trim_eq_self_iff.mp htrim] at hunified
    obtain ⟨hslash, htilde, hscheme, hne, ⟨-, rfl⟩ | ⟨hany, rfl⟩⟩ := normalize_eq_ok_iff.mp h
    · rfl
    rw [String.toList_ofList] at hunified
    have hsegments := segments_ne_nil hslash hne
    rw [normalize_eq_ok_iff, hunified, head?_squeezed hslash, segments_squeezed hsegments]
    refine ⟨hslash, htilde, ?_, squeezed_eq_nil_iff.not.mpr hsegments, .inr ⟨hany, ?_⟩⟩
    · rw [← Bool.not_eq_true] at hscheme ⊢
      exact fun h => hscheme (hasScheme_of_squeezed h)
    · rw [squeezed.eq_1 (squeezed _), segments_squeezed hsegments, squeezed]

/-! ### What the form is like -/

/-- What a scheme is recognised by stands somewhere in the path. -/
theorem hasScheme_iff {path : List Char} : hasScheme path = true ↔ [':', '/'] <:+: path := by
  induction path with
  | nil => simp [hasScheme]
  | cons c rest ih =>
    rw [hasScheme_cons, ih, List.infix_cons_iff]
    refine or_congr_left ?_
    cases rest with
    | nil => simp
    | cons d rest => simp [eq_comm]

/-- A relative path with slashes: a lone dot, or parts of which none is empty or made of dots. -/
structure IsProper (p : String) : Prop where
  parts : p = "." ∨ ∃ parts : List (List Char), parts ≠ [] ∧ p.toList = ['/'].intercalate parts ∧
    ∀ part ∈ parts, part ≠ [] ∧ '/' ∉ part ∧ part ≠ ['.'] ∧ part ≠ ['.', '.']
  noBackslash : '\\' ∉ p.toList
  /-- It starts neither at the root nor at a home. -/
  relative : p.toList.head? ≠ some '/' ∧ p.toList.head? ≠ some '~'
  noScheme : ¬ [':', '/'] <:+: p.toList

theorem IsProper.ne_empty (h : IsProper p) : p ≠ "" := by
  rintro rfl
  rcases h.parts with hdot | ⟨parts, hne, hparts, hall⟩
  · exact absurd hdot (by decide)
  · obtain ⟨part, rest, rfl⟩ := List.exists_cons_of_ne_nil hne
    have hpart := (hall part List.mem_cons_self).1
    cases rest <;> simp_all [List.intercalate]

/-- **The form of a path is a proper path.** -/
theorem isProper_of_normalize (h : normalize raw = .ok p) : IsProper p := by
  have hbackslash := not_mem_of_normalize h
  obtain ⟨hslash, htilde, hscheme, hne, ⟨-, rfl⟩ | ⟨hany, rfl⟩⟩ := normalize_eq_ok_iff.mp h
  · exact ⟨.inl rfl, hbackslash, by decide, by decide⟩
  have hhead := head?_squeezed hslash
  rw [String.toList_ofList] at hbackslash
  refine ⟨.inr ⟨segments (unified raw), segments_ne_nil hslash hne, ?_, ?_⟩, ?_, ?_, ?_⟩
  · rw [String.toList_ofList, squeezed, Text.unite_eq_intercalate]
  · intro part hpart
    obtain ⟨hfilled, hslash⟩ := mem_segments hpart
    have hdots : isDotSegment part = false := by
      simpa using List.any_eq_false.mp hany part hpart
    simp only [isDotSegment, Bool.or_eq_false_iff, decide_eq_false_iff_not] at hdots
    exact ⟨hfilled, hslash, hdots.1, hdots.2⟩
  · rwa [String.toList_ofList]
  · rw [String.toList_ofList, hhead]
    exact ⟨hslash, htilde⟩
  · rw [String.toList_ofList, ← hasScheme_iff]
    intro hsqueezed
    rw [hasScheme_of_squeezed hsqueezed] at hscheme
    cases hscheme

end RelativePath

end FleetPlan
