/-
Which paths are accepted, and as what.

A path is looked at when its backslashes have become slashes and the blanks at its ends are
gone, and before any of its slashes is dropped.  `Holds` says what each fault claims of it
then.  A path is refused just when there is something to claim, and what is accepted has the
filled parts of that path as its parts, in their order and with nothing between them but
single slashes.

The parts are those of `List.splitOn`, which knows nothing of paths.
-/
import FleetPlan.Proofs.RelativePath

namespace FleetPlan

theorem Text.pieces_eq_splitOn (separator : Char) (cs : List Char) :
    pieces separator cs = cs.splitOn separator := by
  induction cs with
  | nil => rfl
  | cons c rest ih =>
    rw [pieces, List.splitOn_cons_eq_if_modifyHead, ← ih]
    by_cases hc : c = separator
    · simp [hc]
    · obtain ⟨p, ps, hpieces⟩ := List.exists_cons_of_ne_nil (pieces_ne_nil separator rest)
      simp [hc, hpieces]

/-- What a fault says of the path, with slashes only and without blanks at the ends. -/
inductive PathFault.Holds (path : List Char) : PathFault → Prop
  | empty (h : path = []) : Holds path .empty
  | fromRoot (h : path.head? = some '/') : Holds path (.notRelative (String.ofList path))
  | fromHome (h : path.head? = some '~') : Holds path (.notRelative (String.ofList path))
  | scheme (h : [':', '/'] <:+: path) : Holds path (.notRelative (String.ofList path))
  /-- A part is made of dots, and the path is not the directory itself. -/
  | dots (hne : path ≠ ['.']) (h : ['.'] ∈ path.splitOn '/' ∨ ['.', '.'] ∈ path.splitOn '/') :
    Holds path (.dotSegment (String.ofList path))

namespace RelativePath

variable {raw p : String} {path : List Char} {fault : PathFault}

theorem segments_eq_filter (path : List Char) :
    segments path = (path.splitOn '/').filter (!·.isEmpty) := by
  rw [segments, Text.pieces_eq_splitOn]

theorem any_isDotSegment_iff : (segments path).any isDotSegment = true ↔
    ['.'] ∈ path.splitOn '/' ∨ ['.', '.'] ∈ path.splitOn '/' := by
  simp only [List.any_eq_true, segments_eq_filter, List.mem_filter, isDotSegment,
    Bool.or_eq_true, decide_eq_true_eq]
  constructor
  · rintro ⟨part, ⟨hmem, -⟩, rfl | rfl⟩
    · exact .inl hmem
    · exact .inr hmem
  · rintro (hmem | hmem)
    · exact ⟨_, ⟨hmem, rfl⟩, .inl rfl⟩
    · exact ⟨_, ⟨hmem, rfl⟩, .inr rfl⟩

/-- A refusal is right in what it says. -/
theorem holds_of_normalize (h : normalize raw = .error fault) : fault.Holds (unified raw) := by
  unfold normalize at h
  dsimp only at h
  split at h
  · rename_i hempty
    cases h
    exact .empty (by simpa using hempty)
  split at h
  · rename_i hrelative
    cases h
    simp only [Bool.or_eq_true, decide_eq_true_eq] at hrelative
    obtain (hroot | hhome) | hscheme := hrelative
    · exact .fromRoot hroot
    · exact .fromHome hhome
    · exact .scheme (hasScheme_iff.mp hscheme)
  split at h
  · cases h
  rename_i hne
  split at h
  · rename_i hdots
    cases h
    exact .dots hne (any_isDotSegment_iff.mp hdots)
  · cases h

/-- Of a path that is accepted no fault is true. -/
theorem not_holds_of_normalize (h : normalize raw = .ok p) : ¬fault.Holds (unified raw) := by
  obtain ⟨hslash, htilde, hscheme, hne, hform⟩ := normalize_eq_ok_iff.mp h
  rintro (hempty | hroot | hhome | hinfix | ⟨hdot, hparts⟩)
  · exact hne hempty
  · exact hslash hroot
  · exact htilde hhome
  · rw [hasScheme_iff.mpr hinfix] at hscheme
    cases hscheme
  · obtain ⟨hlone, -⟩ | ⟨hany, -⟩ := hform
    · exact hdot hlone
    · rw [any_isDotSegment_iff.mpr hparts] at hany
      cases hany

/-- What is accepted has the filled parts of the path as its parts. -/
theorem splitOn_of_normalize (h : normalize raw = .ok p) :
    p.toList.splitOn '/' = ((unified raw).splitOn '/').filter (!·.isEmpty) := by
  obtain ⟨hslash, -, -, hne, ⟨hdot, rfl⟩ | ⟨-, rfl⟩⟩ := normalize_eq_ok_iff.mp h
  · rw [hdot]
    decide
  · rw [String.toList_ofList, ← segments_eq_filter, ← Text.pieces_eq_splitOn, squeezed]
    exact Text.pieces_unite (segments_ne_nil hslash hne) fun part hpart => (mem_segments hpart).2

/--
**Which paths are accepted, and as what.**  A path that is accepted is given a proper form: a
lone dot, or parts joined by single slashes of which none is empty or made of dots, with no
backslash, no slash or tilde in front and no scheme.  Its parts are all filled parts of the path
that was given, in their order.  A path is refused just when it is empty, begins with a slash or
a tilde, has a scheme, or has a part made of dots and is not the directory itself; and then the
fault says which of these it is.
-/
theorem normalize_proper_or_refused (raw : String) :
    (∀ p, normalize raw = .ok p →
      IsProper p ∧ p.toList.splitOn '/' = ((unified raw).splitOn '/').filter (!·.isEmpty)) ∧
    ((∃ fault, normalize raw = .error fault) ↔ ∃ fault, PathFault.Holds (unified raw) fault) ∧
    ∀ fault, normalize raw = .error fault → fault.Holds (unified raw) := by
  refine ⟨fun p h => ⟨isProper_of_normalize h, splitOn_of_normalize h⟩, ⟨?_, ?_⟩,
    fun fault => holds_of_normalize⟩
  · rintro ⟨fault, h⟩
    exact ⟨fault, holds_of_normalize h⟩
  · rintro ⟨fault, hholds⟩
    cases h : normalize raw with
    | error found => exact ⟨found, rfl⟩
    | ok p => exact absurd hholds (not_holds_of_normalize h)

/-- Separators of both kinds, some of them repeated, and blanks of several kinds at the ends. -/
def mixed : String := "\u2003deploy\\\\web//base.yml/\u00a0\t"

/-- Its parts are found, and joined by single slashes. -/
theorem normalize_proper_or_refused_of_mixed :
    normalize mixed = .ok "deploy/web/base.yml" ∧ IsProper "deploy/web/base.yml" ∧
      "deploy/web/base.yml".toList.splitOn '/' =
        ["deploy".toList, "web".toList, "base.yml".toList] := by
  have hok : normalize mixed = .ok "deploy/web/base.yml" := by decide +kernel
  obtain ⟨hproper, hparts⟩ := (normalize_proper_or_refused mixed).1 _ hok
  exact ⟨hok, hproper, hparts.trans (by decide +kernel)⟩

end RelativePath

end FleetPlan
