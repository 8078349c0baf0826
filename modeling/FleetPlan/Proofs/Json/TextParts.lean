/-
When a writing of a tree is text.

Octets are text or not as a whole, but what stands in front of an ASCII octet is text by
itself: no character goes on across it.  Every token begins with such an octet, and so
does space.  So a writing is text just when its tokens are, whatever its layout, and
whether a tree can be kept as a payload does not depend on how it is written.
-/
import FleetPlan.Proofs.Json.Scanned

namespace FleetPlan

namespace Text

/-- The octets of some text. -/
def IsText (w : Octets) : Prop := ∃ s, octets s = w

theorem isText_nil : IsText [] := ⟨"", rfl⟩

theorem IsText.append {v w : Octets} (hv : IsText v) (hw : IsText w) : IsText (v ++ w) := by
  obtain ⟨s, rfl⟩ := hv
  obtain ⟨t, rfl⟩ := hw
  exact ⟨s ++ t, octets_append s t⟩

theorem isText_ascii {c : UInt8} (hc : c < 0x80) : IsText [c] := by
  have hlt : c.toNat < 128 := UInt8.lt_iff_toNat_lt.mp hc
  have hchar : (Char.ofNat c.toNat).toNat = c.toNat := by
    revert hlt
    generalize c.toNat = n
    revert n
    decide
  refine ⟨String.ofList [Char.ofNat c.toNat], ?_⟩
  rw [octets_ofList, List.flatMap_singleton, Json.utf8EncodeChar_ascii (by omega), hchar]
  simp

/-- Nothing, or what begins with an ASCII octet. -/
def StartsAscii (w : Octets) : Prop := ∀ c ∈ w.head?, c < 0x80

/-- No octet of a character outside ASCII is one of ASCII. -/
theorem isAscii_of_mem_utf8EncodeChar {d : Char} {c : UInt8} (hc : c < 0x80)
    (hmem : c ∈ String.utf8EncodeChar d) : String.utf8EncodeChar d = [c] := by
  by_cases hd : d.toNat ≤ 0x7f
  · rw [Json.utf8EncodeChar_ascii hd] at hmem ⊢
    rw [List.mem_singleton.mp hmem]
  · obtain ⟨n, hlow, hhigh, rfl⟩ := Json.exists_of_mem_utf8EncodeChar hd hmem
    have hlt := UInt8.lt_iff_toNat_lt.mp hc
    rw [UInt8.toNat_ofNat', Nat.mod_eq_of_lt hhigh] at hlt
    exact absurd hlt (Nat.not_lt.mpr hlow)

/-- **What stands in front of an ASCII octet is text by itself.** -/
theorem IsText.split {v w : Octets} (h : IsText (v ++ w)) (hw : StartsAscii w) :
    IsText v ∧ IsText w := by
  obtain ⟨s, hs⟩ := h
  rw [octets_eq] at hs
  generalize s.toList = cs at hs
  induction cs generalizing v with
  | nil =>
    obtain ⟨rfl, rfl⟩ := List.append_eq_nil_iff.mp hs.symm
    exact ⟨isText_nil, isText_nil⟩
  | cons d cs ih =>
    rw [List.flatMap_cons] at hs
    have hword (cs : List Char) : IsText (cs.flatMap String.utf8EncodeChar) :=
      ⟨String.ofList cs, octets_ofList cs⟩
    rcases List.append_eq_append_iff.mp hs with ⟨u, rfl, hrest⟩ | ⟨u, hd, rfl⟩
    · obtain ⟨hu, htext⟩ := ih hrest
      refine ⟨.append ?_ hu, htext⟩
      have hone := hword [d]
      rwa [List.flatMap_singleton] at hone
    · -- The character reaches into what begins with ASCII only if all of it stands there.
      cases u with
      | nil =>
        rw [List.append_nil] at hd
        have hone := hword [d]
        rw [List.flatMap_singleton, hd] at hone
        exact ⟨hone, hword cs⟩
      | cons c u =>
        have hc : c < 0x80 := hw c rfl
        have hmem : c ∈ String.utf8EncodeChar d := by
          rw [hd]
          exact List.mem_append_right _ List.mem_cons_self
        have hone := isAscii_of_mem_utf8EncodeChar hc hmem
        rw [hone] at hd
        cases v with
        | nil =>
          have htail := hword (d :: cs)
          rw [List.flatMap_cons, hone, hd] at htail
          exact ⟨isText_nil, htail⟩
        | cons b v => exact absurd (List.cons.inj hd).2.symm (by simp)

theorem isText_append_iff {v w : Octets} (hw : StartsAscii w) :
    IsText (v ++ w) ↔ IsText v ∧ IsText w :=
  ⟨fun h => h.split hw, fun h => h.1.append h.2⟩

end Text

namespace Json

open Text

/-! ### Tokens -/

theorem isAscii_of_isSpace {c : UInt8} (h : Ascii.isSpace c = true) : c < 0x80 := by
  simp only [Ascii.isSpace, Bool.or_eq_true, beq_iff_eq] at h
  rcases h with ((rfl | rfl) | rfl) | rfl <;> decide

theorem isText_of_blank {ws : Octets} (h : Blank ws) : IsText ws := by
  induction ws with
  | nil => exact isText_nil
  | cons c ws ih =>
    have hc := isText_ascii (isAscii_of_isSpace (h c List.mem_cons_self))
    exact hc.append (ih fun d hd => h d (List.mem_cons_of_mem _ hd))

/-- A token begins with an octet of ASCII. -/
def BeginsAscii (t : Octets) : Prop := ∃ c w, t = c :: w ∧ c < 0x80

theorem ScalarToken.beginsAscii (t : ScalarToken) : BeginsAscii t.octets := by
  obtain ⟨c, w, hw, -⟩ := t.exists_cons
  have hscanned := t.scanned
  rw [hw, Scan.taken?_skipScalar_cons] at hscanned
  refine ⟨c, w, hw, ?_⟩
  split at hscanned
  · rename_i hc
    rw [hc]
    decide
  · split at hscanned
    · rename_i hc
      rw [hc]
      decide
    · split at hscanned
      · rename_i hc
        rw [hc]
        decide
      · split at hscanned
        · rename_i hc
          rw [hc]
          decide
        · split at hscanned
          · rename_i hc
            simp only [Ascii.isDigit, Bool.or_eq_true, Bool.and_eq_true, decide_eq_true_eq] at hc
            rcases hc with rfl | ⟨-, hc⟩
            · decide
            · exact Nat.lt_of_le_of_lt (UInt8.le_iff_toNat_le.mp hc) (by decide)
          · cases hscanned

theorem Tree.beginsAscii (x : Tree) : ∀ t ∈ x.tokens, BeginsAscii t :=
  OfTokens.tokens ⟨ScalarToken.beginsAscii, fun _ => ⟨_, _, rfl, by decide⟩,
    fun c hc => ⟨c, [], rfl, of_decide_eq_true (of_mem_marks (· < 0x80) (by decide) hc)⟩⟩ x

/-- What begins with space or a token begins with ASCII. -/
theorem startsAscii_of_skipSpace {s : Octets} (h : StartsAscii (skipSpace s)) : StartsAscii s := by
  obtain ⟨ws, hws, hs⟩ := exists_blank s
  intro c hc
  rw [hs] at hc
  cases ws with
  | nil => exact h c hc
  | cons d ws =>
    obtain rfl : d = c := by simpa using hc
    exact isAscii_of_isSpace (hws d List.mem_cons_self)

theorem startsAscii_of_spaced {ts : List Octets} (hts : ∀ t ∈ ts, BeginsAscii t) {s : Octets}
    (h : Spaced ts s []) : StartsAscii s := by
  cases ts with
  | nil =>
    obtain rfl : s = [] := h
    intro c hc
    cases hc
  | cons t ts =>
    obtain ⟨s', hs, -⟩ := h
    obtain ⟨c, w, rfl, hc⟩ := hts t List.mem_cons_self
    refine startsAscii_of_skipSpace fun d hd => ?_
    rw [hs] at hd
    obtain rfl : c = d := by simpa using hd
    exact hc

/-- **Tokens with space between them are text just when each of them is.** -/
theorem isText_of_spaced_iff {ts : List Octets} (hts : ∀ t ∈ ts, BeginsAscii t) {s : Octets}
    (h : Spaced ts s []) : IsText s ↔ ∀ t ∈ ts, IsText t := by
  induction ts generalizing s with
  | nil =>
    obtain rfl : s = [] := h
    simp [isText_nil]
  | cons t ts ih =>
    obtain ⟨s', hs, h⟩ := h
    have hrest := fun t ht => hts t (List.mem_cons_of_mem _ ht)
    obtain ⟨ws, hws, hsplit⟩ := exists_blank s
    obtain ⟨c, w, hw, hc⟩ := hts t List.mem_cons_self
    have hstart : StartsAscii (t ++ s') := by
      intro d hd
      rw [hw] at hd
      obtain rfl : c = d := by simpa using hd
      exact hc
    rw [hsplit, hs, isText_append_iff hstart, isText_append_iff (startsAscii_of_spaced hrest h),
      ih hrest h, List.forall_mem_cons]
    exact and_iff_right (isText_of_blank hws)

/-! ### Payloads -/

/-- The tree can be written as text. -/
def Tree.IsText (x : Tree) : Prop := ∀ t ∈ x.tokens, Text.IsText t

/-- **A tree is kept as a payload just when it can be written as text.** -/
theorem exists_payload_iff {x : Tree} {s r : Octets} (hx : Spaced x.tokens s r)
    (hr : Delimited r) : (∃ p, taken? (readPayload s) = some (p, r)) ↔ x.IsText := by
  obtain ⟨w, hw, htokens⟩ := exists_of_spaced x.solid_tokens (x.spaced_skipSpace hx)
  have hskip : taken? (skipValue (skipSpace s)) = some ((), r) := by
    have hvalue := Tree.value?_of_spaced x [] (x.spaced_skipSpace hx) hr
    rwa [Scan.after?_nil] at hvalue
  rw [Tree.IsText, ← isText_of_spaced_iff x.beginsAscii htokens]
  constructor
  · rintro ⟨p, hp⟩
    obtain ⟨hs, -⟩ := taken?_readPayload_iff.mp hp
    exact ⟨p.text, List.append_cancel_right (hs.symm.trans hw)⟩
  · rintro ⟨text, rfl⟩
    exact ⟨⟨text⟩, taken?_readPayload_iff.mpr ⟨hw, hskip⟩⟩

end Json

end FleetPlan
