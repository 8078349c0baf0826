/-
The tree of a document.

A `Tree` is a document without its layout: scalars and names are kept as they are written,
and of the rest only what is in what.  `Tree.tokens` are its tokens in their order, and a
text is one of the ways to write the tree when it holds these tokens with space anywhere
between them.  Scalars and names are any that the scanner passes over: a scalar may be a
numeral too large for a double, and a name may hold half a character.
-/
import FleetPlan.Proofs.Json.Scan
import FleetPlan.Proofs.Json.Spelling

namespace FleetPlan.Json

/-! ### Tokens -/

/-- A scalar as it is written: a word, a numeral of any size or a literal. -/
structure ScalarToken where
  octets : Octets
  scanned : taken? (Scan.skipScalar octets) = some ((), [])

/-- A name as it is written, but for its opening quote. -/
structure NameToken where
  tail : Octets
  scanned : taken? (skipText tail) = some ((), [])

def NameToken.octets (n : NameToken) : Octets := Ascii.quote :: n.tail

/-- The input begins with these tokens, each with any space in front, and goes on with the rest. -/
def Spaced : List Octets → Octets → Octets → Prop
  | [], s, r => s = r
  | t :: ts, s, r => ∃ s', skipSpace s = t ++ s' ∧ Spaced ts s' r

inductive Tree where
  | scalar (token : ScalarToken)
  | list (items : List Tree)
  | object (members : List (NameToken × Tree))

namespace Tree

/-- What stands in front of an item or a member. -/
def separators (first : Bool) : List Octets := if first then [] else [[Ascii.comma]]

mutual

def tokens : Tree → List Octets
  | scalar token => [token.octets]
  | list items => [Ascii.openBracket] :: itemTokens true items
  | object members => [Ascii.openBrace] :: memberTokens true members

/-- The items up to the closing bracket. -/
def itemTokens (first : Bool) : List Tree → List Octets
  | [] => [[Ascii.closeBracket]]
  | x :: rest => separators first ++ (tokens x ++ itemTokens false rest)

/-- The members up to the closing brace. -/
def memberTokens (first : Bool) : List (NameToken × Tree) → List Octets
  | [] => [[Ascii.closeBrace]]
  | (name, x) :: rest =>
    separators first ++ (name.octets :: [Ascii.colon] :: (tokens x ++ memberTokens false rest))

end

/-- The text is the tree, in some layout. -/
def Writes (x : Tree) (s : Octets) : Prop := ∃ r, Spaced x.tokens s r ∧ skipSpace r = []

end Tree

/-! ### Texts of tokens -/

section

variable {s s' m r : Octets} {ts us : List Octets}

theorem skipSpace_skipSpace (s : Octets) : skipSpace (skipSpace s) = skipSpace s := by
  cases h : skipSpace s with
  | nil => rfl
  | cons c t => exact skipSpace_cons (not_isSpace_of_skipSpace h) t

theorem spaced_append_iff : Spaced (ts ++ us) s r ↔ ∃ m, Spaced ts s m ∧ Spaced us m r := by
  induction ts generalizing s with
  | nil => simp [Spaced]
  | cons t ts ih =>
    rw [List.cons_append, Spaced]
    constructor
    · rintro ⟨s', hs', h⟩
      obtain ⟨m, hts, hus⟩ := ih.mp h
      exact ⟨m, ⟨s', hs', hts⟩, hus⟩
    · rintro ⟨m, ⟨s', hs', hts⟩, hus⟩
      exact ⟨s', hs', ih.mpr ⟨m, hts, hus⟩⟩

theorem spaced_separators_iff {first : Bool} :
    Spaced (Tree.separators first ++ ts) s r ↔
      if first then Spaced ts s r
      else ∃ s', skipSpace s = Ascii.comma :: s' ∧ Spaced ts s' r := by
  cases first with
  | true => rfl
  | false => rfl

/-- Tokens begin with something else than space. -/
def Solid (t : Octets) : Prop := ∃ c w, t = c :: w ∧ Ascii.isSpace c = false

/-- Tokens can be set apart from what stands behind them. -/
theorem exists_of_spaced (hsolid : ∀ t ∈ ts, Solid t) (h : Spaced ts s r) :
    ∃ w, s = w ++ r ∧ Spaced ts w [] := by
  induction ts generalizing s with
  | nil => exact ⟨[], h, rfl⟩
  | cons t ts ih =>
    obtain ⟨s', hs', h⟩ := h
    obtain ⟨w, rfl, hw⟩ := ih (fun t ht => hsolid t (List.mem_cons_of_mem _ ht)) h
    obtain ⟨ws, hws, hs⟩ := exists_blank s
    obtain ⟨c, v, rfl, hc⟩ := hsolid t List.mem_cons_self
    refine ⟨ws ++ (c :: v ++ w), ?_, w, skipSpace_blank_cons hws hc _, hw⟩
    rw [hs, hs', List.append_assoc, List.append_assoc]

/-- What closes a container or parts its items also ends a value. -/
theorem delimited_of_skipSpace {c : UInt8} {t : Octets} (h : skipSpace s = c :: t)
    (hc : c = Ascii.comma ∨ c = Ascii.closeBracket ∨ c = Ascii.closeBrace) : Delimited s := by
  obtain ⟨ws, hws, hs⟩ := exists_blank s
  intro d hd
  rw [hs, h] at hd
  cases ws with
  | nil => exact .inr (Option.some.inj hd ▸ hc)
  | cons b ws => exact .inl (Option.some.inj hd ▸ hws b List.mem_cons_self)

theorem delimited_of_blank (h : skipSpace s = []) : Delimited s := by
  obtain ⟨ws, hws, hs⟩ := exists_blank s
  rw [h, List.append_nil] at hs
  intro c hc
  exact .inl (hws c (hs ▸ List.mem_of_mem_head? hc))

theorem delimited_of_items {xs : List Tree} (h : Spaced (Tree.itemTokens false xs) s r) :
    Delimited s := by
  cases xs with
  | nil =>
    rw [Tree.itemTokens] at h
    obtain ⟨s', hs', -⟩ := h
    exact delimited_of_skipSpace hs' (.inr (.inl rfl))
  | cons x xs =>
    rw [Tree.itemTokens] at h
    obtain ⟨s', hs', -⟩ := h
    exact delimited_of_skipSpace hs' (.inl rfl)

theorem delimited_of_members {ms : List (NameToken × Tree)}
    (h : Spaced (Tree.memberTokens false ms) s r) : Delimited s := by
  cases ms with
  | nil =>
    rw [Tree.memberTokens] at h
    obtain ⟨s', hs', -⟩ := h
    exact delimited_of_skipSpace hs' (.inr (.inr rfl))
  | cons m ms =>
    rw [Tree.memberTokens] at h
    obtain ⟨s', hs', -⟩ := h
    exact delimited_of_skipSpace hs' (.inl rfl)

/-! Whether a text holds tokens can be computed. -/

/-- What is left of the input behind the tokens. -/
def behind? : List Octets → Octets → Option Octets
  | [], s => some s
  | t :: ts, s =>
    if t <+: skipSpace s then behind? ts ((skipSpace s).drop t.length) else none

theorem spaced_iff_behind? : Spaced ts s r ↔ behind? ts s = some r := by
  induction ts generalizing s with
  | nil => simp [Spaced, behind?]
  | cons t ts ih =>
    rw [Spaced, behind?]
    constructor
    · rintro ⟨s', hs', h⟩
      rw [if_pos ⟨s', hs'.symm⟩, hs', List.drop_left]
      exact ih.mp h
    · intro h
      split at h
      · rename_i hstart
        obtain ⟨s', hs'⟩ := hstart
        rw [← hs', List.drop_left] at h
        exact ⟨s', hs'.symm, ih.mpr h⟩
      · cases h

instance (x : Tree) (s : Octets) : Decidable (x.Writes s) :=
  decidable_of_iff (∃ r ∈ behind? x.tokens s, skipSpace r = [])
    (exists_congr fun _ => and_congr_left' spaced_iff_behind?.symm)

end

/-! ### How tokens begin -/

/-- A scalar begins with an octet of its own. -/
theorem ScalarToken.exists_cons (t : ScalarToken) : ∃ c w, t.octets = c :: w ∧
    Ascii.isSpace c = false ∧ Scan.Frame.opened? c = none ∧ c ≠ Ascii.closeBracket := by
  have hscanned := t.scanned
  cases htoken : t.octets with
  | nil =>
    rw [htoken] at hscanned
    cases hscanned
  | cons c w =>
    rw [htoken, Scan.taken?_skipScalar_cons] at hscanned
    have hnot {d : UInt8} (hd : (if d = Ascii.quote then taken? (skipText w)
        else if d = Ascii.lowerN then taken? (dropWord nullTail w)
        else if d = Ascii.lowerT then taken? (dropWord trueTail w)
        else if d = Ascii.lowerF then taken? (dropWord falseTail w)
        else if d = Ascii.minus || Ascii.isDigit d then
          (taken? (Numeral.read .badNumber (d :: w))).map fun e => ((), e.2)
        else none) = none) : c ≠ d := by
      rintro rfl
      rw [hd] at hscanned
      cases hscanned
    refine ⟨c, w, rfl, ?_, ?_, hnot rfl⟩
    · simp only [Ascii.isSpace, Bool.or_eq_false_iff, beq_eq_false_iff_ne, ne_eq]
      exact ⟨⟨⟨hnot rfl, hnot rfl⟩, hnot rfl⟩, hnot rfl⟩
    · unfold Scan.Frame.opened?
      rw [if_neg (hnot rfl), if_neg (hnot rfl)]

namespace Tree

variable {s r : Octets}

/-- The brackets, braces and separators. -/
def marks : List UInt8 :=
  [Ascii.openBracket, Ascii.closeBracket, Ascii.openBrace, Ascii.closeBrace, Ascii.comma, Ascii.colon]

/-- What a test says of each mark. -/
theorem of_mem_marks (test : UInt8 → Bool) (h : marks.all test = true) {c : UInt8}
    (hc : c ∈ marks) : test c = true := List.all_eq_true.mp h c hc

/-- What is true of scalars, names and marks. -/
structure OfTokens (P : Octets → Prop) : Prop where
  scalar : ∀ token : ScalarToken, P token.octets
  name : ∀ name : NameToken, P name.octets
  mark : ∀ c ∈ marks, P [c]

namespace OfTokens

variable {P : Octets → Prop}

theorem separators (h : OfTokens P) {first : Bool} {t : Octets}
    (ht : t ∈ Tree.separators first) : P t := by
  cases first with
  | true => cases ht
  | false =>
    rw [List.mem_singleton.mp ht]
    exact h.mark _ (by decide)

mutual

/-- It is true of all tokens. -/
theorem tokens (h : OfTokens P) : (x : Tree) → ∀ t ∈ x.tokens, P t
  | .scalar token, t, ht => by
    rw [Tree.tokens, List.mem_singleton] at ht
    exact ht ▸ h.scalar token
  | .list items, t, ht => by
    rw [Tree.tokens] at ht
    rcases List.mem_cons.mp ht with rfl | ht
    · exact h.mark _ (by decide)
    · exact itemTokens h true items t ht
  | .object members, t, ht => by
    rw [Tree.tokens] at ht
    rcases List.mem_cons.mp ht with rfl | ht
    · exact h.mark _ (by decide)
    · exact memberTokens h true members t ht

theorem itemTokens (h : OfTokens P) (first : Bool) : (xs : List Tree) →
    ∀ t ∈ Tree.itemTokens first xs, P t
  | [], t, ht => by
    rw [Tree.itemTokens, List.mem_singleton] at ht
    exact ht ▸ h.mark _ (by decide)
  | x :: xs, t, ht => by
    rw [Tree.itemTokens, List.mem_append, List.mem_append] at ht
    rcases ht with ht | ht | ht
    · exact h.separators ht
    · exact tokens h x t ht
    · exact itemTokens h false xs t ht

theorem memberTokens (h : OfTokens P) (first : Bool) : (ms : List (NameToken × Tree)) →
    ∀ t ∈ Tree.memberTokens first ms, P t
  | [], t, ht => by
    rw [Tree.memberTokens, List.mem_singleton] at ht
    exact ht ▸ h.mark _ (by decide)
  | (name, x) :: ms, t, ht => by
    rw [Tree.memberTokens, List.mem_append, List.mem_cons, List.mem_cons, List.mem_append] at ht
    rcases ht with ht | rfl | rfl | ht | ht
    · exact h.separators ht
    · exact h.name name
    · exact h.mark _ (by decide)
    · exact tokens h x t ht
    · exact memberTokens h false ms t ht

end

end OfTokens

theorem solid_tokens (x : Tree) : ∀ t ∈ x.tokens, Solid t := by
  refine OfTokens.tokens ⟨fun token => ?_, fun name => ⟨_, _, rfl, by decide⟩, fun c hc => ?_⟩ x
  · obtain ⟨c, w, hw, hspace, -⟩ := token.exists_cons
    exact ⟨c, w, hw, hspace⟩
  · have hspace := of_mem_marks (fun c => !Ascii.isSpace c) (by decide) hc
    exact ⟨c, [], rfl, by simpa using hspace⟩

/-- Space in front of a tree does not count. -/
theorem spaced_skipSpace (x : Tree) (h : Spaced x.tokens s r) : Spaced x.tokens (skipSpace s) r := by
  cases x <;>
    (rw [tokens] at h ⊢
     obtain ⟨s', hs', h⟩ := h
     exact ⟨s', (skipSpace_skipSpace s).trans hs', h⟩)

theorem exists_cons_of_spaced {x : Tree} (h : Spaced x.tokens s r) :
    ∃ c t, skipSpace s = c :: t ∧ c ≠ Ascii.closeBracket := by
  cases x with
  | scalar token =>
    rw [tokens] at h
    obtain ⟨s', hs', -⟩ := h
    obtain ⟨c, w, hw, -, -, hc⟩ := token.exists_cons
    exact ⟨c, w ++ s', by rw [hs', hw, List.cons_append], hc⟩
  | list items =>
    rw [tokens] at h
    obtain ⟨s', hs', -⟩ := h
    exact ⟨_, s', hs', by decide⟩
  | object members =>
    rw [tokens] at h
    obtain ⟨s', hs', -⟩ := h
    exact ⟨_, s', hs', by decide⟩

end Tree

end FleetPlan.Json
