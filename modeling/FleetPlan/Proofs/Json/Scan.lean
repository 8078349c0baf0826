/-
A value that is kept as written can be moved.

The scanner stops where the value ends and looks at most at the octet behind, so the
same octets are scanned alike wherever something that ends a value stands behind
them.  This is what makes a payload fit for being written into another document:
`Payload.WellFormed` payloads, which all that are read are, are read back from there.
-/
import FleetPlan.Json.Scan
import FleetPlan.Proofs.Json.Number

namespace FleetPlan.Json

theorem withNext_nil {α : Type} {s : Octets} {atEnd : Fault}
    {next : (c : UInt8) → (r : Octets) → r.length < s.length → Except Fault α}
    (h : skipSpace s = []) : withNext s atEnd next = .error atEnd := by
  unfold withNext
  split
  · rfl
  · rename_i hcons
    simp [h] at hcons

theorem local_dropWord (word : Octets) : Local fun s => taken? (dropWord word s) := by
  intro s u r h
  obtain rfl := taken?_dropWord_iff.mp h
  exact ⟨word, rfl, fun r' _ => taken?_dropWord word r'⟩

namespace Scan

/-! ### Scalars -/

theorem taken?_skipScalar_cons (c : UInt8) (r : Octets) :
    taken? (skipScalar (c :: r)) =
      if c = Ascii.quote then taken? (skipText r)
      else if c = Ascii.lowerN then taken? (dropWord nullTail r)
      else if c = Ascii.lowerT then taken? (dropWord trueTail r)
      else if c = Ascii.lowerF then taken? (dropWord falseTail r)
      else if c = Ascii.minus || Ascii.isDigit c then
        (taken? (Numeral.read .badNumber (c :: r))).map fun e => ((), e.2)
      else none := by
  rw [skipScalar]
  split
  · exact taken?_map_grow
  · repeat' split
    all_goals first | rfl | exact taken?_map_map

theorem local_skipScalar : Local fun s => taken? (skipScalar s) := by
  intro s
  cases s with
  | nil => simp [LocalAt, skipScalar]
  | cons c r =>
    have hread := taken?_skipScalar_cons c
    by_cases hquote : c = Ascii.quote
    · exact .cons (fun t => (hread t).trans (if_pos hquote)) (local_skipText r)
    simp only [if_neg hquote] at hread
    by_cases hnull : c = Ascii.lowerN
    · exact .cons (fun t => (hread t).trans (if_pos hnull)) (local_dropWord _ r)
    simp only [if_neg hnull] at hread
    by_cases htrue : c = Ascii.lowerT
    · exact .cons (fun t => (hread t).trans (if_pos htrue)) (local_dropWord _ r)
    simp only [if_neg htrue] at hread
    by_cases hfalse : c = Ascii.lowerF
    · exact .cons (fun t => (hread t).trans (if_pos hfalse)) (local_dropWord _ r)
    simp only [if_neg hfalse] at hread
    by_cases hnumber : (c = Ascii.minus || Ascii.isDigit c) = true
    · -- The numeral is read from this octet on, and takes it.
      have hlocal : LocalAt (fun t => (taken? (Numeral.read .badNumber t)).map fun e => ((), e.2))
          (c :: r) := (Numeral.local_read _).map fun _ => ()
      refine .cons (fun t => (hread t).trans (if_pos hnumber)) (hlocal.tail fun u r' h => ?_)
      exact (taken?_eq_some_iff.mp ((hread r).trans ((if_pos hnumber).trans h))).1
    · exact .cons (fun t => (hread t).trans (if_neg hnumber)) .fail

/-! ### Items -/

/-- The colon behind a name. -/
def colon? (s : Octets) : Option (Unit × Octets) :=
  match skipSpace s with
  | [] => none
  | c :: r => if c = Ascii.colon then some ((), r) else none

/-- What reads from the first octet behind the space on is local if it is from there on. -/
theorem localAt_skipSpace {α : Type} {f : Octets → Option (α × Octets)}
    {g : UInt8 → Octets → Option (α × Octets)} {s : Octets}
    (hf : ∀ t, f t = match skipSpace t with
      | [] => none
      | c :: r => g c r)
    (hg : ∀ c r, skipSpace s = c :: r → LocalAt (g c) r) : LocalAt f s := by
  cases hs : skipSpace s with
  | nil =>
    intro a r h
    rw [hf, hs] at h
    exact absurd h (by simp)
  | cons c r =>
    refine .blank (fun t t' ht => ?_) hs (hg c r hs)
    rw [hf, ht]

theorem local_colon? : Local colon? := fun _ =>
  localAt_skipSpace (fun _ => rfl) fun _ _ _ => .ite (fun _ => .pure ()) fun _ => .fail

theorem taken?_beginItem_object (s : Octets) :
    taken? (beginItem .object s) = match skipSpace s with
      | [] => none
      | c :: r =>
        if c = Ascii.quote then (taken? (skipText r)).bind fun e => colon? e.2 else none := by
  unfold beginItem
  dsimp only
  cases hs : skipSpace s with
  | nil => rw [withNext_nil hs]; rfl
  | cons c r =>
    rw [withNext_eq hs]
    dsimp only
    by_cases hc : c = Ascii.quote
    · rw [if_neg (not_not_intro hc), if_pos hc]
      cases skipText r with
      | error _ => rfl
      | ok p =>
        dsimp only [bind, Except.bind, taken?_ok, Option.bind_some, colon?]
        cases hp : skipSpace p.rest with
        | nil => rw [withNext_nil hp]; rfl
        | cons d r' =>
          rw [withNext_eq hp]
          by_cases hd : d = Ascii.colon <;> simp [hd]
    · rw [if_pos hc, if_neg hc]
      rfl

theorem local_beginItem (frame : Frame) : Local fun s => taken? (beginItem frame s) := by
  intro s
  cases frame with
  | list => exact .pure ()
  | object =>
    refine localAt_skipSpace taken?_beginItem_object fun c r _ => .ite (fun _ => ?_) fun _ => .fail
    exact (local_skipText r).bind (g := fun _ t => colon? t) fun _ r' _ => local_colon? r'

/-! ### The scan -/

/-- Scans of what is shorter than this do not depend on the length at which they began. -/
def Boundless (n : Nat) : Prop :=
  ∀ s : Octets, s.length < n → ∀ (stack : List Frame) (b b' : Nat),
    (∀ hs hs', taken? (skipValue b stack s hs) = taken? (skipValue b' stack s hs')) ∧
      ∀ hs hs', taken? (skipAfter b stack s hs) = taken? (skipAfter b' stack s hs')

theorem Boundless.taken?_skipValue {s : Octets} (h : Boundless s.length) (stack : List Frame)
    {b b' : Nat} (hs : s.length ≤ b) (hs' : s.length ≤ b') :
    taken? (skipValue b stack s hs) = taken? (skipValue b' stack s hs') := by
  rw [skipValue, skipValue]
  cases hskip : skipSpace s with
  | nil => rw [withNext_nil hskip, withNext_nil hskip]; rfl
  | cons c r =>
    have hr := length_lt_of_skipSpace hskip
    rw [withNext_eq hskip, withNext_eq hskip]
    cases Frame.opened? c with
    | none =>
      dsimp only
      cases skipScalar (c :: r) with
      | error _ => rfl
      | ok p =>
        have hp : p.rest.length < r.length + 1 := p.rest_lt
        exact (h p.rest (by omega) stack b b').2 _ _
    | some frame =>
      dsimp only
      cases hnext : skipSpace r with
      | nil => rw [withNext_nil hnext, withNext_nil hnext]; rfl
      | cons d r' =>
        have hr' := length_lt_of_skipSpace hnext
        rw [withNext_eq hnext, withNext_eq hnext]
        by_cases hd : d = frame.closer
        · rw [if_pos hd, if_pos hd]
          exact (h r' (by omega) stack b b').2 _ _
        · rw [if_neg hd, if_neg hd]
          cases beginItem frame (d :: r') with
          | error _ => rfl
          | ok p =>
            have hp : p.rest.length < r'.length + 1 + 1 := p.rest_lt
            exact (h p.rest (by omega) (frame :: stack) b b').1 _ _

theorem Boundless.taken?_skipAfter {s : Octets} (h : Boundless s.length) (stack : List Frame)
    {b b' : Nat} (hs : s.length < b) (hs' : s.length < b') :
    taken? (skipAfter b stack s hs) = taken? (skipAfter b' stack s hs') := by
  cases stack with
  | nil => rw [skipAfter, skipAfter]; rfl
  | cons frame outer =>
    rw [skipAfter, skipAfter]
    cases hskip : skipSpace s with
    | nil => rw [withNext_nil hskip, withNext_nil hskip]; rfl
    | cons c r =>
      have hr := length_lt_of_skipSpace hskip
      rw [withNext_eq hskip, withNext_eq hskip]
      by_cases hc : c = Ascii.comma
      · rw [if_pos hc, if_pos hc]
        cases beginItem frame r with
        | error _ => rfl
        | ok p =>
          have hp := p.rest_lt
          exact (h p.rest (by omega) (frame :: outer) b b').1 _ _
      · rw [if_neg hc, if_neg hc]
        by_cases hclose : c = frame.closer
        · rw [if_pos hclose, if_pos hclose]
          exact (h r hr outer b b').2 _ _
        · rw [if_neg hclose, if_neg hclose]
          rfl

theorem boundless (n : Nat) : Boundless n := by
  induction n with
  | zero => exact fun s hs => absurd hs (Nat.not_lt_zero _)
  | succ n ih =>
    intro s hs stack b b'
    have hbelow : Boundless s.length := fun t ht => ih t (by omega)
    exact ⟨hbelow.taken?_skipValue stack, hbelow.taken?_skipAfter stack⟩

/-- A scan may begin with its own length for a bound. -/
theorem length_within (s : Octets) : s.length ≤ s.length := Nat.le_refl _

/-- What is left behind a value and behind what closes the open containers. -/
def value? (stack : List Frame) (s : Octets) : Option (Unit × Octets) :=
  taken? (skipValue s.length stack s (length_within s))

/-- What is left behind what closes the open containers, behind a value. -/
def after? (stack : List Frame) (s : Octets) : Option (Unit × Octets) :=
  taken? (skipAfter (s.length + 1) stack s (Nat.lt_succ_self _))

theorem taken?_skipValue {b : Nat} {stack : List Frame} {s : Octets} (hs : s.length ≤ b) :
    taken? (skipValue b stack s hs) = value? stack s :=
  (boundless s.length).taken?_skipValue stack _ _

theorem taken?_skipAfter {b : Nat} {stack : List Frame} {s : Octets} (hs : s.length < b) :
    taken? (skipAfter b stack s hs) = after? stack s :=
  (boundless s.length).taken?_skipAfter stack _ _

/-- What follows the octet that opens a container. -/
def inside? (frame : Frame) (stack : List Frame) (s : Octets) : Option (Unit × Octets) :=
  match skipSpace s with
  | [] => none
  | d :: r =>
    if d = frame.closer then after? stack r
    else (taken? (beginItem frame (d :: r))).bind fun e => value? (frame :: stack) e.2

theorem value?_eq (stack : List Frame) (s : Octets) :
    value? stack s = match skipSpace s with
      | [] => none
      | c :: r => match Frame.opened? c with
        | none => (taken? (skipScalar (c :: r))).bind fun e => after? stack e.2
        | some frame => inside? frame stack r := by
  unfold value?
  rw [skipValue]
  cases hskip : skipSpace s with
  | nil => rw [withNext_nil hskip]; rfl
  | cons c r =>
    rw [withNext_eq hskip]
    dsimp only
    cases Frame.opened? c with
    | none =>
      dsimp only
      cases skipScalar (c :: r) with
      | error _ => rfl
      | ok p => exact taken?_skipAfter _
    | some frame =>
      dsimp only [inside?]
      cases hnext : skipSpace r with
      | nil => rw [withNext_nil hnext]; rfl
      | cons d r' =>
        rw [withNext_eq hnext]
        by_cases hd : d = frame.closer
        · rw [if_pos hd]
          simp only [if_pos hd]
          exact taken?_skipAfter _
        · rw [if_neg hd]
          simp only [if_neg hd]
          cases beginItem frame (d :: r') with
          | error _ => rfl
          | ok p => exact taken?_skipValue _

theorem after?_nil (s : Octets) : after? [] s = some ((), s) := by
  unfold after?
  rw [skipAfter]
  rfl

theorem after?_cons (frame : Frame) (outer : List Frame) (s : Octets) :
    after? (frame :: outer) s = match skipSpace s with
      | [] => none
      | c :: r =>
        if c = Ascii.comma then
          (taken? (beginItem frame r)).bind fun e => value? (frame :: outer) e.2
        else if c = frame.closer then after? outer r
        else none := by
  unfold after?
  rw [skipAfter]
  cases hskip : skipSpace s with
  | nil => rw [withNext_nil hskip]; rfl
  | cons c r =>
    rw [withNext_eq hskip]
    by_cases hc : c = Ascii.comma
    · rw [if_pos hc]
      simp only [if_pos hc]
      cases beginItem frame r with
      | error _ => rfl
      | ok p => exact taken?_skipValue _
    · rw [if_neg hc]
      simp only [if_neg hc]
      by_cases hclose : c = frame.closer
      · rw [if_pos hclose]
        simp only [if_pos hclose]
        exact taken?_skipAfter _
      · rw [if_neg hclose]
        simp only [if_neg hclose]
        rfl

/-- **A value is scanned alike in front of everything that ends it.** -/
theorem localAt_scan (n : Nat) : ∀ s : Octets, s.length = n → ∀ stack : List Frame,
    LocalAt (value? stack) s ∧ LocalAt (after? stack) s := by
  induction n using Nat.strongRecOn with
  | ind n ih =>
    intro s hn stack
    constructor
    · refine localAt_skipSpace (value?_eq stack) fun c r hskip => ?_
      have hr := length_lt_of_skipSpace hskip
      cases Frame.opened? c with
      | none =>
        have hscalar := (local_skipScalar (c :: r)).tail fun u r' h =>
          (taken?_eq_some_iff.mp h).1
        refine hscalar.bind (g := fun _ t => after? stack t) ?_
        intro u r' h
        have hr' : r'.length < r.length + 1 := (taken?_eq_some_iff.mp h).1
        exact (ih r'.length (by omega) r' rfl stack).2
      | some frame =>
        refine localAt_skipSpace (fun _ => rfl) fun d r' hnext => .ite (fun _ => ?_) fun _ => ?_
        · have hr' := length_lt_of_skipSpace hnext
          exact (ih r'.length (by omega) r' rfl stack).2
        · have hr' := length_lt_of_skipSpace hnext
          refine ((local_beginItem frame (d :: r')).bind
            (g := fun _ t => value? (frame :: stack) t) fun u r'' h => ?_).tail fun u r'' h => ?_
          · have hr'' : r''.length < r'.length + 1 + 1 := (taken?_eq_some_iff.mp h).1
            exact (ih r''.length (by omega) r'' rfl (frame :: stack)).1
          · -- What is begun is not shorter, but the value takes something.
            obtain ⟨⟨_, t⟩, hbegin, hvalue⟩ := Option.bind_eq_some_iff.mp h
            have ht : t.length < r'.length + 1 + 1 := (taken?_eq_some_iff.mp hbegin).1
            have hless : r''.length < t.length := (taken?_eq_some_iff.mp hvalue).1
            rw [List.length_cons]
            omega
    · cases stack with
      | nil =>
        intro u r h
        rw [after?_nil] at h
        obtain rfl := (Prod.mk.inj (Option.some.inj h)).2
        exact ⟨[], rfl, fun r' _ => after?_nil r'⟩
      | cons frame outer =>
        refine localAt_skipSpace (after?_cons frame outer) fun c r hskip => ?_
        have hr := length_lt_of_skipSpace hskip
        refine .ite (fun _ => ?_) fun _ => .ite (fun _ => ?_) fun _ => .fail
        · refine (local_beginItem frame r).bind (g := fun _ t => value? (frame :: outer) t) ?_
          intro u r' h
          have hr' := (taken?_eq_some_iff.mp h).1
          exact (ih r'.length (by omega) r' rfl (frame :: outer)).1
        · exact (ih r.length (by omega) r rfl outer).2

end Scan

theorem local_skipValue : Local fun s => taken? (skipValue s) :=
  fun s => (Scan.localAt_scan _ s rfl []).1

/-- What begins a value is neither space nor what closes a list. -/
theorem skipValue_head {s r : Octets} {u : Unit} (h : taken? (skipValue s) = some (u, r))
    (hs : skipSpace s = s) :
    ∃ c t, s = c :: t ∧ Ascii.isSpace c = false ∧ c ≠ Ascii.closeBracket := by
  cases s with
  | nil => exact absurd (taken?_eq_some_iff.mp h).1 (Nat.not_lt_zero _)
  | cons c t =>
    refine ⟨c, t, rfl, not_isSpace_of_skipSpace hs, ?_⟩
    rintro rfl
    have hvalue := (Scan.value?_eq [] (Ascii.closeBracket :: t)).symm.trans h
    rw [hs] at hvalue
    have hopen : Scan.Frame.opened? Ascii.closeBracket = none := by decide
    have hscalar : taken? (Scan.skipScalar (Ascii.closeBracket :: t)) = none := by
      rw [Scan.taken?_skipScalar_cons]
      rfl
    simp only [hopen, hscalar] at hvalue
    exact absurd hvalue (by simp)

/-! ### Payloads -/

/-- The text of a payload is a value, without space around it. -/
structure Payload.WellFormed (p : Payload) : Prop where
  noSpace : skipSpace (Text.octets p.text) = Text.octets p.text
  value : taken? (skipValue (Text.octets p.text)) = some ((), [])

theorem taken?_readPayload_iff {s r : Octets} {p : Payload} :
    taken? (readPayload s) = some (p, r) ↔
      skipSpace s = Text.octets p.text ++ r ∧ taken? (skipValue (skipSpace s)) = some ((), r) := by
  have hread : taken? (readPayload s) = (taken? (skipValue (skipSpace s))).bind fun e =>
      (Text.ofOctets? ((skipSpace s).take ((skipSpace s).length - e.2.length))).map fun text =>
        (⟨text⟩, e.2) := by
    unfold readPayload
    dsimp only
    cases skipValue (skipSpace s) with
    | error _ => rfl
    | ok q =>
      dsimp only [taken?_ok, Option.bind_some]
      cases Text.ofOctets? ((skipSpace s).take ((skipSpace s).length - q.rest.length)) <;> rfl
  have htake {w t : Octets} : (w ++ t).take ((w ++ t).length - t.length) = w := by simp
  rw [hread, Option.bind_eq_some_iff]
  constructor
  · rintro ⟨⟨u, r'⟩, hskip, hvalue⟩
    obtain ⟨text, htext, hp⟩ := Option.map_eq_some_iff.mp hvalue
    obtain ⟨rfl, rfl⟩ := Prod.mk.inj hp
    obtain ⟨w, hw, -⟩ := local_skipValue _ _ _ hskip
    dsimp only at htext
    rw [hw, htake] at htext
    rw [Text.octets_of_ofOctets? htext]
    exact ⟨hw, hskip⟩
  · rintro ⟨hs, hskip⟩
    refine ⟨((), r), hskip, ?_⟩
    dsimp only
    rw [hs, htake, Text.ofOctets?_octets]
    rfl

namespace Payload

variable {p : Payload}

theorem WellFormed.head (h : p.WellFormed) :
    ∃ c t, Text.octets p.text = c :: t ∧ Ascii.isSpace c = false ∧ c ≠ Ascii.closeBracket :=
  skipValue_head h.value h.noSpace

/-- A payload that was read is well formed. -/
theorem wellFormed_of_read {s r : Octets} (h : taken? (readPayload s) = some (p, r)) :
    p.WellFormed := by
  obtain ⟨hs, hskip⟩ := taken?_readPayload_iff.mp h
  rw [hs] at hskip
  obtain ⟨w, hw, hall⟩ := local_skipValue _ _ _ hskip
  obtain rfl := List.append_cancel_right hw
  have hvalue := hall [] (.inr (by simp [Delimited]))
  rw [List.append_nil] at hvalue
  refine ⟨?_, hvalue⟩
  cases htext : Text.octets p.text with
  | nil => rfl
  | cons c t =>
    rw [htext, List.cons_append] at hs
    exact skipSpace_cons (not_isSpace_of_skipSpace hs) t

/-- **A well-formed payload is read back from wherever it was written.** -/
theorem WellFormed.read (h : p.WellFormed) {ws r : Octets} (hws : Blank ws) (hr : Delimited r) :
    taken? (readPayload (ws ++ (Text.octets p.text ++ r))) = some (p, r) := by
  obtain ⟨c, t, htext, hc, -⟩ := h.head
  have hskip : skipSpace (ws ++ (Text.octets p.text ++ r)) = Text.octets p.text ++ r := by
    rw [htext, List.cons_append]
    exact skipSpace_blank_cons hws hc _
  obtain ⟨w, hw, hall⟩ := local_skipValue _ _ _ h.value
  rw [List.append_nil] at hw
  rw [taken?_readPayload_iff, hskip]
  refine ⟨rfl, ?_⟩
  rw [hw]
  exact hall r (.inr hr)

/-- A payload that begins as null does is null. -/
theorem WellFormed.text_eq_null (h : p.WellFormed) {t : Octets}
    (hp : Text.octets p.text = Ascii.lowerN :: t) : p.text = "null" := by
  have hvalue := (Scan.value?_eq [] (Text.octets p.text)).symm.trans h.value
  have hopen : Scan.Frame.opened? Ascii.lowerN = none := by decide
  rw [h.noSpace, hp] at hvalue
  simp only [hopen, Option.bind_eq_some_iff, Scan.after?_nil] at hvalue
  obtain ⟨⟨u, r⟩, hscalar, hrest⟩ := hvalue
  obtain rfl : r = [] := (Prod.mk.inj (Option.some.inj hrest)).2
  rw [Scan.taken?_skipScalar_cons, if_neg (by decide), if_pos rfl] at hscalar
  have ht := taken?_dropWord_iff.mp hscalar
  rw [List.append_nil] at ht
  rw [ht] at hp
  exact Text.octets_inj hp

end Payload

end FleetPlan.Json
