/-
What each reader takes, by the octet that it begins with.

Every reader looks at the first octet behind the space and goes on from there.  Here this
is said once for each of them as an equation for `taken?`, with the faults and the bounds
left out, so that what is proved of readers by cases on that octet need not open them.

The two forms of a record come out alike.  `Fields.member` is the step of the loop over an
object's members, and `listed?` takes all fields of a list together with the closing
bracket: in front of the bracket nothing is left but what stands for the fields that are
not there (`Fields.short?`).
-/
import FleetPlan.Proofs.Json.Meaning
import FleetPlan.Proofs.Json.Shape

namespace FleetPlan.Json

section

variable {α σ : Type} {s : Octets}

/-- What is taken behind space. -/
theorem taken?_withNext {n : Nat} {atEnd : Fault}
    {next : (c : UInt8) → (r : Octets) → r.length < s.length → Except Fault (Parsed α n)}
    {g : UInt8 → Octets → Option (α × Octets)} (h : ∀ c r hr, taken? (next c r hr) = g c r) :
    taken? (withNext s atEnd next) = match skipSpace s with
      | [] => none
      | c :: r => g c r := by
  cases hs : skipSpace s with
  | nil => rw [withNext_nil hs]; rfl
  | cons c r => rw [withNext_eq hs, h]

/-- What is taken by one reader after another. -/
theorem taken?_bind {β : Type} {m n : Nat} {x : Except Fault (Parsed β m)}
    {f : Parsed β m → Except Fault (Parsed α n)} {g : β → Octets → Option (α × Octets)}
    (h : ∀ p, taken? (f p) = g p.value p.rest) :
    taken? (x >>= f) = (taken? x).bind fun e => g e.1 e.2 := by
  cases x with
  | error f => rfl
  | ok p => exact h p

/-! ### Scalars -/

theorem taken?_readString (s : Octets) : taken? (readString s) = match skipSpace s with
    | [] => none
    | c :: r => if c = Ascii.quote then taken? (readText r) else none := by
  refine taken?_withNext fun c r hr => ?_
  split
  · exact taken?_map_after
  · rfl

/-- The integer that a number is, if it is one of the range. -/
def Number.within? (range : IntRange) : Number → Option (IntIn range)
  | .integer i => if h : range.holds i = true then some ⟨i, h⟩ else none
  | .double _ => none

theorem taken?_readInteger (range : IntRange) (s : Octets) :
    taken? (readInteger range s) = match skipSpace s with
      | [] => none
      | c :: r =>
        if c = Ascii.minus || Ascii.isDigit c then
          (taken? (readNumber (c :: r))).bind fun e => (e.1.within? range).map fun i => (i, e.2)
        else none := by
  refine taken?_withNext fun c r hr => ?_
  split
  · cases readNumber (c :: r) with
    | error f => rfl
    | ok p =>
      obtain ⟨n, r', h⟩ := p
      cases n with
      | integer i =>
        simp only [taken?_ok, Option.bind_some, Number.within?]
        split <;> rfl
      | double d => rfl
  · rfl

theorem taken?_readFlag (s : Octets) : taken? (readFlag s) = match skipSpace s with
    | [] => none
    | c :: r =>
      if c = Ascii.lowerT then (taken? (dropWord trueTail r)).map fun e => (true, e.2)
      else if c = Ascii.lowerF then (taken? (dropWord falseTail r)).map fun e => (false, e.2)
      else none := by
  refine taken?_withNext fun c r hr => ?_
  split
  · exact taken?_map_map_weaken
  · split
    · exact taken?_map_map_weaken
    · rfl

theorem taken?_readUnit (s : Octets) : taken? (readUnit s) = match skipSpace s with
    | [] => none
    | c :: r => if c = Ascii.lowerN then taken? (dropWord nullTail r) else none := by
  refine taken?_withNext fun c r hr => ?_
  split
  · exact taken?_map_weaken
  · rfl

/-! ### Containers -/

theorem taken?_readMember_eq (value : Reader α) (s : Octets) :
    taken? (readMember value s) = match skipSpace s with
      | [] => none
      | c :: r => if c = Ascii.colon then taken? (value r) else none := by
  cases hs : skipSpace s with
  | nil =>
    unfold readMember readColon
    rw [withNext_nil hs]
    rfl
  | cons c r =>
    by_cases hc : c = Ascii.colon
    · rw [taken?_readMember_of_colon (hs.trans (by rw [hc]))]
      exact (if_pos hc).symm
    · unfold readMember readColon
      rw [withNext_eq hs, if_neg hc]
      exact (if_neg hc).symm

theorem taken?_closeList_eq (s : Octets) : taken? (closeList s) = match skipSpace s with
    | [] => none
    | c :: r => if c = Ascii.closeBracket then some ((), r) else none := by
  refine taken?_withNext fun c r hr => ?_
  split
  · rfl
  · split
    · split <;> rfl
    · rfl

theorem taken?_closeObject_eq (s : Octets) : taken? (closeObject s) = match skipSpace s with
    | [] => none
    | c :: r => if c = Ascii.closeBrace then some ((), r) else none := by
  refine taken?_withNext fun c r hr => ?_
  split
  · rfl
  · split <;> rfl

/-- What is taken inside a container, by what is done behind its closing bracket and from the
first octet of what comes next on. -/
def atNext (closer : UInt8) (first : Bool) (close : Octets → Option (α × Octets))
    (next : UInt8 → Octets → Option (α × Octets)) (s : Octets) : Option (α × Octets) :=
  match skipSpace s with
  | [] => none
  | c :: r =>
    if c = closer then close r
    else if first then next c r
    else if c = Ascii.comma then
      match skipSpace r with
      | [] => none
      | d :: t => next d t
    else none

/-- What is taken inside a list, by what is done with an item. -/
def atItem (first : Bool) (close item : Octets → Option (α × Octets)) :
    Octets → Option (α × Octets) :=
  atNext Ascii.closeBracket first close fun c r =>
    if c = Ascii.closeBracket then none else item (c :: r)

/-- What is taken inside an object, by what is done behind the quote of a name. -/
def atName (first : Bool) (close name : Octets → Option (α × Octets)) :
    Octets → Option (α × Octets) :=
  atNext Ascii.closeBrace first close fun c r => if c = Ascii.quote then name r else none

/-- How a loop over items goes on. -/
theorem nextItem_cases (first : Bool) (s : Octets) :
    (∃ f, nextItem first s = .error f ∧ ∀ (β : Type) close item,
      atItem first close item s = (none : Option (β × Octets))) ∨
    (∃ r, nextItem first s = .ok none ∧ skipSpace s = Ascii.closeBracket :: r ∧
      ∀ (β : Type) close item, atItem first close item s = (close r : Option (β × Octets))) ∨
    ∃ t ht, nextItem first s = .ok (some ⟨(), t, ht⟩) ∧ ∀ (β : Type) close item,
      atItem first close item s = (item t : Option (β × Octets)) := by
  unfold nextItem atItem atNext
  cases hs : skipSpace s with
  | nil =>
    rw [withNext_nil hs]
    exact .inl ⟨_, rfl, fun _ _ _ => rfl⟩
  | cons c r =>
    rw [withNext_eq hs]
    dsimp only
    by_cases hclose : c = Ascii.closeBracket
    · subst hclose
      exact .inr (.inl ⟨r, if_pos rfl, rfl, fun _ _ _ => if_pos rfl⟩)
    simp only [if_neg hclose]
    cases first with
    | true =>
      exact .inr (.inr ⟨c :: r, Nat.succ_lt_succ (length_lt_of_skipSpace hs), rfl, fun _ _ _ => rfl⟩)
    | false =>
      simp only [Bool.false_eq_true, if_false]
      by_cases hcomma : c = Ascii.comma
      · simp only [if_pos hcomma]
        cases hr : skipSpace r with
        | nil =>
          rw [withNext_nil hr]
          exact .inl ⟨_, rfl, fun _ _ _ => rfl⟩
        | cons d t =>
          rw [withNext_eq hr]
          dsimp only
          by_cases hd : d = Ascii.closeBracket
          · simp only [if_pos hd]
            exact .inl ⟨_, rfl, fun _ _ _ => trivial⟩
          · simp only [if_neg hd]
            have hlt : t.length + 1 < s.length + 1 := Nat.succ_lt_succ
              (Nat.lt_trans (length_lt_of_skipSpace hr) (length_lt_of_skipSpace hs))
            exact .inr (.inr ⟨d :: t, hlt, rfl, fun _ _ _ => rfl⟩)
      · simp only [if_neg hcomma]
        exact .inl ⟨_, rfl, fun _ _ _ => trivial⟩

theorem taken?_listItems_eq (item : Reader α) (first : Bool) (s : Octets) :
    taken? (listItems item first s) = atItem first (fun r => some ([], r))
      (fun t => (taken? (item t)).bind fun e =>
        (taken? (listItems item false e.2)).map fun f => (e.1 :: f.1, f.2)) s := by
  obtain ⟨f, hnext, hat⟩ | ⟨r, hnext, hs, hat⟩ | ⟨t, ht, hnext, hat⟩ := nextItem_cases first s
  · rw [hat, listItems, hnext]
    rfl
  · rw [hat]
    exact taken?_listItems_none hnext (taken?_closeList hs)
  · rw [hat]
    exact taken?_listItems_next hnext

/-- How a loop over members goes on. -/
theorem nextName_cases (first : Bool) (s : Octets) :
    (∃ f, nextName first s = .error f ∧ ∀ (β : Type) close name,
      atName first close name s = (none : Option (β × Octets))) ∨
    (∃ r, nextName first s = .ok none ∧ skipSpace s = Ascii.closeBrace :: r ∧
      ∀ (β : Type) close name, atName first close name s = (close r : Option (β × Octets))) ∨
    ∃ t hle, (nextName first s = (readText t).map fun p => some (p.weaken hle)) ∧
      ∀ (β : Type) close name, atName first close name s = (name t : Option (β × Octets)) := by
  unfold nextName atName atNext
  cases hs : skipSpace s with
  | nil =>
    rw [withNext_nil hs]
    exact .inl ⟨_, rfl, fun _ _ _ => rfl⟩
  | cons c r =>
    rw [withNext_eq hs]
    dsimp only
    by_cases hclose : c = Ascii.closeBrace
    · subst hclose
      exact .inr (.inl ⟨r, if_pos rfl, rfl, fun _ _ _ => if_pos rfl⟩)
    simp only [if_neg hclose]
    cases first with
    | true =>
      simp only [if_true]
      by_cases hquote : c = Ascii.quote
      · simp only [if_pos hquote]
        exact .inr (.inr ⟨r, Nat.le_of_lt (length_lt_of_skipSpace hs), rfl, fun _ _ _ => rfl⟩)
      · simp only [if_neg hquote]
        exact .inl ⟨_, rfl, fun _ _ _ => trivial⟩
    | false =>
      simp only [Bool.false_eq_true, if_false]
      by_cases hcomma : c = Ascii.comma
      · simp only [if_pos hcomma]
        cases hr : skipSpace r with
        | nil =>
          rw [withNext_nil hr]
          exact .inl ⟨_, rfl, fun _ _ _ => rfl⟩
        | cons d t =>
          rw [withNext_eq hr]
          dsimp only
          by_cases hquote : d = Ascii.quote
          · simp only [if_pos hquote]
            have hlt := Nat.lt_trans (length_lt_of_skipSpace hr) (length_lt_of_skipSpace hs)
            exact .inr (.inr ⟨t, Nat.le_of_lt hlt, rfl, fun _ _ _ => rfl⟩)
          · simp only [if_neg hquote]
            exact .inl ⟨_, (apply_ite Except.error _ _ _).symm, fun _ _ _ => trivial⟩
      · simp only [if_neg hcomma]
        exact .inl ⟨_, rfl, fun _ _ _ => trivial⟩

theorem taken?_foldMembers_eq (member : σ → String → Reader σ) (first : Bool) (g : σ)
    (s : Octets) :
    taken? (foldMembers member first g s) = atName first (fun r => some (g, r))
      (fun t => (taken? (readText t)).bind fun e => (taken? (member g e.1 e.2)).bind fun f =>
        taken? (foldMembers member false f.1 f.2)) s := by
  obtain ⟨f, hnext, hat⟩ | ⟨r, hnext, hs, hat⟩ | ⟨t, hle, hnext, hat⟩ := nextName_cases first s
  · rw [hat]
    exact taken?_foldMembers_error hnext
  · rw [hat]
    exact taken?_foldMembers_none hnext (taken?_closeObject hs)
  · rw [hat]
    cases hread : readText t with
    | error f =>
      rw [hread] at hnext
      exact taken?_foldMembers_error hnext
    | ok p =>
      rw [hread] at hnext
      exact taken?_foldMembers_next hnext

/-! ### Choices -/

theorem taken?_readChosen (options : List α) (name : α → String) (readName : Reader String)
    (s : Octets) :
    taken? (readChosen options name readName s) = (taken? (readName s)).bind fun e =>
      (chosen options name e.1).toOption.map fun a => (a, e.2) := by
  refine taken?_bind (g := fun key t =>
    (chosen options name key).toOption.map fun a => (a, t)) fun p => ?_
  cases chosen options name p.value <;> rfl

/-- The name is taken as any other text is: only what is no name is refused otherwise. -/
theorem taken?_readChoiceName (s : Octets) :
    taken? (readChoiceName s) = taken? (readString s) := by
  rw [taken?_readString]
  refine taken?_withNext fun c r hr => ?_
  split
  · exact taken?_map_after
  · split <;> rfl

/-- The brace is taken as that of any other object. -/
theorem taken?_closeChoice (s : Octets) : taken? (closeChoice s) = taken? (closeObject s) := by
  rw [taken?_closeObject_eq]
  refine taken?_withNext fun c r hr => ?_
  split <;> rfl

theorem taken?_readChosenMember (options : List α) (name : α → String) (s : Octets) :
    taken? (readChosenMember options name s) =
      (taken? (readChosen options name readChoiceName s)).bind fun e =>
        (taken? (readMember readUnit e.2)).bind fun f =>
          (taken? (closeObject f.2)).map fun g => (e.1, g.2) := by
  refine taken?_bind (g := fun a t => (taken? (readMember readUnit t)).bind fun f =>
    (taken? (closeObject f.2)).map fun g => (a, g.2)) fun p => ?_
  refine taken?_bind (g := fun _ t =>
    (taken? (closeObject t)).map fun g => (p.value, g.2)) fun q => ?_
  rw [← taken?_closeChoice]
  cases closeChoice q.rest <;> rfl

theorem taken?_readChoice (options : List α) (name : α → String) (s : Octets) :
    taken? (readChoice options name s) = match skipSpace s with
      | [] => none
      | c :: r =>
        if c = Ascii.quote then
          (taken? (readText r)).bind fun e =>
            (chosen options name e.1).toOption.map fun a => (a, e.2)
        else if c = Ascii.openBrace then
          match skipSpace r with
          | [] => none
          | d :: r' =>
            if d = Ascii.quote then
              (taken? (readText r')).bind fun e => (chosen options name e.1).toOption.bind fun a =>
                (taken? (readMember readUnit e.2)).bind fun f =>
                  (taken? (closeObject f.2)).map fun g => (a, g.2)
            else none
        else none := by
  cases hs : skipSpace s with
  | nil => exact congrArg taken? (withNext_nil hs)
  | cons c r =>
    unfold readChoice
    rw [withNext_eq hs]
    dsimp only
    split
    · rename_i hquote
      rw [taken?_readChosen, taken?_readString, hs]
      dsimp only
      rw [if_pos hquote]
    split
    · rw [taken?_map_after, taken?_readChosenMember, taken?_readChosen, taken?_readChoiceName,
        taken?_readString]
      cases skipSpace r with
      | nil => rfl
      | cons d r' =>
        dsimp only
        split
        · rw [Option.bind_assoc]
          simp only [Option.bind_map]
          rfl
        · rfl
    · rfl

end

namespace Fields

variable {β π : Type}

/-! ### Members of a record -/

/-- Reads a member of a record's object on from behind its name. -/
def member (fields : Fields β π) (closed : Bool) (slots : π) (key : String) : Reader π := fun s =>
  match fields.assign slots key s with
  | some result => result
  | none =>
    if closed then .error (.unknownMember key fields.names)
    else (readMember skipValue s).map (·.map fun _ => slots)

/-- What is taken for the member of a field, if it is one. -/
def assigned? (fields : Fields β π) (slots : π) (key : String) (s : Octets) :
    Option (π × Octets) :=
  (fields.assign slots key s).bind taken?

theorem assigned?_field {α : Type} (name : String) (presence : Presence α) (shape : Shape α)
    (rest : Fields β π) (slot : Option α) (slots : π) (key : String) (s : Octets) :
    (field name presence shape rest).assigned? (slot, slots) key s =
      if key = name then
        if slot.isSome then none
        else (taken? (readMember shape.read s)).map fun e => ((some e.1, slots), e.2)
      else (rest.assigned? slots key s).map fun e => ((slot, e.1), e.2) := by
  unfold assigned?
  rw [assign]
  split
  · rw [Option.bind_some]
    split
    · rfl
    · exact taken?_map_map
  · cases rest.assign slots key s with
    | none => rfl
    | some result => exact taken?_map_map

/-- A member has a field just when its name is that of one. -/
theorem assign_eq_none_iff : {β π : Type} → (fields : Fields β π) → (slots : π) →
    (key : String) → (s : Octets) → (fields.assign slots key s = none ↔ key ∉ fields.names)
  | _, _, .done, _, _, _ => by simp [assign, names]
  | _, _, .field name presence shape rest, (slot, slots), key, s => by
    rw [assign, names, List.mem_cons, not_or]
    split
    · rename_i hname
      simp [hname]
    · rename_i hname
      rw [Option.map_eq_none_iff, rest.assign_eq_none_iff]
      exact (and_iff_right hname).symm

theorem taken?_member (fields : Fields β π) (closed : Bool) (slots : π) (key : String)
    (s : Octets) :
    taken? (fields.member closed slots key s) =
      if key ∈ fields.names then fields.assigned? slots key s
      else if closed then none
      else (taken? (readMember skipValue s)).map fun e => (slots, e.2) := by
  unfold member assigned?
  cases hassign : fields.assign slots key s with
  | none =>
    rw [if_neg ((fields.assign_eq_none_iff slots key s).mp hassign)]
    dsimp only
    split
    · rfl
    · exact taken?_map_map
  | some result =>
    have hkey : key ∈ fields.names := by
      by_contra hnot
      rw [(fields.assign_eq_none_iff slots key s).mpr hnot] at hassign
      cases hassign
    rw [if_pos hkey]
    rfl

/-! ### Records in a list -/

/-- The values of fields that a list ends before. -/
def short? : {β π : Type} → Fields β π → Option β
  | _, _, done => some ()
  | _, _, field _ presence _ rest => presence.inList.bind fun a => rest.short?.map fun b => (a, b)

/-- All fields in their order, and the closing bracket. -/
def listed? (fields : Fields β π) (record : String) (total before : Nat) (s : Octets) :
    Option (β × Octets) :=
  (taken? (fields.inOrder record total before s)).bind fun e =>
    (taken? (closeList e.2)).map fun f => (e.1, f.2)

/-- The closing bracket is among what is taken. -/
theorem length_lt_of_listed? (fields : Fields β π) {record : String} {total before : Nat}
    {s r : Octets} {b : β} (h : fields.listed? record total before s = some (b, r)) :
    r.length < s.length := by
  obtain ⟨⟨b', r₁⟩, hfields, hrest⟩ := Option.bind_eq_some_iff.mp h
  obtain ⟨⟨u, r₂⟩, hclose, heq⟩ := Option.map_eq_some_iff.mp hrest
  obtain ⟨-, rfl⟩ := Prod.mk.inj heq
  have hle : r₁.length < s.length + 1 := (taken?_eq_some_iff.mp hfields).1
  exact Nat.lt_of_lt_of_le (taken?_eq_some_iff.mp hclose).1 (Nat.le_of_lt_succ hle)

/-- In front of the closing bracket no field is left but by what stands for it. -/
theorem taken?_inOrder_of_close {s r : Octets} (h : skipSpace s = Ascii.closeBracket :: r) :
    {β π : Type} → (fields : Fields β π) → (record : String) → (total before : Nat) →
      taken? (fields.inOrder record total before s) = fields.short?.map fun b => (b, s)
  | _, _, .done, _, _, _ => by
    rw [inOrder, short?]
    rfl
  | _, _, .field _ presence _ rest, record, total, before => by
    rw [inOrder, nextItem_of_close h, short?]
    dsimp only
    cases presence.inList with
    | none => rfl
    | some a =>
      dsimp only
      rw [taken?_map_map, taken?_inOrder_of_close h rest record total (before + 1), Option.map_map,
        Option.bind_some, Option.map_map]
      rfl

theorem listed?_done (record : String) (total before : Nat) (s : Octets) :
    done.listed? record total before s = (taken? (closeList s)).map fun f => ((), f.2) := by
  unfold listed?
  rw [inOrder]
  rfl

theorem listed?_field {α : Type} (name : String) (presence : Presence α) (shape : Shape α)
    (rest : Fields β π) (record : String) (total before : Nat) (s : Octets) :
    (field name presence shape rest).listed? record total before s =
      atItem (before == 0)
        (fun r => (field name presence shape rest).short?.map fun b => (b, r))
        (fun t => (taken? (shape.read t)).bind fun e =>
          (rest.listed? record total (before + 1) e.2).map fun f => ((e.1, f.1), f.2)) s := by
  unfold listed?
  obtain ⟨f, hnext, hat⟩ | ⟨r, hnext, hs, hat⟩ | ⟨t, ht, hnext, hat⟩ :=
    nextItem_cases (before == 0) s
  · rw [hat, inOrder, hnext]
    rfl
  · rw [hat, taken?_inOrder_of_close hs]
    cases (field name presence shape rest).short? with
    | none => rfl
    | some b =>
      rw [Option.map_some, Option.bind_some, taken?_closeList hs]
      rfl
  · rw [hat, inOrder, hnext]
    dsimp only
    cases shape.read t with
    | error f => rfl
    | ok p =>
      dsimp only
      rw [taken?_map_map_weaken, taken?_ok, Option.bind_some]
      cases taken? (rest.inOrder record total (before + 1) p.rest) with
      | none => rfl
      | some e => cases hclose : taken? (closeList e.2) <;> simp [hclose]

end Fields

/-! ### Shapes -/

theorem Shape.taken?_read_list {α : Type} (item : Shape α) (s : Octets) :
    taken? (item.list.read s) = match skipSpace s with
      | [] => none
      | c :: r => if c = Ascii.openBracket then taken? (listItems item.read true r) else none := by
  rw [Shape.read]
  refine taken?_withNext fun c r hr => ?_
  split
  · exact taken?_map_after
  · rfl

theorem Shape.taken?_read_dict {α : Type} (item : Shape α) (s : Octets) :
    taken? (item.dict.read s) = match skipSpace s with
      | [] => none
      | c :: r =>
        if c = Ascii.openBrace then
          taken? (foldMembers
            (fun d key s => (readMember item.read s).map (·.map (Dict.insert key · d))) true .empty r)
        else none := by
  rw [Shape.read]
  refine taken?_withNext fun c r hr => ?_
  split
  · exact taken?_map_after
  · rfl

theorem Shape.taken?_read_record {α β π : Type} (name : String) (closed : Bool)
    (fields : Fields β π) (make : β → α) (parts : α → β) (s : Octets) :
    taken? ((Shape.record name closed fields make parts).read s) = match skipSpace s with
      | [] => none
      | c :: r =>
        if c = Ascii.openBrace then
          (taken? (foldMembers (fields.member closed) true fields.blank r)).bind fun e =>
            (fields.complete e.1).toOption.map fun b => (make b, e.2)
        else if c = Ascii.openBracket then
          (fields.listed? name fields.names.length 0 r).map fun e => (make e.1, e.2)
        else none := by
  rw [Shape.read]
  refine taken?_withNext fun c r hr => ?_
  split
  · change taken? (do
      let p ← foldMembers (fields.member closed) true fields.blank r
      let b ← fields.complete p.value
      return (p.map fun _ => make b).after hr) = _
    cases foldMembers (fields.member closed) true fields.blank r with
    | error f => rfl
    | ok p =>
      simp only [bind, Except.bind, taken?_ok, Option.bind_some]
      cases fields.complete p.value <;> rfl
  · split
    · unfold Fields.listed?
      cases fields.inOrder name fields.names.length 0 r with
      | error f => rfl
      | ok p =>
        simp only [bind, Except.bind, taken?_ok, Option.bind_some]
        cases closeList p.rest <;> rfl
    · rfl

/-- Null, or what stands where null might. -/
theorem Shape.taken?_read_nullable_inner {α : Type} (inner : Shape α) (s : Octets) :
    taken? (inner.nullable.read s) = match skipSpace s with
      | [] => none
      | c :: r =>
        if c = Ascii.lowerN then (taken? (dropWord nullTail r)).map fun e => (none, e.2)
        else (taken? (inner.read s)).map fun e => (some e.1, e.2) := by
  rw [Shape.read]
  refine taken?_withNext fun c r hr => ?_
  split
  · exact taken?_map_map_weaken
  · exact taken?_map_map

/-- Space in front of a value does not count. -/
theorem Shape.taken?_read_skipSpace : {α : Type} → (shape : Shape α) → (s : Octets) →
    taken? (shape.read (skipSpace s)) = taken? (shape.read s)
  | _, .text, s => by
    simp only [Shape.read, taken?_readString, skipSpace_skipSpace]
  | _, .integer range, s => by
    simp only [Shape.read, taken?_readInteger, skipSpace_skipSpace]
  | _, .flag, s => by
    simp only [Shape.read, taken?_readFlag, skipSpace_skipSpace]
  | _, .payload, s => by
    refine Option.ext fun e => ?_
    obtain ⟨p, r⟩ := e
    simp only [Shape.read, taken?_readPayload_iff]
    rw [skipSpace_skipSpace]
  | _, .choice options name, s => by
    simp only [Shape.read, taken?_readChoice, skipSpace_skipSpace]
  | _, .list item, s => by
    simp only [taken?_read_list, skipSpace_skipSpace]
  | _, .dict item, s => by
    simp only [taken?_read_dict, skipSpace_skipSpace]
  | _, .nullable inner, s => by
    simp only [taken?_read_nullable_inner, skipSpace_skipSpace, inner.taken?_read_skipSpace s]
  | _, .record name closed fields make parts, s => by
    simp only [taken?_read_record, skipSpace_skipSpace]

theorem Shape.taken?_read_nullable {α : Type} (inner : Shape α) (s : Octets) :
    taken? (inner.nullable.read s) = match skipSpace s with
      | [] => none
      | c :: r =>
        if c = Ascii.lowerN then (taken? (dropWord nullTail r)).map fun e => (none, e.2)
        else (taken? (inner.read (c :: r))).map fun e => (some e.1, e.2) := by
  rw [taken?_read_nullable_inner, ← inner.taken?_read_skipSpace s]
  cases skipSpace s <;> rfl

end FleetPlan.Json
