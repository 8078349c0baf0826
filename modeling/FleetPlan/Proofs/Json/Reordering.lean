/-
Trees with their members in another order.

`Tree.Reordered` relates a tree to the same tree with the members of its objects in any
order, on every level, where no object gives one name to two members.  Members are put
together by name, so when both trees have a value they have the same one.

One of them may have a value and the other none.  The reserved name is read as such only
where it stands first, and has to stand alone there, so another order can make or break
the document.  This takes an object with more than one member: where a tree has a text for
its value, there is nothing in it to be reordered.  It also takes the reserved name: a
`plain` tree has a value in every order.
-/
import FleetPlan.Proofs.Json.Meaning

namespace FleetPlan.Json

namespace Tree

/-- No two names say the same. -/
def DistinctNames (ms : List (NameToken × Tree)) : Prop := (ms.filterMap (·.1.text?)).Nodup

instance (ms : List (NameToken × Tree)) : Decidable (DistinctNames ms) :=
  inferInstanceAs (Decidable (List.Nodup _))

mutual

/-- The second tree is the first with the members of objects in any order. -/
inductive Reordered : Tree → Tree → Prop
  | scalar (token : ScalarToken) : Reordered (.scalar token) (.scalar token)
  | list {xs ys : List Tree} (items : ReorderedItems xs ys) : Reordered (.list xs) (.list ys)
  | object {ms ns ns' : List (NameToken × Tree)} (distinct : DistinctNames ms)
      (members : ReorderedMembers ms ns) (order : ns.Perm ns') :
      Reordered (.object ms) (.object ns')

/-- Items are reordered in their places. -/
inductive ReorderedItems : List Tree → List Tree → Prop
  | nil : ReorderedItems [] []
  | cons {x y : Tree} {xs ys : List Tree} (head : Reordered x y) (tail : ReorderedItems xs ys) :
      ReorderedItems (x :: xs) (y :: ys)

/-- Members are reordered under their names. -/
inductive ReorderedMembers : List (NameToken × Tree) → List (NameToken × Tree) → Prop
  | nil : ReorderedMembers [] []
  | cons {name : NameToken} {x y : Tree} {ms ns : List (NameToken × Tree)} (head : Reordered x y)
      (tail : ReorderedMembers ms ns) : ReorderedMembers ((name, x) :: ms) ((name, y) :: ns)

end

/-! ### The values of members -/

section

variable {ms ns : List (NameToken × Tree)} {depth : Nat} {es : List (String × Value)}

theorem memberValues?_cons_eq_some_iff {name : NameToken} {x : Tree} :
    memberValues? ((name, x) :: ms) depth = some es ↔ ∃ n v es', name.text? = some n ∧
      value? x depth = some v ∧ memberValues? ms depth = some es' ∧ es = (n, v) :: es' := by
  rw [memberValues?]
  constructor
  · intro h
    obtain ⟨n, hn, h⟩ := Option.bind_eq_some_iff.mp h
    obtain ⟨v, hv, h⟩ := Option.bind_eq_some_iff.mp h
    obtain ⟨es', hes', rfl⟩ := Option.map_eq_some_iff.mp h
    exact ⟨n, v, es', hn, hv, hes', rfl⟩
  · rintro ⟨n, v, es', hn, hv, hes', rfl⟩
    rw [hn, hv, hes']
    rfl

theorem names_of_memberValues? (h : memberValues? ms depth = some es) :
    es.map (·.1) = ms.filterMap (·.1.text?) := by
  induction ms generalizing es with
  | nil =>
    rw [memberValues?] at h
    cases h
    rfl
  | cons m ms ih =>
    obtain ⟨name, x⟩ := m
    obtain ⟨n, v, es', hn, -, hes', rfl⟩ := memberValues?_cons_eq_some_iff.mp h
    rw [List.map_cons, ih hes', List.filterMap_cons, hn]

/-- Members in another order have their values in that order. -/
theorem exists_memberValues?_of_perm (hperm : ms.Perm ns) (h : memberValues? ms depth = some es) :
    ∃ fs, memberValues? ns depth = some fs ∧ es.Perm fs := by
  induction hperm generalizing es with
  | nil => exact ⟨es, h, .refl _⟩
  | cons m _ ih =>
    obtain ⟨name, x⟩ := m
    obtain ⟨n, v, es', hn, hv, hes', rfl⟩ := memberValues?_cons_eq_some_iff.mp h
    obtain ⟨fs, hfs, hperm⟩ := ih hes'
    exact ⟨(n, v) :: fs, memberValues?_cons_eq_some_iff.mpr ⟨n, v, fs, hn, hv, hfs, rfl⟩,
      hperm.cons _⟩
  | swap m m' ms =>
    obtain ⟨name, x⟩ := m
    obtain ⟨name', x'⟩ := m'
    obtain ⟨n', v', es', hn', hv', hes', rfl⟩ := memberValues?_cons_eq_some_iff.mp h
    obtain ⟨n, v, es, hn, hv, hes, rfl⟩ := memberValues?_cons_eq_some_iff.mp hes'
    refine ⟨(n, v) :: (n', v') :: es, memberValues?_cons_eq_some_iff.mpr ?_, .swap _ _ _⟩
    exact ⟨n, v, _, hn, hv, memberValues?_cons_eq_some_iff.mpr ⟨n', v', es, hn', hv', hes, rfl⟩,
      rfl⟩
  | trans _ _ ih ih' =>
    obtain ⟨fs, hfs, hperm⟩ := ih h
    obtain ⟨gs, hgs, hperm'⟩ := ih' hfs
    exact ⟨gs, hgs, hperm.trans hperm'⟩

/-! ### The values of containers -/

theorem value?_list_cases {xs : List Tree} {v : Value} (h : value? (.list xs) depth = some v) :
    ∃ d vs, itemValues? xs d = some vs ∧ depth = d + 1 ∧ v = .list vs := by
  cases depth with
  | zero =>
    rw [value?] at h
    cases h
  | succ d =>
    rw [value?] at h
    obtain ⟨vs, hvs, rfl⟩ := Option.map_eq_some_iff.mp h
    exact ⟨d, vs, hvs, rfl, rfl⟩

theorem writtenOut?_eq_some {x : Tree} {v : Value} (h : writtenOut? x ms = some v) :
    ms = [] ∧ ∃ token, x = .scalar token := by
  cases x with
  | scalar token =>
    cases ms with
    | nil => exact ⟨rfl, token, rfl⟩
    | cons m ms => cases h
  | list items => cases h
  | object members => cases h

/-- An object has a value as a document that is written out, or as its members. -/
theorem value?_object_cases {v : Value} (h : value? (.object ms) depth = some v) :
    (∃ name token, name.text? = some Value.reservedName ∧ ms = [(name, .scalar token)]) ∨
      (∀ m ∈ ms.head?, m.1.text? ≠ some Value.reservedName) ∧
        ∃ d es, memberValues? ms d = some es ∧ depth = d + 1 ∧
          v = .object (Dict.ofList es).entries := by
  cases depth with
  | zero =>
    rw [value?] at h
    cases h
  | succ d =>
    cases ms with
    | nil =>
      rw [value?] at h
      cases h
      refine .inr ⟨by simp, d, [], ?_, rfl, rfl⟩
      rw [memberValues?]
    | cons m ms =>
      obtain ⟨name, x⟩ := m
      rw [value?] at h
      split at h
      · rename_i hname
        obtain ⟨rfl, token, rfl⟩ := writtenOut?_eq_some h
        exact .inl ⟨name, token, hname, rfl⟩
      · rename_i hname
        obtain ⟨es, hes, rfl⟩ := Option.map_eq_some_iff.mp h
        refine .inr ⟨?_, d, es, hes, rfl, rfl⟩
        rintro m ⟨⟩
        exact hname

end

/-! ### Reordered trees -/

theorem ReorderedMembers.eq_of_singleton {ms ns : List (NameToken × Tree)} {name : NameToken}
    {token : ScalarToken} (h : ReorderedMembers ms ns)
    (hms : ms = [(name, .scalar token)] ∨ ns = [(name, .scalar token)]) : ms = ns := by
  cases h with
  | nil => rfl
  | cons head tail =>
    rcases hms with hms | hms
    · cases hms
      cases tail
      cases head
      rfl
    · cases hms
      cases tail
      cases head
      rfl

/-- An object whose one member is a scalar has no other order. -/
theorem Reordered.eq_of_singleton {ms ns : List (NameToken × Tree)} {name : NameToken}
    {token : ScalarToken} (h : Reordered (.object ms) (.object ns))
    (hms : ms = [(name, .scalar token)] ∨ ns = [(name, .scalar token)]) : ms = ns := by
  cases h with
  | @object _ ns' _ distinct members order =>
    rcases hms with rfl | rfl
    · have hns := members.eq_of_singleton (.inl rfl)
      subst hns
      exact (List.perm_singleton.mp order.symm).symm
    · have hns := List.perm_singleton.mp order
      subst hns
      exact members.eq_of_singleton (.inr rfl)

/-- Members in different orders, put together by name. -/
theorem ofList_entries_eq_of_perm {ms : List (NameToken × Tree)} {depth : Nat}
    {es fs : List (String × Value)} (hdistinct : DistinctNames ms)
    (h : memberValues? ms depth = some es) (hperm : es.Perm fs) :
    (Dict.ofList es).entries = (Dict.ofList fs).entries := by
  have hnodup : (es.map (·.1)).Nodup := names_of_memberValues? h ▸ hdistinct
  have hnodup' : (fs.map (·.1)).Nodup := (hperm.map (·.1)).nodup_iff.mp hnodup
  exact Dict.eq_of_perm (Dict.ofList es).sorted (Dict.ofList fs).sorted
    ((Dict.ofList_perm_of_nodup hnodup).trans
      (hperm.trans (Dict.ofList_perm_of_nodup hnodup').symm))

mutual

/-- **Reordered trees with values have the same value.** -/
theorem Reordered.value?_eq {x y : Tree} {depth : Nat} {v w : Value} : Reordered x y →
    value? x depth = some v → value? y depth = some w → v = w
  | .scalar token, hx, hy => Option.some.inj (hx.symm.trans hy)
  | .list items, hx, hy => by
    obtain ⟨d, vs, hvs, rfl, rfl⟩ := value?_list_cases hx
    obtain ⟨d', ws, hws, hd, rfl⟩ := value?_list_cases hy
    obtain rfl := Nat.succ.inj hd
    rw [items.itemValues?_eq hvs hws]
  | @Reordered.object ms _ ns distinct members order, hx, hy => by
    have same {name : NameToken} {token : ScalarToken}
        (hms : ms = [(name, .scalar token)] ∨ ns = [(name, .scalar token)]) : v = w := by
      obtain rfl := (Reordered.object distinct members order).eq_of_singleton hms
      exact Option.some.inj (hx.symm.trans hy)
    rcases value?_object_cases hx with ⟨name, token, -, hms⟩ | ⟨-, d, es, hes, rfl, rfl⟩
    · exact same (.inl hms)
    rcases value?_object_cases hy with ⟨name, token, -, hms⟩ | ⟨-, d', gs, hgs, hd, rfl⟩
    · exact same (.inr hms)
    obtain rfl := Nat.succ.inj hd
    obtain ⟨fs, hfs, hperm⟩ := exists_memberValues?_of_perm order.symm hgs
    obtain rfl := members.memberValues?_eq hes hfs
    rw [ofList_entries_eq_of_perm distinct hes hperm.symm]

theorem ReorderedItems.itemValues?_eq {xs ys : List Tree} {depth : Nat} {vs ws : List Value} :
    ReorderedItems xs ys → itemValues? xs depth = some vs → itemValues? ys depth = some ws → vs = ws
  | .nil, hx, hy => Option.some.inj (hx.symm.trans hy)
  | .cons head tail, hx, hy => by
    rw [itemValues?] at hx hy
    obtain ⟨v, hv, hx⟩ := Option.bind_eq_some_iff.mp hx
    obtain ⟨vs, hvs, rfl⟩ := Option.map_eq_some_iff.mp hx
    obtain ⟨w, hw, hy⟩ := Option.bind_eq_some_iff.mp hy
    obtain ⟨ws, hws, rfl⟩ := Option.map_eq_some_iff.mp hy
    rw [head.value?_eq hv hw, tail.itemValues?_eq hvs hws]

theorem ReorderedMembers.memberValues?_eq {ms ns : List (NameToken × Tree)} {depth : Nat}
    {es fs : List (String × Value)} : ReorderedMembers ms ns → memberValues? ms depth = some es →
      memberValues? ns depth = some fs → es = fs
  | .nil, hx, hy => Option.some.inj (hx.symm.trans hy)
  | .cons head tail, hx, hy => by
    obtain ⟨n, v, es', hn, hv, hes', rfl⟩ := memberValues?_cons_eq_some_iff.mp hx
    obtain ⟨n', w, fs', hn', hw, hfs', rfl⟩ := memberValues?_cons_eq_some_iff.mp hy
    rw [Option.some.inj (hn.symm.trans hn'), head.value?_eq hv hw, tail.memberValues?_eq hes' hfs']

end

/-! ### Plain trees -/

mutual

/--
Whether scalars and names say something, no name is the reserved one, and containers stand
at most that deep inside one another.
-/
def plain : Tree → Nat → Bool
  | scalar token, _ => token.value?.isSome
  | list _, 0 => false
  | list items, depth + 1 => plainItems items depth
  | object _, 0 => false
  | object members, depth + 1 => plainMembers members depth

def plainItems : List Tree → Nat → Bool
  | [], _ => true
  | x :: rest, depth => plain x depth && plainItems rest depth

def plainMembers : List (NameToken × Tree) → Nat → Bool
  | [], _ => true
  | (name, x) :: rest, depth =>
    name.text?.any (· ≠ Value.reservedName) && plain x depth && plainMembers rest depth

end

theorem plainMembers_cons_iff {name : NameToken} {x : Tree} {ms : List (NameToken × Tree)}
    {depth : Nat} : plainMembers ((name, x) :: ms) depth = true ↔
      (∃ n, name.text? = some n ∧ n ≠ Value.reservedName) ∧ plain x depth = true ∧
        plainMembers ms depth = true := by
  rw [plainMembers, Bool.and_eq_true, Bool.and_eq_true, and_assoc]
  cases name.text? <;> simp

mutual

theorem exists_value?_of_plain : (x : Tree) → ∀ {depth : Nat}, plain x depth = true →
    ∃ v, value? x depth = some v
  | .scalar token, depth, h => by
    rw [plain] at h
    rw [value?]
    exact Option.isSome_iff_exists.mp h
  | .list items, depth, h => by
    cases depth with
    | zero =>
      rw [plain] at h
      cases h
    | succ depth =>
      rw [plain] at h
      obtain ⟨vs, hvs⟩ := exists_itemValues?_of_plain items h
      exact ⟨.list vs, by rw [value?, hvs]; rfl⟩
  | .object members, depth, h => by
    cases depth with
    | zero =>
      rw [plain] at h
      cases h
    | succ depth =>
      rw [plain] at h
      obtain ⟨es, hes⟩ := exists_memberValues?_of_plain members h
      cases members with
      | nil => exact ⟨.object [], by rw [value?]⟩
      | cons m ms =>
        obtain ⟨name, x⟩ := m
        obtain ⟨⟨n, hn, hne⟩, -, -⟩ := plainMembers_cons_iff.mp h
        have hname : name.text? ≠ some Value.reservedName := fun heq =>
          hne (Option.some.inj (hn.symm.trans heq))
        exact ⟨_, by rw [value?, if_neg hname, hes]; rfl⟩

theorem exists_itemValues?_of_plain : (xs : List Tree) → ∀ {depth : Nat},
    plainItems xs depth = true → ∃ vs, itemValues? xs depth = some vs
  | [], depth, _ => ⟨[], by rw [itemValues?]⟩
  | x :: xs, depth, h => by
    rw [plainItems, Bool.and_eq_true] at h
    obtain ⟨v, hv⟩ := exists_value?_of_plain x h.1
    obtain ⟨vs, hvs⟩ := exists_itemValues?_of_plain xs h.2
    exact ⟨v :: vs, by rw [itemValues?, hv, hvs]; rfl⟩

theorem exists_memberValues?_of_plain : (ms : List (NameToken × Tree)) → ∀ {depth : Nat},
    plainMembers ms depth = true → ∃ es, memberValues? ms depth = some es
  | [], depth, _ => ⟨[], by rw [memberValues?]⟩
  | (name, x) :: ms, depth, h => by
    obtain ⟨⟨n, hn, -⟩, hx, hms⟩ := plainMembers_cons_iff.mp h
    obtain ⟨v, hv⟩ := exists_value?_of_plain x hx
    obtain ⟨es, hes⟩ := exists_memberValues?_of_plain ms hms
    exact ⟨(n, v) :: es, memberValues?_cons_eq_some_iff.mpr ⟨n, v, es, hn, hv, hes, rfl⟩⟩

end

theorem plainMembers_eq_of_perm {ms ns : List (NameToken × Tree)} {depth : Nat}
    (h : ms.Perm ns) : plainMembers ms depth = plainMembers ns depth := by
  induction h with
  | nil => rfl
  | cons m _ ih => rw [plainMembers, plainMembers, ih]
  | swap m m' ms =>
    simp only [plainMembers]
    exact Bool.and_left_comm _ _ _
  | trans _ _ ih ih' => exact ih.trans ih'

mutual

/-- In another order, a plain tree is plain. -/
theorem Reordered.plain_eq {x y : Tree} {depth : Nat} : Reordered x y →
    plain x depth = plain y depth
  | .scalar token => rfl
  | .list items => by
    cases depth with
    | zero => rw [plain, plain]
    | succ depth => rw [plain, plain, items.plainItems_eq]
  | .object _ members order => by
    cases depth with
    | zero => rw [plain, plain]
    | succ depth =>
      rw [plain, plain, members.plainMembers_eq, plainMembers_eq_of_perm order]

theorem ReorderedItems.plainItems_eq {xs ys : List Tree} {depth : Nat} :
    ReorderedItems xs ys → plainItems xs depth = plainItems ys depth
  | .nil => rfl
  | .cons head tail => by rw [plainItems, plainItems, head.plain_eq, tail.plainItems_eq]

theorem ReorderedMembers.plainMembers_eq {ms ns : List (NameToken × Tree)} {depth : Nat} :
    ReorderedMembers ms ns → plainMembers ms depth = plainMembers ns depth
  | .nil => rfl
  | .cons head tail => by
    rw [plainMembers, plainMembers, head.plain_eq, tail.plainMembers_eq]

end

/-! ### Trees that say a text -/

/-- A tree whose value is a text has no other order. -/
theorem Reordered.eq_of_text {x y : Tree} {depth : Nat} {text : String} (h : Reordered x y)
    (hvalue : value? x depth = some (.text text) ∨ value? y depth = some (.text text)) : x = y := by
  cases h with
  | scalar token => rfl
  | list items =>
    rcases hvalue with h | h
    all_goals
      obtain ⟨_, _, -, -, h⟩ := value?_list_cases h
      cases h
  | object distinct members order =>
    have hsingleton (ms : List (NameToken × Tree))
        (h : value? (.object ms) depth = some (.text text)) :
        ∃ name token, ms = [(name, .scalar token)] := by
      rcases value?_object_cases h with ⟨name, token, -, hms⟩ | ⟨-, _, _, _, _, h⟩
      · exact ⟨name, token, hms⟩
      · cases h
    have h := Reordered.object distinct members order
    rcases hvalue with hx | hy
    · obtain ⟨name, token, hms⟩ := hsingleton _ hx
      rw [h.eq_of_singleton (.inl hms)]
    · obtain ⟨name, token, hms⟩ := hsingleton _ hy
      rw [h.eq_of_singleton (.inr hms)]

end Tree

end FleetPlan.Json
