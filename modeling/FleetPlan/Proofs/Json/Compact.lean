/-
A document is known by its compact form.

A document is `Definite` when nothing in it is a copy of some text and its doubles are in
their one form.  The compact form of such a document ends where it seems to end, so whatever
stands behind it, the document and what stands behind it can be told apart
(`SelfDelimiting`).  The first octet says what the document is: a text, a container or a
word.  A text ends at its quote and a container at its bracket.  A word, which is a number or
one of the three names, goes on until something comes that ends a value.
-/
import FleetPlan.Proofs.Decimal.Text
import FleetPlan.Proofs.Json.Container
import FleetPlan.Proofs.Json.Number

namespace FleetPlan.Json

/-! ### Octets that end where they seem to end -/

section

variable {α : Type} {f : α → Octets} {Q : α → Prop} {x : α}

/-- In front of what ends a value, the octets of an element are those of no other element. -/
def SelfDelimiting (f : α → Octets) (Q : α → Prop) (x : α) : Prop :=
  ∀ y, Q y → ∀ r r', Delimited r → Delimited r' → f x ++ r = f y ++ r' → x = y ∧ r = r'

/-- Items end at the bracket, if none of them begins with it. -/
theorem items_cancel {closer : UInt8}
    (hcloser : closer = Ascii.closeBracket ∨ closer = Ascii.closeBrace)
    (hbegins : ∀ y, Q y → ∀ r t, f y ++ r ≠ closer :: t) {level : Nat} {r r' : Octets}
    {xs : List α} (hxs : ∀ x ∈ xs, Q x ∧ SelfDelimiting f Q x) {ys : List α} (hys : ∀ y ∈ ys, Q y)
    {first : Bool} (h : Layout.compact.items level first (xs.map f) ++ closer :: r =
      Layout.compact.items level first (ys.map f) ++ closer :: r') : xs = ys ∧ r = r' := by
  have hend (t : Octets) : Delimited (closer :: t) := delimited_cons (.inr hcloser) t
  -- In front of the bracket there is no further item.
  have hnone (y : α) (hy : Q y) (first : Bool) (ws : List Octets) (t u : Octets) :
      Layout.compact.items level first (f y :: ws) ++ t ≠ closer :: u := by
    rw [Layout.items_cons_append]
    cases first with
    | true => exact hbegins y hy _ _
    | false =>
      intro h
      have hcomma : Ascii.comma = closer := (List.cons.inj h).1
      rcases hcloser with rfl | rfl <;> exact absurd hcomma (by decide)
  induction xs generalizing ys first with
  | nil =>
    cases ys with
    | nil => exact ⟨rfl, (List.cons.inj h).2⟩
    | cons y ys => exact absurd h.symm (hnone y (hys y List.mem_cons_self) _ _ _ _)
  | cons x xs ih =>
    obtain ⟨hx, hself⟩ := hxs x List.mem_cons_self
    cases ys with
    | nil => exact absurd h (hnone x hx _ _ _ _)
    | cons y ys =>
      rw [List.map_cons, List.map_cons, Layout.items_cons_append, Layout.items_cons_append,
        List.append_cancel_left_eq] at h
      obtain ⟨rfl, hrest⟩ := hself y (hys y List.mem_cons_self) _ _
        (Layout.delimited_items (hend r)) (Layout.delimited_items (hend r')) h
      obtain ⟨rfl, hr⟩ := ih (fun z hz => hxs z (List.mem_cons_of_mem _ hz))
        (fun z hz => hys z (List.mem_cons_of_mem _ hz)) hrest
      exact ⟨rfl, hr⟩

end

/-! ### Texts -/

theorem textTail_cancel {s t : String} {r r' : Octets} (h : textTail s ++ r = textTail t ++ r') :
    s = t ∧ r = r' := by
  have hread := taken?_readText s r
  rw [h, taken?_readText] at hread
  obtain ⟨hs, hr⟩ := Prod.mk.inj (Option.some.inj hread)
  exact ⟨hs.symm, hr.symm⟩

/-! ### Words -/

/-- An octet that words are made of. -/
def isWordOctet (b : UInt8) : Bool :=
  Ascii.isDigit b || (0x61 ≤ b && b ≤ 0x7a) || b == Ascii.point || b == Ascii.plus ||
    b == Ascii.minus

def IsWord (w : Octets) : Prop := w ≠ [] ∧ ∀ b ∈ w, isWordOctet b = true

theorem not_isWordOctet_of_delimited {r : Octets} (h : Delimited r) :
    ∀ c ∈ r.head?, isWordOctet c = false := by
  intro c hc
  rcases h c hc with hspace | rfl | rfl | rfl
  · simp only [Ascii.isSpace, Bool.or_eq_true, beq_iff_eq] at hspace
    rcases hspace with ((rfl | rfl) | rfl) | rfl <;> decide
  · decide
  · decide
  · decide

/-- A word ends in front of what ends a value. -/
theorem IsWord.cancel {v w r r' : Octets} (hv : IsWord v) (hw : IsWord w) (hr : Delimited r)
    (hr' : Delimited r') (h : v ++ r = w ++ r') : v = w ∧ r = r' := by
  obtain ⟨htake, hdrop⟩ := Taken.takeWhile_append_of_head hv.2 (not_isWordOctet_of_delimited hr)
  obtain ⟨htake', hdrop'⟩ := Taken.takeWhile_append_of_head hw.2 (not_isWordOctet_of_delimited hr')
  rw [h] at htake hdrop
  exact ⟨htake.symm.trans htake', hdrop.symm.trans hdrop'⟩

/-! ### Numbers -/

/-- An octet that integers are made of. -/
def isIntOctet (b : UInt8) : Bool := b == Ascii.minus || Ascii.isDigit b

theorem isWordOctet_of_isIntOctet {b : UInt8} (h : isIntOctet b = true) :
    isWordOctet b = true := by
  simp only [isIntOctet, Bool.or_eq_true] at h
  simp only [isWordOctet, Bool.or_eq_true]
  rcases h with h | h
  · exact .inr h
  · exact .inl (.inl (.inl (.inl h)))

theorem isIntOctet_of_mem_intOctets {i : Int} {b : UInt8} (h : b ∈ intOctets i) :
    isIntOctet b = true := by
  cases i with
  | ofNat n => simp [isIntOctet, isDigit_of_mem_digitOctets (n := n) h]
  | negSucc n =>
    rcases List.mem_cons.mp h with rfl | h
    · rfl
    · simp [isIntOctet, isDigit_of_mem_digitOctets (n := n + 1) h]

theorem isWord_intOctets (i : Int) : IsWord (intOctets i) := by
  obtain ⟨c, r, h, -⟩ := exists_intOctets_eq_cons i
  exact ⟨by rw [h]; exact List.cons_ne_nil _ _,
    fun b hb => isWordOctet_of_isIntOctet (isIntOctet_of_mem_intOctets hb)⟩

section

open Decimal

/-- A character of a number is one octet, which tells what integers are not made of. -/
theorem utf8EncodeChar_of_isNumeral {c : Char} (h : isNumeral c = true) :
    ∃ b, String.utf8EncodeChar c = [b] ∧ isWordOctet b = true ∧
      (isIntOctet b = true → c.isDigit = true ∨ c = '-') := by
  simp only [isNumeral, Bool.or_eq_true, decide_eq_true_eq] at h
  rcases h with (((hdigit | rfl) | rfl) | rfl) | rfl
  · obtain ⟨hb, -, hdigit'⟩ := digit_octet hdigit
    have hint : isIntOctet (UInt8.ofNat c.toNat) = true := by simp [isIntOctet, hdigit']
    exact ⟨_, hb, isWordOctet_of_isIntOctet hint, fun _ => .inl hdigit⟩
  · exact ⟨_, rfl, by decide, by decide⟩
  · exact ⟨_, rfl, by decide, by decide⟩
  · exact ⟨_, rfl, by decide, by decide⟩
  · exact ⟨_, rfl, by decide, by decide⟩

theorem exists_octets_double (d : Double) :
    ∃ b r, Text.octets d.text = b :: r ∧ isIntOctet b = true := by
  obtain ⟨c, rest, htext, hc⟩ := d.exists_cons_text
  rw [Text.octets_eq, htext, List.flatMap_cons]
  rcases hc with hdigit | rfl
  · obtain ⟨hb, -, hdigit'⟩ := digit_octet hdigit
    exact ⟨_, _, by rw [hb]; rfl, by simp [isIntOctet, hdigit']⟩
  · exact ⟨Ascii.minus, _, rfl, rfl⟩

theorem isWord_double (d : Double) : IsWord (Text.octets d.text) := by
  constructor
  · obtain ⟨b, r, h, -⟩ := exists_octets_double d
    rw [h]
    exact List.cons_ne_nil _ _
  · rw [Text.octets_eq]
    intro b hb
    obtain ⟨c, hc, hb⟩ := List.mem_flatMap.mp hb
    obtain ⟨b', hb', hword, -⟩ := utf8EncodeChar_of_isNumeral (Double.isNumeral_of_mem_text hc)
    rw [hb', List.mem_singleton] at hb
    exact hb ▸ hword

/-- No integer has the text of a double. -/
theorem intOctets_ne_double (i : Int) (d : Double) : intOctets i ≠ Text.octets d.text := by
  intro h
  obtain ⟨c, hc, hdigit, hminus⟩ := d.exists_mark_of_text
  obtain ⟨b, hb, -, hint⟩ := utf8EncodeChar_of_isNumeral (Double.isNumeral_of_mem_text hc)
  have hmem : b ∈ intOctets i := by
    rw [h, Text.octets_eq]
    exact List.mem_flatMap.mpr ⟨c, hc, by rw [hb]; exact List.mem_singleton_self b⟩
  rcases hint (isIntOctet_of_mem_intOctets hmem) with hc | hc
  · rw [hc] at hdigit
    exact absurd hdigit (by decide)
  · exact hminus hc

end

/-! ### Definite documents -/

namespace Document

/-- A document that is written as a word.  A double has its one form. -/
inductive Word : Document → Prop
  | null : Word .null
  | boolean (b : Bool) : Word (.boolean b)
  | integer (i : Int) : Word (.integer i)
  | double {d : Decimal.Double} (h : d.magnitude.Canonical) : Word (.double d)

/-- A document in which nothing is copied and every double has its one form. -/
inductive Definite : Document → Prop
  | word {d : Document} (h : Word d) : Definite d
  | text (s : String) : Definite (.text s)
  | list {items : List Document} (h : ∀ d ∈ items, Definite d) : Definite (.list items)
  | object {members : List (String × Document)} (h : ∀ e ∈ members, Definite e.2) :
    Definite (.object members)

/-- The octets of the compact form. -/
def row (d : Document) : Octets := Text.octets d.compact

/-- The octets of a member of the compact form. -/
def memberRow (e : String × Document) : Octets :=
  Text.octets (writeText e.1) ++ Ascii.colon :: e.2.row

theorem row_text (s : String) : (text s).row = Ascii.quote :: textTail s := by
  rw [row, compact, scalarText, octets_writeText]

theorem row_list (items : List Document) :
    (list items).row = Ascii.openBracket ::
      (Layout.compact.items 1 true (items.map row) ++ [Ascii.closeBracket]) := by
  have hrow : row = lay .compact 1 := funext fun d => octets_compact 1 d
  rw [row, octets_compact 0, lay, layItems_eq, hrow, Layout.block, Layout.closing]
  simp [Layout.compact]

theorem row_object (members : List (String × Document)) :
    (object members).row = Ascii.openBrace ::
      (Layout.compact.items 1 true (members.map memberRow) ++ [Ascii.closeBrace]) := by
  have hrow : memberRow = fun e => Layout.compact.member (e.1, lay .compact 1 e.2) := by
    funext e
    rw [memberRow, row, octets_compact 1, Layout.member]
    rfl
  rw [row, octets_compact 0, lay, layMembers_eq, hrow, Layout.block, Layout.closing]
  simp [Layout.compact]

/-! ### Words -/

theorem row_null : null.row = Ascii.lowerN :: nullTail := rfl

theorem row_true : (boolean true).row = Ascii.lowerT :: trueTail := rfl

theorem row_false : (boolean false).row = Ascii.lowerF :: falseTail := rfl

theorem row_integer (i : Int) : (integer i).row = intOctets i := by
  rw [row, compact, scalarText, octets_toString]

theorem row_double (d : Decimal.Double) : (double d).row = Text.octets d.text := by
  rw [row, compact, scalarText]

theorem Word.isWord_row {d : Document} (h : Word d) : IsWord d.row := by
  cases h with
  | null =>
    rw [row_null]
    exact ⟨List.cons_ne_nil _ _, List.all_eq_true.mp rfl⟩
  | boolean b =>
    cases b with
    | true =>
      rw [row_true]
      exact ⟨List.cons_ne_nil _ _, List.all_eq_true.mp rfl⟩
    | false =>
      rw [row_false]
      exact ⟨List.cons_ne_nil _ _, List.all_eq_true.mp rfl⟩
  | integer i =>
    rw [row_integer]
    exact isWord_intOctets i
  | double _ =>
    rw [row_double]
    exact isWord_double _

/-- Numbers, as against the three names. -/
def isNumber : Document → Bool
  | integer _ | double _ => true
  | _ => false

/-- The first octet tells a number from a name. -/
theorem Word.head?_row {d : Document} (h : Word d) :
    d.row.head?.map isIntOctet = some d.isNumber := by
  cases h with
  | null => rfl
  | boolean b => cases b <;> rfl
  | integer i =>
    obtain ⟨c, r, hi, hc⟩ := exists_intOctets_eq_cons i
    rw [row_integer, hi]
    rcases hc with rfl | hc <;> simp [isIntOctet, isNumber, *]
  | double _ =>
    rename_i d _
    obtain ⟨b, r, h, hb⟩ := exists_octets_double d
    rw [row_double, h]
    simp [hb, isNumber]

/-- **A word is known by its octets.** -/
theorem Word.eq_of_row_eq {d e : Document} (hd : Word d) (he : Word e) (h : d.row = e.row) :
    d = e := by
  have hkind : d.isNumber = e.isNumber := by
    have hhead := hd.head?_row
    rw [h, he.head?_row] at hhead
    exact (Option.some.inj hhead).symm
  cases hd with
  | null =>
    cases he with
    | null => rfl
    | boolean b => cases b <;> exact absurd h (by decide)
    | integer i => exact nomatch hkind
    | double _ => exact nomatch hkind
  | boolean b =>
    cases he with
    | null => cases b <;> exact absurd h (by decide)
    | boolean b' =>
      cases b <;> cases b' <;> first | rfl | exact absurd h (by decide)
    | integer i => exact nomatch hkind
    | double _ => exact nomatch hkind
  | integer i =>
    rw [row_integer] at h
    cases he with
    | null => exact nomatch hkind
    | boolean b => exact nomatch hkind
    | integer j =>
      rw [row_integer, ← octets_toString, ← octets_toString] at h
      rw [Int.repr_inj.mp (Text.octets_inj h)]
    | double _ => exact absurd h (intOctets_ne_double i _)
  | double hd =>
    rw [row_double] at h
    cases he with
    | null => exact nomatch hkind
    | boolean b => exact nomatch hkind
    | integer j =>
      rw [row_integer] at h
      exact absurd h.symm (intOctets_ne_double j _)
    | double he => rw [Decimal.Double.eq_of_text_eq hd he (Text.octets_inj h)]

/-! ### All documents -/

/-- What the first octet of a document tells. -/
inductive Kind where
  | word
  | text
  | list
  | object

def kind : Document → Kind
  | text _ => .text
  | list _ => .list
  | object _ => .object
  | _ => .word

/-- The kind of the documents that begin with an octet. -/
def kindOf? (c : UInt8) : Option Kind :=
  if isWordOctet c then some .word
  else if c = Ascii.quote then some .text
  else if c = Ascii.openBracket then some .list
  else if c = Ascii.openBrace then some .object
  else none

theorem Word.kind_eq {d : Document} (h : Word d) : d.kind = .word := by
  cases h <;> rfl

theorem Definite.exists_row {d : Document} (h : Definite d) :
    ∃ c w, d.row = c :: w ∧ kindOf? c = some d.kind := by
  cases h with
  | word hw =>
    obtain ⟨hne, hoctets⟩ := hw.isWord_row
    obtain ⟨c, w, hrow⟩ := List.exists_cons_of_ne_nil hne
    have hc : isWordOctet c = true := hoctets c (hrow ▸ List.mem_cons_self)
    exact ⟨c, w, hrow, by rw [kindOf?, if_pos hc, hw.kind_eq]⟩
  | text s => exact ⟨_, _, row_text s, rfl⟩
  | list _ => exact ⟨_, _, row_list _, rfl⟩
  | object _ => exact ⟨_, _, row_object _, rfl⟩

/-- Documents in front of the same octets are of one kind. -/
theorem Definite.kind_eq {d e : Document} (hd : Definite d) (he : Definite e) {r r' : Octets}
    (h : d.row ++ r = e.row ++ r') : d.kind = e.kind := by
  obtain ⟨c, w, hdrow, hc⟩ := hd.exists_row
  obtain ⟨c', w', herow, hc'⟩ := he.exists_row
  rw [hdrow, herow] at h
  rw [(List.cons.inj h).1, hc'] at hc
  exact (Option.some.inj hc).symm

/-- No document begins with a bracket that closes a list. -/
theorem Definite.row_ne_closeBracket {d : Document} (h : Definite d) (r t : Octets) :
    d.row ++ r ≠ Ascii.closeBracket :: t := by
  intro heq
  obtain ⟨c, w, hrow, hc⟩ := h.exists_row
  rw [hrow] at heq
  rw [(List.cons.inj heq).1] at hc
  exact nomatch hc

theorem memberRow_ne_closeBrace (e : String × Document) (r t : Octets) :
    memberRow e ++ r ≠ Ascii.closeBrace :: t := by
  rw [memberRow, octets_writeText]
  intro heq
  exact absurd (List.cons.inj heq).1 (by decide)

/-- A member ends where its document ends. -/
theorem selfDelimiting_memberRow {e : String × Document}
    (h : SelfDelimiting row Definite e.2) :
    SelfDelimiting memberRow (fun e => Definite e.2) e := by
  intro e' he' r r' hr hr' heq
  unfold memberRow at heq
  rw [octets_writeText, octets_writeText, List.append_assoc, List.append_assoc] at heq
  obtain ⟨hname, hrest⟩ := textTail_cancel (List.cons.inj heq).2
  obtain ⟨hvalue, hr⟩ := h e'.2 he' r r' hr hr' (List.cons.inj hrest).2
  exact ⟨Prod.ext hname hvalue, hr⟩

/-- **A definite document ends where it seems to end.** -/
theorem Definite.selfDelimiting {d : Document} (hd : Definite d) :
    SelfDelimiting row Definite d := by
  induction hd with
  | word hw =>
    intro e he r r' hr hr' h
    have hkind := hw.kind_eq.symm.trans ((Definite.word hw).kind_eq he h)
    cases he with
    | word hw' =>
      obtain ⟨hrow, hrest⟩ := hw.isWord_row.cancel hw'.isWord_row hr hr' h
      exact ⟨hw.eq_of_row_eq hw' hrow, hrest⟩
    | text _ => exact nomatch hkind
    | list _ => exact nomatch hkind
    | object _ => exact nomatch hkind
  | text s =>
    intro e he r r' hr hr' h
    have hkind := (Definite.text s).kind_eq he h
    cases he with
    | word hw => exact nomatch hkind.trans hw.kind_eq
    | text t =>
      rw [row_text, row_text] at h
      obtain ⟨rfl, hrest⟩ := textTail_cancel (List.cons.inj h).2
      exact ⟨rfl, hrest⟩
    | list _ => exact nomatch hkind
    | object _ => exact nomatch hkind
  | list hitems ih =>
    intro e he r r' hr hr' h
    have hkind := (Definite.list hitems).kind_eq he h
    cases he with
    | word hw => exact nomatch hkind.trans hw.kind_eq
    | text _ => exact nomatch hkind
    | list hitems' =>
      rw [row_list, row_list, List.cons_append, List.cons_append, List.append_assoc,
        List.append_assoc] at h
      obtain ⟨rfl, hrest⟩ := items_cancel (.inl rfl) (fun _ hy => hy.row_ne_closeBracket)
        (fun x hx => ⟨hitems x hx, ih x hx⟩) hitems' (List.cons.inj h).2
      exact ⟨rfl, hrest⟩
    | object _ => exact nomatch hkind
  | object hmembers ih =>
    intro e he r r' hr hr' h
    have hkind := (Definite.object hmembers).kind_eq he h
    cases he with
    | word hw => exact nomatch hkind.trans hw.kind_eq
    | text _ => exact nomatch hkind
    | list _ => exact nomatch hkind
    | object hmembers' =>
      rw [row_object, row_object, List.cons_append, List.cons_append, List.append_assoc,
        List.append_assoc] at h
      obtain ⟨rfl, hrest⟩ := items_cancel (.inr rfl) (fun y _ => memberRow_ne_closeBrace y)
        (fun x hx => ⟨hmembers x hx, selfDelimiting_memberRow (ih x hx)⟩) hmembers'
        (List.cons.inj h).2
      exact ⟨rfl, hrest⟩

/-- **A definite document is known by its compact form.** -/
theorem Definite.eq_of_compact_eq {d e : Document} (hd : Definite d) (he : Definite e)
    (h : Text.octets d.compact = Text.octets e.compact) : d = e :=
  (hd.selfDelimiting e he [] [] (by simp [Delimited]) (by simp [Delimited])
    (congrArg (· ++ []) h)).1

end Document

end FleetPlan.Json
