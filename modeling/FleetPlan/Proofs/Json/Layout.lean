/-
The two forms of a document are one form with different space.

A `Layout` says what space stands in front of the items of a container and behind a
colon.  `Document.lay` writes a document in any layout; without space it is the
compact form, and with line breaks and blanks it is the form over several lines.
What is shown of `lay` holds of both.
-/
import FleetPlan.Json.Document
import FleetPlan.Proofs.Json.Reader
import FleetPlan.Proofs.Json.Literal

namespace FleetPlan.Json

/-- The space between the parts of a document. -/
structure Layout where
  /-- In front of an item, or of a closing bracket, on a level. -/
  newline : Nat → Octets
  /-- Behind a colon. -/
  gap : Octets
  blank_newline : ∀ level, Blank (newline level)
  blank_gap : Blank gap

namespace Layout

/-- No space at all. -/
def compact : Layout := ⟨fun _ => [], [], fun _ => blank_nil, blank_nil⟩

/-- Every item on a line of its own, two blanks for each level. -/
def lines : Layout where
  newline level := 0x0a :: List.replicate (2 * level) 0x20
  gap := [0x20]
  blank_newline level := by
    intro c hc
    rcases List.mem_cons.mp hc with rfl | hc
    · decide
    · rw [List.eq_of_mem_replicate hc]
      decide
  blank_gap := by simp [Blank, Ascii.isSpace]

/-- What stands in front of the space before an item. -/
def separator : (first : Bool) → Octets
  | true => []
  | false => [Ascii.comma]

variable (L : Layout)

def items (level : Nat) (first : Bool) : List Octets → Octets
  | [] => []
  | w :: ws => separator first ++ (L.newline level ++ (w ++ items level false ws))

/-- The space in front of the bracket that closes a container. -/
def closing (level : Nat) (ws : List Octets) : Octets := if ws = [] then [] else L.newline level

/-- A container. -/
def block (level : Nat) (opener closer : UInt8) (ws : List Octets) : Octets :=
  opener :: (L.items (level + 1) true ws ++ (L.closing level ws ++ [closer]))

/-- A member. -/
def member (e : String × Octets) : Octets :=
  Text.octets (writeText e.1) ++ Ascii.colon :: (L.gap ++ e.2)

theorem blank_closing (level : Nat) (ws : List Octets) : Blank (L.closing level ws) := by
  unfold closing
  split
  · exact blank_nil
  · exact L.blank_newline level

end Layout

namespace Document

mutual

/-- The document in a layout, its first line at the place where it stands. -/
def lay (L : Layout) (level : Nat) : Document → Octets
  | list items => L.block level Ascii.openBracket Ascii.closeBracket (layItems L (level + 1) items)
  | object members =>
    L.block level Ascii.openBrace Ascii.closeBrace (layMembers L (level + 1) members)
  | null => Text.octets (scalarText null)
  | boolean b => Text.octets (scalarText (boolean b))
  | integer i => Text.octets (scalarText (integer i))
  | double d => Text.octets (scalarText (double d))
  | text s => Text.octets (scalarText (text s))
  | verbatim t => Text.octets (scalarText (verbatim t))

def layItems (L : Layout) (level : Nat) : List Document → List Octets
  | [] => []
  | d :: rest => lay L level d :: layItems L level rest

def layMembers (L : Layout) (level : Nat) : List (String × Document) → List Octets
  | [] => []
  | (name, d) :: rest => L.member (name, lay L level d) :: layMembers L level rest

end

theorem layItems_eq (L : Layout) (level : Nat) (ds : List Document) :
    layItems L level ds = ds.map (lay L level) := by
  induction ds with
  | nil => rw [layItems, List.map_nil]
  | cons d ds ih => rw [layItems, ih, List.map_cons]

theorem layMembers_eq (L : Layout) (level : Nat) (es : List (String × Document)) :
    layMembers L level es = es.map fun e => L.member (e.1, lay L level e.2) := by
  induction es with
  | nil => rw [layMembers, List.map_nil]
  | cons e es ih => rw [layMembers, ih, List.map_cons]

/-! ### The two layouts -/

/-- Texts joined by a comma and the space in front of an item are items. -/
theorem octets_joined {L : Layout} {level : Nat} {separator : String}
    (h : Text.octets separator = Ascii.comma :: L.newline level) (s : String) (rest : List String) :
    Text.octets (joined separator (s :: rest)) =
      Text.octets s ++ L.items level false (rest.map Text.octets) := by
  induction rest generalizing s with
  | nil => simp [joined, Layout.items]
  | cons t rest ih =>
    rw [joined, Text.octets_append, Text.octets_append, ih, h, List.map_cons, Layout.items]
    · simp [Layout.separator]
    · exact List.cons_ne_nil _ _

theorem flatMap_blanks (n : Nat) :
    (List.replicate n ' ').flatMap String.utf8EncodeChar = List.replicate n 0x20 := by
  induction n with
  | zero => rfl
  | succ n ih =>
    rw [List.replicate_succ, List.flatMap_cons, ih, List.replicate_succ]
    rfl

theorem octets_newline (level : Nat) :
    Text.octets (newline level) = Layout.lines.newline level := by
  have hblanks : Text.octets (String.ofList (List.replicate (2 * level) ' ')) =
      List.replicate (2 * level) 0x20 := by rw [Text.octets_ofList, flatMap_blanks]
  rw [newline, Text.octets_append, hblanks]
  rfl

theorem octets_block {opening closing : String} {o c : UInt8} (ho : Text.octets opening = [o])
    (hc : Text.octets closing = [c]) (level : Nat) (ss : List String) :
    Text.octets (block opening closing level ss) =
      Layout.lines.block level o c (ss.map Text.octets) := by
  cases ss with
  | nil =>
    rw [show block opening closing level [] = opening ++ closing from rfl, Text.octets_append, ho,
      hc]
    rfl
  | cons s rest =>
    have hseparator : Text.octets ("," ++ newline (level + 1)) =
        Ascii.comma :: Layout.lines.newline (level + 1) := by
      rw [Text.octets_append, octets_newline]
      rfl
    rw [block, if_neg (by simp)]
    simp only [Text.octets_append, octets_joined hseparator, octets_newline, ho, hc]
    simp [Layout.block, Layout.items, Layout.closing, Layout.separator]

theorem octets_row {opening closing : String} {o c : UInt8} (ho : Text.octets opening = [o])
    (hc : Text.octets closing = [c]) (level : Nat) (ss : List String) :
    Text.octets (opening ++ joined "," ss ++ closing) =
      Layout.compact.block level o c (ss.map Text.octets) := by
  cases ss with
  | nil =>
    rw [joined, Text.octets_append, Text.octets_append, ho, hc]
    rfl
  | cons s rest =>
    have hseparator : Text.octets "," = Ascii.comma :: Layout.compact.newline (level + 1) := rfl
    simp only [Text.octets_append, octets_joined hseparator, ho, hc]
    simp [Layout.block, Layout.items, Layout.closing, Layout.separator, Layout.compact]

mutual

/-- Over several lines a document stands in the layout of lines. -/
theorem octets_prettyAt (level : Nat) : (d : Document) →
    Text.octets (prettyAt level d) = lay .lines level d
  | list items => by
    rw [prettyAt, lay, octets_block (o := Ascii.openBracket) (c := Ascii.closeBracket) rfl rfl,
      octets_prettyItems]
  | object members => by
    rw [prettyAt, lay, octets_block (o := Ascii.openBrace) (c := Ascii.closeBrace) rfl rfl,
      octets_prettyMembers]
  | null => by rw [prettyAt, lay]; rfl
  | boolean b => by rw [prettyAt, lay]
  | integer i => by rw [prettyAt, lay]
  | double d => by rw [prettyAt, lay]
  | text s => by rw [prettyAt, lay]
  | verbatim t => by rw [prettyAt, lay]

theorem octets_prettyItems (level : Nat) : (ds : List Document) →
    (prettyItems level ds).map Text.octets = layItems .lines level ds
  | [] => by rw [prettyItems, layItems, List.map_nil]
  | d :: ds => by
    rw [prettyItems, layItems, List.map_cons, octets_prettyAt level d, octets_prettyItems level ds]

theorem octets_prettyMembers (level : Nat) : (es : List (String × Document)) →
    (prettyMembers level es).map Text.octets = layMembers .lines level es
  | [] => by rw [prettyMembers, layMembers, List.map_nil]
  | (name, d) :: es => by
    rw [prettyMembers, layMembers, List.map_cons, octets_prettyMembers level es,
      Text.octets_append, Text.octets_append, octets_prettyAt level d, List.append_assoc]
    rfl

end

mutual

/-- Without space a document stands in the compact layout, on whatever level. -/
theorem octets_compact (level : Nat) : (d : Document) →
    Text.octets (compact d) = lay .compact level d
  | list items => by
    rw [compact, lay, octets_row (o := Ascii.openBracket) (c := Ascii.closeBracket) rfl rfl level,
      octets_compactItems (level + 1)]
  | object members => by
    rw [compact, lay, octets_row (o := Ascii.openBrace) (c := Ascii.closeBrace) rfl rfl level,
      octets_compactMembers (level + 1)]
  | null => by rw [compact, lay]; rfl
  | boolean b => by rw [compact, lay]
  | integer i => by rw [compact, lay]
  | double d => by rw [compact, lay]
  | text s => by rw [compact, lay]
  | verbatim t => by rw [compact, lay]

theorem octets_compactItems (level : Nat) : (ds : List Document) →
    (compactItems ds).map Text.octets = layItems .compact level ds
  | [] => by rw [compactItems, layItems, List.map_nil]
  | d :: ds => by
    rw [compactItems, layItems, List.map_cons, octets_compact level d, octets_compactItems level ds]

theorem octets_compactMembers (level : Nat) : (es : List (String × Document)) →
    (compactMembers es).map Text.octets = layMembers .compact level es
  | [] => by rw [compactMembers, layMembers, List.map_nil]
  | (name, d) :: es => by
    rw [compactMembers, layMembers, List.map_cons, octets_compactMembers level es,
      Text.octets_append, Text.octets_append, octets_compact level d, List.append_assoc]
    rfl

end

end Document

end FleetPlan.Json
