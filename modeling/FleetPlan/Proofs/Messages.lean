/-
What can be told from the message of a refusal.

A message puts each id in quotes between texts of its own.  Two things keep it from being
ambiguous, whatever the ids are.  Quoted text ends where it ends: how a character stands in
quotes is never the beginning of how another stands there, and no character stands there as a
bare double quote.  And the texts between the ids have no double quote in them, so the first
one in a message is where its first id begins.

A message is therefore cut in one way only into texts and ids (`Wording.text_injective`), and
as no two kinds of refusal have the same texts, it tells the refusal.
-/
import FleetPlan.Run.Order
import FleetPlan.Slice.Cut
import FleetPlan.Taken
import Mathlib.Data.List.Basic

namespace FleetPlan

namespace Text

/-! ### Digits -/

theorem digitChar_inj {m n : Nat} (hm : m < 16) (hn : n < 16)
    (h : Nat.digitChar m = Nat.digitChar n) : m = n := by
  have hall : ∀ m n : Fin 16, Nat.digitChar m = Nat.digitChar n → m = n := by decide
  exact Fin.mk.inj (hall ⟨m, hm⟩ ⟨n, hn⟩ h)

theorem hexDigits_eq_if (n : Nat) : hexDigits n =
    if n < 16 then [n.digitChar] else hexDigits (n / 16) ++ [(n % 16).digitChar] :=
  Nat.toDigits_eq_if (by decide)

theorem hexDigits_ne_nil (n : Nat) : hexDigits n ≠ [] := Nat.toDigits_ne_nil

theorem hexDigits_inj {m n : Nat} (h : hexDigits m = hexDigits n) : m = n := by
  induction m using Nat.strongRecOn generalizing n with
  | ind m ih =>
    rw [hexDigits_eq_if m, hexDigits_eq_if n] at h
    split at h
    · rename_i hm
      split at h
      · rename_i hn
        exact digitChar_inj hm hn (List.cons.inj h).1
      · exact absurd (List.append_eq_singleton_iff.mp h.symm) (by simp [hexDigits_ne_nil])
    · rename_i hm
      split at h
      · exact absurd (List.append_eq_singleton_iff.mp h) (by simp [hexDigits_ne_nil])
      · obtain ⟨hdiv, hmod⟩ := List.append_inj' h rfl
        have hdiv := ih (m / 16) (by omega) hdiv
        have hmod := digitChar_inj (by omega) (by omega) (List.cons.inj hmod).1
        omega

theorem brace_not_mem_hexDigits (n : Nat) : '\x7d' ∉ hexDigits n := by
  induction n using Nat.strongRecOn with
  | ind n ih =>
    have hdigit (m : Nat) : '\x7d' ≠ Nat.digitChar m := (Nat.digitChar_ne _ (by decide)).symm
    rw [hexDigits_eq_if]
    split
    · simp [hdigit]
    · rename_i hn
      simpa [hdigit] using ih (n / 16) (by omega)

/-! ### Quoted text -/

/-- What a character means behind a backslash. -/
def unescaped : Char → Char
  | '0' => '\x00'
  | 't' => '\t'
  | 'r' => '\r'
  | 'n' => '\n'
  | e => e

/-- How a character may stand in quotes: as it is, behind a backslash, or by its number. -/
inductive Quotes : Char → List Char → Prop
  | plain {c : Char} (hquote : c ≠ '"') (hbackslash : c ≠ '\\') : Quotes c [c]
  | escaped (e : Char) (he : e ≠ 'u') : Quotes (unescaped e) ['\\', e]
  | numbered {c : Char} : Quotes c ('\\' :: 'u' :: '\x7b' :: (hexDigits c.toNat ++ ['\x7d']))

theorem quotes_quoteChar (c : Char) : Quotes c (quoteChar c) := by
  have hescaped {e : Char} (he : e ≠ 'u') (hc : c = unescaped e) : Quotes c ['\\', e] :=
    hc ▸ .escaped e he
  unfold quoteChar
  split
  · exact hescaped (by decide) ‹_›
  split
  · exact hescaped (by decide) ‹_›
  split
  · exact hescaped (by decide) ‹_›
  split
  · exact hescaped (by decide) ‹_›
  split
  · exact hescaped (by decide) ‹_›
  split
  · exact hescaped (by decide) ‹_›
  rename_i hquote hbackslash
  split
  · exact .plain hquote hbackslash
  · exact .numbered

/-- What stands in front of the first separator of a list, and what stands behind it. -/
theorem append_cons_inj {stop : Char} {xs ys r s : List Char} (hx : stop ∉ xs) (hy : stop ∉ ys)
    (h : xs ++ stop :: r = ys ++ stop :: s) : xs = ys ∧ r = s := by
  have hends {run rest : List Char} (hrun : stop ∉ run) :
      (run ++ stop :: rest).takeWhile (· ≠ stop) = run ∧
        (run ++ stop :: rest).dropWhile (· ≠ stop) = stop :: rest :=
    Taken.takeWhile_append_of_head (fun c hc => by simpa using ne_of_mem_of_not_mem hc hrun)
      (by simp)
  obtain ⟨hfront, hbehind⟩ := hends hx
  rw [h] at hfront hbehind
  exact ⟨hfront.symm.trans (hends hy).1, (List.cons.inj (hbehind.symm.trans (hends hy).2)).2⟩

namespace Quotes

variable {c d : Char} {w v r s : List Char}

/-- No character stands in quotes as what ends them. -/
theorem append_ne_quote (h : Quotes c w) : w ++ r ≠ '"' :: s := by
  cases h with
  | plain hquote _ => simp [hquote]
  | escaped _ _ => simp
  | numbered => simp

/-- Where a character ends in quotes is told by what stands there. -/
theorem append_inj (hw : Quotes c w) (hv : Quotes d v) (h : w ++ r = v ++ s) : c = d ∧ r = s := by
  cases hw with
  | plain _ hc =>
    cases hv with
    | plain => simpa using h
    | escaped => exact absurd (List.cons.inj h).1 hc
    | numbered => exact absurd (List.cons.inj h).1 hc
  | escaped e he =>
    cases hv with
    | plain _ hd => exact absurd (List.cons.inj h).1.symm hd
    | escaped f _ =>
      obtain ⟨rfl, rfl⟩ : e = f ∧ r = s := by simpa using h
      exact ⟨rfl, rfl⟩
    | numbered =>
      have hu : e = 'u' := (List.cons.inj (List.cons.inj h).2).1
      exact absurd hu he
  | numbered =>
    cases hv with
    | plain _ hd => exact absurd (List.cons.inj h).1.symm hd
    | escaped f hf =>
      have hu : 'u' = f := (List.cons.inj (List.cons.inj h).2).1
      exact absurd hu.symm hf
    | numbered =>
      have hdigits : hexDigits c.toNat ++ '\x7d' :: r = hexDigits d.toNat ++ '\x7d' :: s := by
        simpa using h
      obtain ⟨hnumber, hrest⟩ := append_cons_inj (brace_not_mem_hexDigits _)
        (brace_not_mem_hexDigits _) hdigits
      exact ⟨Char.toNat_inj.mp (hexDigits_inj hnumber), hrest⟩

end Quotes

theorem toList_quoted (s : String) :
    (quoted s).toList = '"' :: (s.toList.flatMap quoteChar ++ ['"']) := by
  rw [quoted, String.toList_ofList, List.cons_append]

/-- What is in quotes ends with the first double quote that no character stands for. -/
theorem flatMap_quoteChar_inj {cs ds r s : List Char}
    (h : cs.flatMap quoteChar ++ '"' :: r = ds.flatMap quoteChar ++ '"' :: s) :
    cs = ds ∧ r = s := by
  induction cs generalizing ds with
  | nil =>
    cases ds with
    | nil => exact ⟨rfl, (List.cons.inj h).2⟩
    | cons d ds =>
      rw [List.flatMap_cons, List.append_assoc] at h
      exact absurd h.symm (quotes_quoteChar d).append_ne_quote
  | cons c cs ih =>
    rw [List.flatMap_cons, List.append_assoc] at h
    cases ds with
    | nil => exact absurd h (quotes_quoteChar c).append_ne_quote
    | cons d ds =>
      rw [List.flatMap_cons, List.append_assoc] at h
      obtain ⟨rfl, htail⟩ := (quotes_quoteChar c).append_inj (quotes_quoteChar d) h
      obtain ⟨rfl, hrest⟩ := ih htail
      exact ⟨rfl, hrest⟩

/-- **Quoted text tells what it quotes and where it ends**, whatever stands behind it. -/
theorem quoted_append_inj {s t : String} {r u : List Char}
    (h : (quoted s).toList ++ r = (quoted t).toList ++ u) : s = t ∧ r = u := by
  rw [toList_quoted, toList_quoted] at h
  have hinside :
      s.toList.flatMap quoteChar ++ '"' :: r = t.toList.flatMap quoteChar ++ '"' :: u := by
    simpa using h
  exact (flatMap_quoteChar_inj hinside).imp_left String.toList_inj.mp

end Text

/-! ### Wordings -/

/-- Text without double quotes. -/
abbrev QuoteFree := { text : String // '"' ∉ text.toList }

/-- The texts and ids that a message is made of. -/
structure Wording where
  /-- What it begins with. -/
  opening : QuoteFree
  /-- Its ids, and the text behind each. -/
  ids : List (String × QuoteFree)

namespace Wording

/-- The ids in quotes, each with the text behind it. -/
def spell (ids : List (String × QuoteFree)) : List Char :=
  ids.flatMap fun (id, behind) => (Text.quoted id).toList ++ behind.val.toList

/-- The characters of the message. -/
def chars (w : Wording) : List Char := w.opening.val.toList ++ spell w.ids

theorem spell_cons (id : String) (behind : QuoteFree) (rest : List (String × QuoteFree)) :
    spell ((id, behind) :: rest) =
      (Text.quoted id).toList ++ (behind.val.toList ++ spell rest) := by
  rw [spell, List.flatMap_cons, List.append_assoc, spell]

theorem quote_mem_spell (e : String × QuoteFree) (rest : List (String × QuoteFree)) :
    '"' ∈ spell (e :: rest) := by
  rw [spell_cons, Text.toList_quoted]
  exact List.mem_cons_self

/-- A text without double quotes ends where the first id begins. -/
theorem eq_of_append_spell {a b : QuoteFree} {ids others : List (String × QuoteFree)}
    (h : a.val.toList ++ spell ids = b.val.toList ++ spell others) : a = b ∧ ids = others := by
  induction ids generalizing a b others with
  | nil =>
    cases others with
    | nil => exact ⟨Subtype.ext (String.toList_inj.mp (List.append_cancel_right h)), rfl⟩
    | cons other others =>
      refine absurd ?_ a.property
      have ha : a.val.toList = b.val.toList ++ spell (other :: others) :=
        (List.append_nil _).symm.trans h
      rw [ha]
      exact List.mem_append_right _ (quote_mem_spell other others)
  | cons e ids ih =>
    cases others with
    | nil =>
      refine absurd ?_ b.property
      have hb : a.val.toList ++ spell (e :: ids) = b.val.toList := h.trans (List.append_nil _)
      rw [← hb]
      exact List.mem_append_right _ (quote_mem_spell e ids)
    | cons other others =>
      obtain ⟨id, behind⟩ := e
      obtain ⟨other, otherBehind⟩ := other
      rw [spell_cons, spell_cons] at h
      have hopen := h
      rw [Text.toList_quoted, Text.toList_quoted, List.cons_append, List.cons_append] at hopen
      obtain rfl : a = b :=
        Subtype.ext (String.toList_inj.mp (Text.append_cons_inj a.property b.property hopen).1)
      obtain ⟨rfl, hbehind⟩ := Text.quoted_append_inj (List.append_cancel_left h)
      obtain ⟨rfl, rfl⟩ := ih hbehind
      exact ⟨rfl, rfl⟩

/-- **A message is put together from texts and ids in one way.** -/
theorem chars_injective : Function.Injective chars := by
  intro w v h
  obtain ⟨hopening, hids⟩ := eq_of_append_spell h
  cases w
  cases v
  exact congrArg₂ Wording.mk hopening hids

end Wording

/-! ### Refusals -/

namespace SliceError

def wording : SliceError → Wording
  | duplicateStep plan step =>
    ⟨⟨"plan ", by decide⟩,
      [(plan, ⟨" contains step ", by decide⟩), (step, ⟨" more than once", by decide⟩)]⟩
  | unknownStep step dependency =>
    ⟨⟨"step ", by decide⟩,
      [(step, ⟨" depends on unknown step ", by decide⟩), (dependency, ⟨"", by decide⟩)]⟩
  | crossHost step host dependency dependencyHost =>
    ⟨⟨"step ", by decide⟩,
      [(step, ⟨" on host ", by decide⟩), (host, ⟨" depends on step ", by decide⟩),
        (dependency, ⟨" on host ", by decide⟩),
        (dependencyHost, ⟨" (cross-host dependencies are not allowed)", by decide⟩)]⟩
  | globalDependsOnHost step dependency dependencyHost =>
    ⟨⟨"global step ", by decide⟩,
      [(step, ⟨" depends on step ", by decide⟩), (dependency, ⟨" on host ", by decide⟩),
        (dependencyHost, ⟨" (global steps cannot wait on host steps)", by decide⟩)]⟩

theorem toList_message (e : SliceError) : e.message.toList = e.wording.chars := by
  unfold message
  cases e <;> simp only [wording, Wording.chars, Wording.spell, String.toList_append,
    String.toList_empty, List.flatMap_cons, List.flatMap_nil, List.append_assoc, List.append_nil]

/-- No two errors are worded alike. -/
theorem wording_injective : Function.Injective wording := by
  intro e f h
  cases e <;> cases f <;> simp_all [wording]

theorem message_injective : Function.Injective message := by
  intro e f h
  have hchars : e.wording.chars = f.wording.chars := by
    rw [← toList_message, ← toList_message, h]
  exact wording_injective (Wording.chars_injective hchars)

end SliceError

namespace RunError

def wording : RunError → Wording
  | missingHost planId =>
    ⟨⟨"host plan for plan ", by decide⟩, [(planId, ⟨" has an empty host.logicalId", by decide⟩)]⟩
  | unresolvedDependency step host dependency =>
    ⟨⟨"step ", by decide⟩,
      [(step, ⟨" on host ", by decide⟩), (host, ⟨" depends on ", by decide⟩),
        (dependency, ⟨", which is not in the same step list", by decide⟩)]⟩
  | dependencyOrder step host dependency =>
    ⟨⟨"step ", by decide⟩,
      [(step, ⟨" on host ", by decide⟩), (host, ⟨" depends on ", by decide⟩),
        (dependency, ⟨", which is not ordered before it", by decide⟩)]⟩

theorem toList_message (e : RunError) : e.message.toList = e.wording.chars := by
  unfold message
  cases e <;> simp only [wording, Wording.chars, Wording.spell, String.toList_append,
    List.flatMap_cons, List.flatMap_nil, List.append_assoc, List.append_nil]

/-- No two errors are worded alike. -/
theorem wording_injective : Function.Injective wording := by
  intro e f h
  cases e <;> cases f <;> simp_all [wording]

theorem message_injective : Function.Injective message := by
  intro e f h
  have hchars : e.wording.chars = f.wording.chars := by
    rw [← toList_message, ← toList_message, h]
  exact wording_injective (Wording.chars_injective hchars)

end RunError

/--
**A refusal is told by its message.**  Two reasons why a plan cannot be cut, or two why steps
are not run, have the same message only if they are the same reason and name the same plan,
steps and hosts, whatever is in their ids.
-/
theorem message_eq_iff :
    (∀ e f : SliceError, e.message = f.message ↔ e = f) ∧
      ∀ e f : RunError, e.message = f.message ↔ e = f :=
  ⟨fun _ _ => SliceError.message_injective.eq_iff, fun _ _ => RunError.message_injective.eq_iff⟩

/-- An id that reads like the rest of a message stays within its quotes. -/
example : (SliceError.unknownStep "a\" depends on unknown step \"b" "c").message =
    "step \"a\\\" depends on unknown step \\\"b\" depends on unknown step \"c\"" := by
  decide +kernel

end FleetPlan
