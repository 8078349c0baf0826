/-
What expanding a path changes.

A path is a row of segments: characters that stand for themselves, two dollar signs that stand
for one, and references to variables, with and without braces (`Segment.Refers`).  `Spells` is
the grammar of them, and tells what each segment is written as, which the pieces of a path no
longer do.  So it can be said what it would be to expand each reference by itself and to leave
one without a value as it is written (`expandEach`).

That is what expanding does as long as every reference has a value.  A single one without
leaves the whole path as it is, the tilde and all other references with it.
-/
import FleetPlan.Path
import FleetPlan.Taken
import Mathlib.Data.List.TakeWhile

namespace FleetPlan

/-- The home directory is the one that is set, and without it that of the account. -/
theorem Environment.home?_eq_some_iff {env : Environment} {dir : String} :
    env.home? = some dir ↔ dir ≠ "" ∧ (env.get? "HOME" = some dir ∨
      (env.get? "HOME").getD "" = "" ∧ env.accountHome = some dir) := by
  have hunset : (env.get? "HOME").filter (!·.isEmpty) = none ↔ (env.get? "HOME").getD "" = "" := by
    cases env.get? "HOME" <;> simp
  rw [home?, Option.or_eq_some_iff, hunset, Option.filter_eq_some_iff, Option.filter_eq_some_iff,
    ← and_assoc, ← or_and_right, and_comm]
  simp

namespace Path

/-! ### The tilde -/

section

variable {env : Environment} {home : String}

/-- A tilde gives way to the home directory where it stands alone or before a slash. -/
theorem expandTilde_of_home (h : env.home? = some home) : expandTilde env "~" = home ∧
    ∀ rest : String, expandTilde env ("~/" ++ rest) = home ++ ("/" ++ rest) := by
  constructor
  · simp [expandTilde, h]
  · intro rest
    have hchars : ("~/" ++ rest).toList = '~' :: '/' :: rest.toList := by simp
    unfold expandTilde
    rw [hchars, h]
    simp

/-- Anything else stays as it is, a tilde before the name of a user too. -/
theorem expandTilde_of_ne {path : String} (halone : path ≠ "~")
    (hslash : ∀ rest : String, path ≠ "~/" ++ rest) : expandTilde env path = path := by
  unfold expandTilde
  split
  · rename_i rest home hpath _
    have hne : rest ≠ [] := by
      rintro rfl
      exact halone (String.toList_inj.mp hpath)
    have hhead : rest.head? ≠ some '/' := by
      intro hhead
      obtain ⟨tail, rfl⟩ := List.head?_eq_some_iff.mp hhead
      refine hslash (String.ofList tail) (String.toList_inj.mp ?_)
      simpa using hpath
    rw [if_neg (by simp [hne, hhead])]
  · rfl

/-- Without a home directory a tilde stays. -/
theorem expandTilde_of_homeless (h : env.home? = none) (path : String) :
    expandTilde env path = path := by
  unfold expandTilde
  split
  · rename_i hhome
    rw [h] at hhome
    cases hhome
  · rfl

end

/-! ### Segments -/

/-- A part of a path as it is written. -/
inductive Segment where
  | plain (c : Char)
  /-- Two dollar signs. -/
  | escaped
  /-- A variable by its name alone. -/
  | bare (name : List Char)
  /-- A variable in braces, perhaps with a default. -/
  | braced (inside : List Char)

namespace Segment

def written : Segment → List Char
  | plain c => [c]
  | escaped => ['$', '$']
  | bare name => '$' :: name
  | braced inside => '$' :: '\x7b' :: (inside ++ ['\x7d'])

def piece : Segment → Piece
  | plain c => .plain c
  | escaped => .plain '$'
  | bare name => .reference name none
  | braced inside => bracedVariable inside

/-- It stands for something: a variable has to be set, or to have a default. -/
def HasValue (env : Environment) (s : Segment) : Prop := (s.piece.expand env).isSome = true

instance (env : Environment) (s : Segment) : Decidable (s.HasValue env) :=
  inferInstanceAs (Decidable (_ = true))

/-- What it stands for, or what is written if it stands for nothing. -/
def settle (env : Environment) (s : Segment) : List Char := (s.piece.expand env).getD s.written

end Segment

/-! ### References -/

/-- The two characters between a name and its default. -/
def defaultMark : List Char := [':', '-']

/-- Text without the mark is a name and nothing else. -/
theorem splitDefault_of_not_infix {name : List Char} (h : ¬defaultMark <:+: name) :
    splitDefault name = (name, none) := by
  fun_induction splitDefault name with
  | case1 => rfl
  | case2 rest => exact absurd (List.prefix_append defaultMark rest).isInfix h
  | case3 c rest hmark name default hsplit ih =>
    rw [ih fun hrest => h (hrest.trans (List.suffix_cons c rest).isInfix)] at hsplit
    cases hsplit
    rfl

/-- The first mark ends the name. -/
theorem splitDefault_append {name : List Char} (h : ¬defaultMark <:+: name) (default : List Char) :
    splitDefault (name ++ (defaultMark ++ default)) = (name, some default) := by
  induction name with
  | nil => rfl
  | cons c name ih =>
    have hrest := ih fun hname => h (hname.trans (List.suffix_cons c name).isInfix)
    rw [List.cons_append, splitDefault.eq_3, hrest]
    rintro rest rfl hmark
    cases name with
    | nil => cases hmark
    | cons d name =>
      obtain ⟨rfl, -⟩ := List.cons.inj hmark
      exact h (List.prefix_append defaultMark name).isInfix

/-- A segment that names a variable, and the default that it gives for it. -/
inductive Segment.Refers : Segment → List Char → Option (List Char) → Prop
  | bare (name : List Char) : Refers (.bare name) name none
  | braced {name : List Char} (h : ¬defaultMark <:+: name) : Refers (.braced name) name none
  | defaulted {name : List Char} (hne : name ≠ []) (h : ¬defaultMark <:+: name)
      (default : List Char) :
    Refers (.braced (name ++ (defaultMark ++ default))) name (some default)
  /-- What has no name in front of the mark is all name. -/
  | nameless (rest : List Char) : Refers (.braced (defaultMark ++ rest)) (defaultMark ++ rest) none

namespace Segment.Refers

variable {env : Environment} {s : Segment} {name : List Char} {default : Option (List Char)}

theorem piece_eq (h : s.Refers name default) : s.piece = .reference name default := by
  cases h with
  | bare => rfl
  | braced hmark =>
    rw [piece, bracedVariable, splitDefault_of_not_infix hmark]
    cases name <;> rfl
  | defaulted hne hmark default =>
    obtain ⟨c, rest, rfl⟩ := List.exists_cons_of_ne_nil hne
    rw [piece, bracedVariable, splitDefault_append hmark]
  | nameless => rfl

/-- A reference stands for the value of its variable, else for its default, else for itself. -/
theorem settle_eq (h : s.Refers name default) : s.settle env =
    (((env.get? (String.ofList name)).map String.toList).or default).getD s.written := by
  rw [settle, h.piece_eq, Piece.expand]
  cases env.get? (String.ofList name) <;> rfl

theorem hasValue_iff (h : s.Refers name default) :
    s.HasValue env ↔ (env.get? (String.ofList name)).isSome ∨ default.isSome := by
  rw [HasValue, h.piece_eq, Piece.expand]
  cases env.get? (String.ofList name) <;> simp

end Segment.Refers

/-- What has the mark in it has a first one. -/
theorem exists_first_defaultMark {cs : List Char} (h : defaultMark <:+: cs) :
    ∃ name default, ¬defaultMark <:+: name ∧ cs = name ++ (defaultMark ++ default) := by
  induction cs with
  | nil => exact absurd (List.infix_nil.mp h) (by decide)
  | cons c rest ih =>
    by_cases hhere : defaultMark <+: c :: rest
    · obtain ⟨default, hdefault⟩ := hhere
      exact ⟨[], default, by decide, hdefault.symm⟩
    · have hrest := (List.infix_cons_iff.mp h).resolve_left hhere
      obtain ⟨name, default, hname, rfl⟩ := ih hrest
      refine ⟨c :: name, default, fun hmark => ?_, rfl⟩
      rcases List.infix_cons_iff.mp hmark with hmark | hmark
      · exact hhere (hmark.trans (List.prefix_append (c :: name) _))
      · exact hname hmark

/-- A segment is a character, or two dollar signs for one, or names a variable. -/
theorem Segment.plain_or_escaped_or_refers (s : Segment) :
    (∃ c, s = plain c) ∨ s = escaped ∨ ∃ name default, s.Refers name default := by
  cases s with
  | plain c => exact .inl ⟨c, rfl⟩
  | escaped => exact .inr (.inl rfl)
  | bare name => exact .inr (.inr ⟨name, none, .bare name⟩)
  | braced inside =>
    refine .inr (.inr ?_)
    by_cases hmark : defaultMark <:+: inside
    · obtain ⟨name, default, hname, rfl⟩ := exists_first_defaultMark hmark
      by_cases hne : name = []
      · subst hne
        exact ⟨_, _, .nameless default⟩
      · exact ⟨_, _, .defaulted hne hname default⟩
    · exact ⟨_, _, .braced hmark⟩

theorem Segment.settle_plain (env : Environment) (c : Char) : (plain c).settle env = [c] := rfl

theorem Segment.settle_escaped (env : Environment) : escaped.settle env = ['$'] := rfl

/-! ### Taking a path apart -/

/-- The path is these segments one after the other, each as long as it can be. -/
inductive Spells : List Segment → List Char → Prop
  | nil : Spells [] []
  | plain {c : Char} {segments s} (hc : c ≠ '$') (h : Spells segments s) :
    Spells (.plain c :: segments) (c :: s)
  | escaped {segments s} (h : Spells segments s) :
    Spells (.escaped :: segments) ('$' :: '$' :: s)
  | bare {d : Char} {name segments s} (hname : ∀ c ∈ d :: name, isNameChar c = true)
      (hs : ∀ c ∈ s.head?, isNameChar c = false) (h : Spells segments s) :
    Spells (.bare (d :: name) :: segments) ('$' :: d :: (name ++ s))
  | braced {inside segments s} (hinside : '\x7d' ∉ inside) (h : Spells segments s) :
    Spells (.braced inside :: segments) ('$' :: '\x7b' :: (inside ++ '\x7d' :: s))
  /-- A dollar sign that begins no reference stands for itself. -/
  | dollar {segments s} (hs : ∀ c ∈ s.head?, c ≠ '$' ∧ isNameChar c = false)
      (hopen : ∀ r, s = '\x7b' :: r → '\x7d' ∉ r) (h : Spells segments s) :
    Spells (.plain '$' :: segments) ('$' :: s)

section

variable {env : Environment} {segments : List Segment} {s : List Char}

theorem isNameChar_dollar : isNameChar '$' = false := by decide +kernel

theorem isNameChar_brace : isNameChar '\x7b' = false := by decide +kernel

/-- The segments are written as the path. -/
theorem Spells.flatMap_written (h : Spells segments s) : segments.flatMap Segment.written = s := by
  induction h with
  | nil => rfl
  | plain hc h ih => rw [List.flatMap_cons, ih]; rfl
  | escaped h ih => rw [List.flatMap_cons, ih]; rfl
  | bare hname hs h ih => rw [List.flatMap_cons, ih]; rfl
  | braced hinside h ih => rw [List.flatMap_cons, ih]; simp [Segment.written]
  | dollar hs hopen h ih => rw [List.flatMap_cons, ih]; rfl

theorem pieces_cons_of_ne {c : Char} (hc : c ≠ '$') (s : List Char) :
    pieces (c :: s) = .plain c :: pieces s := by
  rw [pieces.eq_def]
  exact if_neg hc

/-- The pieces of a path are those of its segments. -/
theorem Spells.pieces_eq (h : Spells segments s) : pieces s = segments.map Segment.piece := by
  induction h with
  | nil => rw [pieces]; rfl
  | plain hc h ih => rw [pieces_cons_of_ne hc, ih]; rfl
  | escaped h ih => rw [pieces, if_pos rfl, if_pos rfl, ih]; rfl
  | @bare d name segments s hname hs h ih =>
    obtain ⟨hd, hrest⟩ := List.forall_mem_cons.mp hname
    obtain ⟨htake, hdrop⟩ := Taken.takeWhile_append_of_head hrest hs
    have hne {c : Char} (hc : isNameChar c = false) : d ≠ c := fun heq => by
      rw [← heq, hd] at hc
      cases hc
    rw [pieces, if_pos rfl, if_neg (hne isNameChar_dollar), if_neg (hne isNameChar_brace),
      if_pos hd, htake, hdrop, ih]
    rfl
  | @braced inside segments s hinside h ih =>
    have hbefore : ∀ c ∈ inside, decide (c ≠ '\x7d') = true := by
      intro c hc
      simpa using ne_of_mem_of_not_mem hc hinside
    have hend : ∀ c ∈ ('\x7d' :: s).head?, decide (c ≠ '\x7d') = false := by simp
    obtain ⟨htake, hdrop⟩ := Taken.takeWhile_append_of_head hbefore hend
    rw [pieces, if_pos rfl, if_neg (by decide), if_pos rfl, if_pos (by simp), htake, hdrop]
    rw [List.drop_one, List.tail_cons, ih]
    rfl
  | @dollar segments s hs hopen h ih =>
    cases s with
    | nil =>
      cases h
      rw [pieces, if_pos rfl]
      rfl
    | cons d r =>
      obtain ⟨hd, hname⟩ := hs d rfl
      rw [pieces, if_pos rfl, if_neg hd]
      by_cases hbrace : d = '\x7b'
      · have hopens : ¬r.contains '\x7d' = true := by simpa using hopen r (by rw [hbrace])
        rw [if_pos hbrace, if_neg hopens, ← pieces_cons_of_ne hd, ih]
        rfl
      · rw [if_neg hbrace, if_neg (by simp [hname]), ih]
        rfl

/-- What stands in front of a character, and what behind it. -/
theorem eq_append_cons_of_mem {c : Char} {s : List Char} (h : c ∈ s) :
    s = s.takeWhile (· ≠ c) ++ c :: (s.dropWhile (· ≠ c)).drop 1 := by
  induction s with
  | nil => cases h
  | cons d s ih =>
    by_cases hd : d = c
    · simp [hd]
    · have hmem : c ∈ s := (List.mem_cons.mp h).resolve_left (Ne.symm hd)
      simpa [hd] using ih hmem

theorem head_dropWhile {p : Char → Bool} (s : List Char) :
    ∀ c ∈ (s.dropWhile p).head?, p c = false := by
  intro c hc
  have hnot := List.head?_dropWhile_not p s
  rw [Option.mem_def.mp hc] at hnot
  simpa using hnot

/-- Every path can be taken apart. -/
theorem exists_spells (s : List Char) : ∃ segments, Spells segments s := by
  fun_induction pieces s with
  | case1 => exact ⟨_, .nil⟩
  | case2 => exact ⟨_, .dollar (by simp) (by simp) .nil⟩
  | case3 r ih =>
    obtain ⟨segments, h⟩ := ih
    exact ⟨_, .escaped h⟩
  | case4 r hclosed _ ih =>
    obtain ⟨segments, h⟩ := ih
    have hsplit := eq_append_cons_of_mem (List.contains_iff_mem.mp hclosed)
    have hinside : '\x7d' ∉ r.takeWhile (· ≠ '\x7d') := fun hmem => by
      simpa using List.mem_takeWhile_imp hmem
    have hspells := Spells.braced hinside h
    rw [← hsplit] at hspells
    exact ⟨_, hspells⟩
  | case5 r hopen _ ih =>
    obtain ⟨segments, h⟩ := ih
    have hnot : '\x7d' ∉ r := by simpa using hopen
    refine ⟨_, .dollar ?_ ?_ (.plain (by decide) h)⟩
    · simp [isNameChar_brace]
    · rintro r' hr'
      rwa [← (List.cons.inj hr').2]
  | case6 d r hdollar hbrace hname ih =>
    obtain ⟨segments, h⟩ := ih
    have hall : ∀ c ∈ d :: r.takeWhile isNameChar, isNameChar c = true :=
      List.forall_mem_cons.mpr ⟨hname, fun c hc => List.mem_takeWhile_imp hc⟩
    have hspells := Spells.bare hall (head_dropWhile r) h
    rw [List.takeWhile_append_dropWhile] at hspells
    exact ⟨_, hspells⟩
  | case7 d r hdollar hbrace hname ih =>
    obtain ⟨segments, h⟩ := ih
    refine ⟨_, .dollar ?_ ?_ h⟩
    · simpa using ⟨hdollar, by simpa using hname⟩
    · rintro r' hr'
      exact absurd (List.cons.inj hr').1 hbrace
  | case8 c r hc ih =>
    obtain ⟨segments, h⟩ := ih
    exact ⟨_, .plain hc h⟩

/-! ### Expanding -/

/-- The path with each reference expanded by itself: one without a value stays as it is written. -/
def expandEach (env : Environment) (path : String) (segments : List Segment) : String :=
  let settled := String.ofList (segments.flatMap (Segment.settle env))
  if path.startsWith "~" then expandTilde env settled else settled

theorem mapM_expand (env : Environment) (segments : List Segment) :
    (segments.map Segment.piece).mapM (Piece.expand env) =
      if ∀ s ∈ segments, s.HasValue env then some (segments.map (Segment.settle env))
      else none := by
  induction segments with
  | nil => simp
  | cons s segments ih =>
    rw [List.map_cons, List.mapM_cons, ih]
    by_cases hs : s.HasValue env
    · obtain ⟨value, hvalue⟩ := Option.isSome_iff_exists.mp hs
      have hsettle : s.settle env = value := by simp [Segment.settle, hvalue]
      simp only [List.forall_mem_cons, hs, true_and, List.map_cons, hsettle, hvalue]
      split <;> rfl
    · have hnone : s.piece.expand env = none := by simpa [Segment.HasValue] using hs
      simp [hnone, hs]

/-- One reference without a value keeps all others from being expanded. -/
theorem Spells.expand_eq {path : String} (h : Spells segments path.toList) :
    expand env path =
      if ∀ s ∈ segments, s.HasValue env then expandEach env path segments else path := by
  have hvariables : expandVariables env path =
      if ∀ s ∈ segments, s.HasValue env then
        some (String.ofList (segments.flatMap (Segment.settle env)))
      else none := by
    rw [expandVariables, h.pieces_eq, mapM_expand]
    split <;> rfl
  by_cases hall : ∀ s ∈ segments, s.HasValue env
  · rw [expand, hvariables, if_pos hall, if_pos hall]
    rfl
  · rw [expand, hvariables, if_neg hall, if_neg hall]

end

/--
**A path is expanded reference by reference, or not at all.**  Every path is a row of segments.
When each reference among them has a value, expanding puts in the home directory and the
values.  When one has none the path stays as it is, so what else there is to expand stays with
it: only if nothing is, the outcome is that of leaving out that reference alone.
-/
theorem expand_each_or_none (env : Environment) (path : String) :
    (∃ segments, Spells segments path.toList) ∧
    ∀ segments, Spells segments path.toList →
      segments.flatMap Segment.written = path.toList ∧
      ((∀ s ∈ segments, s.HasValue env) → expand env path = expandEach env path segments) ∧
      ((∃ s ∈ segments, ¬s.HasValue env) → expand env path = path) ∧
      (expand env path = expandEach env path segments ↔
        (∀ s ∈ segments, s.HasValue env) ∨ expandEach env path segments = path) := by
  refine ⟨exists_spells _, fun segments h => ⟨h.flatMap_written, ?_, ?_, ?_⟩⟩
  · intro hall
    rw [h.expand_eq, if_pos hall]
  · rintro ⟨s, hs, hnone⟩
    rw [h.expand_eq, if_neg fun hall => hnone (hall s hs)]
  · rw [h.expand_eq]
    split
    · rename_i hall
      exact iff_of_true rfl (.inl hall)
    · rename_i hnot
      rw [or_iff_right hnot, eq_comm]

/-- A reference by its name alone, under conditions that compute. -/
theorem Spells.bare_of_all {d : Char} {name segments s} (hname : (d :: name).all isNameChar = true)
    (hs : (s.head?.all fun c => !isNameChar c) = true) (h : Spells segments s) :
    Spells (.bare (d :: name) :: segments) ('$' :: d :: (name ++ s)) :=
  .bare (List.all_eq_true.mp hname) (by simpa [Option.all_eq_true] using hs) h

/-- A home directory, and a variable for the region. -/
def staging : Environment := Dict.ofList [("HOME", "/home/u"), ("REGION", "eu")]

/-- With all that it names, a path is expanded; and one that names another variable is not. -/
theorem expand_each_or_none_of_staging :
    expand staging "~/$REGION" = "/home/u/eu" ∧ expand staging "a/$ZONE" = "a/$ZONE" := by
  have hregion : Spells [.plain '~', .plain '/', .bare "REGION".toList] "~/$REGION".toList :=
    .plain (by decide) (.plain (by decide) (.bare_of_all (by decide +kernel) rfl .nil))
  have hzone : Spells [.plain 'a', .plain '/', .bare "ZONE".toList] "a/$ZONE".toList :=
    .plain (by decide) (.plain (by decide) (.bare_of_all (by decide +kernel) rfl .nil))
  refine ⟨?_, ?_⟩
  · rw [((expand_each_or_none staging _).2 _ hregion).2.1 (by decide +kernel)]
    decide +kernel
  · exact ((expand_each_or_none staging _).2 _ hzone).2.2.1 (by decide +kernel)

/-- A variable without a value keeps the tilde, and another variable, from being expanded. -/
theorem expand_keeps_tilde :
    ∃ segments, Spells segments "~/$REGION/$ZONE".toList ∧
      expandEach staging "~/$REGION/$ZONE" segments = "/home/u/eu/$ZONE" ∧
      expand staging "~/$REGION/$ZONE" = "~/$REGION/$ZONE" := by
  refine ⟨[.plain '~', .plain '/', .bare "REGION".toList, .plain '/', .bare "ZONE".toList],
    .plain (by decide) (.plain (by decide) (.bare_of_all (by decide +kernel) (by decide +kernel)
      (.plain (by decide) (.bare_of_all (by decide +kernel) rfl .nil)))), by decide +kernel,
    by decide +kernel⟩

end Path

end FleetPlan
