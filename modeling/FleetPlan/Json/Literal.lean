/-
String literals.

`readText` decodes a literal and demands that it is text: escapes name real
characters, surrogates come in pairs, and the octets between the quotes are well
formed.  `skipText` only looks for the closing quote and checks the form of each
escape; it is what a literal meets inside a value that is kept as written.

`writeText` is the one form in which text is written: the two characters that
would end or escape the literal and the controls below the space are escaped,
everything else stands for itself.
-/
import FleetPlan.Json.Reader

namespace FleetPlan.Json

/-! ### Escapes -/

/-- Four digits to base sixteen. -/
def readHex4 : (s : Octets) → Except Fault (Parsed Nat s.length)
  | a :: b :: c :: d :: r =>
    match Ascii.hexValue? a, Ascii.hexValue? b, Ascii.hexValue? c, Ascii.hexValue? d with
    | some w, some x, some y, some z =>
      .ok ⟨((w * 16 + x) * 16 + y) * 16 + z, r, by simp only [List.length_cons]; omega⟩
    | _, _, _, _ => .error .badEscape
  | _ => .error .endsInText

/-- The first half of a character outside the basic plane. -/
def isHighSurrogate (n : Nat) : Bool := 0xd800 ≤ n && n ≤ 0xdbff

/-- The second half. -/
def isLowSurrogate (n : Nat) : Bool := 0xdc00 ≤ n && n ≤ 0xdfff

/-- The character that two surrogates make. -/
def joinSurrogates (high low : Nat) : Char :=
  Char.ofNat (0x10000 + (high - 0xd800) * 0x400 + (low - 0xdc00))

/-- A character named by one or two groups of four digits, from the first digit on. -/
def readCodeEscape (s : Octets) : Except Fault (Parsed Char s.length) := do
  let ⟨n, r, h⟩ ← readHex4 s
  if isLowSurrogate n then .error .loneSurrogate
  else if !isHighSurrogate n then .ok ⟨Char.ofNat n, r, h⟩
  else match r, h with
    | [], _ => .error .endsInText
    | c :: r', h =>
      if c ≠ Ascii.backslash then .error .brokenSurrogatePair
      else match r', h with
        | [], _ => .error .endsInText
        | d :: r'', h =>
          if d ≠ Ascii.lowerU then .error .brokenSurrogatePair
          else do
            let ⟨n', r''', h'⟩ ← readHex4 r''
            if isLowSurrogate n' then
              .ok ⟨joinSurrogates n n', r''', by simp only [List.length_cons] at h; omega⟩
            else .error .loneSurrogate

/-- The octet that an escape of one letter stands for. -/
def shortEscape? (c : UInt8) : Option UInt8 :=
  if c = Ascii.quote then some 0x22
  else if c = Ascii.backslash then some 0x5c
  else if c = Ascii.slash then some 0x2f
  else if c = Ascii.lowerB then some 0x08
  else if c = Ascii.lowerF then some 0x0c
  else if c = Ascii.lowerN then some 0x0a
  else if c = Ascii.lowerR then some 0x0d
  else if c = Ascii.lowerT then some 0x09
  else none

/-- The octets that an escape stands for, from behind its backslash on. -/
def readEscape : (s : Octets) → Except Fault (Parsed Octets s.length)
  | [] => .error .endsInText
  | c :: r =>
    match shortEscape? c with
    | some b => .ok (.leaving [b] r)
    | none =>
      if c = Ascii.lowerU then
        (readCodeEscape r).map fun p => (p.map String.utf8EncodeChar).grow
      else .error .badEscape

/-- The form of an escape alone: surrogates need not pair. -/
def skipEscape : (s : Octets) → Except Fault (Parsed Unit s.length)
  | [] => .error .endsInText
  | c :: r =>
    match shortEscape? c with
    | some _ => .ok (.leaving () r)
    | none =>
      if c = Ascii.lowerU then
        (readHex4 r).map fun p => (p.map fun _ => ()).grow
      else .error .badEscape

/-! ### Literals, from behind the opening quote on -/

/-- The octets that a literal stands for. -/
def literalOctets : (s : Octets) → Except Fault (Parsed Octets s.length)
  | [] => .error .endsInText
  | c :: r =>
    if c = Ascii.quote then .ok (.leaving [] r)
    else if c = Ascii.backslash then
      match readEscape r with
      | .error f => .error f
      | .ok ⟨bytes, r', h⟩ =>
        (literalOctets r').map fun p => ((p.map (bytes ++ ·)).after h).grow
    else if c < 0x20 then .error .controlCharacter
    else (literalOctets r).map fun p => (p.map (c :: ·)).grow
termination_by s => s.length

/-- The text that a literal stands for. -/
def readText (s : Octets) : Except Fault (Parsed String s.length) := do
  let p ← literalOctets s
  match Text.ofOctets? p.value with
  | some text => .ok (p.map fun _ => text)
  | none => .error .badEncoding

/-- The end of a literal that is not decoded. -/
def skipText : (s : Octets) → Except Fault (Parsed Unit s.length)
  | [] => .error .endsInText
  | c :: r =>
    if c = Ascii.quote then .ok (.leaving () r)
    else if c = Ascii.backslash then
      match skipEscape r with
      | .error f => .error f
      | .ok ⟨_, r', h⟩ =>
        (skipText r').map fun p => (p.after h).grow
    else if c < 0x20 then .error .controlCharacter
    else (skipText r).map fun p => p.grow
termination_by s => s.length

/-! ### Writing -/

/-- A control character by its number, as `\u00` and two digits. -/
def codeEscape (c : Char) : List Char :=
  ['\\', 'u', '0', '0', Nat.digitChar (c.toNat / 16), Nat.digitChar (c.toNat % 16)]

/-- A character as it stands in a literal. -/
def writeChar (c : Char) : List Char :=
  if c = '"' then ['\\', '"']
  else if c = '\\' then ['\\', '\\']
  else if c = '\n' then ['\\', 'n']
  else if c = '\r' then ['\\', 'r']
  else if c = '\t' then ['\\', 't']
  else if c = '\x08' then ['\\', 'b']
  else if c = '\x0c' then ['\\', 'f']
  else if c.toNat < 0x20 then codeEscape c
  else [c]

/-- The text as a literal, quotes included. -/
def writeText (s : String) : String :=
  String.ofList ('"' :: s.toList.flatMap writeChar ++ ['"'])

end FleetPlan.Json
