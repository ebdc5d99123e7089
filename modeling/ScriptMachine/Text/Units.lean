/-!
# Strings as UTF-16 code units

Lengths and positions count code units, while a text is a list of characters, each of one or two
units. A cut can separate the halves of a pair of units; a half that stands alone decodes to
U+FFFD.
-/

namespace ScriptMachine.Text

/-- How many code units a character has. -/
def width (c : Char) : Nat :=
  if c.toNat < 0x10000 then 1 else 2

/-- The code units of a character: itself, or the two halves of a pair. -/
def charUnits (c : Char) : List Nat :=
  if c.toNat < 0x10000 then [c.toNat]
  else [0xd800 + (c.toNat - 0x10000) / 0x400, 0xdc00 + (c.toNat - 0x10000) % 0x400]

@[simp] theorem length_charUnits (c : Char) : (charUnits c).length = width c := by
  unfold charUnits width
  split <;> rfl

/-- The code units of a text. -/
def units (s : String) : List Nat :=
  s.toList.flatMap charUnits

/-- Whether a unit is the first half of a pair. -/
def isHigh (u : Nat) : Bool := 0xd800 ≤ u && u < 0xdc00

/-- Whether a unit is the second half of a pair. -/
def isLow (u : Nat) : Bool := 0xdc00 ≤ u && u < 0xe000

/-- The characters of a list of code units; an unpaired half becomes U+FFFD. -/
def decodeUnits : List Nat → List Char
  | [] => []
  | [u] => [if isHigh u || isLow u then '\ufffd' else Char.ofNat u]
  | u :: v :: rest =>
    if isHigh u && isLow v then
      Char.ofNat (0x10000 + (u - 0xd800) * 0x400 + (v - 0xdc00)) :: decodeUnits rest
    else
      (if isHigh u || isLow u then '\ufffd' else Char.ofNat u) :: decodeUnits (v :: rest)

/-- The text of a list of code units. -/
def ofUnits (us : List Nat) : String :=
  String.ofList (decodeUnits us)

/-! ## Narrow texts

Most texts have characters of a single byte only. Their units are their bytes, so neither counting
them nor finding one needs a walk. -/

/-- Whether every character of a text is a single byte. -/
def isNarrow (s : String) : Bool := s.utf8ByteSize == s.length

theorem toList_bytes (s : String) :
    s.toByteArray.data.toList = s.toList.flatMap String.utf8EncodeChar := by
  conv => lhs; rw [← String.ofList_toList (s := s), String.toByteArray_ofList]
  simp [List.utf8Encode]

theorem length_le_length_bytes (cs : List Char) :
    cs.length ≤ (cs.flatMap String.utf8EncodeChar).length := by
  induction cs with
  | nil => simp
  | cons c rest ih =>
    have := c.utf8Size_pos
    simp only [List.flatMap_cons, List.length_append, String.length_utf8EncodeChar,
      List.length_cons]
    omega

/-- With as many bytes as characters, the units of the characters are the bytes. -/
theorem flatMap_charUnits {cs : List Char}
    (h : (cs.flatMap String.utf8EncodeChar).length = cs.length) :
    cs.flatMap charUnits = (cs.flatMap String.utf8EncodeChar).map UInt8.toNat := by
  induction cs with
  | nil => rfl
  | cons c rest ih =>
    have hrest := length_le_length_bytes rest
    have hpos := c.utf8Size_pos
    simp only [List.flatMap_cons, List.length_append, String.length_utf8EncodeChar,
      List.length_cons] at h
    have hc : c.utf8Size = 1 := by omega
    have hsmall : c.toNat ≤ 127 := by
      simpa [UInt32.le_iff_toNat_le] using Char.utf8Size_eq_one_iff.1 hc
    have hunits : charUnits c = [c.toNat] := if_pos (by omega)
    have hbyte : c.val.toUInt8.toNat = c.toNat := by
      rw [UInt32.toNat_toUInt8, Char.toNat_val]
      omega
    rw [List.flatMap_cons, List.flatMap_cons, ih (by omega), hunits,
      String.utf8EncodeChar_eq_singleton hc, List.map_append, List.map_singleton, hbyte]

theorem units_of_isNarrow {s : String} (h : isNarrow s) :
    units s = s.toByteArray.data.toList.map UInt8.toNat := by
  rw [toList_bytes]
  refine flatMap_charUnits ?_
  rw [← toList_bytes, String.length_toList]
  simpa [isNarrow] using h

/-! ## Single units -/

/-- How many code units a text has. -/
def unitCount (s : String) : Nat :=
  if isNarrow s then s.length else s.foldl (fun n c => n + width c) 0

/-- The unit at a position among the characters. -/
def nthUnit? : List Char → Nat → Option Nat
  | [], _ => none
  | c :: rest, i => if i < width c then (charUnits c)[i]? else nthUnit? rest (i - width c)

/-- The unit at a position of a text. -/
def unitAt? (s : String) (i : Nat) : Option Nat :=
  if isNarrow s then
    if h : i < s.utf8ByteSize then some (s.getUTF8Byte ⟨i⟩ h).toNat else none
  else nthUnit? s.toList i

theorem unitCount_eq (s : String) : unitCount s = (units s).length := by
  unfold unitCount
  split
  · rename_i h
    have hlength : s.utf8ByteSize = s.length := by simpa [isNarrow] using h
    simp [units_of_isNarrow h, hlength]
  · rw [String.foldl_eq_foldl_toList]
    have general : ∀ (cs : List Char) (n : Nat),
        cs.foldl (fun n c => n + width c) n = n + (cs.flatMap charUnits).length := by
      intro cs
      induction cs with
      | nil => simp
      | cons c rest ih => intro n; simp [ih, Nat.add_assoc]
    exact (general s.toList 0).trans (Nat.zero_add _)

theorem nthUnit?_eq (cs : List Char) (i : Nat) : nthUnit? cs i = (cs.flatMap charUnits)[i]? := by
  induction cs generalizing i with
  | nil => rfl
  | cons c rest ih =>
    rw [nthUnit?, List.flatMap_cons, List.getElem?_append, length_charUnits, ih]

theorem unitAt?_eq (s : String) (i : Nat) : unitAt? s i = (units s)[i]? := by
  unfold unitAt?
  split
  · rename_i h
    rw [units_of_isNarrow h]
    split
    · rename_i hi
      simp [String.getUTF8Byte, hi, ByteArray.getElem_eq_getElem_data]
    · rename_i hi
      simp [Nat.le_of_not_lt hi]
  · exact nthUnit?_eq s.toList i

/-! ## Cuts -/

/-- The characters behind a number of units. A pair that is cut leaves U+FFFD. -/
def dropUnits : Nat → List Char → List Char
  | _, [] => []
  | n, c :: rest =>
    if n = 0 then c :: rest
    else if n < width c then '\ufffd' :: rest
    else dropUnits (n - width c) rest

/-- The characters within a number of units, behind the text `out`. A pair that is cut leaves
U+FFFD. -/
def takeUnits (out : String) : Nat → List Char → String
  | _, [] => out
  | n, c :: rest =>
    if n = 0 then out
    else if n < width c then out.push '\ufffd'
    else takeUnits (out.push c) (n - width c) rest

/-- The part of a text from one position up to another. -/
def cut (s : String) (start stop : Nat) : String :=
  takeUnits "" (stop - start) (dropUnits start s.toList)

/-! ## Searching -/

/-- The characters from a position on and that position, or the next one if a pair lies across it.
The characters given start at the position `i`. -/
def wholeFrom (start : Nat) : Nat → List Char → Nat × List Char
  | i, [] => (i, [])
  | i, c :: rest => if start ≤ i then (i, c :: rest) else wholeFrom start (i + width c) rest

/-- The position of characters among others, which start at the position `i`. -/
def findChars (needle : List Char) : Nat → List Char → Option Nat
  | _, [] => none
  | i, c :: rest =>
    if needle.isPrefixOf (c :: rest) then some i else findChars needle (i + width c) rest

/-- The first position of a text within another from a position on. -/
def indexOf? (s needle : String) (start : Nat) : Option Nat :=
  if needle.isEmpty then some start
  else
    let (i, rest) := wholeFrom start 0 s.toList
    findChars needle.toList i rest

/-- The order of code unit sequences. -/
def unitsLess : List Nat → List Nat → Bool
  | _, [] => false
  | [], _ :: _ => true
  | a :: as, b :: bs => a < b || (a == b && unitsLess as bs)

end ScriptMachine.Text
