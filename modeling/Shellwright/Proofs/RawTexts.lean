import Shellwright.Proofs.Tokenisation

/-!
# Raw texts

The raw text of a text or a command is a part of the source, and it is cut into segments by
counting bytes. Here that is done step by step, in a way that fails when a byte behind the end is
looked at or a cut goes through a character. It never fails, and what comes out are the segments
that the characters give.

* `Source.bytes`, `Source.rest?`, `Source.part?`: a text as bytes, and cutting that can fail.
* `Segment.splitBytes?`, `Segment.split?_eq`: splitting byte by byte.
* `Token.exists_lead`, `Token.body_le`: where the raw text of a token begins. It is the first
  place in the token's text at which a raw text with a dollar sign stands.
* `Token.segments?`, `Token.segments?_eq`: the segments of a token, with the search
  for its raw text.
-/

namespace Shellwright

open Text (byteSize isBlank trim)

namespace Text

/-! ## Bytes -/

/-- The bytes of characters. -/
def encode (cs : List Char) : List UInt8 := cs.flatMap String.utf8EncodeChar

/-- A character below 128 is one byte of that value, and the first byte of any other
is not below 128. -/
theorem exists_encodeChar (c : Char) :
    ∃ b more, String.utf8EncodeChar c = b :: more ∧
      (c.toNat < 128 ∧ b.toNat = c.toNat ∧ more = [] ∨ 128 ≤ c.toNat ∧ 128 ≤ b.toNat) := by
  fun_cases String.utf8EncodeChar c
  case case1 v narrow =>
    have narrow : c.toNat ≤ 127 := narrow
    refine ⟨_, _, rfl, .inl ⟨by omega, ?_, rfl⟩⟩
    rw [UInt8.toNat_ofNat']
    exact Nat.mod_eq_of_lt (by show c.toNat < 256; omega)
  all_goals
    refine ⟨_, _, rfl, .inr ⟨?_, ?_⟩⟩
    · show 128 ≤ c.val.toNat
      omega
    · rw [UInt8.toNat_ofNat']
      omega

theorem encode_cons (c : Char) (cs : List Char) :
    encode (c :: cs) = String.utf8EncodeChar c ++ encode cs :=
  List.flatMap_cons

theorem encode_append (a b : List Char) : encode (a ++ b) = encode a ++ encode b :=
  List.flatMap_append

/-- As many bytes as the text has are written. -/
theorem length_encode (cs : List Char) : (encode cs).length = byteSize cs := by
  induction cs with
  | nil => rfl
  | cons c cs ih =>
    rw [encode_cons, List.length_append, String.length_utf8EncodeChar, ih, byteSize]

/-- A byte is a given one below 128 just where the character is. -/
theorem head?_encode_eq_iff (cs : List Char) {d : Char} (narrow : d.toNat < 128) :
    (encode cs).head? = some d.toUInt8 ↔ cs.head? = some d := by
  cases cs with
  | nil => exact iff_of_false (Option.some_ne_none _).symm (Option.some_ne_none _).symm
  | cons c cs =>
    obtain ⟨b, more, bytes, value⟩ := exists_encodeChar c
    have size : d.toUInt8.toNat = d.toNat :=
      Nat.mod_eq_of_lt (Nat.lt_trans narrow (by decide))
    rw [encode_cons, bytes, List.cons_append, List.head?_cons, List.head?_cons, Option.some_inj,
      Option.some_inj, ← UInt8.toNat_inj, size]
    constructor
    · intro same
      exact Char.toNat_inj.mp (by omega)
    · rintro rfl
      omega

end Text

namespace Source

variable {s : Source}

/-- The bytes of the text. -/
def bytes (s : Source) : List UInt8 := s.text.toUTF8.data.toList

theorem bytes_eq (s : Source) : s.bytes = Text.encode s.chars := by
  have whole : s.text.toUTF8 = s.chars.utf8Encode := by
    rw [String.toUTF8_eq_toByteArray, ← String.toByteArray_ofList, chars, String.ofList_toList]
  rw [bytes, whole]
  simp [List.utf8Encode, Text.encode]

/-- After a part of the text come the bytes of the rest. -/
theorem bytes_drop {before cs : List Char} (whole : s.chars = before ++ cs) :
    s.bytes.drop (byteSize before) = Text.encode cs := by
  rw [bytes_eq, whole, Text.encode_append, ← Text.length_encode, List.drop_left]

/-- The byte at a boundary is the first one of the text after it. -/
theorem getElem?_bytes {before cs : List Char} (whole : s.chars = before ++ cs) :
    s.bytes[byteSize before]? = (Text.encode cs).head? := by
  rw [← bytes_drop whole, List.head?_drop]

/-- The text from an offset on, if it can be cut there. -/
def rest? (s : Source) (pos : Nat) : Option Source :=
  (s.cut? ⟨pos, s.size⟩).map fun cs => ⟨String.ofList cs⟩

/-- The text under a span, if it can be cut out. -/
def part? (s : Source) (span : Span) : Option String := (s.cut? span).map String.ofList

/-- The size of the first character, and one if there is none. -/
def leadSize (s : Source) : Nat := (s.chars.head?.map Char.utf8Size).getD 1

theorem leadSize_pos (s : Source) : 0 < s.leadSize := by
  unfold leadSize
  cases s.chars.head? with
  | none => exact Nat.one_pos
  | some c => exact c.utf8Size_pos

/-- At a boundary there is a rest, the text after it. -/
theorem rest?_eq {before cs : List Char} (whole : s.chars = before ++ cs) :
    s.rest? (byteSize before) = some ⟨String.ofList cs⟩ := by
  have size : s.size = byteSize before + byteSize cs := by
    rw [Source.size, whole, Text.byteSize_append]
  have further : s.chars = before ++ (cs ++ []) := by rw [whole, List.append_nil]
  rw [rest?, size, cut?_append further]
  rfl

/-- What stands between two boundaries. -/
theorem part?_eq {before inside after : List Char}
    (whole : s.chars = before ++ (inside ++ after)) :
    s.part? ⟨byteSize before, byteSize before + byteSize inside⟩ =
      some (String.ofList inside) := by
  rw [part?, cut?_append whole]
  rfl

theorem chars_ofList (cs : List Char) : (⟨String.ofList cs⟩ : Source).chars = cs :=
  String.toList_ofList

/-- The first character takes as many bytes as it has. -/
theorem leadSize_cons (c : Char) (cs : List Char) :
    (⟨String.ofList (c :: cs)⟩ : Source).leadSize = c.utf8Size := by
  rw [leadSize, chars_ofList]
  rfl

end Source

namespace Surface.Segment

/-! ## Splitting byte by byte -/

/-- The bytes that a name begins with. -/
def isNameStartByte (b : UInt8) : Bool := b.toNat < 128 && isNameStart (Char.ofNat b.toNat)

/-- The bytes that a name goes on with. -/
def isNameByte (b : UInt8) : Bool := b.toNat < 128 && isNameChar (Char.ofNat b.toNat)

/-- Where the name of a reference at byte `pos` begins. -/
def nameStart (braced : Bool) (pos : Nat) : Nat := if braced then pos + 2 else pos + 1

/-- Where a reference at byte `pos` with a name of `size` bytes ends. -/
def nameStop (braced : Bool) (pos size : Nat) : Nat :=
  if braced then nameStart braced pos + size + 1 else nameStart braced pos + size

/-- The size of the name that begins at byte `start`, and behind which a brace closes
if one is open. -/
def nameSize? (s : Source) (braced : Bool) (start : Nat) : Option (Option Nat) := do
  let rest ← s.rest? start
  let size := (rest.bytes.takeWhile isNameByte).length
  let begins := rest.bytes.head?.any isNameStartByte
  let closed := !braced || s.bytes[start + size]? = some '\x7d'.toUInt8
  return if 0 < size && begins && closed then some size else none

/-- What follows a dollar sign at byte `pos`: whether there is a brace, and the size of the name,
if they make a reference. -/
def nameAt? (s : Source) (pos : Nat) : Option (Option (Bool × Nat)) := do
  let braced := s.bytes[pos + 1]? = some '\x7b'.toUInt8
  let size ← nameSize? s braced (nameStart braced pos)
  return size.map fun size => (decide braced, size)

/-- The same at any byte: only a dollar sign makes a reference. -/
def referenceAt? (s : Source) (byte : UInt8) (pos : Nat) : Option (Option (Bool × Nat)) :=
  if byte = '$'.toUInt8 then nameAt? s pos else some none

/-- Puts a piece of plain text before segments, if there is one. -/
def flush (text : String) (segments : List Segment) : List Segment :=
  if text.isEmpty then segments else .text text :: segments

/-- The scan goes on behind a reference, for a reference is not empty. -/
theorem lt_nameStop (braced : Bool) (pos size : Nat) : pos < nameStop braced pos size := by
  cases braced with
  | false =>
    show pos < pos + 1 + size
    omega
  | true =>
    show pos < pos + 2 + size + 1
    omega

/-- The segments of a raw text from byte `pos` on, after plain text that is still to be put out.
All steps count bytes, and nothing comes out if a byte is looked for behind the end or the text
is cut inside a character. -/
def splitBytes? (s : Source) (base pos : Nat) (text : String) : Option (List Segment) :=
  if pos < s.size then do
    let byte ← s.bytes[pos]?
    if byte = '\\'.toUInt8 ∧ pos + 1 < s.size then
      let rest ← s.rest? (pos + 1)
      let piece ← s.part? ⟨pos, pos + 1 + rest.leadSize⟩
      splitBytes? s base (pos + 1 + rest.leadSize) (text ++ piece)
    else
      match ← referenceAt? s byte pos with
      | some (braced, size) =>
        let name ← s.part? ⟨nameStart braced pos, nameStart braced pos + size⟩
        let raw ← s.part? ⟨pos, nameStop braced pos size⟩
        let rest ← splitBytes? s base (nameStop braced pos size) ""
        return flush text (.ref name raw ⟨base + pos, base + nameStop braced pos size⟩ :: rest)
      | none =>
        let rest ← s.rest? pos
        let piece ← s.part? ⟨pos, pos + rest.leadSize⟩
        splitBytes? s base (pos + rest.leadSize) (text ++ piece)
  else some (flush text [])
termination_by s.size - pos
decreasing_by
  · omega
  · have := lt_nameStop braced pos size
    omega
  · have := rest.leadSize_pos
    omega

/-! ## Names in bytes -/

/-- Characters of more than one byte are no part of a name. -/
theorem not_isNameChar {c : Char} (wide : 128 ≤ c.toNat) : isNameChar c = false := by
  rw [Bool.eq_false_iff]
  intro isChar
  have := Core.toNat_bounds_of_isNameChar isChar
  omega

theorem not_isNameStart {c : Char} (wide : 128 ≤ c.toNat) : isNameStart c = false := by
  rw [Bool.eq_false_iff]
  intro start
  have isChar := isNameChar_of_isNameStart start
  rw [not_isNameChar wide] at isChar
  cases isChar

/-- The first byte of a character says whether a name can begin with it or go on with it. -/
theorem exists_nameByte (c : Char) :
    ∃ b more, String.utf8EncodeChar c = b :: more ∧ isNameStartByte b = isNameStart c ∧
      isNameByte b = isNameChar c ∧ (isNameChar c = true → more = []) := by
  obtain ⟨b, more, bytes, ⟨narrow, same, rfl⟩ | ⟨wide, wide'⟩⟩ := Text.exists_encodeChar c
  · refine ⟨b, [], bytes, ?_, ?_, fun _ => rfl⟩
    · rw [isNameStartByte, same, Char.ofNat_toNat, decide_eq_true narrow, Bool.true_and]
    · rw [isNameByte, same, Char.ofNat_toNat, decide_eq_true narrow, Bool.true_and]
  · have late : decide (b.toNat < 128) = false := decide_eq_false (by omega)
    refine ⟨b, more, bytes, ?_, ?_, fun isChar => ?_⟩
    · rw [isNameStartByte, late, Bool.false_and, not_isNameStart wide]
    · rw [isNameByte, late, Bool.false_and, not_isNameChar wide]
    · rw [not_isNameChar wide] at isChar
      cases isChar

/-- A name begins at a byte just if it begins at the character. -/
theorem head?_encode_any (cs : List Char) :
    (Text.encode cs).head?.any isNameStartByte = cs.head?.any isNameStart := by
  cases cs with
  | nil => rfl
  | cons c cs =>
    obtain ⟨b, more, bytes, start, -⟩ := exists_nameByte c
    rw [Text.encode_cons, bytes]
    exact start

/-- As many bytes belong to a name as its characters take. A byte inside a longer character
belongs to none, so the scan of bytes stops where that of characters does. -/
theorem length_takeWhile_encode (cs : List Char) :
    ((Text.encode cs).takeWhile isNameByte).length = byteSize (cs.takeWhile isNameChar) := by
  induction cs with
  | nil => rfl
  | cons c cs ih =>
    obtain ⟨b, more, bytes, -, same, narrow⟩ := exists_nameByte c
    rw [Text.encode_cons, bytes, List.cons_append, List.takeWhile_cons, List.takeWhile_cons,
      same]
    by_cases isChar : isNameChar c = true
    · have size := String.length_utf8EncodeChar c
      rw [bytes, narrow isChar] at size
      rw [if_pos isChar, if_pos isChar, narrow isChar, List.nil_append, List.length_cons, ih,
        byteSize, ← size, List.length_singleton, Nat.add_comm]
    · rw [if_neg isChar, if_neg isChar]
      rfl

/-- The name that a text begins with, if it begins with one. -/
theorem leadingName_eq (cs : List Char) :
    leadingName cs =
      if cs.head?.any isNameStart then some (cs.takeWhile isNameChar) else none := by
  cases cs with
  | nil => rfl
  | cons c cs => rfl

section

variable {s : Source} {before cs : List Char}

/-- The bytes of a name are found where its characters are. -/
theorem nameSize?_eq (whole : s.chars = before ++ cs) (braced : Bool) :
    nameSize? s braced (byteSize before) = some ((leadingName cs).bind fun name =>
      if !braced || (cs.drop name.length).head? = some '\x7d' then some (byteSize name)
          else none) := by
  simp only [nameSize?, Source.rest?_eq whole, Option.bind_eq_bind, Option.bind_some,
    Source.bytes_eq _, Source.chars_ofList, length_takeWhile_encode, head?_encode_any]
  cases lead : leadingName cs with
  | none =>
    rw [leadingName_eq] at lead
    have begins : cs.head?.any isNameStart = false := by
      cases begins : cs.head?.any isNameStart
      · rfl
      · rw [begins] at lead
        cases lead
    rw [begins, Bool.and_false, Bool.false_and]
    rfl
  | some name =>
    obtain ⟨isName, rest, rfl, stop⟩ := leadingName_eq_some.mp lead
    have begins : (name ++ rest).head?.any isNameStart = true := by
      obtain ⟨⟨c, more, rfl, start⟩, -⟩ := isName
      exact start
    have filled : 0 < byteSize name := by
      obtain ⟨⟨c, more, rfl, -⟩, -⟩ := isName
      have := c.utf8Size_pos
      rw [byteSize]
      omega
    have further : s.chars = (before ++ name) ++ rest := by rw [whole, List.append_assoc]
    have closes := Source.getElem?_bytes further
    rw [Source.bytes_eq, Text.byteSize_append] at closes
    rw [begins, takeWhile_name_append isName stop, closes, Option.bind_some, List.drop_left]
    simp only [filled, Text.head?_encode_eq_iff rest (d := '\x7d') (by decide), decide_true,
      Bool.true_and]
    rfl

/-- What the bytes behind a dollar sign say is what the characters say. -/
theorem nameAt?_eq (whole : s.chars = before ++ '$' :: cs) :
    nameAt? s (byteSize before) =
      some ((reference? cs).map fun r => (decide (cs.head? = some '\x7b'), byteSize r.1)) := by
  have behind : s.chars = (before ++ ['$']) ++ cs := by simp [whole]
  have one : byteSize (before ++ ['$']) = byteSize before + 1 :=
    Text.byteSize_append before ['$']
  have braced : s.bytes[byteSize before + 1]? = some '\x7b'.toUInt8 ↔
      cs.head? = some '\x7b' := by
    rw [← one, Source.getElem?_bytes behind, Text.head?_encode_eq_iff _ (by decide)]
  by_cases brace : cs.head? = some '\x7b'
  · obtain ⟨inner, rfl⟩ : ∃ inner, cs = '\x7b' :: inner := List.head?_eq_some_iff.mp brace
    have within : s.chars = (before ++ ['$', '\x7b']) ++ inner := by simp [whole]
    have size := nameSize?_eq within true
    have start : byteSize (before ++ ['$', '\x7b']) = nameStart true (byteSize before) :=
      Text.byteSize_append before ['$', '\x7b']
    simp only [start, Bool.not_true, Bool.false_or, decide_eq_true_eq] at size
    simp only [nameAt?, braced, brace, decide_true, size, Option.bind_eq_bind, Option.bind_some,
      reference?]
    cases leadingName inner with
    | none => rfl
    | some name =>
      dsimp only [Option.bind_some]
      by_cases closed : (inner.drop name.length).head? = some '\x7d'
      · rw [if_pos closed, if_pos closed]
        rfl
      · rw [if_neg closed, if_neg closed]
        rfl
  · have size := nameSize?_eq behind false
    have start : byteSize (before ++ ['$']) = nameStart false (byteSize before) := one
    have plain : reference? cs = (leadingName cs).map fun name => (name, name) := by
      unfold reference?
      split
      · exact absurd rfl brace
      · rfl
    simp only [start, Bool.not_false, Bool.true_or, if_true] at size
    simp only [nameAt?, braced, brace, decide_false, size, Option.bind_eq_bind, Option.bind_some,
      plain]
    cases leadingName cs with
    | none => rfl
    | some name => rfl

/-! ## Steps -/

theorem lt_size (whole : s.chars = before ++ cs) (some : cs ≠ []) :
    byteSize before < s.size := by
  have filled : byteSize cs ≠ 0 := fun none => some (Text.byteSize_eq_zero none)
  rw [Source.size, whole, Text.byteSize_append]
  omega

/-- The byte at a boundary is that of an ASCII character just if that character stands there. -/
theorem byte_eq_iff {c d : Char} (whole : s.chars = before ++ c :: cs) {b : UInt8}
    (found : s.bytes[byteSize before]? = some b) (narrow : d.toNat < 128) :
    b = d.toUInt8 ↔ c = d := by
  have same := Text.head?_encode_eq_iff (c :: cs) narrow
  rw [← Source.getElem?_bytes whole, found, List.head?_cons, Option.some_inj, Option.some_inj]
    at same
  exact same

theorem exists_byte {c : Char} (whole : s.chars = before ++ c :: cs) :
    ∃ b, s.bytes[byteSize before]? = some b := by
  obtain ⟨b, more, bytes, -⟩ := Text.exists_encodeChar c
  refine ⟨b, ?_⟩
  rw [Source.getElem?_bytes whole, Text.encode_cons, bytes]
  rfl

/-- At the end of the text what has been gathered is the last segment. -/
theorem splitBytes?_nil (whole : s.chars = before) (base : Nat) (text : String) :
    splitBytes? s base (byteSize before) text = some (flush text []) := by
  have ends : ¬byteSize before < s.size := by
    rw [Source.size, whole]
    exact Nat.lt_irrefl _
  rw [splitBytes?, if_neg ends]

/-- A backslash and the character behind it are cut out together. -/
theorem splitBytes?_escape {c : Char} (whole : s.chars = before ++ '\\' :: c :: cs) (base : Nat)
    (text : String) :
    splitBytes? s base (byteSize before) text =
      splitBytes? s base (byteSize (before ++ ['\\', c])) (text ++ String.ofList ['\\', c]) := by
  obtain ⟨b, found⟩ := exists_byte whole
  have backslash : b = '\\'.toUInt8 := (byte_eq_iff whole found (by decide)).mpr rfl
  have behind : s.chars = (before ++ ['\\']) ++ c :: cs := by simp [whole]
  have one : byteSize (before ++ ['\\']) = byteSize before + 1 :=
    Text.byteSize_append before ['\\']
  have more := lt_size behind (List.cons_ne_nil c cs)
  have rest := Source.rest?_eq behind
  rw [one] at more rest
  have cut : s.chars = before ++ (['\\', c] ++ cs) := whole
  have part := Source.part?_eq cut
  have size : byteSize before + byteSize ['\\', c] = byteSize before + 1 + c.utf8Size := by
    rw [Nat.add_assoc]
    rfl
  rw [size] at part
  rw [splitBytes?, if_pos (lt_size whole (List.cons_ne_nil _ _))]
  simp only [found, Option.bind_eq_bind, Option.bind_some, backslash, more, and_self, if_true,
    rest, Source.leadSize_cons, part, Text.byteSize_append, size]

/-- A character that begins nothing is cut out alone. -/
theorem splitBytes?_char {c : Char} (whole : s.chars = before ++ c :: cs)
    (lone : c = '\\' → cs = []) (absent : c = '$' → reference? cs = none) (base : Nat)
    (text : String) :
    splitBytes? s base (byteSize before) text =
      splitBytes? s base (byteSize (before ++ [c])) (text ++ String.singleton c) := by
  obtain ⟨b, found⟩ := exists_byte whole
  have noEscape : ¬(b = '\\'.toUInt8 ∧ byteSize before + 1 < s.size) := by
    rintro ⟨same, more⟩
    have backslash := (byte_eq_iff whole found (by decide)).mp same
    subst backslash
    rw [Source.size, whole, lone rfl, Text.byteSize_append] at more
    exact Nat.lt_irrefl _ more
  have noName : referenceAt? s b (byteSize before) = some none := by
    unfold referenceAt?
    split
    · next same =>
      have dollar := (byte_eq_iff whole found (by decide)).mp same
      subst dollar
      rw [nameAt?_eq whole, absent rfl]
      rfl
    · rfl
  have cut : s.chars = before ++ ([c] ++ cs) := whole
  have part := Source.part?_eq cut
  have size : byteSize [c] = c.utf8Size := rfl
  rw [size] at part
  rw [splitBytes?, if_pos (lt_size whole (List.cons_ne_nil _ _))]
  simp only [found, Option.bind_eq_bind, Option.bind_some, if_neg noEscape, noName,
    Source.rest?_eq whole, Source.leadSize_cons, part, Text.byteSize_append, size]
  rfl

/-- A brace after the dollar sign tells which of the two spellings follows. -/
theorem IsName.head?_spelling {name : List Char} (isName : IsName name) (braced : Bool)
    (rest : List Char) :
    decide ((spelling braced name ++ rest).head? = some '\x7b') = braced := by
  cases braced with
  | true => rfl
  | false =>
    obtain ⟨⟨c, more, rfl, start⟩, -⟩ := isName
    refine decide_eq_false fun same => ?_
    cases same
    cases start

/-- The name in a reference is cut out without its braces. -/
theorem part?_name {name rest : List Char} {braced : Bool}
    (whole : s.chars = before ++ '$' :: (spelling braced name ++ rest)) :
    s.part? ⟨nameStart braced (byteSize before),
      nameStart braced (byteSize before) + byteSize name⟩ =
      some (String.ofList name) := by
  cases braced with
  | true =>
    have inner : s.chars = (before ++ ['$', '\x7b']) ++ (name ++ '\x7d' :: rest) := by
      simp [whole, spelling]
    have start : nameStart true (byteSize before) = byteSize (before ++ ['$', '\x7b']) := by
      rw [Text.byteSize_append]
      rfl
    rw [start]
    exact Source.part?_eq inner
  | false =>
    have inner : s.chars = (before ++ ['$']) ++ (name ++ rest) := by simp [whole, spelling]
    have start : nameStart false (byteSize before) = byteSize (before ++ ['$']) := by
      rw [Text.byteSize_append]
      rfl
    rw [start]
    exact Source.part?_eq inner

/-- A reference ends behind its name, or behind the brace after it. -/
theorem nameStop_eq (braced : Bool) (pos : Nat) (name : List Char) :
    nameStop braced pos (byteSize name) = pos + byteSize ('$' :: spelling braced name) := by
  cases braced with
  | true =>
    show pos + 2 + byteSize name + 1 = pos + (1 + (1 + byteSize (name ++ ['\x7d'])))
    rw [Text.byteSize_append]
    show pos + 2 + byteSize name + 1 = pos + (1 + (1 + (byteSize name + 1)))
    omega
  | false =>
    show pos + 1 + byteSize name = pos + (1 + byteSize name)
    omega

/-- A reference is cut out as a whole, and its name once more. -/
theorem splitBytes?_spelling {name rest : List Char} {braced : Bool} (isName : IsName name)
    (whole : s.chars = before ++ '$' :: (spelling braced name ++ rest))
    (stop : braced = false → goesOnName rest = false) (base : Nat) (text : String) :
    splitBytes? s base (byteSize before) text =
      (splitBytes? s base (byteSize (before ++ '$' :: spelling braced name)) "").map fun more =>
        flush text (.ref (String.ofList name) (String.ofList ('$' :: spelling braced name))
          ⟨base + byteSize before,
          base + byteSize before + byteSize ('$' :: spelling braced name)⟩ ::
            more) := by
  obtain ⟨b, found⟩ := exists_byte whole
  have dollar : b = '$'.toUInt8 := (byte_eq_iff whole found (by decide)).mpr rfl
  have noEscape : ¬(b = '\\'.toUInt8 ∧ byteSize before + 1 < s.size) := by
    rw [dollar]
    exact fun both => absurd both.1 (by decide)
  have refers : referenceAt? s b (byteSize before) = some (some (braced, byteSize name)) := by
    rw [referenceAt?, if_pos dollar, nameAt?_eq whole, reference?_spelling isName stop,
      isName.head?_spelling]
    rfl
  have outer : s.chars = before ++ (('$' :: spelling braced name) ++ rest) := whole
  rw [splitBytes?, if_pos (lt_size whole (List.cons_ne_nil _ _))]
  simp only [found, Option.bind_eq_bind, Option.bind_some, if_neg noEscape, refers,
    part?_name whole, nameStop_eq, Source.part?_eq outer, Text.byteSize_append, ← Nat.add_assoc]
  cases splitBytes? s base (byteSize before + byteSize ('$' :: spelling braced name)) "" with
  | none => rfl
  | some more => rfl

/-! ## The whole text -/

/-- Puts plain text before segments, as part of the first one if that is plain text too, and
nothing if there is none. -/
def prepend (text : String) (segments : List Segment) : List Segment :=
  if text.isEmpty then segments else consText text segments

theorem consText_consText (a b : String) (segments : List Segment) :
    consText a (consText b segments) = consText (a ++ b) segments := by
  cases segments with
  | nil => rfl
  | cons first rest =>
    cases first with
    | text next => simp only [consText, String.append_assoc]
    | ref => rfl

/-- Text that has been gathered joins the plain text after it. -/
theorem prepend_append {piece : String} (filled : piece ≠ "") (text : String)
    (segments : List Segment) :
    prepend (text ++ piece) segments = prepend text (consText piece segments) := by
  unfold prepend
  by_cases empty : text = ""
  · subst empty
    simp [filled]
  · simp [empty, consText_consText]

/-- At any boundary the scan of bytes gives what has been gathered, and then the segments of the
rest. The induction is on the rest of the text, character by character: each case is a step that
the scan takes there. -/
theorem splitBytes?_eq (base : Nat) (text : String) (whole : s.chars = before ++ cs) :
    splitBytes? s base (byteSize before) text =
      some (prepend text (splitFrom 0 (base + byteSize before) cs)) := by
  induction pieces cs generalizing before text with
  | nil =>
    rw [List.append_nil] at whole
    rw [splitBytes?_nil whole, splitFrom]
    rfl
  | @escape cs c _ ih =>
    have further : s.chars = (before ++ ['\\', c]) ++ cs := by simp [whole]
    rw [splitBytes?_escape whole, ih _ further, splitFrom_escape, Text.byteSize_append,
      prepend_append (by simp), Nat.add_assoc]
  | @char c cs lone absent _ ih =>
    have further : s.chars = (before ++ [c]) ++ cs := by simp [whole]
    rw [splitBytes?_char whole lone absent, ih _ further, splitFrom_char lone absent,
      Text.byteSize_append, prepend_append (by simp), Nat.add_assoc]
    rfl
  | @reference name cs braced isName stop _ ih =>
    have further : s.chars = (before ++ '$' :: spelling braced name) ++ cs := by simp [whole]
    rw [splitBytes?_spelling isName whole stop, ih _ further, splitFrom_spelling isName stop,
      Text.byteSize_append, Nat.add_assoc]
    rfl

end

/-- The segments of a raw text that begins at byte `base`, if all steps are defined. -/
def split? (base : Nat) (raw : String) : Option (List Segment) := splitBytes? ⟨raw⟩ base 0 ""

/-- Every text can be split byte by byte, and that gives its segments. -/
theorem split?_eq (base : Nat) (raw : String) : split? base raw = some (split base raw) := by
  have whole : (⟨raw⟩ : Source).chars = [] ++ raw.toList := rfl
  exact splitBytes?_eq base "" whole

/-! ## Places of references -/

/-- Plain text before segments adds no reference. -/
theorem mem_consText {name raw text : String} {span : Span} {segments : List Segment}
    (h : .ref name raw span ∈ consText text segments) : .ref name raw span ∈ segments := by
  cases segments with
  | nil => cases List.mem_singleton.mp h
  | cons first rest =>
    cases first with
    | text next =>
      rcases List.mem_cons.mp h with same | mem
      · cases same
      · exact .tail _ mem
    | ref =>
      rcases List.mem_cons.mp h with same | mem
      · cases same
      · exact mem

/-- A reference stands in the text where its place says. -/
theorem exists_of_mem_splitFrom {cs : List Char} {pos : Nat} {name raw : String}
    {span : Span} (mem : .ref name raw span ∈ splitFrom 0 pos cs) :
    ∃ before after, cs = before ++ (raw.toList ++ after) ∧
      span = ⟨pos + byteSize before, pos + byteSize before + byteSize raw.toList⟩ := by
  induction pieces cs generalizing pos with
  | nil => cases mem
  | @escape cs c _ ih =>
    rw [splitFrom_escape] at mem
    obtain ⟨before, after, rfl, same⟩ := ih (mem_consText mem)
    refine ⟨'\\' :: c :: before, after, rfl, ?_⟩
    rw [same]
    simp only [byteSize, Nat.add_assoc, Nat.add_zero]
  | @char c cs lone absent _ ih =>
    rw [splitFrom_char lone absent] at mem
    obtain ⟨before, after, rfl, same⟩ := ih (mem_consText mem)
    refine ⟨c :: before, after, rfl, ?_⟩
    rw [same]
    simp only [byteSize, Nat.add_assoc]
  | @reference name' cs braced isName stop _ ih =>
    rw [splitFrom_spelling isName stop] at mem
    rcases List.mem_cons.mp mem with same | mem
    · cases same
      exact ⟨[], cs, by rw [String.toList_ofList]; rfl, by rw [String.toList_ofList]; rfl⟩
    · obtain ⟨before, after, rfl, same⟩ := ih mem
      refine ⟨'$' :: (spelling braced name' ++ before), after, by simp, ?_⟩
      rw [same]
      simp only [byteSize, Text.byteSize_append, Nat.add_assoc]

/-- A text without a dollar sign has no references, and it is split alike wherever it stands. -/
theorem splitFrom_eq_of_not_mem {cs : List Char} (plain : '$' ∉ cs) (pos pos' : Nat) :
    splitFrom 0 pos cs = splitFrom 0 pos' cs := by
  induction pieces cs generalizing pos pos' with
  | nil => rw [splitFrom, splitFrom]
  | escape c _ ih =>
    rw [splitFrom_escape, splitFrom_escape,
      ih fun mem => plain (List.mem_cons_of_mem _ (List.mem_cons_of_mem _ mem))]
  | char lone absent _ ih =>
    rw [splitFrom_char lone absent, splitFrom_char lone absent,
      ih fun mem => plain (List.mem_cons_of_mem _ mem)]
  | reference => exact absurd List.mem_cons_self plain

end Surface.Segment

/-! ## Where the raw text of a token begins -/

theorem not_isLiteral {lexeme : Lexeme} {raw : String} (other : Core.isLiteral lexeme = false)
    (literal : lexeme = .text raw ∨ lexeme = .command raw) : False := by
  rcases literal with rfl | rfl <;> cases other

/-- The lexeme of a command is its body without blanks around it, and the blanks before it come
between bracket and text. -/
theorem exists_body_of_readCommand {cs : List Char} {r : Reading}
    (ok : Lexeme.readCommand cs = .ok r) :
    ∃ body, r = ⟨.command (String.ofList (trim body)), 2 + byteSize (body.takeWhile isBlank),
      '(' :: body ++ [')']⟩ := by
  unfold Lexeme.readCommand at ok
  split at ok
  · split at ok
    · next body _ =>
      cases ok
      exact ⟨body, rfl⟩
    · cases ok
  · cases ok

/-- The raw text of a command stands in the characters that were read for it. -/
theorem readCommand_lead {cs : List Char} {r : Reading} {raw : String}
    (ok : Lexeme.readCommand cs = .ok r)
    (literal : r.lexeme = .text raw ∨ r.lexeme = .command raw) :
    ∃ lead trail, '@' :: r.more = lead ++ (raw.toList ++ trail) ∧ byteSize lead = r.lead ∧
      '$' ∉ lead := by
  have faithful := readCommand_faithful ok
  obtain ⟨body, rfl⟩ := exists_body_of_readCommand ok
  obtain ⟨lead, trail, split, size⟩ := faithful
  rcases literal with text | command
  · cases text
  cases command
  refine ⟨lead, trail, split, size, ?_⟩
  -- A lead of this many bytes can only be the bracket and the blanks behind it.
  have whole : '@' :: '(' :: (body ++ [')']) =
      ('@' :: '(' :: body.takeWhile isBlank) ++ (body.dropWhile isBlank ++ [')']) := by
    simp [← List.append_assoc]
  have bytes : byteSize ('@' :: '(' :: body.takeWhile isBlank) = byteSize lead := by
    rw [size]
    show 1 + (1 + byteSize (body.takeWhile isBlank)) = 2 + byteSize (body.takeWhile isBlank)
    omega
  obtain ⟨rfl, -⟩ := Text.append_inj_of_byteSize (whole.symm.trans split) bytes
  simp only [List.mem_cons, not_or]
  refine ⟨by decide, by decide, fun mem => ?_⟩
  have blank := List.all_eq_true.mp (List.all_takeWhile (p := isBlank) (l := body)) '$' mem
  revert blank
  decide

/-- What stands before the raw text of a lexeme: a quote, or `@(` and blanks. -/
theorem Reader.exists_lead {c : Char} {read : List Char → Except (LexFault × List Char) Reading}
    (h : Reader c read) {cs : List Char} {r : Reading} {raw : String} (ok : read cs = .ok r)
    (literal : r.lexeme = .text raw ∨ r.lexeme = .command raw) :
    ∃ lead trail, c :: r.more = lead ++ (raw.toList ++ trail) ∧ byteSize lead = r.lead ∧
      '$' ∉ lead ∧ (r.lexeme = .text raw → lead = ['"']) := by
  cases h with
  | one s =>
    cases ok
    exact (not_isLiteral rfl literal).elim
  | oneOrTwo single double _ =>
    dsimp only [Shellwright.oneOrTwo] at ok
    split at ok <;> cases ok <;> exact (not_isLiteral rfl literal).elim
  | twice s fault =>
    dsimp only [Shellwright.twice] at ok
    split at ok <;> cases ok
    exact (not_isLiteral rfl literal).elim
  | text quote =>
    dsimp only at ok
    split at ok <;> cases ok
    next body _ =>
      rcases literal with text | command
      · cases text
        subst quote
        exact ⟨['"'], ['"'], by rw [String.toList_ofList]; rfl, rfl, by decide, fun _ => rfl⟩
      · cases command
  | command at' =>
    subst at'
    obtain ⟨lead, trail, split, size, free⟩ := readCommand_lead ok literal
    obtain ⟨body, rfl⟩ := exists_body_of_readCommand ok
    exact ⟨lead, trail, split, size, free, fun text => nomatch text⟩
  | number digit => exact (not_isLiteral (Core.isLiteral_of_readNumber ok) literal).elim
  | word start =>
    cases ok
    exact (not_isLiteral (Core.isLiteral_ofWord _) literal).elim
  | stray => cases ok

/-- A text with a dollar sign stands nowhere earlier than behind a lead that has none. -/
theorem byteSize_le_of_dollar {lead raw trail before after : List Char} (free : '$' ∉ lead)
    (dollar : '$' ∈ raw) (same : lead ++ (raw ++ trail) = before ++ (raw ++ after)) :
    byteSize lead ≤ byteSize before := by
  rcases List.append_eq_append_iff.mp same with ⟨gap, rfl, -⟩ | ⟨gap, rfl, overlap⟩
  · rw [Text.byteSize_append]
    omega
  · -- The first dollar sign would stand at two places.
    have freeGap : '$' ∉ gap := fun mem => free (List.mem_append_right _ mem)
    have index := congrArg (List.idxOf '$') overlap
    rw [List.idxOf_append, List.idxOf_append, List.idxOf_append, if_pos dollar, if_neg freeGap,
      if_pos dollar] at index
    obtain rfl : gap = [] := List.length_eq_zero_iff.mp (by omega)
    exact Nat.le_of_eq (by rw [List.append_nil])

section

variable {s : Source} {ts : List Token} {t : Token} {raw : String}

/-- The raw text of a token stands in the token, and its offset is right. A string begins
directly behind its quote. -/
theorem Token.exists_lead (scanned : Token.scan s.chars = .ok ts) (mem : t ∈ ts)
    (literal : t.lexeme = .text raw ∨ t.lexeme = .command raw) :
    ∃ lead trail, s.slice t.span = lead ++ (raw.toList ++ trail) ∧
      t.body = t.span.start + byteSize lead ∧
      t.span.stop = t.body + byteSize raw.toList + byteSize trail ∧ '$' ∉ lead ∧
      (t.lexeme = .text raw → lead = ['"']) := by
  obtain ⟨stop, rest, walk, -⟩ := Token.scan_eq_ok_iff.mp scanned
  obtain ⟨before, c, r, after, whole, -, read, rfl⟩ := walk.exists_text mem
  obtain ⟨lead, trail, split, size, free, quote⟩ := (reader_read c).exists_lead read literal
  have text : s.slice (r.token (byteSize before) c).span = c :: r.more :=
    Source.slice_append whole
  refine ⟨lead, trail, text.trans split, ?_, ?_, free, quote⟩
  · rw [size]
    rfl
  · show byteSize before + byteSize (c :: r.more) =
      byteSize before + r.lead + byteSize raw.toList + byteSize trail
    rw [split, Text.byteSize_append, Text.byteSize_append, size]
    omega

/-- The raw text, if there is a dollar sign in it, stands nowhere in the token before its
body. -/
theorem Token.body_le (scanned : Token.scan s.chars = .ok ts) (mem : t ∈ ts)
    (literal : t.lexeme = .text raw ∨ t.lexeme = .command raw) (dollar : '$' ∈ raw.toList)
    {before after : List Char} (found : s.slice t.span = before ++ (raw.toList ++ after)) :
    t.body ≤ t.span.start + byteSize before := by
  obtain ⟨lead, trail, split, body, -, free, -⟩ := Token.exists_lead scanned mem literal
  have least := byteSize_le_of_dollar free dollar (split.symm.trans found)
  omega

/-! ## Segments of tokens -/

/-- The number of bytes before the first place at which a text stands in another one. -/
def Text.offsetOf? (part : List Char) : List Char → Option Nat
  | [] => if part.isEmpty then some 0 else none
  | c :: cs =>
    if part.isPrefixOf (c :: cs) then some 0
    else (Text.offsetOf? part cs).map fun offset => c.utf8Size + offset

/-- The search stops at the first place, and passes over all that stands before it. -/
theorem Text.offsetOf?_eq {part lead trail : List Char}
    (first : ∀ before after, lead ++ (part ++ trail) = before ++ (part ++ after) →
      byteSize lead ≤ byteSize before) :
    Text.offsetOf? part (lead ++ (part ++ trail)) = some (byteSize lead) := by
  induction lead with
  | nil =>
    have here : part.isPrefixOf (part ++ trail) = true :=
      List.isPrefixOf_iff_prefix.mpr (List.prefix_append part trail)
    rw [List.nil_append]
    cases whole : part ++ trail with
    | nil =>
      obtain rfl : part = [] := (List.append_eq_nil_iff.mp whole).1
      rfl
    | cons d rest =>
      rw [whole] at here
      rw [Text.offsetOf?, if_pos here]
      rfl
  | cons c lead ih =>
    have later : ¬part.isPrefixOf (c :: (lead ++ (part ++ trail))) = true := by
      intro here
      obtain ⟨after, whole⟩ := List.isPrefixOf_iff_prefix.mp here
      have none : byteSize (c :: lead) ≤ 0 := first [] after whole.symm
      have := c.utf8Size_pos
      rw [byteSize] at none
      omega
    have rest : Text.offsetOf? part (lead ++ (part ++ trail)) = some (byteSize lead) := by
      refine ih fun before after whole => ?_
      have least := first (c :: before) after (congrArg (c :: ·) whole)
      rw [byteSize, byteSize] at least
      omega
    rw [List.cons_append, Text.offsetOf?, if_neg later, rest]
    rfl

/-- The segments of a token, if all steps are defined. The raw text of a text begins behind the
quote, and that of a command is looked for in the token's own text. -/
def Token.segments? (s : Source) (t : Token) : Option (List Surface.Segment) :=
  match t.lexeme with
  | .text raw => Surface.Segment.split? (t.span.start + 1) raw
  | .command raw => do
    let text ← s.cut? t.span
    Surface.Segment.split? (t.span.start + (Text.offsetOf? raw.toList text).getD 2) raw
  | _ => none

/-- The segments of a token are cut out of the source without failing. -/
theorem Token.segments?_eq (scanned : Token.scan s.chars = .ok ts) (mem : t ∈ ts)
    (covers : s.Covers t.span)
    (literal : t.lexeme = .text raw ∨ t.lexeme = .command raw) :
    t.segments? s = some (Surface.Segment.split t.body raw) := by
  obtain ⟨lead, trail, split, body, -, free, quote⟩ := Token.exists_lead scanned mem literal
  unfold Token.segments?
  rcases literal with text | command
  · rw [text, body, quote text]
    exact Surface.Segment.split?_eq _ raw
  · rw [command]
    dsimp only
    rw [covers.cut?_eq, Option.bind_eq_bind, Option.bind_some, Surface.Segment.split?_eq]
    by_cases dollar : '$' ∈ raw.toList
    · have found : Text.offsetOf? raw.toList (lead ++ (raw.toList ++ trail)) =
          some (byteSize lead) :=
        Text.offsetOf?_eq fun before after => byteSize_le_of_dollar free dollar
      rw [split, found, body]
      rfl
    · exact congrArg some (Surface.Segment.splitFrom_eq_of_not_mem dollar _ _)

end

end Shellwright
