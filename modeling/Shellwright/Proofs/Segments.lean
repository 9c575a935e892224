import Shellwright.Surface.Placeless

/-!
# Splitting interpolated text

What a reference to a variable looks like, what splitting does with the first characters of a
text, and that it does the same wherever the text stands.
-/

namespace Shellwright.Surface.Segment

open Text (byteSize)

/-! ## References -/

/-- The characters are a name. -/
def IsName (name : List Char) : Prop :=
  (∃ c cs, name = c :: cs ∧ isNameStart c = true) ∧ ∀ c ∈ name, isNameChar c = true

/-- The text would go on a name before it. -/
def goesOnName (cs : List Char) : Bool := cs.head?.any isNameChar

/-- What stands after the dollar sign of a reference, in braces or not. -/
def spelling (braced : Bool) (name : List Char) : List Char :=
  if braced then '\x7b' :: (name ++ ['\x7d']) else name

theorem isNameChar_of_isNameStart {c : Char} (h : isNameStart c = true) :
    isNameChar c = true := by
  simp only [isNameStart, isNameChar, Char.isAlphanum, Bool.or_eq_true] at h ⊢
  rcases h with letter | underscore
  · exact .inl (.inl letter)
  · exact .inr underscore

/-- A reference holds only braces and characters of names. -/
theorem IsName.not_mem_spelling {name : List Char} {c : Char} (h : IsName name) (braced : Bool)
    (other : isNameChar c = false) (left : c ≠ '\x7b') (right : c ≠ '\x7d') :
    c ∉ spelling braced name := by
  have outside : c ∉ name := by
    intro mem
    rw [h.2 c mem] at other
    cases other
  cases braced with
  | true => simp [spelling, left, right, outside]
  | false => exact outside

theorem IsName.not_mem_reference {name : List Char} {c : Char} (h : IsName name) (braced : Bool)
    (other : isNameChar c = false) (dollar : c ≠ '$') (left : c ≠ '\x7b') (right : c ≠ '\x7d') :
    c ∉ '$' :: spelling braced name := by
  rw [List.mem_cons, not_or]
  exact ⟨dollar, h.not_mem_spelling braced other left right⟩

theorem takeWhile_eq_nil_of_not_goesOnName {cs : List Char} (h : goesOnName cs = false) :
    cs.takeWhile isNameChar = [] := by
  cases cs with
  | nil => rfl
  | cons c cs =>
    have other : isNameChar c = false := h
    rw [List.takeWhile_cons, other]
    rfl

theorem takeWhile_name_append {name rest : List Char} (isName : IsName name)
    (h : goesOnName rest = false) : (name ++ rest).takeWhile isNameChar = name := by
  rw [List.takeWhile_append_of_pos isName.2, takeWhile_eq_nil_of_not_goesOnName h,
    List.append_nil]

/-- A text begins with a name that ends where the name does not go on. -/
theorem leadingName_eq_some {cs name : List Char} :
    leadingName cs = some name ↔
      IsName name ∧ ∃ rest, cs = name ++ rest ∧ goesOnName rest = false := by
  constructor
  · intro h
    cases cs with
    | nil => cases h
    | cons c cs =>
      simp only [leadingName] at h
      split at h
      · next start =>
        cases h
        have whole := List.takeWhile_append_dropWhile (p := isNameChar) (l := c :: cs)
        have first : (c :: cs).takeWhile isNameChar = c :: cs.takeWhile isNameChar := by
          rw [List.takeWhile_cons, isNameChar_of_isNameStart start]
          rfl
        refine ⟨⟨⟨c, _, first, start⟩, fun d mem => ?_⟩, _, whole.symm, ?_⟩
        · exact (List.all_eq_true.mp (List.all_takeWhile (p := isNameChar) (l := c :: cs))) d mem
        · have stop := List.head?_dropWhile_not isNameChar (c :: cs)
          unfold goesOnName
          revert stop
          cases ((c :: cs).dropWhile isNameChar).head? with
          | none => exact fun _ => rfl
          | some d => exact fun stop => by simpa using stop
      · cases h
  · rintro ⟨isName, rest, rfl, stop⟩
    have taken := takeWhile_name_append isName stop
    obtain ⟨⟨c, cs, rfl, start⟩, -⟩ := isName
    rw [List.cons_append, leadingName, if_pos start, ← List.cons_append, taken]

theorem reference?_braced {name : List Char} (isName : IsName name) (rest : List Char) :
    reference? (spelling true name ++ rest) = some (name, spelling true name) := by
  have lead : leadingName (name ++ '\x7d' :: rest) = some name :=
    leadingName_eq_some.mpr ⟨isName, _, rfl, rfl⟩
  have regroup : spelling true name ++ rest = '\x7b' :: (name ++ '\x7d' :: rest) := by
    simp [spelling]
  rw [regroup, reference?]
  simp only [lead, List.drop_left, List.head?_cons, if_true]
  rfl

theorem reference?_bare {name rest : List Char} (isName : IsName name)
    (h : goesOnName rest = false) : reference? (name ++ rest) = some (name, name) := by
  have lead : leadingName (name ++ rest) = some name :=
    leadingName_eq_some.mpr ⟨isName, rest, rfl, h⟩
  obtain ⟨⟨c, cs, rfl, start⟩, -⟩ := isName
  unfold reference?
  split
  · next inner same =>
    cases same
    cases start
  · rw [lead]
    rfl

/-- A reference is read back from its spelling, if nothing after it goes on with the name. -/
theorem reference?_spelling {name rest : List Char} {braced : Bool} (isName : IsName name)
    (h : braced = false → goesOnName rest = false) :
    reference? (spelling braced name ++ rest) = some (name, spelling braced name) := by
  cases braced with
  | true => exact reference?_braced isName rest
  | false => exact reference?_bare isName (h rfl)

/-- A reference is a name, with braces around it or with nothing after it that would
go on the name. -/
theorem eq_spelling_of_reference? {cs name taken : List Char}
    (h : reference? cs = some (name, taken)) :
    IsName name ∧ ∃ braced rest, taken = spelling braced name ∧ cs = taken ++ rest ∧
      (braced = false → goesOnName rest = false) := by
  unfold reference? at h
  split at h
  · next inner =>
    split at h
    · next found lead =>
      obtain ⟨isName, rest, rfl, -⟩ := leadingName_eq_some.mp lead
      rw [List.drop_left] at h
      split at h
      · next closes =>
        cases h
        obtain ⟨rest, rfl⟩ : ∃ more, rest = '\x7d' :: more := by
          cases rest with
          | nil => cases closes
          | cons d more =>
            cases closes
            exact ⟨more, rfl⟩
        exact ⟨isName, true, rest, rfl, by simp, nofun⟩
      · cases h
    · cases h
  · obtain ⟨found, lead, same⟩ := Option.map_eq_some_iff.mp h
    cases same
    obtain ⟨isName, rest, whole, stop⟩ := leadingName_eq_some.mp lead
    exact ⟨isName, false, rest, rfl, whole, fun _ => stop⟩

/-! ## The first characters -/

theorem splitFrom_skip (skip pos : Nat) (cs : List Char) :
    splitFrom skip pos cs = splitFrom 0 pos (cs.drop skip) := by
  induction skip generalizing cs with
  | zero => rfl
  | succ skip ih =>
    cases cs with
    | nil => simp only [splitFrom, List.drop_nil]
    | cons c cs => rw [splitFrom, ih cs, List.drop_succ_cons]

/-- An escaped character is kept as text, with its backslash. -/
theorem splitFrom_escape (pos : Nat) (c : Char) (cs : List Char) :
    splitFrom 0 pos ('\\' :: c :: cs) =
      consText (String.ofList ['\\', c]) (splitFrom 0 (pos + byteSize ['\\', c]) cs) := by
  rw [splitFrom]

theorem splitFrom_reference {cs name taken : List Char} (h : reference? cs = some (name, taken))
    (pos : Nat) :
    splitFrom 0 pos ('$' :: cs) =
      .ref (String.ofList name) (String.ofList ('$' :: taken)) ⟨pos,
      pos + byteSize ('$' :: taken)⟩ ::
        splitFrom taken.length (pos + byteSize ('$' :: taken)) cs := by
  rw [splitFrom, if_pos rfl, h]
  rintro c cs ⟨⟩

/-- A spelled reference is split off. -/
theorem splitFrom_spelling {name rest : List Char} {braced : Bool} (isName : IsName name)
    (h : braced = false → goesOnName rest = false) (pos : Nat) :
    splitFrom 0 pos ('$' :: (spelling braced name ++ rest)) =
      .ref (String.ofList name) (String.ofList ('$' :: spelling braced name))
          ⟨pos, pos + byteSize ('$' :: spelling braced name)⟩ ::
        splitFrom 0 (pos + byteSize ('$' :: spelling braced name)) rest := by
  rw [splitFrom_reference (reference?_spelling isName h), splitFrom_skip, List.drop_left]

/-- A dollar sign that begins no reference stands for itself. -/
theorem splitFrom_dollar {cs : List Char} (h : reference? cs = none) (pos : Nat) :
    splitFrom 0 pos ('$' :: cs) =
      consText (String.singleton '$') (splitFrom 0 (pos + '$'.utf8Size) cs) := by
  rw [splitFrom, if_pos rfl, h]
  rintro c cs ⟨⟩

theorem splitFrom_plain {c : Char} {cs : List Char} (dollar : c ≠ '$')
    (escape : ∀ d rest, c = '\\' → cs = d :: rest → False) (pos : Nat) :
    splitFrom 0 pos (c :: cs) =
      consText (String.singleton c) (splitFrom 0 (pos + c.utf8Size) cs) := by
  rw [splitFrom, if_neg dollar]
  exact escape

/-- A character that begins neither an escape nor a reference is plain text. -/
theorem splitFrom_char {c : Char} {cs : List Char} (lone : c = '\\' → cs = [])
    (absent : c = '$' → reference? cs = none) (pos : Nat) :
    splitFrom 0 pos (c :: cs) =
      consText (String.singleton c) (splitFrom 0 (pos + c.utf8Size) cs) := by
  by_cases dollar : c = '$'
  · subst dollar
    exact splitFrom_dollar (absent rfl) pos
  · refine splitFrom_plain dollar (fun d rest backslash same => ?_) pos
    rw [lone backslash] at same
    cases same

/-- A text piece by piece: escapes, references and other characters. -/
inductive Pieces : List Char → Prop
  | nil : Pieces []
  | escape {cs : List Char} (c : Char) : Pieces cs → Pieces ('\\' :: c :: cs)
  | char {c : Char} {cs : List Char} : (c = '\\' → cs = []) → (c = '$' → reference? cs = none) →
    Pieces cs → Pieces (c :: cs)
  | reference {name cs : List Char} {braced : Bool} : IsName name →
    (braced = false → goesOnName cs = false) → Pieces cs →
      Pieces ('$' :: (spelling braced name ++ cs))

/-- Every text is made of such pieces, by induction on its length. -/
theorem pieces (cs : List Char) : Pieces cs := by
  match cs with
  | [] => exact .nil
  | c :: cs =>
    by_cases backslash : c = '\\'
    · subst backslash
      match cs with
      | [] => exact .char (fun _ => rfl) nofun .nil
      | d :: rest => exact .escape d (pieces rest)
    · by_cases dollar : c = '$'
      · subst dollar
        cases found : reference? cs with
        | none => exact .char (absurd · backslash) (fun _ => found) (pieces cs)
        | some pair =>
          obtain ⟨name, taken⟩ := pair
          obtain ⟨isName, braced, rest, rfl, whole, stop⟩ := eq_spelling_of_reference? found
          have rest' := pieces rest
          rw [whole]
          exact .reference isName stop rest'
      · exact .char (absurd · backslash) (absurd · dollar) (pieces cs)
termination_by cs.length
decreasing_by
  · simp only [List.length_cons]
    omega
  · simp only [List.length_cons]
    omega
  · simp only [whole, List.length_cons, List.length_append]
    omega
  · simp only [List.length_cons]
    omega

/-! ## Places -/

theorem map_placeless_consText (text : String) (segments : List Segment) :
    (consText text segments).map placeless = consText text (segments.map placeless) := by
  cases segments with
  | nil => rfl
  | cons first rest => cases first <;> rfl

/-- Where a text stands changes nothing but the places of its references. -/
theorem map_placeless_splitFrom (skip pos pos' : Nat) (cs : List Char) :
    (splitFrom skip pos cs).map placeless = (splitFrom skip pos' cs).map placeless := by
  fun_induction splitFrom skip pos cs generalizing pos' with
  | case1 => simp only [splitFrom]
  | case2 pos skip c cs ih => simpa only [splitFrom] using ih pos'
  | case3 pos c cs ih =>
    rw [splitFrom_escape, map_placeless_consText, map_placeless_consText, ih]
  | case4 pos cs name taken found _ stop ih =>
    rw [splitFrom_reference found, List.map_cons, List.map_cons, ih]
    rfl
  | case5 pos cs absent _ ih =>
    rw [splitFrom_dollar absent, map_placeless_consText, map_placeless_consText, ih]
  | case6 pos c cs escape dollar ih =>
    rw [splitFrom_plain dollar escape, map_placeless_consText, map_placeless_consText, ih]

/-- Where a text stands does not change what it says. -/
theorem map_placeless_split (base : Nat) (raw : String) :
    (split base raw).map placeless = (split 0 raw).map placeless :=
  map_placeless_splitFrom 0 base 0 raw.toList

end Shellwright.Surface.Segment
