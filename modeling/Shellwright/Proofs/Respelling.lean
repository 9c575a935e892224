import Shellwright.Core.Resolve
import Shellwright.Proofs.Segments
import Shellwright.Script.Words

/-!
# References written anew

Interpolated text is split, its names are looked up, and it is written again. A reference to a
variable of the program is then spelled with braces just where it needs them; everything else,
references to other names among it, stays as it was.

* `Respelled s r t`: the text `t` is `r` apart from the braces of known names.
* `respelled_segmentsText`: this is what is written for a text.
* `Respelled.sameItems`: splitting finds the same items in both texts.
-/

namespace Shellwright.Core

open Surface.Segment (IsName goesOnName spelling reference? splitFrom eq_spelling_of_reference?
  reference?_spelling splitFrom_escape splitFrom_char splitFrom_spelling pieces)

/-- Two texts that differ only in the braces of references to names that the scope knows. -/
inductive Respelled (s : Scope) : List Char → List Char → Prop
  | nil : Respelled s [] []
  | escape {r t : List Char} (c : Char) : Respelled s r t →
    Respelled s ('\\' :: c :: r) ('\\' :: c :: t)
  | plain {r t : List Char} {c : Char} : (c = '\\' → r = []) → (c = '$' → reference? r = none) →
    Respelled s r t → Respelled s (c :: r) (c :: t)
  | reference {r t : List Char} {name : List Char} {braced braced' : Bool} :
    IsName name → (braced = false → goesOnName r = false) →
      (braced' = false → goesOnName t = false) →
      (s.find? (String.ofList name) = none → braced' = braced) → Respelled s r t →
      Respelled s ('$' :: (spelling braced name ++ r)) ('$' :: (spelling braced' name ++ t))

/-- The same items in the same order: plain texts are equal, references have the same name, and
those to unknown names are also spelled alike. -/
def SameItems (s : Scope) : List Surface.Segment → List Surface.Segment → Prop
  | [], [] => True
  | .text a :: as, .text b :: bs => a = b ∧ SameItems s as bs
  | .ref name raw _ :: as, .ref name' raw' _ :: bs =>
    name = name' ∧ (s.find? name = none → raw = raw') ∧ SameItems s as bs
  | _, _ => False

namespace Respelled

variable {s : Scope} {r t : List Char}

theorem head?_eq (h : Respelled s r t) : r.head? = t.head? := by
  cases h <;> rfl

/-- Respelling changes nothing about whether a name goes on. -/
theorem goesOnName_eq (h : Respelled s r t) : goesOnName r = goesOnName t := by
  rw [goesOnName, goesOnName, h.head?_eq]

theorem eq_nil (h : Respelled s r t) (empty : r = []) : t = [] := by
  cases h with
  | nil => rfl
  | _ => cases empty

/-- A character that begins neither a reference nor an escape is the same in both texts. -/
theorem exists_cons {c : Char} (h : Respelled s r (c :: t)) (dollar : c ≠ '$')
    (backslash : c ≠ '\\') : ∃ r', r = c :: r' ∧ Respelled s r' t := by
  cases h with
  | escape => exact absurd rfl backslash
  | plain _ _ rest => exact ⟨_, rfl, rest⟩
  | reference => exact absurd rfl dollar

/-- Text without dollar signs and backslashes is respelled as it is. -/
theorem exists_append {xs : List Char} (h : Respelled s r (xs ++ t)) (dollar : '$' ∉ xs)
    (backslash : '\\' ∉ xs) : ∃ r', r = xs ++ r' ∧ Respelled s r' t := by
  induction xs generalizing r with
  | nil => exact ⟨r, rfl, h⟩
  | cons x xs ih =>
    rw [List.mem_cons, not_or] at dollar backslash
    obtain ⟨r, rfl, rest⟩ := h.exists_cons (Ne.symm dollar.1) (Ne.symm backslash.1)
    obtain ⟨r', rfl, rest'⟩ := ih rest dollar.2 backslash.2
    exact ⟨r', rfl, rest'⟩

/-- No reference comes to be where there was none. -/
theorem reference?_eq_none (h : Respelled s r t) (absent : reference? r = none) :
    reference? t = none := by
  cases found : reference? t with
  | none => rfl
  | some pair =>
    obtain ⟨name, taken⟩ := pair
    obtain ⟨isName, braced, rest, rfl, rfl, stop⟩ := eq_spelling_of_reference? found
    obtain ⟨r', rfl, rest'⟩ := h.exists_append
      (isName.not_mem_spelling braced rfl nofun nofun)
      (isName.not_mem_spelling braced rfl nofun nofun)
    have same : reference? (spelling braced name ++ r') = some (name, spelling braced name) :=
      reference?_spelling isName fun bare => rest'.goesOnName_eq ▸ stop bare
    cases absent.symm.trans same

end Respelled

/-! ## The text that is written -/

theorem Segment.consText_consText (a b : String) (segments : List Segment) :
    Segment.consText a (Segment.consText b segments) = Segment.consText (a ++ b) segments := by
  cases segments with
  | nil => rfl
  | cons first rest =>
    cases first with
    | text c => simp only [Segment.consText, String.append_assoc]
    | var v => rfl

/-- Text before the segments is kept by resolving. -/
theorem resolveSegments_consText (s : Scope) (text : String) (segments : List Surface.Segment) :
    resolveSegments s (Surface.Segment.consText text segments) =
      Segment.consText text (resolveSegments s segments) := by
  cases segments with
  | nil => rfl
  | cons first rest =>
    cases first with
    | text next => exact (Segment.consText_consText text next _).symm
    | ref name raw span => rfl

/-- It is written before them. -/
theorem segmentsText_consText (m : Script.Mode) (text : String) (segments : List Segment) :
    Script.segmentsText m (Segment.consText text segments) =
      text ++ Script.segmentsText m segments := by
  cases segments with
  | nil => rfl
  | cons first rest =>
    cases first with
    | text next => simp only [Segment.consText, Script.segmentsText, String.append_assoc]
    | var v => rfl

theorem continuesName_consText {text : String} {c : Char} {cs : List Char}
    (h : text.toList = c :: cs) (segments : List Segment) :
    Script.continuesName (Segment.consText text segments) = isNameChar c := by
  cases segments with
  | nil => simp [Segment.consText, Script.continuesName, h]
  | cons first rest =>
    cases first with
    | text next => simp [Segment.consText, Script.continuesName, h]
    | var v => simp [Segment.consText, Script.continuesName, h]

/-- What comes after a variable goes on its name just when the text after the reference does. -/
theorem continuesName_resolveSegments (s : Scope) (pos : Nat) (cs : List Char) :
    Script.continuesName (resolveSegments s (splitFrom 0 pos cs)) = goesOnName cs := by
  cases pieces cs with
  | nil => rfl
  | escape c _ =>
    rw [splitFrom_escape, resolveSegments_consText,
      continuesName_consText (String.toList_ofList)]
    rfl
  | char lone absent _ =>
    rw [splitFrom_char lone absent, resolveSegments_consText,
      continuesName_consText (String.toList_singleton ..)]
    rfl
  | @reference name _ braced isName stop _ =>
    rw [splitFrom_spelling isName stop, resolveSegments]
    cases s.find? (String.ofList name) with
    | some found => rfl
    | none =>
      dsimp only
      rw [continuesName_consText (String.toList_ofList)]
      rfl

theorem variableText_toList {m : Script.Mode} (bare : m.quote = false) (braced : Bool)
    (v : Variable) :
    (Script.variableText m braced v).toList = '$' :: spelling braced v.name.toList := by
  cases braced <;> simp [Script.variableText, bare, spelling]

/-- A name means the variable of that name. -/
theorem Scope.find?_name {s : Scope} {name : String} {v : Variable} {ty : Ty}
    (h : s.find? name = some (v, ty)) : v.name = name := by
  unfold Scope.find? at h
  split at h
  · cases h
    rfl
  · obtain ⟨ty', -, same⟩ := Option.map_eq_some_iff.mp h
    cases same
    rfl

/-- What is written for a text is the text with its references written anew. -/
theorem respelled_segmentsText {m : Script.Mode} (bare : m.quote = false) (s : Scope) (pos : Nat)
    (cs : List Char) :
    Respelled s cs (Script.segmentsText m (resolveSegments s (splitFrom 0 pos cs))).toList := by
  induction pieces cs generalizing pos with
  | nil => exact .nil
  | escape c _ ih =>
    rw [splitFrom_escape, resolveSegments_consText, segmentsText_consText, String.toList_append,
      String.toList_ofList]
    exact .escape c (ih _)
  | char lone absent _ ih =>
    rw [splitFrom_char lone absent, resolveSegments_consText, segmentsText_consText,
      String.toList_append, String.toList_singleton]
    exact .plain lone absent (ih _)
  | @reference name rest braced isName stop _ ih =>
    rw [splitFrom_spelling isName stop, resolveSegments]
    have rest' := ih (pos + Text.byteSize ('$' :: spelling braced name))
    cases known : s.find? (String.ofList name) with
    | some found =>
      obtain ⟨v, ty⟩ := found
      dsimp only
      rw [Script.segmentsText, String.toList_append, variableText_toList bare,
        Scope.find?_name known, String.toList_ofList, continuesName_resolveSegments]
      exact .reference isName stop (fun plain => rest'.goesOnName_eq ▸ plain)
        (fun unknown => by cases known.symm.trans unknown) rest'
    | none =>
      dsimp only
      rw [segmentsText_consText, String.toList_append, String.toList_ofList]
      exact .reference isName stop (fun plain => rest'.goesOnName_eq ▸ stop plain) (fun _ =>
        rfl) rest'

/-! ## The items of both texts -/

theorem SameItems.consText {s : Scope} {as bs : List Surface.Segment} (h : SameItems s as bs)
    (text : String) :
    SameItems s (Surface.Segment.consText text as) (Surface.Segment.consText text bs) := by
  cases as with
  | nil =>
    cases bs with
    | nil => exact ⟨rfl, trivial⟩
    | cons b bs => cases h
  | cons a as =>
    cases bs with
    | nil => cases a <;> cases h
    | cons b bs =>
      cases a with
      | text x =>
        cases b with
        | text y =>
          obtain ⟨rfl, rest⟩ := h
          exact ⟨rfl, rest⟩
        | ref name raw span => cases h
      | ref name raw span =>
        cases b with
        | text y => cases h
        | ref name' raw' span' => exact ⟨rfl, h⟩

/-- A text and a respelled one have the same items, by induction on the respelling. -/
theorem Respelled.sameItems {s : Scope} {r t : List Char} (h : Respelled s r t)
    (pos pos' : Nat) :
    SameItems s (splitFrom 0 pos t) (splitFrom 0 pos' r) := by
  induction h generalizing pos pos' with
  | nil => trivial
  | escape c _ ih =>
    rw [splitFrom_escape, splitFrom_escape]
    exact (ih _ _).consText _
  | plain lone absent rest ih =>
    have lone' : _ = '\\' → _ = [] := fun backslash => rest.eq_nil (lone backslash)
    have absent' : _ = '$' → reference? _ = none := fun dollar =>
      rest.reference?_eq_none (absent dollar)
    rw [splitFrom_char lone absent, splitFrom_char lone' absent']
    exact (ih _ _).consText _
  | reference isName stop stop' same rest ih =>
    rw [splitFrom_spelling isName stop, splitFrom_spelling isName stop']
    exact ⟨rfl, fun unknown => by rw [same unknown], ih _ _⟩

end Shellwright.Core
