import Shellwright.Proofs.Literals

/-!
# One lexeme

How much of a text its first lexeme takes, and how little of the rest matters for that. A lexeme
that ends before some point is read alike when the text is cut off there, and also when a
separator or a comment is put there.

* `Reader`, `reader_read`: the first character settles how a lexeme is read.
* `Reader.takes`: what is taken is the beginning of the text, and reading looks no further than
  to where the text could go on with the lexeme.
* `Reader.looked_append`: what is looked at before a fault shows is the beginning
  of the text too.
* `Reader.faithful`: numbers and raw texts are what the characters say.
-/

namespace Shellwright

open Text (byteSize trim isBlank)
open Shellwright.Core (textBody_self exists_bracket Closes isQuotation_none)

/-! ## Runs of characters -/

/-- The text does not go on with a character of the class. -/
def Stops (p : Char → Bool) (cs : List Char) : Prop := ∀ c ∈ cs.head?, p c = false

theorem stops_nil (p : Char → Bool) : Stops p [] := by
  intro c mem
  cases mem

theorem stops_cons {p : Char → Bool} {c : Char} {cs : List Char} :
    Stops p (c :: cs) ↔ p c = false := by
  constructor
  · exact fun h => h c rfl
  · rintro h d ⟨⟩
    exact h

/-- A run stops where it ends. -/
theorem stops_dropWhile (p : Char → Bool) (cs : List Char) : Stops p (cs.dropWhile p) := by
  intro c mem
  have stop := List.head?_dropWhile_not p cs
  rw [mem] at stop
  exact stop

/-- A run is taken up to where it stops. -/
theorem Stops.takeWhile_append {p : Char → Bool} {xs cs : List Char} (h : Stops p cs)
    (all : ∀ c ∈ xs, p c = true) : (xs ++ cs).takeWhile p = xs := by
  rw [List.takeWhile_append_of_pos all]
  cases cs with
  | nil => rw [List.takeWhile_nil, List.append_nil]
  | cons c cs => rw [List.takeWhile_cons_of_neg (by simp [stops_cons.mp h]), List.append_nil]

/-- The rest begins where the run stops. -/
theorem Stops.dropWhile_append {p : Char → Bool} {xs cs : List Char} (h : Stops p cs)
    (all : ∀ c ∈ xs, p c = true) : (xs ++ cs).dropWhile p = cs := by
  rw [List.dropWhile_append_of_pos all]
  cases cs with
  | nil => rfl
  | cons c cs => exact List.dropWhile_cons_of_neg (by simp [stops_cons.mp h])

/-- Every text is a run of the class and what follows it. -/
theorem exists_run (p : Char → Bool) (cs : List Char) :
    ∃ xs rest, cs = xs ++ rest ∧ (∀ c ∈ xs, p c = true) ∧ Stops p rest :=
  ⟨cs.takeWhile p, cs.dropWhile p, List.takeWhile_append_dropWhile.symm,
    List.all_eq_true.mp List.all_takeWhile, stops_dropWhile p cs⟩

/-- Nothing follows, or a separator or a comment does. -/
def Quiet (cs : List Char) : Prop := ∀ c ∈ cs.head?, isSeparator c = true ∨ c = '#'

theorem quiet_nil : Quiet [] := by
  intro c mem
  cases mem

/-- Separators and comments end every run that has none of them. -/
theorem Quiet.stops {w : List Char} (h : Quiet w) {p : Char → Bool}
    (other : ∀ c, isSeparator c = true ∨ c = '#' → p c = false) : Stops p w :=
  fun c mem => other c (h c mem)

theorem Quiet.cases {c : Char} (h : isSeparator c = true ∨ c = '#') :
    c = ' ' ∨ c = '\n' ∨ c = '\t' ∨ c = '\r' ∨ c = '#' := by
  simpa [isSeparator, or_assoc] using h

theorem Quiet.stops_digit {w : List Char} (h : Quiet w) : Stops Char.isDigit w :=
  h.stops fun c quiet => by
    rcases Quiet.cases quiet with rfl | rfl | rfl | rfl | rfl <;> decide

theorem Quiet.stops_name {w : List Char} (h : Quiet w) : Stops isNameChar w :=
  h.stops fun c quiet => by
    rcases Quiet.cases quiet with rfl | rfl | rfl | rfl | rfl <;> decide

/-- What stops a run can be followed by anything quiet instead. -/
theorem Stops.cut {p : Char → Bool} {u v w : List Char} (h : Stops p (u ++ v))
    (stop : Stops p w) :
    Stops p (u ++ w) := by
  cases u with
  | nil => exact stop
  | cons c u => exact stops_cons.mpr (stops_cons.mp h)

/-! ## Numbers -/

/-- The text goes on with a point and a digit. -/
def BeginsPlaces (cs : List Char) : Prop := ∃ d rest, cs = '.' :: d :: rest ∧ d.isDigit = true

/-- Nor do decimal places begin when what follows is exchanged for something quiet. -/
theorem not_beginsPlaces_cut {u v w : List Char} (h : ¬BeginsPlaces (u ++ v)) (quiet : Quiet w) :
    ¬BeginsPlaces (u ++ w) := by
  rintro ⟨d, rest, same, digit⟩
  match u with
  | [] =>
    rw [List.nil_append] at same
    have point := quiet '.' (by rw [same]; rfl)
    exact absurd point (by decide)
  | [x] =>
    obtain ⟨-, same⟩ : x = '.' ∧ w = d :: rest := List.cons.inj same
    have none := stops_cons.mp (same ▸ quiet.stops_digit)
    rw [digit] at none
    cases none
  | x :: y :: u =>
    obtain ⟨first, same⟩ := List.cons.inj same
    obtain ⟨second, -⟩ := List.cons.inj same
    subst first second
    exact h ⟨y, u ++ v, rfl, digit⟩

/-- Digits with no decimal places behind them are a whole number. -/
theorem readNumber_whole {digits rest : List Char} (all : ∀ d ∈ digits, d.isDigit = true)
    (stop : Stops Char.isDigit rest) (whole : ¬BeginsPlaces rest) (c : Char) :
    Lexeme.readNumber c (digits ++ rest) =
      if digitsValue (c :: digits) < twoTo 63 then
        .ok ⟨.int (.ofNat (digitsValue (c :: digits))), 0, digits⟩
      else .error (.intOutOfRange, digits) := by
  unfold Lexeme.readNumber
  rw [stop.takeWhile_append all, stop.dropWhile_append all]
  dsimp only
  split
  · next d rest =>
    rw [if_neg fun digit => whole ⟨d, rest, rfl, digit⟩]
  · rfl

/-- Digits, a point and digits are a fraction. -/
theorem readNumber_places {digits places rest : List Char} {d : Char}
    (all : ∀ d ∈ digits, d.isDigit = true) (first : d.isDigit = true)
    (more : ∀ d ∈ places, d.isDigit = true) (stop : Stops Char.isDigit rest) (c : Char) :
    Lexeme.readNumber c (digits ++ '.' :: d :: (places ++ rest)) =
      .ok ⟨.fraction (Binary64.ofRatio (digitsValue (c :: digits ++ d :: places))
          (tenTo (d :: places).length)), 0, digits ++ '.' :: d :: places⟩ := by
  have point : Stops Char.isDigit ('.' :: d :: (places ++ rest)) := stops_cons.mpr rfl
  unfold Lexeme.readNumber
  rw [point.takeWhile_append all, point.dropWhile_append all]
  refine (if_pos first).trans ?_
  rw [stop.takeWhile_append more]

/-- The digits at the beginning of a text, and the places of a fraction if they follow. -/
theorem exists_number (cs : List Char) :
    ∃ digits rest, cs = digits ++ rest ∧ (∀ d ∈ digits, d.isDigit = true) ∧
      Stops Char.isDigit rest ∧
      (¬BeginsPlaces rest ∨ ∃ d places last, rest = '.' :: d :: (places ++ last) ∧
        d.isDigit = true ∧ (∀ d ∈ places, d.isDigit = true) ∧ Stops Char.isDigit last) := by
  obtain ⟨digits, rest, split, all, stop⟩ := exists_run Char.isDigit cs
  refine ⟨digits, rest, split, all, stop, ?_⟩
  by_cases point : BeginsPlaces rest
  · obtain ⟨d, more, rfl, digit⟩ := point
    obtain ⟨places, last, rfl, isPlace, stop⟩ := exists_run Char.isDigit more
    exact .inr ⟨d, places, last, rfl, digit, isPlace, stop⟩
  · exact .inl point

/-! ## Readers -/

/-- The ways of reading a lexeme that begins with `c`. -/
inductive Reader (c : Char) : (List Char → Except (LexFault × List Char) Reading) → Prop
  | one (s : Symbol) : Reader c fun _ => Shellwright.one s
  | oneOrTwo {next : Char} (single double : Symbol) : next = '=' ∨ next = '|' →
    Reader c fun cs => Shellwright.oneOrTwo next cs single double
  | twice (s : Symbol) (fault : LexFault) : Reader c fun cs => Shellwright.twice c cs s fault
  | text : c = '"' → Reader c fun cs =>
    match textBody cs with
    | .ok body => .ok ⟨.text (String.ofList body), 1, body ++ ['"']⟩
    | .error fault => .error (fault, cs)
  | command : c = '@' → Reader c Lexeme.readCommand
  | number : c.isDigit = true → Reader c (Lexeme.readNumber c)
  | word : isNameStart c = true → Reader c fun cs =>
    .ok ⟨Lexeme.ofWord (String.ofList (c :: cs.takeWhile isNameChar)), 0,
    cs.takeWhile isNameChar⟩
  | stray : Reader c fun _ => .error (.strayCharacter c, [])

/-- The first character settles how a lexeme is read. -/
theorem reader_read (c : Char) : Reader c (Lexeme.read c) := by
  unfold Lexeme.read
  split
  case h_12 | h_13 | h_14 | h_15 => exact .oneOrTwo _ _ (.inl rfl)
  case h_16 => exact .oneOrTwo _ _ (.inr rfl)
  case h_17 | h_18 => exact .twice _ _
  case h_19 => exact .text rfl
  case h_20 => exact .command rfl
  case h_21 =>
    split
    case isTrue digit => exact .number digit
    case isFalse =>
      split
      case isTrue start => exact .word start
      case isFalse => exact .stray
  all_goals exact .one _

/-! ## What a lexeme takes -/

/-- A lexeme takes the beginning of the text. It takes the same characters if the text after it
is left as it is up to some point, and there a separator, a comment or nothing follows. -/
def Takes (read : List Char → Except (LexFault × List Char) Reading) (cs : List Char)
    (r : Reading) :
    Prop :=
  ∃ rest, cs = r.more ++ rest ∧
    ∀ u v w, rest = u ++ v → Quiet w → read (r.more ++ (u ++ w)) = .ok r

theorem oneOrTwo_takes {next : Char} {single double : Symbol} {cs : List Char} {r : Reading}
    (mark : next = '=' ∨ next = '|') (ok : oneOrTwo next cs single double = .ok r) :
    Takes (fun cs => oneOrTwo next cs single double) cs r := by
  unfold oneOrTwo at ok
  split at ok
  · next second =>
    cases ok
    obtain ⟨rest, rfl⟩ := List.head?_eq_some_iff.mp second
    exact ⟨rest, rfl, fun u v w _ _ => if_pos rfl⟩
  · next other =>
    cases ok
    refine ⟨cs, rfl, fun u v w split quiet => if_neg ?_⟩
    subst split
    cases u with
    | cons d u => exact other
    | nil =>
      intro second
      have sort := quiet next second
      rcases mark with rfl | rfl <;> exact absurd sort (by decide)

theorem twice_takes {c : Char} {s : Symbol} {fault : LexFault} {cs : List Char} {r : Reading}
    (ok : twice c cs s fault = .ok r) : Takes (fun cs => twice c cs s fault) cs r := by
  unfold twice at ok
  split at ok
  · next second =>
    cases ok
    obtain ⟨rest, rfl⟩ := List.head?_eq_some_iff.mp second
    exact ⟨rest, rfl, fun u v w _ _ => if_pos rfl⟩
  · cases ok

/-- A string ends at a quote. -/
theorem exists_quote {cs body : List Char} (h : textBody cs = .ok body) :
    ∃ rest, cs = body ++ '"' :: rest := by
  fun_induction textBody cs generalizing body with
  | case1 | case2 => cases h
  | case3 rest =>
    cases h
    exact ⟨rest, rfl⟩
  | case4 c cs ih =>
    obtain ⟨inner, found, rfl⟩ := map_eq_ok.mp h
    obtain ⟨rest, rfl⟩ := ih found
    exact ⟨rest, rfl⟩
  | case5 c cs _ _ _ ih =>
    obtain ⟨inner, found, rfl⟩ := map_eq_ok.mp h
    obtain ⟨rest, rfl⟩ := ih found
    exact ⟨rest, rfl⟩

/-- A command is read without looking behind its closing bracket. -/
theorem readCommand_takes {cs : List Char} {r : Reading} (ok : Lexeme.readCommand cs = .ok r) :
    Takes Lexeme.readCommand cs r := by
  unfold Lexeme.readCommand at ok
  split at ok
  · split at ok
    · next body found =>
      cases ok
      obtain ⟨rest, rfl⟩ := exists_bracket found
      refine ⟨rest, by simp, fun u v w _ _ => ?_⟩
      have whole : Closes 0 none (body ++ []) rest := by rwa [List.append_nil]
      have closed := whole.of_append isQuotation_none (by simp) (u ++ w)
      unfold Closes at closed
      have regroup : '(' :: body ++ [')'] ++ (u ++ w) = '(' :: (body ++ ')' :: (u ++ w)) := by
        simp
      simp only [regroup, Lexeme.readCommand, closed]
    · cases ok
  · cases ok

/-- A number is read without looking further than to its end. -/
theorem readNumber_takes {c : Char} {cs : List Char} {r : Reading}
    (ok : Lexeme.readNumber c cs = .ok r) : Takes (Lexeme.readNumber c) cs r := by
  obtain ⟨digits, rest, rfl, all, stop, whole | ⟨d, places, last, rfl, first, more, ends⟩⟩ :=
    exists_number cs
  · rw [readNumber_whole all stop whole] at ok
    split at ok
    · next small =>
      cases ok
      refine ⟨rest, rfl, fun u v w split quiet => ?_⟩
      subst split
      rw [readNumber_whole all (stop.cut quiet.stops_digit) (not_beginsPlaces_cut whole quiet),
        if_pos small]
    · cases ok
  · rw [readNumber_places all first more ends] at ok
    cases ok
    refine ⟨last, by simp, fun u v w split quiet => ?_⟩
    subst split
    have regroup : digits ++ '.' :: d :: places ++ (u ++ w) =
        digits ++ '.' :: d :: (places ++ (u ++ w)) := by simp
    rw [regroup, readNumber_places all first more (ends.cut quiet.stops_digit)]

/-- Whatever the first character, reading looks no further than to where the text could go
on with the lexeme. -/
theorem Reader.takes {c : Char} {read : List Char → Except (LexFault × List Char) Reading}
    (h : Reader c read) {cs : List Char} {r : Reading} (ok : read cs = .ok r) :
    Takes read cs r := by
  cases h with
  | one s =>
    cases ok
    exact ⟨cs, rfl, fun u v w _ _ => rfl⟩
  | oneOrTwo single double mark => exact oneOrTwo_takes mark ok
  | twice s fault => exact twice_takes ok
  | text quote =>
    dsimp only at ok
    split at ok
    · next body found =>
      cases ok
      obtain ⟨rest, rfl⟩ := exists_quote found
      refine ⟨rest, by simp, fun u v w _ _ => ?_⟩
      have regroup : body ++ ['"'] ++ (u ++ w) = body ++ '"' :: (u ++ w) := by simp
      simp only [regroup, textBody_self found]
    · cases ok
  | command at' => exact readCommand_takes ok
  | number digit => exact readNumber_takes ok
  | word start =>
    cases ok
    obtain ⟨more, rest, rfl, all, stop⟩ := exists_run isNameChar cs
    refine ⟨rest, by rw [stop.takeWhile_append all], fun u v w split quiet => ?_⟩
    subst split
    simp only [stop.takeWhile_append all, (stop.cut quiet.stops_name).takeWhile_append all]
  | stray => cases ok

/-- What is looked at before a fault shows is the beginning of the text. -/
theorem Reader.looked_append {c : Char}
    {read : List Char → Except (LexFault × List Char) Reading} (h : Reader c read)
    {cs looked : List Char} {fault : LexFault} (failed : read cs = .error (fault, looked)) :
    ∃ rest, cs = looked ++ rest := by
  cases h with
  | one s => cases failed
  | oneOrTwo single double _ =>
    dsimp only [Shellwright.oneOrTwo] at failed
    split at failed <;> cases failed
  | twice s fault =>
    dsimp only [Shellwright.twice] at failed
    split at failed
    · cases failed
    · cases failed
      exact ⟨cs, rfl⟩
  | text quote =>
    dsimp only at failed
    split at failed
    · cases failed
    · cases failed
      exact ⟨[], (List.append_nil _).symm⟩
  | command at' =>
    unfold Lexeme.readCommand at failed
    split at failed
    · split at failed
      · cases failed
      · cases failed
        exact ⟨[], (List.append_nil _).symm⟩
    · cases failed
      exact ⟨cs, rfl⟩
  | number digit =>
    obtain ⟨digits, rest, rfl, all, stop, whole | ⟨d, places, last, rfl, first, more, ends⟩⟩ :=
      exists_number cs
    · rw [readNumber_whole all stop whole] at failed
      split at failed
      · cases failed
      · cases failed
        exact ⟨rest, rfl⟩
    · rw [readNumber_places all first more ends] at failed
      cases failed
  | word start => cases failed
  | stray =>
    cases failed
    exact ⟨cs, rfl⟩

/-! ## What a lexeme says -/

/-- A whole number is the value of the digits that are read, and a raw text is among the
characters that are read, at its lead. -/
def Reading.Faithful (c : Char) (r : Reading) : Prop :=
  match r.lexeme with
  | .int value =>
    (∀ d ∈ c :: r.more, d.isDigit = true) ∧ digitsValue (c :: r.more) < twoTo 63 ∧
      value = .ofNat (digitsValue (c :: r.more))
  | .text raw | .command raw =>
    ∃ lead trail, c :: r.more = lead ++ (raw.toList ++ trail) ∧ byteSize lead = r.lead
  | _ => True

/-- The lexeme of a command says what stands in the brackets. -/
theorem readCommand_faithful {cs : List Char} {r : Reading}
    (ok : Lexeme.readCommand cs = .ok r) :
    r.Faithful '@' := by
  unfold Lexeme.readCommand at ok
  split at ok
  · split at ok
    · next body _ =>
      cases ok
      obtain ⟨trail, ends, -⟩ := Core.exists_dropWhile_eq body
      refine ⟨'@' :: '(' :: body.takeWhile isBlank, trail ++ [')'], ?_, ?_⟩
      · have whole := List.takeWhile_append_dropWhile (p := isBlank) (l := body)
        rw [ends] at whole
        have regroup : '@' :: '(' :: (body ++ [')']) =
            '@' :: '(' :: (body.takeWhile isBlank ++ (trim body ++ trail) ++ [')']) := by
              rw [whole]
        rw [String.toList_ofList]
        exact regroup.trans (by simp)
      · show 1 + (1 + byteSize (body.takeWhile isBlank)) = 2 + byteSize (body.takeWhile isBlank)
        omega
    · cases ok
  · cases ok

/-- The lexeme of a number has the value of its digits. -/
theorem readNumber_faithful {c : Char} {cs : List Char} {r : Reading} (digit : c.isDigit = true)
    (ok : Lexeme.readNumber c cs = .ok r) : r.Faithful c := by
  obtain ⟨digits, rest, rfl, all, stop, whole | ⟨d, places, last, rfl, first, more, ends⟩⟩ :=
    exists_number cs
  · rw [readNumber_whole all stop whole] at ok
    split at ok
    · next small =>
      cases ok
      exact ⟨List.forall_mem_cons.mpr ⟨digit, all⟩, small, rfl⟩
    · cases ok
  · rw [readNumber_places all first more ends] at ok
    cases ok
    trivial

theorem ofWord_faithful (c : Char) (word : String) (more : List Char) :
    Reading.Faithful c ⟨Lexeme.ofWord word, 0, more⟩ := by
  unfold Lexeme.ofWord
  repeat' split
  all_goals trivial

/-- Every lexeme says what was read for it. -/
theorem Reader.faithful {c : Char} {read : List Char → Except (LexFault × List Char) Reading}
    (h : Reader c read) {cs : List Char} {r : Reading} (ok : read cs = .ok r) :
    r.Faithful c := by
  cases h with
  | one s =>
    cases ok
    trivial
  | oneOrTwo single double _ =>
    dsimp only [Shellwright.oneOrTwo] at ok
    split at ok <;> cases ok <;> trivial
  | twice s fault =>
    dsimp only [Shellwright.twice] at ok
    split at ok <;> cases ok
    trivial
  | text quote =>
    dsimp only at ok
    split at ok <;> cases ok
    next body _ => exact ⟨[c], ['"'], by rw [String.toList_ofList]; rfl, by rw [quote]; rfl⟩
  | command at' =>
    subst at'
    exact readCommand_faithful ok
  | number digit => exact readNumber_faithful digit ok
  | word start =>
    cases ok
    exact ofWord_faithful _ _ _
  | stray => cases ok

end Shellwright
