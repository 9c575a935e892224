import Shellwright.CommandLine.Run
import Shellwright.Proofs.Outcome

/-!
# Flags

A flag that is given is never lost: whatever stands beside it, either the arguments are not
understood or it is one of the flags that they give.

* `Draft.addArgs_flags`: reading on keeps the flags there are.
* `Draft.mem_flags_of_addArgs`: a flag that stands before all that can only be inputs is taken.
* `HeedsFlags read`, `readArgs_heedsFlags`: what a way of reading arguments has to keep of them.
-/

namespace Shellwright.CommandLine

namespace Draft

variable {d d' : Draft}

theorem set_flags {setting : Setting} {value : Option String}
    (h : d.set setting value = .ok d') :
    d'.flags = d.flags := by
  unfold set at h
  split at h
  case h_1 | h_2 =>
    split at h
    · cases h
    · split at h <;> cases h
      rfl
  case h_3 => cases h

/-- Settling a draft keeps its flags. -/
theorem settle_flags (h : d.settle = .ok d') : d'.flags = d.flags := by
  unfold settle at h
  split at h
  case h_1 =>
    cases h
    rfl
  case h_2 => exact (set_flags h).trans rfl
  case h_3 =>
    unfold setInput at h
    split at h
    · cases h
    · cases h
      rfl

/-- A flag is added to those before it. -/
theorem addFlag_flags {flag : Flag} (h : d.addFlag flag = .ok d') :
    d'.flags = d.flags ++ [flag] := by
  obtain ⟨d₁, settled, h⟩ := bind_eq_ok.mp h
  rw [← settle_flags settled]
  split at h
  case h_1 | h_2 => cases h
  case h_3 =>
    split at h
    case isTrue => cases h
    case isFalse =>
      cases h
      rfl

theorem addSetting_flags {setting : Setting} {value : Option String}
    (h : d.addSetting setting value = .ok d') : d'.flags = d.flags := by
  obtain ⟨d₁, settled, h⟩ := bind_eq_ok.mp h
  rw [← settle_flags settled]
  split at h
  case h_1 => exact set_flags h
  case h_2 =>
    cases h
    rfl

theorem addInput_flags {arg : String} (h : d.addInput arg = .ok d') : d'.flags = d.flags := by
  unfold addInput at h
  split at h
  case isTrue => cases h
  case isFalse =>
    obtain ⟨d₁, settled, h⟩ := bind_eq_ok.mp h
    cases h
    exact (settle_flags settled).trans rfl

theorem addLong_flags {body : List Char} (h : d.addLong body = .ok d') : d.flags ⊆ d'.flags := by
  unfold addLong at h
  simp only at h
  split at h
  case h_1 | h_3 => cases h
  case h_2 =>
    rw [addFlag_flags h]
    exact List.subset_append_left ..
  case h_4 => exact addSetting_flags h ▸ List.Subset.refl _

theorem addShort_flags {body : List Char} (h : d.addShort body = .ok d') :
    d.flags ⊆ d'.flags := by
  fun_induction addShort d body with
  | case1 d =>
    cases h
    exact List.Subset.refl _
  | case2 => cases h
  | case3 d c flag rest _ ih =>
    obtain ⟨d₁, first, h⟩ := bind_eq_ok.mp h
    exact List.Subset.trans (addFlag_flags first ▸ List.subset_append_left ..) (ih d₁ h)
  | case4 | case5 | case6 => exact addSetting_flags h ▸ List.Subset.refl _

/-- No argument takes a flag away. -/
theorem addArg_flags {arg : String} (h : d.addArg arg = .ok d') : d.flags ⊆ d'.flags := by
  unfold addArg at h
  split at h
  case h_1 => exact addLong_flags h
  case h_2 => exact addShort_flags h
  case h_3 =>
    split at h
    case h_1 =>
      cases h
      exact List.Subset.refl _
    case h_2 =>
      rw [addInput_flags h]
      exact List.Subset.refl _

/-- Nor do several. -/
theorem addArgs_flags {inputsOnly : Bool} {args : List String}
    (h : d.addArgs inputsOnly args = .ok d') : d.flags ⊆ d'.flags := by
  induction args generalizing d inputsOnly with
  | nil =>
    rw [settle_flags h]
    exact List.Subset.refl _
  | cons arg rest ih =>
    rw [addArgs] at h
    split at h
    case isTrue =>
      obtain ⟨d₁, first, h⟩ := bind_eq_ok.mp h
      exact addInput_flags first ▸ ih h
    case isFalse =>
      split at h
      case isTrue => exact ih h
      case isFalse =>
        obtain ⟨d₁, first, h⟩ := bind_eq_ok.mp h
        exact List.Subset.trans (addArg_flags first) (ih h)

/-- The name of a flag behind two dashes adds the flag. -/
theorem addArg_flag (d : Draft) (flag : Flag) :
    d.addArg ("--" ++ flag.name) = d.addFlag flag := by
  cases flag <;> rfl

/-- A flag that stands before all that can only be inputs is taken. -/
theorem mem_flags_of_addArgs {flag : Flag} {args : List String}
    (given : "--" ++ flag.name ∈ args.takeWhile (· ≠ "--")) (h : d.addArgs false args = .ok d') :
    flag ∈ d'.flags := by
  induction args generalizing d with
  | nil => cases given
  | cons arg rest ih =>
    by_cases last : arg = "--"
    · rw [List.takeWhile_cons_of_neg (by simpa using last)] at given
      cases given
    · rw [List.takeWhile_cons_of_pos (by simpa using last)] at given
      rw [addArgs, if_neg Bool.false_ne_true, if_neg last] at h
      obtain ⟨d₁, first, others⟩ := bind_eq_ok.mp h
      rcases List.mem_cons.mp given with rfl | later
      · rw [addArg_flag] at first
        apply addArgs_flags others
        rw [addFlag_flags first]
        exact List.mem_concat_self
      · exact ih later others

end Draft

/-- A flag before the mark that ends them is set in what is asked for. -/
theorem Request.flag_of_ofArgs (flag : Flag) {args : List String} {r : Request}
    (given : "--" ++ flag.name ∈ args.takeWhile (· ≠ "--")) (h : Request.ofArgs args = .ok r) :
    (flag = .check → r.check = true) ∧ (flag = .surface → r.surface = true) ∧
      (flag = .core → r.core = true) := by
  obtain ⟨d, read, h⟩ := bind_eq_ok.mp h
  have mem := Draft.mem_flags_of_addArgs given read
  split at h
  case h_1 => cases h
  case h_2 =>
    cases h
    refine ⟨?_, ?_, ?_⟩ <;> rintro rfl <;> exact decide_eq_true mem

/-- A way of reading arguments that loses no flag which asks for something else than a script, if
it stands before the two dashes behind which there are only inputs. -/
structure HeedsFlags (read : List String → Except Response Request) : Prop where
  check {args : List String} {r : Request} : read args = .ok r →
    "--check" ∈ args.takeWhile (· ≠ "--") → r.check = true
  surface {args : List String} {r : Request} : read args = .ok r →
    "--emit-ast" ∈ args.takeWhile (· ≠ "--") → r.surface = true
  core {args : List String} {r : Request} : read args = .ok r →
    "--emit-ir" ∈ args.takeWhile (· ≠ "--") → r.core = true

/-- The reader of arguments heeds its flags. -/
theorem readArgs_heedsFlags : HeedsFlags readArgs where
  check isRead given :=
    (Request.flag_of_ofArgs .check given (mapError_eq_ok.mp isRead)).1 rfl
  surface isRead given :=
    (Request.flag_of_ofArgs .surface given (mapError_eq_ok.mp isRead)).2.1 rfl
  core isRead given :=
    (Request.flag_of_ofArgs .core given (mapError_eq_ok.mp isRead)).2.2 rfl

end Shellwright.CommandLine
