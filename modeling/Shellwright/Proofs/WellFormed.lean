import Mathlib.Data.List.Chain
import Shellwright.Proofs.Meaning
import Shellwright.Proofs.Places
import Shellwright.Proofs.Scopes
import Shellwright.Proofs.WrittenText

/-!
# What resolving gives

Resolved trees can hold what no program means: calls of functions that are not there, variables
that nothing binds, jumps out of no loop. Resolving gives none of these. The body of a function
is seen here as one sequence of events, in the order in which it is resolved, and each event is
in order where it stands.

* `Event`, `Stmt.events`: what happens in a body.
* `Traced c bound events`: all events of a sequence are in order, after names were bound.
* `resolveExpr_proper`, `Resolves.traced`: what an expression and a body become is in order.
* `ofProgram_wellFormed`: resolved programs are well formed.
-/

namespace Shellwright.Core

open Surface (Filled filled_append boundNames)

/-! ## Parts of expressions -/

mutual

/-- An expression and all inside it. -/
def Expr.parts : Expr → List Expr
  | .int ty value => [.int ty value]
  | .fraction ty value => [.fraction ty value]
  | .bool ty value => [.bool ty value]
  | .text ty segments => [.text ty segments]
  | .command ty segments => [.command ty segments]
  | .var ty var => [.var ty var]
  | .binary ty op left right => .binary ty op left right :: (left.parts ++ right.parts)
  | .unary ty op operand => .unary ty op operand :: operand.parts
  | .call ty name args => .call ty name args :: argsParts args
  | .stream ty op left right => .stream ty op left right :: (left.parts ++ right.parts)

def argsParts : List Expr → List Expr
  | [] => []
  | arg :: rest => arg.parts ++ argsParts rest

end

def Segment.variable? : Segment → Option Variable
  | .text _ => none
  | .var v => some v

/-- The variables that an expression names itself, whatever is inside it. -/
def Expr.variables : Expr → List Variable
  | .var _ v => [v]
  | .text _ segments | .command _ segments => segments.filterMap Segment.variable?
  | _ => []

def Segment.isText : Segment → Bool
  | .text _ => true
  | .var _ => false

/-- No plain text is empty, and none stands beside another. -/
structure Segment.Normal (segments : List Segment) : Prop where
  filled : ∀ text, .text text ∈ segments → text ≠ ""
  apart : segments.IsChain fun g h => ¬(g.isText = true ∧ h.isText = true)

/-- An expression is in order by itself, whatever is inside it: where these functions are
declared and these variables known. -/
structure Expr.Proper (declared : String → Nat → Prop) (known : Variable → Prop) (e : Expr) :
    Prop where
  calls : ∀ ty name args, e = .call ty name args → declared name args.length
  names : ∀ v ∈ e.variables, known v
  signs : ∀ ty operand, e = .unary ty .negate operand → operand.isNumber = false
  texts : ∀ ty segments, e = .text ty segments ∨ e = .command ty segments →
    Segment.Normal segments
  streams : ∀ ty op left right, e = .stream ty op left right → op = .pipe

/-! ## Resolved expressions -/

section

variable {s : Scope} {declared : String → Nat → Prop} {known : Variable → Prop}

/-- Plain text before plain text becomes one with it, so segments stay normal. -/
theorem Segment.Normal.consText {text : String} {segments : List Segment} (some : text ≠ "")
    (h : Normal segments) : Normal (Segment.consText text segments) := by
  cases segments with
  | nil => exact ⟨by simpa [Segment.consText] using some, .singleton _⟩
  | cons g rest =>
    cases g with
    | text next =>
      refine ⟨fun t mem => ?_, ?_⟩
      · rcases List.mem_cons.mp mem with same | mem
        · cases same
          exact fun none => some (String.append_eq_empty_iff.mp none).1
        · exact h.filled t (.tail _ mem)
      · cases rest with
        | nil => exact .singleton _
        | cons g rest =>
          obtain ⟨step, others⟩ := List.isChain_cons_cons.mp h.apart
          exact List.isChain_cons_cons.mpr ⟨step, others⟩
    | var v =>
      refine ⟨fun t mem => ?_,
        List.isChain_cons_cons.mpr ⟨fun both => (nomatch both.2), h.apart⟩⟩
      rcases List.mem_cons.mp mem with same | mem
      · cases same
        exact some
      · exact h.filled t mem

theorem Segment.Normal.consVar {v : Variable} {segments : List Segment} (h : Normal segments) :
    Normal (.var v :: segments) := by
  refine ⟨fun t mem => ?_, ?_⟩
  · rcases List.mem_cons.mp mem with same | mem
    · cases same
    · exact h.filled t mem
  · cases segments with
    | nil => exact .singleton _
    | cons g rest => exact List.isChain_cons_cons.mpr ⟨fun both => (nomatch both.1), h.apart⟩

theorem Segment.filterMap_consText (text : String) (segments : List Segment) :
    (Segment.consText text segments).filterMap Segment.variable? =
      segments.filterMap Segment.variable? := by
  unfold Segment.consText
  split <;> rfl

/-- Text that is not empty resolves to segments in normal form. -/
theorem resolveSegments_normal (s : Scope) {gs : List Surface.Segment} (filled : Filled gs) :
    Segment.Normal (resolveSegments s gs) := by
  induction gs with
  | nil => exact ⟨nofun, .nil⟩
  | cons g gs ih =>
    obtain ⟨some, others⟩ := Surface.filled_cons.mp filled
    cases g with
    | text text => exact (ih others).consText some
    | ref name raw span =>
      rw [resolveSegments]
      split
      · exact (ih others).consVar
      · exact (ih others).consText some

/-- The variables of resolved text were found in the scope. -/
theorem resolveSegments_known (finds : ∀ x v ty, s.find? x = some (v, ty) → known v)
    (gs : List Surface.Segment) :
    ∀ v ∈ (resolveSegments s gs).filterMap Segment.variable?, known v := by
  induction gs with
  | nil => nofun
  | cons g gs ih =>
    cases g with
    | text text => rwa [resolveSegments, Segment.filterMap_consText]
    | ref name raw span =>
      rw [resolveSegments]
      split
      case h_1 v ty found => exact List.forall_mem_cons.mpr ⟨finds name v ty found, ih⟩
      case h_2 => rwa [Segment.filterMap_consText]

/-- A sign is kept before anything but a number. -/
theorem applyUnary_proper {op : UnaryOp} {e : Expr}
    (h : ∀ part ∈ e.parts, part.Proper declared known) :
    ∀ part ∈ (applyUnary op e).parts, part.Proper declared known := by
  cases op with
  | not =>
    rw [applyUnary, Expr.parts]
    exact List.forall_mem_cons.mpr ⟨⟨nofun, nofun, nofun, nofun, nofun⟩, h⟩
  | negate =>
    cases number : e.isNumber with
    | true =>
      cases e with
      | int | fraction => exact List.forall_mem_singleton.mpr ⟨nofun, nofun, nofun, nofun, nofun⟩
      | _ => cases number
    | false =>
      rw [applyUnary_negate number, Expr.parts]
      refine List.forall_mem_cons.mpr ⟨⟨nofun, nofun, ?_, nofun, nofun⟩, h⟩
      rintro ty operand ⟨⟩
      exact number

mutual

/-- All that an expression becomes is in order. -/
theorem resolveExpr_proper
    (declares : ∀ name f, s.signatures.get? name = some f → declared name f.arity)
    (finds : ∀ x v ty, s.find? x = some (v, ty) → known v) :
    ∀ {src : Surface.Expr} {e : Expr}, resolveExpr s src = .ok e → Filled src.segments →
      ∀ part ∈ e.parts, part.Proper declared known
  | .int _ _, e, h, filled | .fraction _ _, e, h, filled | .bool _ _, e, h, filled => by
    cases h
    rw [Expr.parts]
    exact List.forall_mem_singleton.mpr ⟨nofun, nofun, nofun, nofun, nofun⟩
  | .text _ gs, e, h, filled => by
    cases h
    rw [Expr.parts]
    refine List.forall_mem_singleton.mpr
      ⟨nofun, resolveSegments_known finds gs, nofun, ?_, nofun⟩
    rintro ty segments (same | same)
    · cases same
      exact resolveSegments_normal s (by simpa [Surface.Expr.segments] using filled)
    · cases same
  | .command _ gs, e, h, filled => by
    cases h
    rw [Expr.parts]
    refine List.forall_mem_singleton.mpr
      ⟨nofun, resolveSegments_known finds gs, nofun, ?_, nofun⟩
    rintro ty segments (same | same)
    · cases same
    · cases same
      exact resolveSegments_normal s (by simpa [Surface.Expr.segments] using filled)
  | .var _ name, e, h, filled => by
    rw [resolveExpr] at h
    split at h
    case h_1 v ty found =>
      cases h
      rw [Expr.parts]
      exact List.forall_mem_singleton.mpr
        ⟨nofun, List.forall_mem_singleton.mpr (finds name v ty found), nofun, nofun, nofun⟩
    case h_2 => cases h
  | .binary _ op left right, e, h, filled => by
    rw [resolveExpr] at h
    obtain ⟨l, isLeft, h⟩ := bind_eq_ok.mp h
    obtain ⟨r, isRight, h⟩ := bind_eq_ok.mp h
    cases h
    rw [Surface.Expr.segments, filled_append] at filled
    rw [Expr.parts]
    exact List.forall_mem_cons.mpr ⟨⟨nofun, nofun, nofun, nofun, nofun⟩,
      List.forall_mem_append.mpr ⟨resolveExpr_proper declares finds isLeft filled.1,
        resolveExpr_proper declares finds isRight filled.2⟩⟩
  | .unary _ op operand, e, h, filled => by
    rw [resolveExpr] at h
    obtain ⟨inner, isInner, h⟩ := bind_eq_ok.mp h
    cases h
    rw [Surface.Expr.segments] at filled
    exact applyUnary_proper (resolveExpr_proper declares finds isInner filled)
  | .call _ name args, e, h, filled => by
    rw [resolveExpr] at h
    split at h
    case h_1 => cases h
    case h_2 signature isKnown =>
      split at h
      case isTrue arity =>
        obtain ⟨es, areArgs, h⟩ := bind_eq_ok.mp h
        cases h
        rw [Surface.Expr.segments] at filled
        obtain ⟨length, inside⟩ := resolveArgs_proper declares finds areArgs filled
        rw [Expr.parts]
        refine List.forall_mem_cons.mpr ⟨⟨?_, nofun, nofun, nofun, nofun⟩, inside⟩
        rintro ty name args ⟨⟩
        rw [length, ← arity]
        exact declares _ _ isKnown
      case isFalse => cases h
  | .pipe _ left right, e, h, filled => by
    rw [resolveExpr] at h
    obtain ⟨l, isLeft, h⟩ := bind_eq_ok.mp h
    obtain ⟨r, isRight, h⟩ := bind_eq_ok.mp h
    cases h
    rw [Surface.Expr.segments, filled_append] at filled
    rw [Expr.parts]
    refine List.forall_mem_cons.mpr ⟨⟨nofun, nofun, nofun, nofun, ?_⟩, List.forall_mem_append.mpr
      ⟨resolveExpr_proper declares finds isLeft filled.1,
        resolveExpr_proper declares finds isRight filled.2⟩⟩
    rintro _ _ _ _ ⟨⟩
    rfl

/-- So it is with arguments. -/
theorem resolveArgs_proper
    (declares : ∀ name f, s.signatures.get? name = some f → declared name f.arity)
    (finds : ∀ x v ty, s.find? x = some (v, ty) → known v) :
    ∀ {src : List Surface.Expr} {es : List Expr}, resolveArgs s src = .ok es →
      Filled (Surface.argsSegments src) →
      es.length = src.length ∧ ∀ part ∈ argsParts es, part.Proper declared known
  | [], es, h, filled => by
    cases h
    exact ⟨rfl, nofun⟩
  | arg :: rest, es, h, filled => by
    rw [resolveArgs] at h
    obtain ⟨e, isArg, h⟩ := bind_eq_ok.mp h
    obtain ⟨others, areRest, h⟩ := bind_eq_ok.mp h
    cases h
    rw [Surface.argsSegments, filled_append] at filled
    obtain ⟨length, inside⟩ := resolveArgs_proper declares finds areRest filled.2
    rw [argsParts]
    exact ⟨congrArg (· + 1) length, List.forall_mem_append.mpr
      ⟨resolveExpr_proper declares finds isArg filled.1, inside⟩⟩

end

end

/-! ## What happens in a body -/

/-- What happens in the body of a function. -/
inductive Event where
  /-- An expression, or one inside it. -/
  | part (e : Expr)
  /-- A variable gets a value. -/
  | bind (v : Variable)
  /-- A jump, in a loop or not. -/
  | jump (inLoop : Bool)
  /-- An expression that is a statement. -/
  | effect (e : Expr)

def Expr.events (e : Expr) : List Event := e.parts.map .part

def upperEvents : Option Expr → List Event
  | none => []
  | some upper => upper.events

mutual

/-- What happens in a statement, in the order in which it is resolved. -/
def Stmt.events (inLoop : Bool) : Stmt → List Event
  | .assign v value => value.events ++ [.bind v]
  | .branch cond body otherwise =>
    cond.events ++ (stmtsEvents inLoop body ++ otherwise.events inLoop)
  | .loop v lower upper body =>
    lower.events ++ (upperEvents upper ++ .bind v :: stmtsEvents true body)
  | .ret value => value.events
  | .jump _ => [.jump inLoop]
  | .load _ => []
  | .expr e => .effect e :: e.events

def stmtsEvents (inLoop : Bool) : List Stmt → List Event
  | [] => []
  | stmt :: rest => stmt.events inLoop ++ stmtsEvents inLoop rest

def ElseChain.events (inLoop : Bool) : ElseChain → List Event
  | .done => []
  | .elseIf cond body otherwise =>
    cond.events ++ (stmtsEvents inLoop body ++ otherwise.events inLoop)
  | .final body => stmtsEvents inLoop body

end

/-- What happens in a part of a body. -/
abbrev Part.events (inLoop : Bool) : (part : Part) → part.Tree → List Event
  | .stmt, tree => tree.events inLoop
  | .stmts, tree => stmtsEvents inLoop tree
  | .chain, tree => tree.events inLoop

abbrev Part.segments : (part : Part) → part.Source → List Surface.Segment
  | .stmt, src => src.segments
  | .stmts, src => Surface.stmtsSegments src
  | .chain, src => src.segments

def Event.bound? : Event → Option Variable
  | .bind v => some v
  | _ => none

/-- The names of the variables that get values. -/
def namesBound (events : List Event) : List String :=
  (events.filterMap Event.bound?).map (·.name)

@[simp] theorem namesBound_nil : namesBound [] = [] := rfl

@[simp] theorem namesBound_append (xs ys : List Event) :
    namesBound (xs ++ ys) = namesBound xs ++ namesBound ys := by
  rw [namesBound, List.filterMap_append, List.map_append]
  rfl

@[simp] theorem namesBound_bind (v : Variable) (events : List Event) :
    namesBound (.bind v :: events) = v.name :: namesBound events := rfl

@[simp] theorem namesBound_jump (inLoop : Bool) (events : List Event) :
    namesBound (.jump inLoop :: events) = namesBound events := rfl

@[simp] theorem namesBound_effect (e : Expr) (events : List Event) :
    namesBound (.effect e :: events) = namesBound events := rfl

/-- Expressions bind no names. -/
@[simp] theorem Expr.namesBound_events (e : Expr) : namesBound e.events = [] := by
  simp [namesBound, Expr.events, List.filterMap_map, Function.comp_def, Event.bound?]

@[simp] theorem namesBound_upperEvents (upper : Option Expr) :
    namesBound (upperEvents upper) = [] := by
  cases upper <;> simp [upperEvents]

/-- Binding a name gives a variable of that name. -/
@[simp] theorem Scope.bind_name (s : Scope) (x : String) (ty : Ty) :
    (s.bind x ty).1.name = x := by
  unfold Scope.bind
  split
  · split <;> rfl
  · rfl

/-- Resolving keeps the names that are bound, and their order. -/
theorem Resolves.namesBound_eq {part : Part} {inLoop : Bool} {s s' : Scope} {src : part.Source}
    {tree : part.Tree} (h : Resolves part inLoop s src tree s') :
    namesBound (part.events inLoop tree) = boundNames (part.uses src) := by
  induction h with
  | assign | ret | jump | load | expr =>
    simp [Part.events, Stmt.events, Part.uses, Surface.Stmt.uses]
  | branch _ _ _ ihBody ihChain =>
    simpa [Part.events, Stmt.events, Part.uses, Surface.Stmt.uses] using
      congr (congrArg _ ihBody) ihChain
  | loop _ _ _ ih => simpa [Part.events, Stmt.events, Part.uses, Surface.Stmt.uses] using ih
  | nil => simp [Part.events, stmtsEvents, Part.uses, Surface.stmtsUses]
  | cons _ _ ihStmt ihRest =>
    simpa [Part.events, stmtsEvents, Part.uses, Surface.stmtsUses] using
      congr (congrArg _ ihStmt) ihRest
  | done => simp [Part.events, ElseChain.events, Part.uses, Surface.ElseChain.uses]
  | elseIf _ _ _ ihBody ihChain =>
    simpa [Part.events, ElseChain.events, Part.uses, Surface.ElseChain.uses] using
      congr (congrArg _ ihBody) ihChain
  | final _ ih => simpa [Part.events, ElseChain.events, Part.uses, Surface.ElseChain.uses]
      using ih

/-! ## Events where they stand -/

/-- The expression calls a function, runs a command, or is a pipeline. -/
def Expr.runs : Expr → Bool
  | .call .. | .command .. | .stream _ .pipe _ _ => true
  | _ => false

/-- The variable is one that can be read, after names were bound. -/
def Setting.Knows (c : Setting) (bound : List String) (v : Variable) : Prop :=
  c.Means v.name v ∧ c.Sees bound v.name

/-- An event is in order, after names were bound. -/
def Event.Allowed (c : Setting) (bound : List String) : Event → Prop
  | .part e => e.Proper c.declared (c.Knows bound)
  | .bind v => c.Means v.name v
  | .jump inLoop => inLoop = true
  | .effect e => e.runs = true

/-- All events of a sequence are in order, after names were bound. -/
def Traced (c : Setting) : List String → List Event → Prop
  | _, [] => True
  | bound, event :: rest => event.Allowed c bound ∧ Traced c (bound ++ namesBound [event]) rest

section

variable {s : Scope} {c : Setting} {bound : List String}

/-- Events are in order if the first ones are, and the others after the names that those bind. -/
theorem traced_append {xs ys : List Event} :
    Traced c bound (xs ++ ys) ↔ Traced c bound xs ∧ Traced c (bound ++ namesBound xs) ys := by
  induction xs generalizing bound with
  | nil => simp [Traced]
  | cons x xs ih =>
    have first : namesBound (x :: xs) = namesBound [x] ++ namesBound xs :=
      namesBound_append [x] xs
    rw [List.cons_append, Traced, Traced, ih, and_assoc, first, List.append_assoc]

/-- In events that are in order each one is allowed where it stands. -/
theorem Traced.allowed {events before after : List Event} {event : Event}
    (h : Traced c bound events) (split : events = before ++ event :: after) :
    event.Allowed c (bound ++ namesBound before) := by
  rw [split, traced_append] at h
  exact h.2.1

/-- Within an expression nothing is bound, so all parts are allowed by the same names. -/
theorem traced_parts {es : List Expr} (h : ∀ e ∈ es, e.Proper c.declared (c.Knows bound)) :
    Traced c bound (es.map .part) := by
  induction es with
  | nil => trivial
  | cons e es ih =>
    obtain ⟨first, others⟩ := List.forall_mem_cons.mp h
    have none : bound ++ namesBound [.part e] = bound := List.append_nil bound
    exact ⟨first, none.symm ▸ ih others⟩

/-- What has an effect can be run, for a pipeline of a resolved program is a pipe. -/
theorem runs_of_hasEffect {declared : String → Nat → Prop} {known : Variable → Prop} {e : Expr}
    (effect : e.hasEffect = true) (proper : e.Proper declared known) : e.runs = true := by
  cases e with
  | stream ty op left right =>
    cases proper.streams ty op left right rfl
    rfl
  | call | command => rfl
  | _ => cases effect

theorem Expr.mem_parts (e : Expr) : e ∈ e.parts := by
  cases e <;> simp [Expr.parts]

/-- What a fitting scope resolves is in order there. -/
theorem Scope.Fits.proper (fits : s.Fits c bound) {src : Surface.Expr} {e : Expr}
    (resolved : resolveExpr s src = .ok e) (filled : Filled src.segments) :
    ∀ part ∈ e.parts, part.Proper c.declared (c.Knows bound) := by
  refine resolveExpr_proper (fun name f isKnown => ?_) (fun x v ty found => ?_) resolved filled
  · exact (fits.serves.arity name f.arity).mp ⟨f, isKnown, rfl⟩
  · obtain ⟨means, sees⟩ := fits.find? found
    exact ⟨means.1 ▸ means, means.1 ▸ sees⟩

/-- So its events are in order. -/
theorem Scope.Fits.traced (fits : s.Fits c bound) {src : Surface.Expr} {e : Expr}
    (resolved : resolveExpr s src = .ok e) (filled : Filled src.segments) :
    Traced c bound e.events :=
  traced_parts (fits.proper resolved filled)

theorem Scope.Fits.traced_upper (fits : s.Fits c bound) {src : Option Surface.Expr}
    {upper : Option Expr} (resolved : resolveUpper s src = .ok upper)
    (filled : Filled (Surface.upperSegments src)) : Traced c bound (upperEvents upper) := by
  cases src with
  | none =>
    cases resolved
    trivial
  | some src =>
    obtain ⟨e, isUpper, resolved⟩ := bind_eq_ok.mp resolved
    cases resolved
    exact fits.traced isUpper filled

/-- A name that is bound means the variable that it is bound to. -/
theorem Scope.Fits.means_bind (fits : s.Fits c bound) (x : String) (ty : Ty) :
    c.Means (s.bind x ty).1.name (s.bind x ty).1 := by
  rw [Scope.bind_name]
  exact (fits.bind x ty).1

end

/-- All that happens in a body is in order. -/
theorem Resolves.traced {part : Part} {inLoop : Bool} {s s' : Scope} {src : part.Source}
    {tree : part.Tree} (h : Resolves part inLoop s src tree s') {c : Setting}
    {bound : List String} (fits : s.Fits c bound) (filled : Filled (part.segments src)) :
    Traced c bound (part.events inLoop tree) := by
  induction h generalizing bound with
  | assign value =>
    rw [Part.segments, Surface.Stmt.segments] at filled
    rw [Part.events, Stmt.events, traced_append]
    exact ⟨fits.traced value filled, fits.means_bind _ _, trivial⟩
  | branch cond body chain ihBody ihChain =>
    -- what the first branch binds stays bound in the others
    rw [Part.segments, Surface.Stmt.segments, filled_append, filled_append] at filled
    rw [Part.events, Stmt.events, traced_append, traced_append, Expr.namesBound_events,
      List.append_nil, body.namesBound_eq]
    exact ⟨fits.traced cond filled.1, ihBody fits filled.2.1,
      ihChain (body.fits fits) filled.2.2⟩
  | @loop _ s _ _ name _ _ _ _ _ _ ty lower upper body ih =>
    rw [Part.segments, Surface.Stmt.segments, filled_append, filled_append] at filled
    rw [Part.events, Stmt.events, traced_append, traced_append, Expr.namesBound_events,
      namesBound_upperEvents, List.append_nil, List.append_nil]
    refine ⟨fits.traced lower filled.1, fits.traced_upper upper filled.2.1,
      fits.means_bind _ _, ?_⟩
    -- the bounds do not see the variable of the loop, and its body does
    have one : namesBound [.bind (s.bind name ty).1] = [name] := by simp
    rw [one]
    exact ih (fits.bind name ty).2 filled.2.2
  | ret value =>
    rw [Part.segments, Surface.Stmt.segments] at filled
    exact fits.traced value filled
  | jump => exact ⟨rfl, trivial⟩
  | load => trivial
  | expr effect value =>
    rw [Part.segments, Surface.Stmt.segments] at filled
    have proper := fits.proper value filled
    have effect := hasEffect_of_resolveExpr value effect
    refine ⟨runs_of_hasEffect effect (proper _ (Expr.mem_parts _)), ?_⟩
    rw [namesBound_effect, namesBound_nil, List.append_nil]
    exact traced_parts proper
  | nil => trivial
  | cons stmt rest ihStmt ihRest =>
    rw [Part.segments, Surface.stmtsSegments, filled_append] at filled
    rw [Part.events, stmtsEvents, traced_append, stmt.namesBound_eq]
    exact ⟨ihStmt fits filled.1, ihRest (stmt.fits fits) filled.2⟩
  | done => trivial
  | elseIf cond body chain ihBody ihChain =>
    rw [Part.segments, Surface.ElseChain.segments, filled_append, filled_append] at filled
    rw [Part.events, ElseChain.events, traced_append, traced_append, Expr.namesBound_events,
      List.append_nil, body.namesBound_eq]
    exact ⟨fits.traced cond filled.1, ihBody fits filled.2.1,
      ihChain (body.fits fits) filled.2.2⟩
  | final body ih => exact ih fits filled

/-! ## Functions -/

/-- What happens in a function, in the order in which it is resolved. -/
def Function.events (f : Function) : List Event :=
  match f.body with
  | none => []
  | some body => stmtsEvents false body

/-- The setting of a function's body. -/
def Function.setting (p : Surface.Program) (f : Function) : Setting :=
  ⟨p.Declares, p.Assigns, f.params.map (·.name)⟩

/-- A function in which all is in order. -/
structure Function.InOrder (p : Surface.Program) (f : Function) : Prop where
  params : ∀ v ∈ f.params, v.isGlobal = false
  traced : Traced (f.setting p) [] f.events

/-- What callers know of a function, and whether it has a body. -/
def Function.header (f : Function) : String × Nat × Bool :=
  (f.name, f.params.length, f.body.isSome)

def sourceHeader (f : Surface.Function) : String × Nat × Bool :=
  (f.name, f.params.length, f.body.isSome)

/-- A resolved function is in order, with its own parameters and no other names. -/
theorem resolveFunction_inOrder {p : Surface.Program} {s : Scope} {f : Surface.Function}
    {r : Function × Scope} (serves : s.Serves p.Declares p.Assigns)
    (filled : Filled (Surface.bodySegments f.body)) (h : resolveFunction s f = .ok r) :
    r.1.InOrder p ∧ r.1.header = sourceHeader f := by
  have locals : ∀ v ∈ (f.params.map (·.name)).map (⟨·, false⟩ : String → Variable),
      v.isGlobal = false := by simp
  have names : ((f.params.map (·.name)).map (⟨·, false⟩ : String → Variable)).map (·.name) =
      f.params.map (·.name) := by simp
  rw [resolveFunction] at h
  split at h
  case h_1 none =>
    cases h
    exact ⟨⟨locals, trivial⟩, by simp [Function.header, sourceHeader, none]⟩
  case h_2 body isBody =>
    obtain ⟨⟨body', s'⟩, resolved, h⟩ := bind_eq_ok.mp h
    cases h
    rw [isBody] at filled
    refine ⟨⟨locals, ?_⟩, by simp [Function.header, sourceHeader, isBody]⟩
    rw [Function.setting, names]
    exact (resolves_stmts resolved).traced (serves.enter f.file _) filled

/-- So are resolved functions, and they keep their names and parameters. -/
theorem resolveFunctions_inOrder {p : Surface.Program} {fs : List Surface.Function} {s : Scope}
    {r : List Function × Scope} (serves : s.Serves p.Declares p.Assigns)
    (filled : ∀ f ∈ fs, Filled (Surface.bodySegments f.body))
    (h : resolveFunctions s fs = .ok r) :
    (∀ f ∈ r.1, f.InOrder p) ∧ r.1.map Function.header = fs.map sourceHeader := by
  induction fs generalizing s r with
  | nil =>
    cases h
    exact ⟨nofun, rfl⟩
  | cons f fs ih =>
    obtain ⟨first, function, h⟩ := bind_eq_ok.mp h
    obtain ⟨others, rest, h⟩ := bind_eq_ok.mp h
    cases h
    obtain ⟨here, header⟩ := resolveFunction_inOrder serves (filled f (.head _)) function
    have next := resolveFunction_serves serves function
    obtain ⟨there, headers⟩ := ih (r := others) next (fun g mem => filled g (.tail _ mem)) rest
    refine ⟨List.forall_mem_cons.mpr ⟨here, there⟩, ?_⟩
    rw [List.map_cons, List.map_cons, header, headers]

/-- So are the statements of the entry function. -/
theorem resolveEntry_traced {ts : List Surface.TopLevel} {s : Scope} {c : Setting}
    {bound : List String} {r : List Stmt × Scope} (fits : s.Fits c bound)
    (filled : ∀ t ∈ ts, Filled t.stmt.segments) (h : resolveEntry s ts = .ok r) :
    Traced c bound (stmtsEvents false r.1) := by
  induction ts generalizing s bound r with
  | nil =>
    cases h
    trivial
  | cons t ts ih =>
    obtain ⟨first, resolved, h⟩ := bind_eq_ok.mp h
    obtain ⟨others, rest, h⟩ := bind_eq_ok.mp h
    cases h
    have here : { s with file := t.file }.Fits c bound :=
      ⟨⟨fits.serves.arity, fits.serves.global⟩, fits.inside, fits.owns⟩
    have stmt := resolves_stmt resolved
    rw [stmtsEvents, traced_append, stmt.namesBound_eq]
    exact ⟨stmt.traced here (filled t (.head _)),
      ih (r := others) (stmt.fits here) (fun t mem => filled t (.tail _ mem)) rest⟩

/-! ## Global variables -/

/-- A value of a global variable in which all is in order. -/
structure Assignment.InOrder (p : Surface.Program) (a : Assignment) : Prop where
  target : a.var.isGlobal = true ∧ p.Assigns a.var.name
  value : ∀ e ∈ a.value.parts, e.Proper p.Declares fun v => v.isGlobal = true ∧ p.Assigns v.name

/-- The values of global variables depend on global variables only. -/
theorem resolveGlobals_inOrder {p : Surface.Program} {inits : List GlobalInit} {s : Scope}
    {r : List Assignment × Scope} (serves : s.Serves p.Declares p.Assigns)
    (outside : s.Owns fun _ => False) (known : ∀ init ∈ inits, p.Assigns init.name)
    (filled : ∀ init ∈ inits, Filled init.value.segments) (h : resolveGlobals s inits = .ok r) :
    ∀ a ∈ r.1, a.InOrder p := by
  induction inits generalizing s r with
  | nil =>
    cases h
    exact nofun
  | cons init rest ih =>
    obtain ⟨value, resolved, h⟩ := bind_eq_ok.mp h
    obtain ⟨others, later, h⟩ := bind_eq_ok.mp h
    cases h
    have assigns := known init (.head _)
    have next := serves.putGlobal value.ty assigns
    refine List.forall_mem_cons.mpr ⟨⟨⟨rfl, assigns⟩, ?_⟩, ih (r := others) next outside
      (fun i mem => known i (.tail _ mem)) (fun i mem => filled i (.tail _ mem)) later⟩
    have here : { s with file := init.file }.Serves p.Declares p.Assigns :=
      ⟨serves.arity, serves.global⟩
    have alone : { s with file := init.file }.Owns fun _ => False := outside
    refine resolveExpr_proper (fun name f isKnown =>
      (here.arity name f.arity).mp ⟨f, isKnown, rfl⟩) (fun x v ty found => ?_) resolved
        (filled init (.head _))
    rcases Scope.find?_of_owns alone x with ⟨none, -⟩ | ⟨-, global⟩
    · exact none.elim
    · rw [found] at global
      obtain ⟨ty', isGlobal, same⟩ := Option.map_eq_some_iff.mp global.symm
      cases same
      exact ⟨rfl, (here.global x).mp ((Names.has_iff _ _).mpr ⟨_, isGlobal⟩)⟩

/-! ## Modules -/

def Event.part? : Event → Option Expr
  | .part e => some e
  | _ => none

/-- The variables that occur in an event. -/
def Event.variables : Event → List Variable
  | .part e => e.variables
  | .bind v => [v]
  | _ => []

/-- The variables of a function: its parameters, and those that occur in its body. -/
def Function.variables (f : Function) : List Variable :=
  f.params ++ f.events.flatMap Event.variables

/-- All expressions of a module, and all inside them. -/
def Module.parts (m : Module) : List Expr :=
  m.globals.flatMap (·.value.parts) ++ m.functions.flatMap fun f =>
    f.events.filterMap Event.part?

/-- A module in which nothing is out of place, resolved from this program. -/
structure Module.WellFormed (p : Surface.Program) (m : Module) : Prop where
  distinct : (m.functions.map (·.name)).Nodup
  /-- A call names a function, and has an argument for each of its parameters. -/
  calls : ∀ ty name args, .call ty name args ∈ m.parts →
    ∃ f ∈ m.functions, f.name = name ∧ f.params.length = args.length
  /-- A global variable is assigned by some statement outside functions. -/
  globals : ∀ e ∈ m.parts, ∀ v ∈ e.variables, v.isGlobal = true → p.Assigns v.name
  /-- Any other variable that is read is a parameter of its function or was
  bound before in it. -/
  locals : ∀ f ∈ m.functions, ∀ before e after, f.events = before ++ .part e :: after →
    ∀ v ∈ e.variables, v.isGlobal = false → v ∈ f.params ∨ .bind v ∈ before
  /-- No name of a function means both a global variable and one of its own. -/
  oneMeaning : ∀ f ∈ m.functions, ∀ v ∈ f.variables, ∀ w ∈ f.variables, v.name = w.name →
    v.isGlobal = w.isGlobal
  /-- Only global variables get values outside functions, and those depend on global variables
  only. -/
  initial : ∀ a ∈ m.globals, (a.var.isGlobal = true ∧ p.Assigns a.var.name) ∧
    ∀ e ∈ a.value.parts, ∀ v ∈ e.variables, v.isGlobal = true
  jumps : ∀ f ∈ m.functions, ∀ inLoop, .jump inLoop ∈ f.events → inLoop = true
  effects : ∀ f ∈ m.functions, ∀ e, .effect e ∈ f.events → e.runs = true
  /-- The sign of a number is part of it. -/
  signs : ∀ ty operand, .unary ty .negate operand ∈ m.parts → operand.isNumber = false
  texts : ∀ ty segments, .text ty segments ∈ m.parts ∨ .command ty segments ∈ m.parts →
    Segment.Normal segments
  /-- The entry function, if there is one, can be run. -/
  main : ∀ name, m.main = some name → ∃ f ∈ m.functions, f.name = name ∧ f.body.isSome = true

namespace Function.InOrder

variable {p : Surface.Program} {f : Function}

/-- What happens in a function that is in order is allowed where it happens. -/
theorem allowed (h : f.InOrder p) {event : Event} (mem : event ∈ f.events) :
    ∃ bound, event.Allowed (f.setting p) bound := by
  obtain ⟨before, after, split⟩ := List.append_of_mem mem
  exact ⟨_, h.traced.allowed split⟩

/-- Every variable of a function is the one that its name means there. -/
theorem means (h : f.InOrder p) {v : Variable} (mem : v ∈ f.variables) :
    (f.setting p).Means v.name v := by
  rcases List.mem_append.mp mem with param | mem
  · refine ⟨rfl, iff_of_false ?_ fun both => both.2 (List.mem_map_of_mem param)⟩
    rw [h.params v param]
    exact Bool.false_ne_true
  · obtain ⟨event, isEvent, mem⟩ := List.mem_flatMap.mp mem
    obtain ⟨bound, allowed⟩ := h.allowed isEvent
    cases event with
    | part e => exact (allowed.names v mem).1
    | bind w => exact List.mem_singleton.mp mem ▸ allowed
    | _ => cases mem

/-- A local variable that is read is a parameter or was bound before. -/
theorem param_or_bound (h : f.InOrder p) {before after : List Event} {e : Expr}
    (split : f.events = before ++ .part e :: after) {v : Variable} (mem : v ∈ e.variables)
    (isLocal : v.isGlobal = false) : v ∈ f.params ∨ .bind v ∈ before := by
  obtain ⟨means, sees⟩ := (h.traced.allowed split).names v mem
  have isEvent : ∀ event ∈ before, event ∈ f.events := fun event mem => by
    rw [split]
    exact List.mem_append_left _ mem
  -- a name has one meaning, so that finding the name is enough
  have same : ∀ w ∈ f.variables, w.name = v.name → w = v := fun w mem same =>
    (same ▸ h.means mem : (f.setting p).Means v.name w).eq means
  by_cases param : v.name ∈ f.params.map (·.name)
  · obtain ⟨w, isParam, sameName⟩ := List.mem_map.mp param
    exact .inl (same w (List.mem_append_left _ isParam) sameName ▸ isParam)
  · have notShared : ¬p.Assigns v.name := fun shared =>
      Bool.false_ne_true (isLocal.symm.trans (means.2.mpr ⟨shared, param⟩))
    have bound : v.name ∈ [] ++ namesBound before :=
      (sees.resolve_left notShared).resolve_left param
    obtain ⟨w, isBound, sameName⟩ := List.mem_map.mp bound
    obtain ⟨event, there, isBind⟩ := List.mem_filterMap.mp isBound
    cases event with
    | bind u =>
      cases isBind
      have isVariable : w ∈ f.variables := List.mem_append_right _
        (List.mem_flatMap.mpr ⟨.bind w, isEvent _ there, List.mem_singleton.mpr rfl⟩)
      exact .inr (same w isVariable sameName ▸ there)
    | _ => cases isBind

end Function.InOrder

/-- A module is well formed if its functions and the values of its global
variables are in order. -/
theorem Module.WellFormed.of_inOrder {p : Surface.Program} {m : Module}
    (distinct : (m.functions.map (·.name)).Nodup)
    (declares : ∀ name n, p.Declares name n → ∃ f ∈ m.functions, f.name = name ∧
      f.params.length = n)
    (functions : ∀ f ∈ m.functions, f.InOrder p) (globals : ∀ a ∈ m.globals, a.InOrder p)
    (main : ∀ name, m.main = some name → ∃ f ∈ m.functions, f.name = name ∧
      f.body.isSome = true) :
    m.WellFormed p := by
  -- every expression is in order by itself; which variables it may name depends on
  -- where it stands
  have proper : ∀ e ∈ m.parts, e.Proper p.Declares fun v => v.isGlobal = true →
      p.Assigns v.name := by
    intro e mem
    rcases List.mem_append.mp mem with mem | mem
    · obtain ⟨a, isGlobal, mem⟩ := List.mem_flatMap.mp mem
      have h := (globals a isGlobal).value e mem
      exact ⟨h.calls, fun v mem _ => (h.names v mem).2, h.signs, h.texts, h.streams⟩
    · obtain ⟨f, isFunction, mem⟩ := List.mem_flatMap.mp mem
      obtain ⟨event, isEvent, isPart⟩ := List.mem_filterMap.mp mem
      cases event with
      | part e' =>
        cases isPart
        obtain ⟨bound, h⟩ := (functions f isFunction).allowed isEvent
        exact ⟨h.calls, fun v mem isGlobal => ((h.names v mem).1.2.mp isGlobal).1, h.signs,
          h.texts, h.streams⟩
      | _ => cases isPart
  refine ⟨distinct, fun ty name args mem => ?_, fun e mem => (proper e mem).names,
    fun f mem before e after split v => (functions f mem).param_or_bound split,
    fun f mem v isV w isW same => ?_, fun a mem =>
      ⟨(globals a mem).target, fun e isPart v isV => ?_⟩,
    fun f mem inLoop isJump => ?_,
    fun f mem e isEffect => ?_, fun ty operand mem => (proper _ mem).signs ty operand rfl,
    fun ty segments mem => ?_, main⟩
  · exact declares name args.length ((proper _ mem).calls ty name args rfl)
  · have means := (functions f mem).means isW
    rw [((functions f mem).means isV).eq (same ▸ means)]
  · exact (((globals a mem).value e isPart).names v isV).1
  · obtain ⟨_, isIn⟩ := (functions f mem).allowed isJump
    exact isIn
  · obtain ⟨_, runs⟩ := (functions f mem).allowed isEffect
    exact runs
  · rcases mem with mem | mem
    · exact (proper _ mem).texts ty segments (.inl rfl)
    · exact (proper _ mem).texts ty segments (.inr rfl)

/-! ## Programs -/

theorem filled_of_mem_globalInits {p : Surface.Program} (filled : p.Filled) {init : GlobalInit}
    (mem : init ∈ globalInits p) : Filled init.value.segments := by
  obtain ⟨t, leading, isInit⟩ := List.mem_filterMap.mp mem
  obtain ⟨span, rfl⟩ := GlobalInit.of?_eq_some.mp isInit
  have here := filled.topLevel _ (List.takeWhile_subset _ leading)
  rwa [Surface.Stmt.segments] at here

/-- What the entry function runs was written outside functions. -/
theorem entryStatements_subset (p : Surface.Program) : entryStatements p ⊆ p.topLevel := by
  refine List.append_subset.mpr ⟨fun t mem => ?_, List.dropWhile_subset _⟩
  exact List.takeWhile_subset _ (List.mem_of_mem_filter mem)

/-- What the stages of a program give is in order: functions, with the headers that they have in
the source, and the values of global variables. -/
structure Stages.InOrder (p : Surface.Program) (globals : List Assignment)
    (functions : List Function) : Prop where
  distinct : (p.functions.map (·.name)).Nodup
  headers : functions.map Function.header = p.functions.map sourceHeader
  bodies : ∀ f ∈ functions, f.InOrder p
  values : ∀ a ∈ globals, a.InOrder p

/-- What the stages of resolving give is in order. -/
theorem Stages.inOrder {p : Surface.Program} {globals : List Assignment}
    {functions : List Function} {s : Scope} (h : Stages p globals functions s)
    (filled : p.Filled) :
    Stages.InOrder p globals functions := by
  obtain ⟨collected, initial, defined⟩ := h
  have first := Scope.first_serves collected
  have known : ∀ init ∈ globalInits p, p.Assigns init.name := fun _ => assigns_of_mem_globalInits
  have second := resolveGlobals_serves first known initial
  obtain ⟨bodies, headers⟩ := resolveFunctions_inOrder second filled.functions defined
  exact ⟨((exists_collectSignatures p.functions []).mp ⟨_, collected⟩).1, headers, bodies,
    resolveGlobals_inOrder first (Scope.first_owns p _) known
      (fun _ => filled_of_mem_globalInits filled) initial⟩

/-- Functions keep their names. -/
theorem Stages.InOrder.names {p : Surface.Program} {globals : List Assignment}
    {functions : List Function} (h : Stages.InOrder p globals functions) :
    functions.map (·.name) = p.functions.map (·.name) := by
  simpa [Function.comp_def, Function.header, sourceHeader] using
    congrArg (List.map Prod.fst) h.headers

/-- Every function of the source is there, with its parameters and with a body if it has one. -/
theorem Stages.InOrder.exists_function {p : Surface.Program} {globals : List Assignment}
    {functions : List Function} (h : Stages.InOrder p globals functions) {f : Surface.Function}
    (mem : f ∈ p.functions) : ∃ g ∈ functions,
      g.name = f.name ∧ g.params.length = f.params.length ∧ g.body.isSome = f.body.isSome := by
  have there : sourceHeader f ∈ functions.map Function.header :=
    h.headers ▸ List.mem_map_of_mem mem
  obtain ⟨g, isFunction, same⟩ := List.mem_map.mp there
  exact ⟨g, isFunction, by simpa [Function.header, sourceHeader] using same⟩

/-- Resolving gives well-formed modules only, for every program that was read or loaded. -/
theorem ofProgram_wellFormed {library : Bool} {p : Surface.Program} {m : Module}
    (obtained : Obtained p) (resolved : Module.ofProgram library p = .ok m) :
    m.WellFormed p := by
  have filled := obtained.filled
  cases resolvesProgram_iff.mp resolved with
  | @made globals functions s s' body stages absent _ entry =>
    have inOrder := stages.inOrder filled
    have made : Function.InOrder p ⟨entryName, [], some body⟩ :=
      ⟨nofun, resolveEntry_traced (stages.serves.enter p.entryFile [])
        (fun t mem => filled.topLevel t (entryStatements_subset p mem)) entry⟩
    refine .of_inOrder ?_ (fun name n declares => ?_)
      (List.forall_mem_append.mpr ⟨inOrder.bodies, List.forall_mem_singleton.mpr made⟩)
      inOrder.values fun name isMain => ?_
    · rw [List.map_append, inOrder.names]
      refine List.nodup_append.mpr ⟨inOrder.distinct, List.pairwise_singleton _ _, ?_⟩
      rintro name isName _ isEntry rfl
      obtain ⟨f, mem, rfl⟩ := List.mem_map.mp isName
      exact absent f mem (List.mem_singleton.mp isEntry)
    · obtain ⟨f, mem, rfl, rfl⟩ := declares
      obtain ⟨g, isFunction, name, params, -⟩ := inOrder.exists_function mem
      exact ⟨g, List.mem_append_left _ isFunction, name, params⟩
    · cases isMain
      exact ⟨_, List.mem_append_right _ (List.mem_singleton.mpr rfl), rfl, rfl⟩
  | @kept globals functions s stages _ _ =>
    have inOrder := stages.inOrder filled
    refine .of_inOrder (inOrder.names ▸ inOrder.distinct) (fun name n declares =>
      ?_) inOrder.bodies inOrder.values fun name isMain => ?_
    · obtain ⟨f, mem, rfl, rfl⟩ := declares
      obtain ⟨g, isFunction, name, params, -⟩ := inOrder.exists_function mem
      exact ⟨g, isFunction, name, params⟩
    · obtain ⟨f, isUser, rfl⟩ := Option.map_eq_some_iff.mp isMain
      obtain ⟨found, hasBody⟩ := Option.filter_eq_some_iff.mp isUser
      have mem := List.mem_of_find?_eq_some found
      obtain ⟨g, isFunction, name, -, body⟩ := inOrder.exists_function mem
      exact ⟨g, isFunction, name, body.trans hasBody⟩

/-- A program with a loop and a jump, a minus sign, an interpolated text, a pipeline, and
variables of both kinds. -/
def sample : Source :=
  ⟨"x = -2;\ndef f(a) \x7b\nfor (i in -a .. a) \x7b if (i == x) \x7b break; \x7d\n" ++
    "y = \"$i of $x$z\"; \x7d\nreturn y;\n\x7d\nf(x) | @(cat);"⟩

def Event.isCall : Event → Bool
  | .part (.call ..) => true
  | _ => false

def Event.isMinus : Event → Bool
  | .part (.unary _ .negate _) => true
  | _ => false

/-- A text in which a variable stands beside plain text. -/
def Event.isInterpolated : Event → Bool
  | .part (.text _ segments) => segments.any Segment.isText && segments.any (!·.isText)
  | _ => false

def Event.reads (isGlobal : Bool) : Event → Bool
  | .part e => e.variables.any (·.isGlobal = isGlobal)
  | _ => false

def Event.isJump : Event → Bool
  | .jump inLoop => inLoop
  | _ => false

def Event.isEffect : Event → Bool
  | .effect _ => true
  | _ => false

/-- The sample is well formed, and there is something of every kind in it that this is about. -/
theorem ofProgram_wellFormed_sample :
    ∃ p m, readProgram "sample" sample = .ok p ∧ Module.ofProgram false p = .ok m ∧
      m.main = some "main" ∧ m.globals ≠ [] ∧
      (∀ kind ∈ [Event.isCall, Event.isMinus, Event.isInterpolated, Event.reads true,
          Event.reads false, Event.isJump, Event.isEffect],
        ∃ f ∈ m.functions, ∃ event ∈ f.events, kind event = true) ∧
      m.WellFormed p := by
  obtain ⟨p, isRead, runs⟩ := exists_ok_of_any
    (show ((readProgram "sample" sample).toOption.any fun p =>
      (Module.ofProgram false p).toOption.any fun m =>
        (m.main = some "main" && !m.globals.isEmpty) &&
          [Event.isCall, Event.isMinus, Event.isInterpolated, Event.reads true,
          Event.reads false,
            Event.isJump, Event.isEffect].all fun kind =>
              m.functions.any fun f => f.events.any kind) = true by decide +kernel)
  obtain ⟨m, resolved, holds⟩ := exists_ok_of_any runs
  obtain ⟨entry, kinds⟩ := Bool.and_eq_true_iff.mp holds
  obtain ⟨isMain, globals⟩ := Bool.and_eq_true_iff.mp entry
  refine ⟨p, m, isRead, resolved, of_decide_eq_true isMain, by simpa using globals, ?_,
    ofProgram_wellFormed (.read isRead) resolved⟩
  intro kind isKind
  obtain ⟨f, isFunction, happens⟩ := List.any_eq_true.mp (List.all_eq_true.mp kinds kind isKind)
  exact ⟨f, isFunction, List.any_eq_true.mp happens⟩

end Shellwright.Core
