import TreeWalk.Scope

/-!
# Environments

An environment is an arena of frames.  A scope is a position in the arena, and a
frame that was discarded may leave its position to a newer one.

## Main definitions

* `Environment`: the frames, with the outermost at position 0
* `Environment.push`, `Environment.pop`, `Environment.set`: the changes
* `Environment.chain`: a scope with the scopes it is nested in, innermost first
* `Environment.get?`: the value of a name, from a scope outward
* `Fault`: a broken rule of the arena

## Design notes

**A change that breaks a rule is refused before anything is touched.**  A scope
cannot be nested in one that is gone, nothing can be bound in one that is gone,
and only the last frame can be discarded.  Each refusal is a `Fault`, which is
not an error of the program that is being run: no program can cause one as long
as its host lets it run in a scope that is there.  Discarding the outermost
scope, or one that is already gone, does nothing and is no fault.

**There is no limit on the number of scopes.**  A position is a natural number.  A
host whose positions are words of 32 bits has to stop at the `2^32`-th scope; that
stop is not among the faults, and what is said here is said of arenas that stay
below it.

Looking up follows parent links.  A parent always stands before its child, so the
index of a scope bounds the number of steps, and the walk is defined by recursion
on that bound.  `chain` is the walk as a list, and `get?_eq_findSome?` says that
a lookup takes the first value on it.
-/

namespace TreeWalk

/-- A broken rule of the arena. -/
inductive Fault where
  /-- A binding in a scope that is gone. -/
  | deadScope (s : ScopeId)
  /-- A new scope in one that is gone. -/
  | deadParent (s : ScopeId)
  /-- Discarding a scope before the ones after it, of `depth` in all. -/
  | notLast (s : ScopeId) (depth : Nat)
  deriving DecidableEq, Repr

/-- The wording of a fault. -/
def Fault.message : Fault → String
  | .deadScope s => "scope " ++ s.text ++ " is not live"
  | .deadParent s => "parent scope " ++ s.text ++ " is not live"
  | .notLast s depth =>
    "assertion `left == right` failed: scopes must be popped in LIFO order\n  left: Some(" ++
      (s.index + 1).repr ++ ")\n right: Some(" ++ depth.repr ++ ")"

/-- An arena of frames. -/
structure Environment where
  frames : Array Frame
  deriving DecidableEq

namespace Environment

/-- The environment with only the outermost scope, which binds nothing. -/
def initial : Environment := ⟨#[⟨[], none⟩]⟩

instance : Inhabited Environment := ⟨initial⟩

/-- The environment with only the outermost scope, which binds the given names. -/
def ofBindings (bs : List (Name × Value)) : Environment := ⟨#[⟨Bindings.assignAll [] bs, none⟩]⟩

/-- The number of scopes that are there. -/
def depth (env : Environment) : Nat := env.frames.size

/-- Whether a scope is there. -/
def IsLive (env : Environment) (s : ScopeId) : Prop := s.index < env.frames.size

instance (env : Environment) (s : ScopeId) : Decidable (env.IsLive s) :=
  inferInstanceAs (Decidable (_ < _))

/-- Whether a scope is there and is not the outermost one. -/
def IsInner (env : Environment) (s : ScopeId) : Prop := s ≠ .root ∧ env.IsLive s

instance (env : Environment) (s : ScopeId) : Decidable (env.IsInner s) :=
  inferInstanceAs (Decidable (_ ∧ _))

/-! ## Changes -/

/-- A new scope without bindings, nested in `parent`. -/
@[inline] def push (env : Environment) (parent : ScopeId) : Except Fault (ScopeId × Environment) :=
  if env.IsLive parent then .ok (⟨env.depth⟩, ⟨env.frames.push ⟨[], some parent⟩⟩)
  else .error (.deadParent parent)

/-- Discard a scope, which has to be the last one.  The outermost scope is never
discarded, and one that is gone needs no discarding. -/
@[inline] def pop (env : Environment) (s : ScopeId) : Except Fault Environment :=
  if env.IsInner s then
    if s.index + 1 = env.depth then .ok ⟨env.frames.pop⟩ else .error (.notLast s env.depth)
  else .ok env

/-- Bind a name in a scope itself; the scopes it is nested in keep theirs. -/
@[inline] def set (env : Environment) (s : ScopeId) (x : Name) (v : Value) :
    Except Fault Environment :=
  if env.IsLive s then .ok ⟨env.frames.modify s.index (·.assign x v)⟩
  else .error (.deadScope s)

/-! ## Questions -/

/-- The scope that a scope is nested in. -/
def parent? (env : Environment) (s : ScopeId) : Option ScopeId :=
  env.frames[s.index]?.bind Frame.parent

/-- The value that a scope itself gives to a name. -/
def own? (env : Environment) (s : ScopeId) (x : Name) : Option Value :=
  env.frames[s.index]?.bind (·.bindings.find? x)

/-- Whether a scope itself binds a name. -/
def bindsLocally (env : Environment) (s : ScopeId) (x : Name) : Bool := (env.own? s x).isSome

/-- At most `bound` scopes on the way from `s` outward.  The way ends at a scope
that is gone. -/
def chainUpTo (env : Environment) : (bound : Nat) → (s : ScopeId) → List ScopeId
  | 0, _ => []
  | bound + 1, s =>
    match env.frames[s.index]? with
    | none => []
    | some f =>
      match f.parent with
      | none => [s]
      | some p => s :: chainUpTo env bound p

/-- A scope and the scopes it is nested in, innermost first. -/
def chain (env : Environment) (s : ScopeId) : List ScopeId := env.chainUpTo (s.index + 1) s

/-- The value of a name within at most `bound` scopes from `s` outward. -/
def findUpTo (env : Environment) (x : Name) : (bound : Nat) → (s : ScopeId) → Option Value
  | 0, _ => none
  | bound + 1, s =>
    match env.frames[s.index]? with
    | none => none
    | some f =>
      match f.bindings.find? x with
      | some v => some v
      | none =>
        match f.parent with
        | none => none
        | some p => findUpTo env x bound p

/-- The value of a name, from a scope outward: the innermost binding counts. -/
def get? (env : Environment) (s : ScopeId) (x : Name) : Option Value :=
  env.findUpTo x (s.index + 1) s

/-! ## Looking up is searching the chain -/

@[simp] theorem depth_initial : initial.depth = 1 := rfl

@[simp] theorem chainUpTo_zero (env : Environment) (s : ScopeId) : env.chainUpTo 0 s = [] := rfl

@[simp] theorem findUpTo_zero (env : Environment) (x : Name) (s : ScopeId) :
    env.findUpTo x 0 s = none := rfl

theorem findUpTo_eq_findSome? (env : Environment) (x : Name) (bound : Nat) (s : ScopeId) :
    env.findUpTo x bound s = (env.chainUpTo bound s).findSome? fun t => env.own? t x := by
  induction bound generalizing s with
  | zero => rfl
  | succ bound ih =>
    unfold findUpTo chainUpTo
    rcases hf : env.frames[s.index]? with _ | f
    · rfl
    · have own : env.own? s x = f.bindings.find? x := by simp [own?, hf]
      rcases hx : f.bindings.find? x with _ | v
      · rcases hp : f.parent with _ | p <;> simp [own, hx, hp, ih]
      · rcases hp : f.parent with _ | p <;> simp [own, hx, hp]

/-- The value of a name is the first that is met on the chain. -/
theorem get?_eq_findSome? (env : Environment) (s : ScopeId) (x : Name) :
    env.get? s x = (env.chain s).findSome? fun t => env.own? t x :=
  env.findUpTo_eq_findSome? x (s.index + 1) s

/-- Nothing is found from a scope that is gone. -/
theorem get?_of_not_isLive {env : Environment} {s : ScopeId} (h : ¬ env.IsLive s) (x : Name) :
    env.get? s x = none := by
  have gone : env.frames[s.index]? = none := Array.getElem?_eq_none (Nat.le_of_not_lt h)
  simp [get?, findUpTo, gone]

end Environment

end TreeWalk
