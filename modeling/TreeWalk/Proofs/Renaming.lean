import Mathlib.Data.Set.Function
import TreeWalk.Proofs.Simulation

/-!
# Machines under other names

A machine keeps names as keys of bindings, and inside of the functions that are
bound.  Exchange them all, and the machine does with the exchanged tree what it did
before, with exchanged names.  **All that is asked of the exchange is that it keeps
different names apart**, and that the new table gives to each new name the text
that the old one had: errors show texts, and nothing shows a name itself.

## Main definitions

* `Environment.names`: every name that occurs in an environment
* `Environment.rename`, `Machine.rename`: the same with other names
* `Machine.Renames`: one machine is another with other names

## Main statements

* `Machine.simulation_renames`: no step of an evaluation can tell them apart
* `matched_rename`: so evaluations come to the same outcomes, with other names
* `Value.describe_rename`: a value is reported alike under both names

## Design notes

The exchange has to be injective on the names that occur, and on no others.  A
parameter list may hold a name twice; then the last argument counts, before the
exchange and after it.
-/

namespace TreeWalk

/-! ## Bindings -/

namespace Bindings

variable {S : Set Name} {π : Name → Name} {bs : Bindings} {x : Name}

/-- A new name finds what the old one found. -/
theorem find?_rename (inj : Set.InjOn π S) (within : bs.Within S) (known : x ∈ S) :
    (bs.rename π).find? (π x) = (bs.find? x).map (Value.rename π) := by
  induction bs with
  | nil => rfl
  | cons b rest ih =>
    obtain ⟨y, v⟩ := b
    rw [Within, List.forall_mem_cons] at within
    rw [rename_cons, find?_cons, find?_cons, ih within.2]
    by_cases same : x = y
    · rw [if_pos same, if_pos (congrArg π same), Option.map_some]
    · rw [if_neg same, if_neg (inj.ne known within.1.1 same)]

/-- Binding comes to the same before the exchange and after it. -/
theorem rename_assign (inj : Set.InjOn π S) (within : bs.Within S) (known : x ∈ S) (v : Value) :
    (bs.assign x v).rename π = (bs.rename π).assign (π x) (v.rename π) := by
  induction bs with
  | nil => rfl
  | cons b rest ih =>
    obtain ⟨y, w⟩ := b
    rw [Within, List.forall_mem_cons] at within
    rw [rename_cons, assign_cons, assign_cons]
    by_cases same : y = x
    · rw [if_pos same, if_pos (congrArg π same), rename_cons]
    · rw [if_neg same, if_neg (inj.ne within.1.1 known same), rename_cons, ih within.2]

theorem rename_assignAll (inj : Set.InjOn π S) (within : bs.Within S) {more : Bindings}
    (within' : more.Within S) :
    (bs.assignAll more).rename π = (bs.rename π).assignAll (more.rename π) := by
  induction more generalizing bs with
  | nil => rfl
  | cons b rest ih =>
    rw [Within, List.forall_mem_cons] at within'
    obtain ⟨⟨known, value⟩, others⟩ := within'
    show ((bs.assign b.1 b.2).assignAll rest).rename π =
      ((bs.rename π).assign (π b.1) (b.2.rename π)).assignAll (Bindings.rename π rest)
    rw [ih (within.assign known value) others, rename_assign inj within known]

/-- The names that occur in bindings. -/
def names (bs : Bindings) : List Name := bs.flatMap fun b => b.1 :: b.2.names

theorem within_iff_names : bs.Within S ↔ ∀ x ∈ bs.names, x ∈ S := by
  simp only [Within, names, List.forall_mem_flatMap, List.forall_mem_cons]

end Bindings

/-! ## Environments -/

/-- A frame with every name exchanged. -/
def Frame.rename (π : Name → Name) (f : Frame) : Frame := ⟨f.bindings.rename π, f.parent⟩

/-- A frame that starts with the given bindings. -/
theorem Frame.rename_mk {S : Set Name} {π : Name → Name} (inj : Set.InjOn π S) {bs : Bindings}
    (within : bs.Within S) (p : Option ScopeId) :
    Frame.rename π ⟨Bindings.assignAll [] bs, p⟩ = ⟨Bindings.assignAll [] (bs.rename π), p⟩ := by
  have nothing : Bindings.Within S [] := nofun
  rw [rename, Bindings.rename_assignAll inj nothing within]
  rfl

namespace Environment

/-- The names that occur in an environment: those that are bound in any of its
frames, and those in the functions that are bound. -/
def names (env : Environment) : List Name := env.frames.toList.flatMap fun f => f.bindings.names

/-- An environment with every name exchanged. -/
def rename (π : Name → Name) (env : Environment) : Environment :=
  ⟨env.frames.map (Frame.rename π)⟩

/-- Every name in the environment is from `S`. -/
def Within (S : Set Name) (env : Environment) : Prop := ∀ f ∈ env.frames, f.bindings.Within S

variable {S : Set Name} {π : Name → Name} {env env' : Environment} {s : ScopeId} {x : Name}
  {v : Value}

theorem within_iff_names : env.Within S ↔ ∀ x ∈ env.names, x ∈ S := by
  simp only [Within, Bindings.within_iff_names, names, List.forall_mem_flatMap,
    Array.mem_toList_iff]

@[simp] theorem depth_rename : (env.rename π).depth = env.depth := Array.size_map

@[simp] theorem isLive_rename : (env.rename π).IsLive s ↔ env.IsLive s := by
  rw [IsLive, IsLive, ← depth, ← depth, depth_rename]

theorem getElem?_frames_rename (i : Nat) :
    (env.rename π).frames[i]? = env.frames[i]?.map (Frame.rename π) := Array.getElem?_map

theorem Within.of_getElem? (within : env.Within S) {i : Nat} {f : Frame}
    (h : env.frames[i]? = some f) : f.bindings.Within S := within f (Array.mem_of_getElem? h)

theorem findUpTo_rename (inj : Set.InjOn π S) (within : env.Within S) (known : x ∈ S)
    (bound : Nat) (s : ScopeId) :
    (env.rename π).findUpTo (π x) bound s = (env.findUpTo x bound s).map (Value.rename π) := by
  induction bound generalizing s with
  | zero => rfl
  | succ bound ih =>
    unfold findUpTo
    rw [getElem?_frames_rename]
    rcases frame : env.frames[s.index]? with _ | f
    · rfl
    · have found := Bindings.find?_rename inj (within.of_getElem? frame) known
      simp only [Option.map_some, Frame.rename, found]
      rcases f.bindings.find? x with _ | v
      · rcases f.parent with _ | p
        · rfl
        · exact ih p
      · rfl

/-- A lookup finds the same. -/
theorem get?_rename (inj : Set.InjOn π S) (within : env.Within S) (known : x ∈ S)
    (s : ScopeId) :
    (env.rename π).get? s (π x) = (env.get? s x).map (Value.rename π) :=
  findUpTo_rename inj within known (s.index + 1) s

theorem Within.of_findUpTo (within : env.Within S) {bound : Nat}
    (found : env.findUpTo x bound s = some v) : ∀ y ∈ v.names, y ∈ S := by
  induction bound generalizing s with
  | zero => cases found
  | succ bound ih =>
    unfold findUpTo at found
    rcases frame : env.frames[s.index]? with _ | f <;> rw [frame] at found
    · cases found
    · rcases own : f.bindings.find? x with _ | w <;> simp only [own] at found
      · rcases parent : f.parent with _ | p <;> simp only [parent] at found
        · cases found
        · exact ih found
      · cases found
        exact (within.of_getElem? frame).of_find? own

/-- A value that is found holds no other names. -/
theorem Within.of_get? (within : env.Within S) (found : env.get? s x = some v) :
    ∀ y ∈ v.names, y ∈ S := within.of_findUpTo found

/-- Binding a name comes to the same. -/
theorem set_rename (inj : Set.InjOn π S) (within : env.Within S) (known : x ∈ S)
    (bound : env.set s x v = .ok env') :
    (env.rename π).set s (π x) (v.rename π) = .ok (env'.rename π) := by
  obtain ⟨live, rfl⟩ := set_eq_ok_iff.mp bound
  refine set_eq_ok_iff.mpr ⟨isLive_rename.mpr live, ?_⟩
  refine congrArg Environment.mk (Array.ext_getElem? fun i => ?_)
  rw [Array.getElem?_map, Array.getElem?_modify, Array.getElem?_modify, getElem?_frames_rename]
  -- Only in the frame of the scope is there anything to show.
  by_cases here : s.index = i
  · rw [if_pos here, if_pos here]
    rcases frame : env.frames[i]? with _ | f
    · rfl
    · have assigned := Bindings.rename_assign inj (within.of_getElem? frame) known v
      simp only [Option.map_some, Frame.rename, Frame.assign, assigned]
  · rw [if_neg here, if_neg here]

theorem Within.set (within : env.Within S) (known : x ∈ S) (value : ∀ y ∈ v.names, y ∈ S)
    (bound : env.set s x v = .ok env') : env'.Within S := by
  intro f mem
  obtain ⟨i, frame⟩ := Array.getElem?_of_mem mem
  by_cases here : i = s.index
  · subst here
    rw [getElem?_frames_set_self bound] at frame
    obtain ⟨old, before, rfl⟩ := Option.map_eq_some_iff.mp frame
    exact (within.of_getElem? before).assign known value
  · rw [getElem?_frames_set bound here] at frame
    exact within.of_getElem? frame

/-- Entering a scope comes to the same. -/
theorem rename_enter (inj : Set.InjOn π S) {bindings : Bindings} (within : bindings.Within S) :
    (env.enter s bindings).rename π = (env.rename π).enter s (bindings.rename π) := by
  refine congrArg Environment.mk (Array.map_push.trans ?_)
  rw [Frame.rename_mk inj within]
  rfl

theorem Within.enter (within : env.Within S) {bindings : Bindings}
    (within' : bindings.Within S) : (env.enter s bindings).Within S := by
  intro f mem
  rcases Array.mem_push.mp mem with old | rfl
  · exact within f old
  · exact Bindings.Within.assignAll nofun within'

/-- Bindings in the outermost scope. -/
theorem rename_ofBindings (inj : Set.InjOn π S) {bs : Bindings} (within : bs.Within S) :
    (ofBindings bs).rename π = ofBindings (bs.rename π) := by
  refine congrArg Environment.mk (Array.map_singleton.trans ?_)
  rw [Frame.rename_mk inj within]

theorem within_ofBindings {bs : Bindings} (within : bs.Within S) : (ofBindings bs).Within S := by
  intro f mem
  obtain rfl := Array.mem_singleton.mp mem
  exact Bindings.Within.assignAll nofun within

end Environment

/-! ## Machines -/

/-- A machine with every name exchanged, and with a table for the new names. -/
def Machine.rename (π : Name → Name) (table : NameTable) (m : Machine) : Machine :=
  { m with names := table, env := m.env.rename π }

theorem Machine.depth_rename (π : Name → Name) (table : NameTable) (m : Machine) :
    (m.rename π table).env.depth = m.env.depth := Environment.depth_rename

/-- Seen from one scope, the second machine is the first with other names.  The
tables are `table` and `table'`, and every name in the first machine is from
`S`. -/
structure Machine.Renames (S : Set Name) (π : Name → Name) (table table' : NameTable)
    (s t : ScopeId) (m k : Machine) : Prop where
  scope_eq : s = t
  names_eq : m.names = table
  eq : k = m.rename π table'
  within : m.env.Within S

/-- **No step of an evaluation can tell names apart from other names** that are
different where they were different, and have the same texts. -/
theorem Machine.simulation_renames {S : Set Name} {π : Name → Name} {table table' : NameTable}
    (inj : Set.InjOn π S) (text : ∀ x ∈ S, table'.lookup (π x) = table.lookup x) :
    Simulation S π (Renames S π table table') where
  scopes := by
    rintro s _ m _ ⟨rfl, -, rfl, -⟩
    by_cases live : m.env.IsLive s
    · exact .inl ⟨live, Environment.isLive_rename.mpr live⟩
    · exact .inr ⟨rfl, live, fun live' => live (Environment.isLive_rename.mp live')⟩
  text := by
    rintro s _ m _ x ⟨-, rfl, rfl, -⟩ known
    exact text x known
  get := by
    rintro s _ m _ x ⟨rfl, -, rfl, within⟩ known
    rw [rename, Environment.get?_rename inj within known]
    cases found : m.env.get? s x with
    | none => exact .none
    | some v => exact .some ⟨rfl, within.of_get? found⟩
  set := by
    rintro s _ m _ x v env env' ⟨rfl, names_eq, rfl, within⟩ known value bound bound'
    have same := Environment.set_rename inj within known bound
    obtain rfl : env' = env.rename π := Except.ok.inj (bound'.symm.trans same)
    exact ⟨rfl, names_eq, rfl, within.set known value bound⟩
  log := by
    rintro s _ m _ e ⟨rfl, names_eq, rfl, within⟩
    exact ⟨rfl, names_eq, rfl, within⟩
  emit := by
    rintro s _ m _ n ⟨rfl, names_eq, rfl, within⟩
    exact ⟨rfl, names_eq, rfl, within⟩
  readLine s t := by
    refine Run.readLine_lockstep ?_ ?_ ?_
    · rintro m _ ⟨-, -, rfl, -⟩
      rfl
    · rintro m _ rest ⟨rfl, names_eq, rfl, within⟩
      exact ⟨rfl, names_eq, rfl, within⟩
    · rintro m _ e ⟨rfl, names_eq, rfl, within⟩
      exact ⟨rfl, names_eq, rfl, within⟩
  enter := by
    rintro s _ m _ bindings ⟨rfl, names_eq, rfl, within⟩ - - known
    refine ⟨by rw [depth_rename], names_eq, ?_, within.enter known⟩
    rw [enter, depth_rename, enter, rename, rename, ← Environment.rename_enter inj known]
    rfl
  resume := by
    rintro s _ m m' _ _ ⟨rfl, -, rfl, within⟩ ⟨-, names_eq, rfl, -⟩
    refine ⟨rfl, names_eq, ?_, within⟩
    rw [resume, depth_rename]
    rfl

/-- Evaluation goes through an exchange of names that is injective where it
matters. -/
theorem matched_rename {π : Name → Name} {n : Node} {s : ScopeId} {m : Machine}
    {table : NameTable} (inj : Set.InjOn π {x | x ∈ n.names ∨ x ∈ m.env.names})
    (text : ∀ x, x ∈ n.names ∨ x ∈ m.env.names → table.lookup (π x) = m.names.lookup x) :
    Matched (fun o o' => o' = (o.1.map (Value.rename π), o.2.rename π table))
      (Evaluates n s m) (Evaluates (n.rename π) s (m.rename π table)) := by
  have sim := Machine.simulation_renames inj text
  have within := Environment.within_iff_names.mpr fun x (hx : x ∈ m.env.names) =>
    (.inr hx : x ∈ n.names ∨ x ∈ m.env.names)
  refine (sim.matched (s := s) ⟨rfl, rfl, rfl, within⟩ fun x hx => .inl hx).imp ?_
  rintro ⟨r, m'⟩ ⟨r', k⟩ ⟨agree, -, -, eq, -⟩
  exact Prod.ext (Value.eq_map_of_agree agree) eq

/-- A value is reported alike under old and new names. -/
theorem Value.describe_rename {π : Name → Name} {table table' : NameTable} {v : Value}
    (text : ∀ x ∈ v.names, table'.lookup (π x) = table.lookup x) :
    (v.rename π).describe table' = v.describe table := by
  cases v with
  | number k => rfl
  | void => rfl
  | function f =>
    have params : (f.params.map π).map table'.lookup = f.params.map table.lookup := by
      rw [List.map_map]
      exact List.map_congr_left fun x hx => text x (List.mem_append_left _ hx)
    have kinds : (Node.renameAll π f.body).map Node.kind = f.body.map Node.kind := by
      rw [Node.renameAll_eq_map, List.map_map]
      exact List.map_congr_left fun n _ => Node.kind_rename π n
    have arity : (f.rename π).arity = f.arity := f.arity_rename π
    show (⟨_, "<function/" ++ (f.rename π).arity.repr ++ ">", some ⟨_, _⟩⟩ : Description) = _
    rw [arity, Function.rename, params, kinds]
    rfl

end TreeWalk
