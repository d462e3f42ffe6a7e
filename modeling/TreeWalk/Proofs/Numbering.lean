import TreeWalk.Proofs.Spelling
import TreeWalk.Session

/-!
# Numbering does not matter

A name is a number, and which number a text gets depends on the texts that a table
met before.  **No program can find out.**  With other numbers it does the same, and
what it leaves behind is the same with other numbers.

## Main definitions

* `Machine.SpelledAlike`: two machines that were built from the same texts
* `Session.observe`: what a host can see of a session

## Main statements

* `evaluates_under_every_numbering`: an exchange of names goes through an
  evaluation; and programs that are built from the same texts do the same, whatever
  the table held before

## Design notes

From the texts of a program, two tables make two trees, and the exchange of names
between them is found afterwards, by looking the texts up in both.  Sessions build
programs one after the other, so the tables grow between two runs, and so does the
exchange.  The machines are therefore compared under all later states of their
tables.
-/

namespace TreeWalk

open NameTable

/-! ## Machines -/

/-- The environments hold the same under the names that the two tables, now and
later, have for the same texts.  The machines agree on everything else. -/
structure Machine.SpelledAlike (m k : Machine) : Prop where
  env : ∀ u u', m.names.GrowsTo u → k.names.GrowsTo u' →
    Translates Environment.names Environment.rename u u' m.env k.env
  input_eq : k.input = m.input
  output_eq : k.output = m.output
  events_eq : k.events = m.events

namespace Machine.SpelledAlike

variable {m k : Machine}

/-- Entering texts into the tables does not part the machines. -/
theorem grow (alike : SpelledAlike m k) {t t' : NameTable} (grows : m.names.GrowsTo t)
    (grows' : k.names.GrowsTo t') : SpelledAlike { m with names := t } { k with names := t' } where
  env u u' later later' := alike.env u u' (grows.trans later) (grows'.trans later')
  input_eq := alike.input_eq
  output_eq := alike.output_eq
  events_eq := alike.events_eq

theorem depth_eq (alike : SpelledAlike m k) : k.env.depth = m.env.depth := by
  rw [(alike.env m.names k.names (.refl _) (.refl _)).eq, Environment.depth_rename]

/-- Under later tables, the second machine is the first one with other names. -/
theorem renames (alike : SpelledAlike m k) {u u' : NameTable} (later : m.names.GrowsTo u)
    (later' : k.names.GrowsTo u') (s : ScopeId) :
    Renames (m.names.shared k.names) (u.translate u') m.names k.names s s m k := by
  have now := alike.env m.names k.names (.refl _) (.refl _)
  have after := alike.env u u' later later'
  refine ⟨rfl, rfl, ?_, Environment.within_iff_names.mpr now.within⟩
  obtain ⟨names, env, input, output, events⟩ := k
  obtain ⟨-, rfl, rfl, rfl⟩ := alike
  rw [rename, ← after.eq]

/-- **Programs that were built from the same texts run alike.** -/
theorem runProgram (alike : SpelledAlike m k) {body body' : List Node}
    (trees : ∀ u u', m.names.GrowsTo u → k.names.GrowsTo u' →
      Translates Node.namesAll Node.renameAll u u' body body') (depth : Nat) :
    Option.Rel
      (fun o o' => Proc.Agree (fun v v' => v'.describe o'.2.names = v.describe o.2.names) Eq
        o.1 o'.1 ∧ SpelledAlike o.2 o'.2)
      ((runProgram depth body).run m) ((runProgram depth body').run k) := by
  -- The names in play are those that the tables share now.  Later tables only decide
  -- what is taken for what.
  have under (u u' : NameTable) (later : m.names.GrowsTo u) (later' : k.names.GrowsTo u') :
      Option.Rel
        (fun o o' =>
          Proc.Agree (Value.RenamesTo (m.names.shared k.names) (u.translate u')) Eq o.1 o'.1 ∧
          Renames (m.names.shared k.names) (u.translate u') m.names k.names .root .root o.2 o'.2)
        ((TreeWalk.runProgram depth body).run m) ((TreeWalk.runProgram depth body').run k) := by
    have inj := (injOn_translate u u').mono (shared_subset later later')
    have sim := simulation_renames inj (lookup_translate later later')
    have within := (trees m.names k.names (.refl _) (.refl _)).within
    rw [(trees u u' later later').eq]
    exact sim.runProgram depth body within m k (alike.renames later later' .root)
  obtain ⟨hm, hk⟩ | ⟨⟨r, m'⟩, ⟨r', k'⟩, hm, hk, agree, -, names_eq, eq, -⟩ :=
    Proc.rel_cases (under m.names k.names (.refl _) (.refl _)) <;> rw [hm, hk]
  · exact .none
  · dsimp only at names_eq eq
    subst eq
    refine .some ⟨agree.imp fun v v' same => ?_, ?_, rfl, rfl, rfl⟩
    · rw [same.eq, names_eq]
      exact Value.describe_rename fun x hx =>
        lookup_translate (.refl _) (.refl _) x (same.within x hx)
    · intro u u' later later'
      rw [names_eq] at later
      have after := under u u' later later'
      rw [hm, hk] at after
      obtain ⟨-, -, -, eq', within⟩ := Option.rel_some_some.mp after
      refine ⟨congrArg Machine.env eq', fun x hx => ?_⟩
      exact shared_subset later later' (Environment.within_iff_names.mp within x hx)

end Machine.SpelledAlike

/-! ## Sessions -/

namespace Session

/-- An evaluation is reported with the names that the machine has at its end. -/
theorem run_evaluate (x : Run Value) (session : Session) :
    (evaluate x).run session =
      (x.run session.machine).map fun o =>
        ((o.1.map fun v => Reply.value (v.describe o.2.names)).mapError .ofStop,
          { session with machine := o.2 }) := by
  rcases h : x.run session.machine with _ | ⟨e | v, m⟩
  · refine Proc.run_bind_of_none ?_ _
    simp only [run, h]
  · refine Proc.run_bind_of_error ?_ _
    simp only [run, h]
    rfl
  · have ran : (run x).run session = some (.ok v, { session with machine := m }) := by
      simp only [run, h]
      rfl
    rw [evaluate, Proc.run_bind_of_ok ran]
    rfl

theorem run_build {α : Type} {b : Builder α} {session : Session} {r : Except EvalError α}
    {t : NameTable} (h : b.runWith session.machine.names = (r, t)) :
    (build b).run session = some (r.mapError .error,
      { session with machine := { session.machine with names := t } }) := by
  simp only [build, h]

/-- **A program that is built from texts gets the same reply**, and leaves machines
that are spelled alike. -/
theorem respond_run_alike (depth : Nat) {program : List Draft}
    (texts : ∀ x ∈ Draft.identifiersAll program, x.IsText) :
    Proc.Lockstep (fun session session' => session.machine.SpelledAlike session'.machine) Eq Eq
      (respond depth (.run program)) (respond depth (.run program)) := by
  intro session session' alike
  have built := (Draft.buildAll_alike program texts).runWith session.machine.names
    session'.machine.names
  rcases h : (Draft.buildAll program).runWith session.machine.names with ⟨r, t⟩
  rcases h' : (Draft.buildAll program).runWith session'.machine.names with ⟨r', t'⟩
  rw [h, h'] at built
  have first := run_build h
  have first' := run_build h'
  obtain ⟨grows, grows', trees | rfl⟩ := built
  · rw [respond, Proc.run_bind_of_ok first, Proc.run_bind_of_ok first', run_evaluate, run_evaluate]
    refine Proc.rel_map ((alike.grow grows grows').runProgram trees depth) fun o o' both => ?_
    exact ⟨(both.1.map fun v v' same => congrArg Reply.value same.symm).mapError _, both.2⟩
  · rw [respond, Proc.run_bind_of_error first, Proc.run_bind_of_error first']
    exact .some ⟨.error rfl, alike.grow grows grows'⟩

/-- Procedures in lockstep settle alike. -/
theorem settle_alike {R : Session → Session → Prop} {x x' : Step Reply}
    (h : Proc.Lockstep R Eq Eq x x') {session session' : Session} (related : R session session') :
    Option.Rel (fun o o' => o'.1 = o.1 ∧ R o.2 o'.2) (settle x session) (settle x' session') := by
  simp only [settle]
  obtain ⟨hx, hx'⟩ | ⟨⟨r, after⟩, ⟨r', after'⟩, hx, hx', agree, related'⟩ :=
    Proc.rel_cases (h session session' related) <;> rw [hx, hx']
  · exact .none
  · obtain ⟨rfl⟩ | ⟨rfl⟩ := agree
    · exact .some ⟨rfl, related'⟩
    · exact .some ⟨rfl, related'⟩

/-- An answer shows nothing by which machines that are spelled alike differ. -/
theorem answer_alike (reply : Reply) (inner : Option (List Answer)) {session session' : Session}
    (alike : session.machine.SpelledAlike session'.machine) :
    (answer reply inner session').1 = (answer reply inner session).1 ∧
      (answer reply inner session).2.machine.SpelledAlike
        (answer reply inner session').2.machine := by
  refine ⟨?_, alike.env, alike.input_eq, alike.output_eq, rfl⟩
  simp only [answer, alike.depth_eq, alike.input_eq, alike.output_eq, alike.events_eq]

theorem perform_run_alike (depth : Nat) {program : List Draft}
    (texts : ∀ x ∈ Draft.identifiersAll program, x.IsText) {session session' : Session}
    (alike : session.machine.SpelledAlike session'.machine) :
    Option.Rel (fun o o' => o'.1 = o.1 ∧ o.2.machine.SpelledAlike o'.2.machine)
      (perform depth (.request (.run program)) session)
      (perform depth (.request (.run program)) session') := by
  rw [perform, perform]
  refine Proc.rel_bind (settle_alike (respond_run_alike depth texts) alike) ?_
  rintro ⟨_, after⟩ ⟨reply, after'⟩ ⟨rfl, alike'⟩
  exact .some (answer_alike reply none alike')

/-- The commands that run programs, first to last. -/
def runAll (programs : List (List Draft)) : List Command :=
  programs.map fun program => .request (.run program)

/-- Programs that are built from texts are answered alike, one after the other. -/
theorem performAll_alike (depth : Nat) {programs : List (List Draft)}
    (texts : ∀ program ∈ programs, ∀ x ∈ Draft.identifiersAll program, x.IsText)
    {session session' : Session} (alike : session.machine.SpelledAlike session'.machine) :
    Option.Rel (fun o o' => o'.1 = o.1 ∧ o.2.machine.SpelledAlike o'.2.machine)
      (performAll depth (runAll programs) session)
      (performAll depth (runAll programs) session') := by
  induction programs generalizing session session' with
  | nil => exact .some ⟨rfl, alike⟩
  | cons program rest ih =>
    rw [List.forall_mem_cons] at texts
    rw [runAll, List.map_cons, performAll, performAll]
    refine Proc.rel_bind (perform_run_alike depth texts.1 alike) ?_
    rintro ⟨a, next⟩ ⟨_, next'⟩ ⟨rfl, alike'⟩
    refine Proc.rel_bind (ih texts.2 alike') ?_
    rintro ⟨answers, last⟩ ⟨_, last'⟩ ⟨rfl, alike''⟩
    exact .some ⟨rfl, alike''⟩

/-- Whatever texts were entered before, sessions that bind the same texts begin
alike. -/
theorem start_alike {setup : Setup}
    (texts : ∀ b ∈ setup.bindings, b.1.IsText ∧ ∀ x ∈ b.2.identifiers, x.IsText)
    (before before' : List String) :
    Proc.Agree (fun session session' => session.machine.SpelledAlike session'.machine) Eq
      (start { setup with names := before }) (start { setup with names := before' }) := by
  have built := (ValueDraft.buildBindings_alike setup.bindings texts).runWith
    (initial.internAll before) (initial.internAll before')
  simp only [start]
  rcases h : (ValueDraft.buildBindings setup.bindings).runWith (initial.internAll before) with
    ⟨r, t⟩
  rcases h' : (ValueDraft.buildBindings setup.bindings).runWith (initial.internAll before') with
    ⟨r', t'⟩
  rw [h, h'] at built
  refine built.2.2.map fun bs bs' same => ⟨fun u u' later later' => ?_, rfl, rfl, rfl⟩
  have both := same u u' later later'
  have within := Bindings.within_iff_names.mpr both.within
  refine ⟨?_, Environment.within_iff_names.mp (Environment.within_ofBindings within)⟩
  rw [both.eq, Environment.rename_ofBindings (injOn_translate u u') within]

/-- What a host sees of a session: the answers, what is left of the input, and the
output. -/
def observe (r : Except EvalError (List Answer × Session)) :
    Except EvalError (List Answer × Input × Output) :=
  r.map fun o => (o.1, o.2.machine.input, o.2.machine.output)

/-- A host sees nothing of the texts that were entered before. -/
theorem observe_conduct_eq (depth : Nat) {setup : Setup} {programs : List (List Draft)}
    (bound : ∀ b ∈ setup.bindings, b.1.IsText ∧ ∀ x ∈ b.2.identifiers, x.IsText)
    (texts : ∀ program ∈ programs, ∀ x ∈ Draft.identifiersAll program, x.IsText)
    (before before' : List String) :
    (conduct depth { setup with names := before' } (runAll programs)).map observe =
      (conduct depth { setup with names := before } (runAll programs)).map observe := by
  have started := start_alike bound before before'
  simp only [conduct]
  rcases h : start { setup with names := before } with e | session <;>
    rcases h' : start { setup with names := before' } with e' | session' <;>
    rw [h, h'] at started <;> cases started
  · next same => rw [same]
  · next alike =>
    rw [Option.map_map, Option.map_map]
    refine Proc.map_eq_of_rel (performAll_alike depth texts alike) ?_
    rintro ⟨answers, last⟩ ⟨_, last'⟩ ⟨rfl, alike'⟩
    show Except.ok (_, last'.machine.input, last'.machine.output) = Except.ok (_, _, _)
    rw [alike'.input_eq, alike'.output_eq]

end Session

/-! ## Every numbering -/

/-- **Evaluation does not depend on how names are numbered.**  Exchange all names in
a tree and in the machine for others, so that different names stay different and
each has the text that it had before.  Then an evaluation comes to the same number
or the same error, or to the same function with exchanged names; it prints and reads
the same, and its environment is the old one with exchanged names.  It comes to an
outcome if and only if it did before.

So the texts that a table met earlier do not matter.  Programs that are built from
the same texts, and run one after the other where the same texts are bound, get the
same answers and leave the same output and input, whatever was entered into the
table before them. -/
theorem evaluates_under_every_numbering :
    (∀ π : Name → Name, Function.Injective π →
      ∀ (n : Node) (s : ScopeId) (m : Machine) (table : NameTable),
        (∀ x, x ∈ n.names ∨ x ∈ m.env.names → table.lookup (π x) = m.names.lookup x) →
        Matched (fun o o' => o' = (o.1.map (Value.rename π), o.2.rename π table))
          (Evaluates n s m) (Evaluates (n.rename π) s (m.rename π table))) ∧
    ∀ (setup : Setup) (programs : List (List Draft)),
      (∀ b ∈ setup.bindings, b.1.IsText ∧ ∀ x ∈ b.2.identifiers, x.IsText) →
      (∀ program ∈ programs, ∀ x ∈ Draft.identifiersAll program, x.IsText) →
      ∀ (before before' : List String) (depth : Nat),
        (Session.conduct depth { setup with names := before' } (Session.runAll programs)).map
            Session.observe =
          (Session.conduct depth { setup with names := before } (Session.runAll programs)).map
            Session.observe := by
  constructor
  · intro π inj n s m table text
    exact matched_rename inj.injOn text
  · intro setup programs bound texts before before' depth
    exact Session.observe_conduct_eq depth bound texts before before'

/-- All names move up by one, to make room for another text.  The function has one
name for both of its parameters, so it prints the last argument; then it asks for
a name that stands for nothing, and the error shows its text.  Built from texts,
with texts in the table and without, the function does the same in a second
program. -/
theorem evaluates_under_every_numbering_shifted :
    ∃ table table' : NameTable, table.texts = #["", "y"] ∧ table'.texts = #["", "a", "y"] ∧
      (let n : Node := .call (.define ⟨2⟩ [⟨3⟩, ⟨3⟩] [.print (.reference ⟨3⟩), .reference ⟨1⟩])
        [.number 4, .number 5]
      let m : Machine := ⟨table, .initial, .queue [], .captured "", #[]⟩
      let π : Name → Name := fun x => ⟨x.index + 1⟩
      ∃ k, Evaluates (n.rename π) .root (m.rename π table')
        (.error (.error (.undefinedVariable "y")), k) ∧ k.output = .captured "5\n" ∧
          k.env.get? .root ⟨3⟩ = some (.function
            ⟨[⟨4⟩, ⟨4⟩], [.print (.reference ⟨4⟩), .reference ⟨2⟩]⟩)) ∧
      let f : Draft := .define (.text "f") [.text "x"] [.print (.reference (.text "x"))]
      let call : Draft := .call (.reference (.text "f")) [.reference (.text "y")]
      let setup : Setup := { bindings := [(.text "y", .number 7)] }
      (Session.conduct 9 { setup with names := ["a", "y"] } (Session.runAll [[f], [call]])).map
          Session.observe =
        (Session.conduct 9 { setup with names := [] } (Session.runAll [[f], [call]])).map
          Session.observe := by
  have texts : (initial.intern "y").2.texts = #["", "y"] := texts_intern_of_notMem (by simp)
  have first : (initial.intern "a").2.texts = #["", "a"] := texts_intern_of_notMem (by simp)
  have texts' : ((initial.intern "a").2.intern "y").2.texts = #["", "a", "y"] := by
    rw [texts_intern_of_notMem (by simp [first]), first]
    rfl
  generalize (initial.intern "y").2 = table at texts
  generalize ((initial.intern "a").2.intern "y").2 = table' at texts'
  refine ⟨table, table', texts, texts', ?_, ?_⟩
  · intro n m π
    have inj : Function.Injective π := fun x y same =>
      congrArg Name.mk (Nat.succ.inj (congrArg Name.index same))
    have text : ∀ x, x ∈ n.names ∨ x ∈ m.env.names → table'.lookup (π x) = table.lookup x := by
      have all : ∀ x ∈ n.names, (#["", "a", "y"] : Array String)[(π x).index]?.getD unknown =
          (#["", "y"] : Array String)[x.index]?.getD unknown := by decide
      rintro x (hx | ⟨⟨⟩⟩)
      rw [lookup, lookup, texts, texts']
      exact all x hx
    obtain ⟨m', run, output, bound⟩ : ∃ m', (eval 5 n .root).run m =
        some (.error (.error (.undefinedVariable (table.lookup ⟨1⟩))), m') ∧
        m'.output = .captured "5\n" ∧ m'.env.get? .root ⟨2⟩ = some (.function
          ⟨[⟨3⟩, ⟨3⟩], [.print (.reference ⟨3⟩), .reference ⟨1⟩]⟩) := ⟨_, rfl, rfl, rfl⟩
    have y : table.lookup ⟨1⟩ = "y" := by
      rw [lookup, texts]
      rfl
    rw [y] at run
    obtain ⟨o, h, rfl⟩ :=
      (evaluates_under_every_numbering.1 π inj n .root m table' text).1 _ ⟨5, run⟩
    refine ⟨_, h, output, ?_⟩
    have within : m'.env.Within Set.univ := fun f _ b _ => ⟨trivial, fun _ _ => trivial⟩
    have found := Environment.get?_rename inj.injOn within (Set.mem_univ ⟨2⟩) .root
    rw [bound] at found
    exact found
  · intro f call setup
    exact evaluates_under_every_numbering.2 setup [[f], [call]] (by decide) (by decide) []
      ["a", "y"] 9

end TreeWalk
