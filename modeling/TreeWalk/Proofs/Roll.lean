import Mathlib.Data.List.Basic
import TreeWalk.NameTable.Directory
import TreeWalk.Proofs.Spelling

/-!
# Name tables are lists

A table keeps two structures that mirror each other, and is reached through handles that
stand for the same table.  **From outside, all of that is a list of texts**, each at
its first entry, with the empty text in front.  Names are positions in that list, and
the list only ever gets longer.

## Main definitions

* `enroll`: put a text at the end of a list unless it is there
* `Place`, `Directory.place?`: the table that a site stands for
* `Directory.after`: the directory after some calls
* `Directory.entered`, `Directory.roll`: the texts that calls enter at a place, and the
  list that is made of them
* `TableRequest.reply`: what a list answers to a request

## Main statements

* `Directory.perform_cases`: what a single call does
* `Directory.texts?_after`: a table holds the texts that were entered at its place
* `Directory.performAll_as_rolls`: every call is answered from the list, for good

## Design notes

**The list is read off the calls, not off the tables.**  Two sites stand for one table if
one handle is a copy of the other.  So which calls count depends on the handles given out
by then, and on nothing else.

The text `<unknown>` can be entered like any other.  To read it back is no sign that a name
is foreign.
-/

namespace TreeWalk

/-! ## Lists of texts -/

/-- A text goes to the end of the list, unless it is there. -/
def enroll (D : List String) (s : String) : List String := if s ∈ D then D else D ++ [s]

theorem mem_enroll (D : List String) (s : String) : s ∈ enroll D s := by
  unfold enroll
  split
  · next there => exact there
  · exact List.mem_append_right D (List.mem_singleton_self s)

theorem prefix_enroll (D : List String) (s : String) : D <+: enroll D s := by
  unfold enroll
  split
  · exact List.prefix_refl D
  · exact List.prefix_append D [s]

theorem prefix_foldl_enroll (D texts : List String) : D <+: texts.foldl enroll D := by
  induction texts generalizing D with
  | nil => exact List.prefix_refl D
  | cons s rest ih => exact (prefix_enroll D s).trans (ih _)

/-- Entering texts one by one is leaving out repetitions. -/
theorem foldl_enroll (D texts : List String) :
    texts.foldl enroll D.eraseDups = (D ++ texts).eraseDups := by
  induction texts generalizing D with
  | nil => rw [List.foldl_nil, List.append_nil]
  | cons s rest ih =>
    have one : enroll D.eraseDups s = (D ++ [s]).eraseDups := by
      rw [List.eraseDups_append, enroll]
      simp only [List.mem_eraseDups]
      by_cases there : s ∈ D <;> simp [List.removeAll, List.eraseDups_cons, there]
    rw [List.foldl_cons, one, ih, List.append_assoc, List.singleton_append]

/-- The position of a text stays when the list gets longer. -/
theorem idxOf_eq_of_longer {D D' : List String} {s : String} (h : D <+: D') (there : s ∈ D) :
    D'.idxOf s = D.idxOf s := by
  obtain ⟨more, rfl⟩ := h
  exact List.idxOf_append_of_mem there

/-! ## One table -/

namespace NameTable

/-- A text stands at one position only. -/
theorem idxOf_texts {t : NameTable} {s : String} {i : Nat} (h : t.texts[i]? = some s) :
    t.texts.toList.idxOf s = i := by
  have there : s ∈ t.texts.toList := Array.mem_toList_iff.mpr (Array.mem_of_getElem? h)
  have found : t.texts[t.texts.toList.idxOf s]? = some s := by
    rw [← Array.getElem?_toList]
    exact List.getElem?_idxOf there
  have position := (t.positions_iff s i).mpr h
  have position' := (t.positions_iff s _).mpr found
  exact Option.some.inj (position'.symm.trans position)

/-- The table after an entry is the list after it. -/
theorem toList_intern (t : NameTable) (s : String) :
    (t.intern s).2.texts.toList = enroll t.texts.toList s := by
  unfold enroll
  simp only [Array.mem_toList_iff]
  split
  · next there =>
    obtain ⟨i, hi⟩ := Array.mem_iff_getElem?.mp there
    rw [intern_of_some ((t.positions_iff s i).mpr hi)]
  · next absent => rw [texts_intern_of_notMem absent, Array.toList_push]

/-- The name of a text is its position. -/
theorem intern_fst (t : NameTable) (s : String) :
    (t.intern s).1 = ⟨(enroll t.texts.toList s).idxOf s⟩ := by
  have position := idxOf_texts (t.texts_intern s)
  rw [toList_intern] at position
  exact congrArg Name.mk position.symm

theorem lookup_eq_getD (t : NameTable) (x : Name) :
    t.lookup x = t.texts.toList[x.index]?.getD "<unknown>" := by
  rw [Array.getElem?_toList]
  rfl

end NameTable

/-! ## Requests -/

namespace TableRequest

/-- The texts that a request enters, first to last. -/
def entries : TableRequest → List String
  | .intern s => [s]
  | .compare a b => [a, b]
  | .lookup _ | .defaultName | .copyHandle => []

/-- What a list answers to a request once the texts of the request are on it, if
`handles` handles have been given out before. -/
def reply (D : List String) (handles : Nat) : TableRequest → TableReply
  | .intern s => .name ⟨D.idxOf s⟩
  | .lookup x => .text (D[x.index]?.getD "<unknown>")
  | .compare a b => .order (Ord.compare (D.idxOf a) (D.idxOf b))
  | .defaultName => .name ⟨0⟩
  | .copyHandle => .handle handles

/-- The report that goes with the reply. -/
def report (D : List String) (handles : Nat) (request : TableRequest) : TableReport :=
  ⟨request.reply D handles, D.length, D.length ≤ 1⟩

end TableRequest

namespace Directory

/-- A request on a table is answered from the list of its texts. -/
theorem onTable_eq (t : NameTable) (handles : Nat) {request : TableRequest}
    (h : request ≠ .copyHandle) :
    ∃ t', onTable t request = some (request.reply t'.texts.toList handles, t') ∧
      t'.texts.toList = request.entries.foldl enroll t.texts.toList := by
  cases request with
  | intern s =>
    refine ⟨(t.intern s).2, ?_, t.toList_intern s⟩
    rw [TableRequest.reply, t.toList_intern, ← t.intern_fst]
    rfl
  | lookup x =>
    refine ⟨t, ?_, rfl⟩
    rw [TableRequest.reply, ← t.lookup_eq_getD]
    rfl
  | compare a b =>
    obtain ⟨u, first⟩ : ∃ u, (t.intern a).2 = u := ⟨_, rfl⟩
    have entered := t.toList_intern a
    have entered' := u.toList_intern b
    rw [first] at entered
    refine ⟨(u.intern b).2, ?_, ?_⟩
    · -- The second entry leaves the position of the first text alone.
      have kept : (u.intern b).2.texts.toList.idxOf a = (t.intern a).1.index := by
        rw [entered', idxOf_eq_of_longer (prefix_enroll _ b) (entered ▸ mem_enroll _ a), entered,
          t.intern_fst]
      have second : (u.intern b).2.texts.toList.idxOf b = (u.intern b).1.index := by
        rw [entered', u.intern_fst]
      rw [TableRequest.reply, kept, second, ← first]
      rfl
    · rw [entered', entered]
      rfl
  | defaultName => exact ⟨t, rfl, rfl⟩
  | copyHandle => exact absurd rfl h

end Directory

/-! ## Places -/

/-- Where the tables of a directory are. -/
inductive Place where
  | own
  | shared (k : Nat)
  deriving DecidableEq

namespace Directory

variable {d : Directory} {site : Site} {p q : Place} {t t' : NameTable}

/-- The place that a site stands for. -/
def place? (d : Directory) : Site → Option Place
  | .own => some .own
  | .handle h => d.handles[h]?.map .shared

/-- The table at a place. -/
def tableAt? (d : Directory) : Place → Option NameTable
  | .own => some d.own
  | .shared k => d.shared[k]?

/-- The directory with another table at a place. -/
def setAt (d : Directory) (t : NameTable) : Place → Directory
  | .own => { d with own := t }
  | .shared k => { d with shared := d.shared.setIfInBounds k t }

/-- The site stands for a table, namely for the one at that place. -/
def Reaches (d : Directory) (site : Site) (p : Place) : Prop :=
  d.place? site = some p ∧ (d.tableAt? p).isSome

theorem table?_eq (d : Directory) (site : Site) :
    d.table? site = (d.place? site).bind d.tableAt? := by
  cases site with
  | own => rfl
  | handle h =>
    show d.handles[h]?.bind (fun k => d.shared[k]?) = (d.handles[h]?.map Place.shared).bind _
    rw [Option.bind_map]
    rfl

theorem setTable_eq (h : d.place? site = some p) (t : NameTable) :
    d.setTable t site = d.setAt t p := by
  cases site with
  | own =>
    cases h
    rfl
  | handle i =>
    obtain ⟨k, handle, rfl⟩ := Option.map_eq_some_iff.mp h
    simp only [setTable, handle]
    rfl

/-- Sites stand for the same places, whatever the tables are. -/
theorem place?_setAt (d : Directory) (t : NameTable) (p : Place) (site : Site) :
    (d.setAt t p).place? site = d.place? site := by
  cases p <;> cases site <;> rfl

theorem tableAt?_setAt_self (h : d.tableAt? p = some t) (t' : NameTable) :
    (d.setAt t' p).tableAt? p = some t' := by
  cases p with
  | own => rfl
  | shared k =>
    have inBounds : k < d.shared.size := (Array.getElem?_eq_some_iff.mp h).1
    show (d.shared.setIfInBounds k t')[k]? = some t'
    rw [Array.getElem?_setIfInBounds, if_pos rfl, if_pos inBounds]

/-- A table at another place stays. -/
theorem tableAt?_setAt_of_ne (h : q ≠ p) (d : Directory) (t' : NameTable) :
    (d.setAt t' p).tableAt? q = d.tableAt? q := by
  cases p with
  | own =>
    cases q with
    | own => exact absurd rfl h
    | shared k => rfl
  | shared k =>
    cases q with
    | own => rfl
    | shared j =>
      have other : k ≠ j := fun same => h (congrArg Place.shared same.symm)
      show (d.shared.setIfInBounds k t')[j]? = d.shared[j]?
      rw [Array.getElem?_setIfInBounds, if_neg other]

/-! ## One call -/

theorem table?_setTable (h : d.table? site = some t) (t' : NameTable) :
    (d.setTable t' site).table? site = some t' := by
  rw [table?_eq] at h
  obtain ⟨p, place, there⟩ := Option.bind_eq_some_iff.mp h
  rw [setTable_eq place, table?_eq, place?_setAt, place]
  exact tableAt?_setAt_self there t'

/-- A request on the table at the site. -/
theorem perform_onTable {request : TableRequest} {reply : TableReply}
    (table : d.table? site = some t) (answered : onTable t request = some (reply, t')) :
    d.perform site request = some (⟨reply, t'.size, t'.isEmpty⟩, d.setTable t' site) := by
  have after := table?_setTable table t'
  cases request with
  | copyHandle => cases answered
  | intern | lookup | compare | defaultName =>
    cases site <;> simp [perform, table, answered, after]

/-- Giving out another handle leaves the old ones alone. -/
theorem getElem?_handles_push {h k : Nat} (handle : d.handles[h]? = some k) (j : Nat) :
    (d.handles.push j)[h]? = some k := by
  have old : h < d.handles.size := (Array.getElem?_eq_some_iff.mp handle).1
  rw [Array.getElem?_push, if_neg (Nat.ne_of_lt old), handle]

/-- A handle is copied: the copy is the next handle and stands for the same table. -/
theorem perform_copyHandle {h k : Nat} (handle : d.handles[h]? = some k)
    (table : d.shared[k]? = some t) :
    d.perform (.handle h) .copyHandle =
      some (⟨.handle d.handles.size, t.size, t.isEmpty⟩,
        { d with handles := d.handles.push k }) := by
  simp [perform, copyHandle, handle, table?, getElem?_handles_push handle, table]

/-- Without a table there is no answer. -/
theorem perform_of_table?_eq_none (table : d.table? site = none) (request : TableRequest) :
    d.perform site request = none := by
  cases site with
  | own => cases table
  | handle h =>
    cases request with
    | intern | lookup | compare | defaultName => simp [perform, table]
    | copyHandle =>
      rcases handle : d.handles[h]? with _ | k
      · simp [perform, copyHandle, handle]
      · simp only [table?, handle, Option.bind_some] at table
        simp [perform, copyHandle, handle, table?, getElem?_handles_push handle, table]

/-- What a call with an answer does: at its place there is the table with the texts of the
request on it, all other tables are the same, and sites stand for what they stood for. -/
structure Answered (d : Directory) (p : Place) (request : TableRequest) (report : TableReport)
    (d' : Directory) : Prop where
  table : ∃ t t', d.tableAt? p = some t ∧ d'.tableAt? p = some t' ∧
    t'.texts.toList = request.entries.foldl enroll t.texts.toList ∧
    report = request.report t'.texts.toList d.handles.size
  other : ∀ q, q ≠ p → d'.tableAt? q = d.tableAt? q
  kept : ∀ site q, d.place? site = some q → d'.place? site = some q
  copied : request = .copyHandle → d'.place? (.handle d.handles.size) = some p

/-- A copy of a handle stands for the same table, and all else is as it was. -/
theorem answered_copyHandle {k : Nat} (there : d.shared[k]? = some t) :
    d.Answered (.shared k) .copyHandle ⟨.handle d.handles.size, t.size, t.isEmpty⟩
      { d with handles := d.handles.push k } where
  table := ⟨t, t, there, there, rfl, rfl⟩
  other q _ := by cases q <;> rfl
  kept site q old := by
    cases site with
    | own => exact old
    | handle i =>
      obtain ⟨j, handle, rfl⟩ := Option.map_eq_some_iff.mp old
      rw [place?, getElem?_handles_push handle k, Option.map_some]
  copied _ := by rw [place?, Array.getElem?_push, if_pos rfl, Option.map_some]

/-- **What a call does.**  It has no answer where its site stands for no table, or where
the own table is asked for a copy of a handle. -/
theorem perform_cases (d : Directory) (site : Site) (request : TableRequest) :
    (d.perform site request = none ∧
      ((∀ p, ¬ d.Reaches site p) ∨ (site = .own ∧ request = .copyHandle))) ∨
    ∃ p report d', d.perform site request = some (report, d') ∧ d.Reaches site p ∧
      d.Answered p request report d' := by
  rcases table : d.table? site with _ | t
  · refine .inl ⟨perform_of_table?_eq_none table request, .inl fun p reached => ?_⟩
    obtain ⟨place, there⟩ := reached
    rw [table?_eq, place, Option.bind_some] at table
    rw [table] at there
    cases there
  · obtain ⟨p, place, there⟩ := Option.bind_eq_some_iff.mp (d.table?_eq site ▸ table)
    have reached : d.Reaches site p := ⟨place, there ▸ rfl⟩
    by_cases copy : request = .copyHandle
    · subst copy
      cases site with
      | own => exact .inl ⟨rfl, .inr ⟨rfl, rfl⟩⟩
      | handle h =>
        obtain ⟨k, handle, rfl⟩ := Option.map_eq_some_iff.mp place
        exact .inr ⟨.shared k, _, _, perform_copyHandle handle there, reached,
          answered_copyHandle there⟩
    · obtain ⟨t', answered, entered⟩ := onTable_eq t d.handles.size copy
      refine .inr ⟨p, _, _, perform_onTable table answered, reached, ?_⟩
      rw [setTable_eq place]
      exact {
        table := ⟨t, t', there, tableAt?_setAt_self there t', entered, rfl⟩
        other := fun q other => tableAt?_setAt_of_ne other d t'
        kept := fun site q old => (place?_setAt d t' p site).trans old
        copied := fun isCopy => absurd isCopy copy }

/-! ## Many calls -/

/-- The directory after a call.  A call without an answer changes nothing. -/
def step (d : Directory) (call : Site × TableRequest) : Directory :=
  match d.perform call.1 call.2 with
  | none => d
  | some (_, d') => d'

/-- The directory after some calls. -/
def after (d : Directory) (calls : List (Site × TableRequest)) : Directory := calls.foldl step d

/-- What is reported of a call that comes after some others. -/
def answer (d : Directory) (past : List (Site × TableRequest)) (call : Site × TableRequest) :
    Option TableReport :=
  ((d.after past).perform call.1 call.2).map Prod.fst

/-- The reply to a call that comes after some others. -/
def reply? (d : Directory) (past : List (Site × TableRequest)) (call : Site × TableRequest) :
    Option TableReply :=
  (d.answer past call).map TableReport.reply

/-- The texts that a call enters at a place. -/
def entriesAt (d : Directory) (p : Place) (call : Site × TableRequest) : List String :=
  if d.place? call.1 = some p then call.2.entries else []

/-- The texts that some calls enter at a place, first to last, with repetitions. -/
def entered : Directory → Place → List (Site × TableRequest) → List String
  | _, _, [] => []
  | d, p, call :: rest => d.entriesAt p call ++ (d.step call).entered p rest

/-- The distinct texts at a place after some calls, in the order of their first entry.
The empty text is there from the start. -/
def roll (d : Directory) (p : Place) (calls : List (Site × TableRequest)) : List String :=
  ("" :: d.entered p calls).eraseDups

/-- The texts of the table at a place. -/
def texts? (d : Directory) (p : Place) : Option (List String) :=
  (d.tableAt? p).map (·.texts.toList)

/-- No table has any text but the empty one. -/
def Fresh (d : Directory) : Prop := ∀ p D, d.texts? p = some D → D = [""]

/-- Nothing has been entered into the directory that there is at the start. -/
theorem fresh_initial : initial.Fresh := by
  rintro (_ | _ | k) D found <;> cases found <;> rfl

variable {past more calls : List (Site × TableRequest)}

theorem step_of_some {call : Site × TableRequest} {report : TableReport} {d' : Directory}
    (h : d.perform call.1 call.2 = some (report, d')) : d.step call = d' := by
  rw [step, h]

theorem step_of_none {call : Site × TableRequest} (h : d.perform call.1 call.2 = none) :
    d.step call = d := by
  rw [step, h]

theorem after_append (d : Directory) (past more : List (Site × TableRequest)) :
    d.after (past ++ more) = (d.after past).after more := List.foldl_append

/-- A call reads its own place and writes there, and at no other. -/
theorem texts?_step (d : Directory) (q : Place) (call : Site × TableRequest) :
    (d.step call).texts? q = (d.texts? q).map ((d.entriesAt q call).foldl enroll) := by
  rcases d.perform_cases call.1 call.2 with
    ⟨unanswered, why⟩ | ⟨p, report, d', answered, ⟨place, -⟩, done⟩
  · rw [step_of_none unanswered]
    rcases table : d.tableAt? q with _ | t
    · rw [texts?, table]
      rfl
    · have nothing : d.entriesAt q call = [] := by
        unfold entriesAt
        split
        · next place =>
          rcases why with nowhere | ⟨-, isCopy⟩
          · exact absurd ⟨place, table ▸ rfl⟩ (nowhere q)
          · rw [isCopy]
            rfl
        · rfl
      rw [nothing]
      exact (Option.map_id' (x := d.texts? q)).symm
  · rw [step_of_some answered]
    by_cases here : q = p
    · subst here
      obtain ⟨t, t', before, after, entered, -⟩ := done.table
      rw [texts?, texts?, before, after, entriesAt, if_pos place]
      exact congrArg some entered
    · have elsewhere : d.place? call.1 ≠ some q := by
        rw [place]
        exact fun same => here (Option.some.inj same).symm
      rw [texts?, done.other q here, entriesAt, if_neg elsewhere]
      exact (Option.map_id' (x := d.texts? q)).symm

/-- A table holds the texts that were entered at its place. -/
theorem texts?_after (d : Directory) (p : Place) (calls : List (Site × TableRequest)) :
    (d.after calls).texts? p = (d.texts? p).map ((d.entered p calls).foldl enroll) := by
  induction calls generalizing d with
  | nil => exact (Option.map_id' (x := d.texts? p)).symm
  | cons call rest ih =>
    have split := ih (d.step call)
    rw [texts?_step, Option.map_map] at split
    rw [entered]
    refine split.trans (congrArg (Option.map · _) (funext fun D => ?_))
    exact List.foldl_append.symm

theorem entered_append (d : Directory) (p : Place) (past more : List (Site × TableRequest)) :
    d.entered p (past ++ more) = d.entered p past ++ (d.after past).entered p more := by
  induction past generalizing d with
  | nil => rfl
  | cons call rest ih =>
    rw [List.cons_append, entered, entered, ih, List.append_assoc]
    rfl

/-- Later calls enter their texts into the list that there is. -/
theorem roll_append (d : Directory) (p : Place) (past more : List (Site × TableRequest)) :
    d.roll p (past ++ more) = ((d.after past).entered p more).foldl enroll (d.roll p past) := by
  rw [roll, entered_append, roll, foldl_enroll]
  rfl

theorem roll_concat (reached : (d.after past).Reaches site p) (request : TableRequest) :
    d.roll p (past ++ [(site, request)]) = request.entries.foldl enroll (d.roll p past) := by
  rw [roll_append, entered, entered, List.append_nil, entriesAt, if_pos reached.1]

/-- The list only gets longer, and no text moves. -/
theorem prefix_roll_append (d : Directory) (p : Place) (past more : List (Site × TableRequest)) :
    d.roll p past <+: d.roll p (past ++ more) := by
  rw [roll_append]
  exact prefix_foldl_enroll _ _

/-- Sites stand for what they stood for. -/
theorem Reaches.step (h : d.Reaches site p) (call : Site × TableRequest) :
    (d.step call).Reaches site p := by
  have there : ((d.step call).texts? p).isSome := by
    rw [texts?_step, Option.isSome_map, texts?, Option.isSome_map]
    exact h.2
  rw [texts?, Option.isSome_map] at there
  refine ⟨?_, there⟩
  rcases d.perform_cases call.1 call.2 with ⟨unanswered, -⟩ | ⟨_, _, _, answered, -, done⟩
  · rw [step_of_none unanswered]
    exact h.1
  · rw [step_of_some answered]
    exact done.kept site p h.1

theorem Reaches.after (h : d.Reaches site p) (calls : List (Site × TableRequest)) :
    (d.after calls).Reaches site p := by
  induction calls generalizing d with
  | nil => exact h
  | cons call rest ih => exact ih (h.step call)

/-- A call leaves the tables at other places alone. -/
theorem tableAt?_step_of_ne (reached : d.Reaches site p) (other : q ≠ p)
    (request : TableRequest) : (d.step (site, request)).tableAt? q = d.tableAt? q := by
  rcases d.perform_cases site request with ⟨unanswered, -⟩ | ⟨_, _, _, answered, ⟨place, -⟩, done⟩
  · rw [step_of_none unanswered]
  · rw [step_of_some answered]
    refine done.other q fun same => other ?_
    exact same.trans (Option.some.inj (place.symm.trans reached.1))

/-- A copy of a handle stands for the same table. -/
theorem reaches_copy {h : Nat} (reached : d.Reaches (.handle h) p) :
    (d.step (.handle h, .copyHandle)).Reaches (.handle d.handles.size) p := by
  refine ⟨?_, (reached.step _).2⟩
  rcases d.perform_cases (.handle h) .copyHandle with
    ⟨-, nowhere | ⟨own, -⟩⟩ | ⟨q, _, _, answered, ⟨place, -⟩, done⟩
  · exact absurd reached (nowhere p)
  · cases own
  · obtain rfl : q = p := Option.some.inj (place.symm.trans reached.1)
    rw [step_of_some answered]
    exact done.copied rfl

/-- The reports of a run are the answers to its calls. -/
theorem getElem?_performAll (d : Directory) (past rest : List (Site × TableRequest))
    (call : Site × TableRequest) :
    (d.performAll (past ++ call :: rest))[past.length]? = some (d.answer past call) := by
  induction past generalizing d with
  | nil =>
    rw [List.nil_append, performAll, answer, after, List.foldl_nil]
    rcases d.perform call.1 call.2 with _ | ⟨report, d'⟩ <;> rfl
  | cons first others ih =>
    have later := ih (d.step first)
    rw [List.cons_append, performAll]
    rcases answered : d.perform first.1 first.2 with _ | ⟨report, d'⟩
    · rw [step_of_none answered] at later
      rw [answer, after, List.foldl_cons, step_of_none answered]
      exact later
    · rw [step_of_some answered] at later
      rw [answer, after, List.foldl_cons, step_of_some answered]
      exact later

section

variable (fresh : d.Fresh)

include fresh

/-- From a fresh directory, the texts of a table are the list. -/
theorem Fresh.eq_roll {D : List String} (h : (d.after calls).texts? p = some D) :
    D = d.roll p calls := by
  rw [texts?_after] at h
  obtain ⟨start, there, rfl⟩ := Option.map_eq_some_iff.mp h
  rw [fresh p start there]
  exact foldl_enroll [""] (d.entered p calls)

/-- A call is answered from the list. -/
theorem Fresh.answer_eq (reached : (d.after past).Reaches site p) (request : TableRequest)
    (h : site = .own → request ≠ .copyHandle) :
    d.answer past (site, request) =
      some (request.report (d.roll p (past ++ [(site, request)])) (d.after past).handles.size) := by
  rcases (d.after past).perform_cases site request with
    ⟨-, nowhere | ⟨own, isCopy⟩⟩ | ⟨q, report, d', answered, ⟨place, -⟩, done⟩
  · exact absurd reached (nowhere p)
  · exact absurd isCopy (h own)
  · obtain rfl : q = p := Option.some.inj (place.symm.trans reached.1)
    obtain ⟨t, t', -, there, -, rfl⟩ := done.table
    have next : d.after (past ++ [(site, request)]) = d' := by
      rw [after_append]
      exact step_of_some answered
    have texts : (d.after (past ++ [(site, request)])).texts? q = some t'.texts.toList := by
      rw [next, texts?, there, Option.map_some]
    rw [answer, answered, Option.map_some, fresh.eq_roll texts]

theorem Fresh.reply?_eq (reached : (d.after past).Reaches site p) (request : TableRequest)
    (h : site = .own → request ≠ .copyHandle) :
    d.reply? past (site, request) =
      some (request.reply (d.roll p (past ++ [(site, request)])) (d.after past).handles.size) := by
  rw [reply?, fresh.answer_eq reached request h]
  rfl

/-- A name reads as the text at its position; beyond the end of the list, and only there,
the table has no text for it. -/
theorem Fresh.reply?_lookup (reached : (d.after past).Reaches site p) (x : Name) :
    (∀ text, (d.roll p past)[x.index]? = some text →
      d.reply? past (site, .lookup x) = some (.text text)) ∧
    (d.reply? past (site, .lookup x) = some (.text "<unknown>") ↔
      (d.roll p past).length ≤ x.index ∨ (d.roll p past)[x.index]? = some "<unknown>") := by
  have same : d.roll p (past ++ [(site, .lookup x)]) = d.roll p past := roll_concat reached _
  rw [fresh.reply?_eq reached (.lookup x) fun _ => nofun, TableRequest.reply, same,
    ← List.getElem?_eq_none_iff]
  rcases (d.roll p past)[x.index]? with _ | text
  · simp
  · simp

/-- The name of a text reads as that text ever after, at every site that stands for the
same table, and no other text gets it. -/
theorem Fresh.reply?_of_older {D : List String} {s : String} (older : D <+: d.roll p past)
    (there : s ∈ D) (reached : (d.after past).Reaches site p) :
    d.reply? past (site, .lookup ⟨D.idxOf s⟩) = some (.text s) ∧
      ∀ s', d.reply? past (site, .intern s') = some (.name ⟨D.idxOf s⟩) ↔ s' = s := by
  have kept (request : TableRequest) :
      (d.roll p (past ++ [(site, request)])).idxOf s = D.idxOf s ∧
        s ∈ d.roll p (past ++ [(site, request)]) := by
    have longer := older.trans (d.prefix_roll_append p past [(site, request)])
    exact ⟨idxOf_eq_of_longer longer there, longer.subset there⟩
  constructor
  · obtain ⟨position, mem⟩ := kept (.lookup ⟨D.idxOf s⟩)
    have found := List.getElem?_idxOf mem
    rw [position] at found
    rw [fresh.reply?_eq reached (.lookup ⟨D.idxOf s⟩) fun _ => nofun, TableRequest.reply, found,
      Option.getD_some]
  · intro s'
    obtain ⟨position, mem⟩ := kept (.intern s')
    rw [fresh.reply?_eq reached (.intern s') fun _ => nofun, TableRequest.reply, ← position,
      Option.some.injEq, TableReply.name.injEq, Name.mk.injEq, eq_comm, List.idxOf_inj mem,
      eq_comm]

end

/-- **Every call is answered from a list of texts, for good.**  Let a directory start
without texts, let some calls be made, and let a site stand for the table at a place by
then.  Each call at the site is answered from the distinct texts that were entered at that
place so far, in the order of their first entry; a text is added only if it is
absent, and all other tables stay.  A name reads as the text at its position, and as
`<unknown>` beyond the end, or where that is the text.  A name that was given out reads as
its text after all later calls, through every site that stands for that table, and stays
the name of that text alone.  Sites keep standing for the table, and so do copies of a
handle. -/
theorem performAll_as_rolls {d : Directory} (fresh : d.Fresh)
    (past : List (Site × TableRequest)) {site : Site} {p : Place}
    (reached : (d.after past).Reaches site p) :
    (∀ call rest, (d.performAll (past ++ call :: rest))[past.length]? =
      some (d.answer past call)) ∧
    (∀ request, (site = .own → request ≠ .copyHandle) →
      d.answer past (site, request) =
        some (request.report (d.roll p (past ++ [(site, request)]))
          (d.after past).handles.size) ∧
      d.roll p (past ++ [(site, request)]) = request.entries.foldl enroll (d.roll p past) ∧
      ∀ q, q ≠ p →
        (d.after (past ++ [(site, request)])).tableAt? q = (d.after past).tableAt? q) ∧
    (∀ x,
      (∀ text, (d.roll p past)[x.index]? = some text →
        d.reply? past (site, .lookup x) = some (.text text)) ∧
      (d.reply? past (site, .lookup x) = some (.text "<unknown>") ↔
        (d.roll p past).length ≤ x.index ∨ (d.roll p past)[x.index]? = some "<unknown>")) ∧
    (∀ s, ∃ x, d.reply? past (site, .intern s) = some (.name x) ∧
      ∀ more site', (d.after (past ++ (site, .intern s) :: more)).Reaches site' p →
        d.reply? (past ++ (site, .intern s) :: more) (site', .lookup x) = some (.text s) ∧
        ∀ s', d.reply? (past ++ (site, .intern s) :: more) (site', .intern s') = some (.name x) ↔
          s' = s) ∧
    (∀ more, (d.after (past ++ more)).Reaches site p) ∧
    ∀ h, site = .handle h → ∃ copy, d.reply? past (site, .copyHandle) = some (.handle copy) ∧
      ∀ more, (d.after (past ++ (site, .copyHandle) :: more)).Reaches (.handle copy) p := by
  refine ⟨fun call rest => d.getElem?_performAll past rest call, fun request asked => ?_,
    fresh.reply?_lookup reached, fun s => ?_, fun more => ?_, ?_⟩
  · refine ⟨fresh.answer_eq reached request asked, roll_concat reached request, fun q other => ?_⟩
    rw [after_append]
    exact tableAt?_step_of_ne reached other request
  · refine ⟨_, fresh.reply?_eq reached (.intern s) fun _ => nofun, fun more site' later => ?_⟩
    have there : s ∈ d.roll p (past ++ [(site, .intern s)]) := by
      rw [roll_concat reached]
      exact mem_enroll _ s
    rw [List.append_cons] at later ⊢
    exact fresh.reply?_of_older (d.prefix_roll_append p _ more) there later
  · rw [after_append]
    exact reached.after more
  · rintro h rfl
    refine ⟨_, fresh.reply?_eq reached .copyHandle nofun, fun more => ?_⟩
    rw [List.append_cons, after_append, after_append]
    exact (reaches_copy reached).after more

/-- Two texts are entered through a handle and its copy, and one into the own table in
between.  A text that is on the list keeps its name, and one that is not gets the next. -/
theorem performAll_as_rolls_copied_handle :
    let past : List (Site × TableRequest) := [(.handle 0, .intern "x"), (.own, .intern "y"),
      (.handle 0, .copyHandle), (.handle 1, .intern "<unknown>"), (.own, .intern "x")]
    initial.Fresh ∧ (initial.after past).Reaches (.handle 1) (.shared 0) ∧
      initial.answer past (.handle 1, .intern "x") = some ⟨.name ⟨1⟩, 3, false⟩ ∧
      initial.answer past (.handle 1, .intern "y") = some ⟨.name ⟨3⟩, 4, false⟩ ∧
      initial.answer past (.handle 1, .lookup ⟨2⟩) = some ⟨.text "<unknown>", 3, false⟩ := by
  intro past
  have reached : (initial.after past).Reaches (.handle 1) (.shared 0) := ⟨rfl, rfl⟩
  obtain ⟨-, answers, -⟩ := performAll_as_rolls fresh_initial past reached
  have texts : initial.roll (.shared 0) past = ["", "x", "<unknown>"] := by decide
  have answer (request : TableRequest) :
      initial.answer past (.handle 1, request) =
        some (request.report (request.entries.foldl enroll ["", "x", "<unknown>"]) 2) := by
    obtain ⟨answered, entered, -⟩ := answers request nofun
    rw [answered, entered, texts]
    rfl
  exact ⟨fresh_initial, reached, answer (.intern "x"), answer (.intern "y"), answer (.lookup ⟨2⟩)⟩

end Directory

end TreeWalk
