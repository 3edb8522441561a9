import JavaTypes.MemoCell
import Mathlib.Data.List.Chain

/-!
Histories of a cell. A program that looks at a cell and fetches from it, with suppliers that do the
same, leaves a history: each look, the beginning of each call, and the end of each supplier that was
run. The cell goes through the history from event to event, and only the first value that a supplier
comes back with changes it.
-/
namespace JavaTypes

variable {ε α : Type}

namespace MemoCell

/-- What happens to a cell: a look at it, a call with a supplier, the result of a supplier. -/
inductive Event (ε α : Type) where
  | look
  | call (supplier : Supplier ε α)
  | supplied (supplier : Supplier ε α) (result : Except ε α)

structure Moment (ε α : Type) where
  cell : MemoCell α
  event : Event ε α

namespace Moment

def offered? (m : Moment ε α) : Option α :=
  match m.event with
  | .supplied _ result => result.toOption
  | _ => none

def after (m : Moment ε α) : MemoCell α := ⟨m.cell.value?.or m.offered?⟩

def ran? (m : Moment ε α) : Option (Supplier ε α) :=
  match m.event with
  | .supplied s _ => some s
  | _ => none

def needed? (m : Moment ε α) : Option (Supplier ε α) :=
  match m.event with
  | .call s => if m.cell.value?.isNone then some s else none
  | _ => none

theorem after_eq_cell {m : Moment ε α} (none : m.offered? = none) : m.after = m.cell := by
  rw [after, none, Option.or_none]

end Moment

end MemoCell

open MemoCell

namespace Fetched

theorem store_cell (f : Fetched ε α) : f.store.cell = ⟨f.cell.value?.or f.result.toOption⟩ := by
  obtain ⟨result, ⟨value?⟩, runs⟩ := f
  cases result <;> cases value? <;> rfl

theorem store_runs (f : Fetched ε α) : f.store.runs = f.runs + 1 := by
  rw [store]
  split <;> rfl

theorem store_result_of_ok {f : Fetched ε α} {v : α} (ok : f.result = .ok v) :
    f.store.result = .ok (f.cell.value?.getD v) := by
  rw [store, ok]

theorem store_result_of_error {f : Fetched ε α} {e : ε} (failed : f.result = .error e) :
    f.store.result = .error e := by
  rw [store, failed]

end Fetched

theorem MemoCell.fetch_none (s : Supplier ε α) : fetch ⟨none⟩ s = (s.run ⟨none⟩).store := rfl

namespace Supplier

/-- Runs a supplier and records what happens to the cell. -/
def record : Supplier ε α → MemoCell α → Fetched ε α × List (Moment ε α)
  | .done result, cell => ({ result, cell, runs := 0 }, [])
  | .look next, cell =>
    let rest := (next cell.value?).record cell
    (rest.1, ⟨cell, .look⟩ :: rest.2)
  | .fetch inner next, cell =>
    match cell.value? with
    | some v =>
      let rest := (next (.ok v)).record cell
      (rest.1, ⟨cell, .call inner⟩ :: rest.2)
    | none =>
      let within := inner.record cell
      let first := within.1.store
      let rest := (next first.result).record first.cell
      ({ rest.1 with runs := first.runs + rest.1.runs },
        ⟨cell, .call inner⟩ ::
          (within.2 ++ ⟨within.1.cell, .supplied inner within.1.result⟩ :: rest.2))

def history (s : Supplier ε α) (cell : MemoCell α) : List (Moment ε α) := (s.record cell).2

/-- The moment at which a supplier that is run for a call on an unset cell comes to its end. -/
def ending (s : Supplier ε α) : Moment ε α :=
  ⟨(s.run ⟨none⟩).cell, .supplied s (s.run ⟨none⟩).result⟩

/-- Recording changes nothing. -/
theorem record_fst (s : Supplier ε α) (cell : MemoCell α) : (s.record cell).1 = s.run cell := by
  induction s generalizing cell with
  | done result => rfl
  | look next ih => exact ih _ cell
  | fetch inner next ihInner ih =>
    obtain ⟨_ | v⟩ := cell
    · simp only [record, run, ihInner, ih]
    · exact ih _ _

section equations

variable (inner : Supplier ε α) (next : Except ε α → Supplier ε α)

@[simp] theorem history_done (result : Except ε α) (cell : MemoCell α) :
    (done result).history cell = [] := rfl

@[simp] theorem history_look (next : Option α → Supplier ε α) (cell : MemoCell α) :
    (look next).history cell = ⟨cell, .look⟩ :: (next cell.value?).history cell := rfl

@[simp] theorem history_fetch_some (v : α) : (fetch inner next).history ⟨some v⟩ =
    ⟨⟨some v⟩, .call inner⟩ :: (next (.ok v)).history ⟨some v⟩ := rfl

@[simp] theorem history_fetch_none : (fetch inner next).history ⟨none⟩ =
    ⟨⟨none⟩, .call inner⟩ :: (inner.history ⟨none⟩ ++ inner.ending ::
      (next (MemoCell.fetch ⟨none⟩ inner).result).history (MemoCell.fetch ⟨none⟩ inner).cell) := by
  simp only [history, record, record_fst]
  rfl

/-- After a call a program goes on with the answer and with the cell as the call leaves it. -/
theorem runs_run_fetch : ((fetch inner next).run ⟨none⟩).runs =
    (MemoCell.fetch ⟨none⟩ inner).runs +
      ((next (MemoCell.fetch ⟨none⟩ inner).result).run (MemoCell.fetch ⟨none⟩ inner).cell).runs := rfl

@[simp] theorem after_ending : inner.ending.after = (MemoCell.fetch ⟨none⟩ inner).cell :=
  (inner.run ⟨none⟩).store_cell.symm

theorem ran?_ending : inner.ending.ran? = some inner := rfl

theorem needed?_ending : inner.ending.needed? = none := rfl

theorem needed?_call : (⟨⟨none⟩, .call inner⟩ : Moment ε α).needed? = some inner := rfl

end equations

end Supplier

namespace MemoCell

/-- Events follow each other: each finds the cell as the one before left it. -/
def Leads : MemoCell α → List (Moment ε α) → MemoCell α → Prop
  | start, [], finish => finish = start
  | start, m :: rest, finish => m.cell = start ∧ Leads m.after rest finish

theorem leads_append {before later : List (Moment ε α)} {start finish : MemoCell α} :
    Leads start (before ++ later) finish ↔
      ∃ between, Leads start before between ∧ Leads between later finish := by
  induction before generalizing start with
  | nil => simp [Leads]
  | cons m rest ih => simp [Leads, ih, and_assoc]

theorem leads_history (s : Supplier ε α) (cell : MemoCell α) :
    Leads cell (s.history cell) (s.run cell).cell := by
  induction s generalizing cell with
  | done result => rfl
  | look next ih => exact ⟨rfl, by rw [Moment.after_eq_cell rfl]; exact ih _ cell⟩
  | fetch inner next ihInner ih =>
    obtain ⟨_ | v⟩ := cell
    · rw [Supplier.history_fetch_none]
      refine ⟨rfl, leads_append.2 ⟨_, ihInner _, rfl, ?_⟩⟩
      rw [Supplier.after_ending]
      exact ih _ _
    · exact ⟨rfl, ih _ _⟩

namespace Leads

variable {start finish : MemoCell α} {moments : List (Moment ε α)}
  (leads : Leads start moments finish)

include leads

/-- In the end an unset cell holds the first value that a supplier came back with. -/
theorem value?_eq : finish.value? = start.value?.or (moments.findSome? Moment.offered?) := by
  induction moments generalizing start with
  | nil =>
    cases leads
    simp
  | cons m rest ih =>
    obtain ⟨rfl, leads⟩ := leads
    rw [ih leads, Moment.after, List.findSome?_cons, Option.or_assoc]
    cases m.offered? <;> rfl

theorem held {v : α} (holds : start.value? = some v) :
    (∀ m ∈ moments, m.cell.value? = some v) ∧ finish.value? = some v := by
  induction moments generalizing start with
  | nil =>
    cases leads
    exact ⟨nofun, holds⟩
  | cons m rest ih =>
    obtain ⟨rfl, leads⟩ := leads
    obtain ⟨each, last⟩ := ih leads (by simp [Moment.after, holds])
    exact ⟨List.forall_mem_cons.2 ⟨holds, each⟩, last⟩

/-- What an event leaves in the cell is found by all later ones, and in the end. -/
theorem kept : moments.Pairwise (fun m later =>
      ∀ v, m.after.value? = some v → later.cell.value? = some v) ∧
    ∀ m ∈ moments, ∀ v, m.after.value? = some v → finish.value? = some v := by
  induction moments generalizing start with
  | nil => exact ⟨.nil, nofun⟩
  | cons m rest ih =>
    obtain ⟨-, leads⟩ := leads
    obtain ⟨ordered, last⟩ := ih leads
    exact ⟨.cons (fun later inside v holds => (leads.held holds).1 later inside) ordered,
      List.forall_mem_cons.2 ⟨fun v holds => (leads.held holds).2, last⟩⟩

end Leads

end MemoCell

namespace Supplier

/-- Each supplier that is run was run for a call that found the cell unset, and each such call runs
its supplier: the same suppliers, each as many times. -/
theorem ran_perm_needed (s : Supplier ε α) (cell : MemoCell α) :
    ((s.history cell).filterMap Moment.ran?).Perm ((s.history cell).filterMap Moment.needed?) := by
  induction s generalizing cell with
  | done result => exact .nil
  | look next ih => exact ih _ cell
  | fetch inner next ihInner ih =>
    obtain ⟨_ | v⟩ := cell
    · rw [history_fetch_none, List.filterMap_cons_none rfl, List.filterMap_append,
        List.filterMap_cons_some inner.ran?_ending, List.filterMap_cons_some inner.needed?_call,
        List.filterMap_append, List.filterMap_cons_none inner.needed?_ending]
      exact List.perm_middle.trans (.cons inner ((ihInner _).append (ih _ _)))
    · exact ih _ _

/-- The number that a run gives is that of the suppliers that were run. -/
theorem length_ran (s : Supplier ε α) (cell : MemoCell α) :
    ((s.history cell).filterMap Moment.ran?).length = (s.run cell).runs := by
  induction s generalizing cell with
  | done result => rfl
  | look next ih => exact ih _ cell
  | fetch inner next ihInner ih =>
    obtain ⟨_ | v⟩ := cell
    · rw [history_fetch_none, List.filterMap_cons_none rfl, List.filterMap_append,
        List.filterMap_cons_some inner.ran?_ending, List.length_append, List.length_cons, ihInner,
        ih, runs_run_fetch, MemoCell.fetch_none, Fetched.store_runs]
      omega
    · exact ih _ _

/-- Where a supplier comes to its end, it was run for a call on an unset cell. -/
theorem eq_ending {s : Supplier ε α} {cell : MemoCell α} {m : Moment ε α}
    (member : m ∈ s.history cell) {ran : Supplier ε α} (end_ : m.ran? = some ran) :
    m = ran.ending := by
  induction s generalizing cell with
  | done result => cases member
  | look next ih =>
    rcases List.mem_cons.1 member with rfl | later
    · cases end_
    · exact ih _ later
  | fetch inner next ihInner ih =>
    obtain ⟨_ | v⟩ := cell
    · rw [history_fetch_none] at member
      rcases List.mem_cons.1 member with rfl | member
      · cases end_
      rcases List.mem_append.1 member with inside | member
      · exact ihInner inside
      rcases List.mem_cons.1 member with rfl | later
      · cases end_
        rfl
      · exact ih _ later
    · rcases List.mem_cons.1 member with rfl | later
      · cases end_
      · exact ih _ later

/-- A call on an unset cell goes on with the history of its supplier, up to its end. -/
theorem history_of_call {s : Supplier ε α} {cell : MemoCell α} {before later : List (Moment ε α)}
    {called : Supplier ε α} (split : s.history cell = before ++ ⟨⟨none⟩, .call called⟩ :: later) :
    ∃ rest, later = called.history ⟨none⟩ ++ called.ending :: rest := by
  induction s generalizing cell before later with
  | done result => simp at split
  | look next ih =>
    cases before with
    | nil => cases split
    | cons m before => exact ih _ (List.cons.inj split).2
  | fetch inner next ihInner ih =>
    obtain ⟨_ | v⟩ := cell
    · rw [history_fetch_none] at split
      cases before with
      | nil =>
        cases split
        exact ⟨_, rfl⟩
      | cons m before =>
        -- The call is made after the end of the supplier, or while it runs.
        rcases List.append_eq_append_iff.1 (List.cons.inj split).2 with
          ⟨between, -, same⟩ | ⟨between, inside, same⟩
        · cases between with
          | nil => cases congrArg Moment.event (List.cons.inj same).1
          | cons m between => exact ih _ (List.cons.inj same).2
        · cases between with
          | nil => cases congrArg Moment.event (List.cons.inj same).1
          | cons m between =>
            obtain ⟨rfl, rfl⟩ := List.cons.inj same
            obtain ⟨rest, rfl⟩ := ihInner inside
            exact ⟨_, List.append_assoc ..⟩
    · cases before with
      | nil => cases split
      | cons m before => exact ih _ (List.cons.inj split).2

section called

variable {program : Supplier ε α} {start : MemoCell α} {called : Supplier ε α}
  (member : ⟨⟨none⟩, .call called⟩ ∈ program.history start)

include member

theorem history_subset_of_call : called.history ⟨none⟩ ⊆ program.history start := by
  obtain ⟨before, later, split⟩ := List.append_of_mem member
  obtain ⟨rest, rfl⟩ := history_of_call split
  intro m inside
  simp [split, inside]

theorem ending_mem_of_call : called.ending ∈ program.history start := by
  obtain ⟨before, later, split⟩ := List.append_of_mem member
  obtain ⟨rest, rfl⟩ := history_of_call split
  simp [split]

end called

end Supplier

namespace MemoCell

/-- What a call succeeds with is in the cell when the call ends. -/
theorem value?_fetch {cell : MemoCell α} {s : Supplier ε α} {v : α}
    (answered : (cell.fetch s).result = .ok v) : (cell.fetch s).cell.value? = some v := by
  obtain ⟨_ | w⟩ := cell
  · rw [fetch_none] at answered ⊢
    cases own : (s.run ⟨none⟩).result with
    | error e =>
      rw [Fetched.store_result_of_error own] at answered
      cases answered
    | ok w =>
      rw [Fetched.store_result_of_ok own] at answered
      cases answered
      rw [Fetched.store_cell, own]
      cases (s.run ⟨none⟩).cell.value? <;> rfl
  · cases answered
    rfl

end MemoCell

namespace Supplier

theorem value?_of_call {program : Supplier ε α} {start : MemoCell α} {m : Moment ε α}
    (member : m ∈ program.history start) {called : Supplier ε α} (call : m.event = .call called)
    {v : α} (answered : (m.cell.fetch called).result = .ok v) :
    (program.run start).cell.value? = some v := by
  have kept := (leads_history program start).kept.2
  obtain ⟨⟨_ | w⟩, event⟩ := m
  · cases call
    refine kept _ (ending_mem_of_call member) v ?_
    rw [after_ending]
    exact value?_fetch answered
  · cases call
    cases answered
    exact kept _ member v rfl

theorem mem_of_needed {s ran : Supplier ε α} {cell : MemoCell α}
    (needed : ran ∈ (s.history cell).filterMap Moment.needed?) :
    ⟨⟨none⟩, .call ran⟩ ∈ s.history cell := by
  obtain ⟨⟨⟨_ | v⟩, event⟩, member, call⟩ := List.mem_filterMap.1 needed
  · cases event <;> cases call
    exact member
  · cases event <;> cases call

/-- A call on an unset cell succeeds if its supplier does, with what was stored first. -/
theorem fetch_of_run {s : Supplier ε α} {own : α} (ok : (s.run ⟨none⟩).result = .ok own) :
    (MemoCell.fetch ⟨none⟩ s).result =
      .ok (((s.history ⟨none⟩).findSome? Moment.offered?).getD own) := by
  rw [MemoCell.fetch_none, Fetched.store_result_of_ok ok, (leads_history s ⟨none⟩).value?_eq,
    Option.none_or]

theorem value?_run_eq_none_iff (s : Supplier ε α) : (s.run ⟨none⟩).cell.value? = none ↔
    ∀ m ∈ s.history ⟨none⟩, ∀ called, m.event = .call called →
      ∃ e, (m.cell.fetch called).result = .error e := by
  constructor
  · intro unset m member called call
    cases answered : (m.cell.fetch called).result with
    | error e => exact ⟨e, rfl⟩
    | ok v =>
      rw [value?_of_call member call answered] at unset
      cases unset
  · intro failed
    rw [(leads_history s ⟨none⟩).value?_eq, Option.none_or, List.findSome?_eq_none_iff]
    rintro ⟨cell, event⟩ member
    cases event with
    | look => rfl
    | call => rfl
    | supplied ran result =>
      -- The supplier was run for a call, which failed, so the supplier did.
      have called : ⟨⟨none⟩, .call ran⟩ ∈ s.history ⟨none⟩ := mem_of_needed
        ((ran_perm_needed s ⟨none⟩).mem_iff.1 (List.mem_filterMap.2 ⟨_, member, rfl⟩))
      rw [eq_ending member rfl]
      cases own : (ran.run ⟨none⟩).result with
      | error e => exact congrArg Except.toOption own
      | ok v =>
        obtain ⟨e, failed⟩ := failed _ called ran rfl
        rw [fetch_of_run own] at failed
        cases failed

end Supplier

/-- What comes of a call. -/
structure MemoCell.Answers (cell : MemoCell α) (supplier : Supplier ε α) : Prop where
  held : ∀ v, cell.value? = some v → cell.fetch supplier = { result := .ok v, cell, runs := 0 }
  /-- The supplier is run once, besides the suppliers it is the reason for. -/
  once : cell.value? = none → (cell.fetch supplier).runs = 1 + (supplier.run cell).runs
  stored : ∀ v, (cell.fetch supplier).result = .ok v → (cell.fetch supplier).cell.value? = some v
  /-- The first value that a supplier comes back with is the answer, so the value of the call's own
  supplier comes last. -/
  first : cell.value? = none → ∀ own, (supplier.run cell).result = .ok own →
    (cell.fetch supplier).result =
      .ok (((supplier.history cell).findSome? Moment.offered?).getD own)
  /-- A failure is that of the supplier that was run, and stores nothing. -/
  failed : ∀ e, (cell.fetch supplier).result = .error e →
    cell.value? = none ∧ (supplier.run cell).result = .error e ∧
      ((cell.fetch supplier).cell.value? = none ↔ ∀ m ∈ supplier.history cell, ∀ called,
        m.event = .call called → ∃ e, (m.cell.fetch called).result = .error e)

theorem MemoCell.answers (cell : MemoCell α) (s : Supplier ε α) : cell.Answers s := by
  obtain ⟨_ | v⟩ := cell
  · constructor
    case held => nofun
    case once =>
      intro
      rw [fetch_none, Fetched.store_runs, Nat.add_comm]
    case stored => exact fun v => value?_fetch
    case first => exact fun _ own => Supplier.fetch_of_run
    case failed =>
      intro e answered
      cases own : (s.run ⟨none⟩).result with
      | ok w =>
        rw [Supplier.fetch_of_run own] at answered
        cases answered
      | error e' =>
        rw [fetch_none, Fetched.store_result_of_error own] at answered
        cases answered
        refine ⟨rfl, rfl, ?_⟩
        rw [fetch_none, Fetched.store_cell, own, Except.toOption, Option.or_none,
          Supplier.value?_run_eq_none_iff]
  · constructor
    case held =>
      intro w holds
      cases holds
      rfl
    case once => nofun
    case stored => exact fun w => value?_fetch
    case first => nofun
    case failed => nofun

/-- A supplier calls with another one on an unset cell, and succeeds whenever that call does. -/
def Supplier.Nests (outer inner : Supplier ε α) : Prop :=
  ⟨⟨none⟩, .call inner⟩ ∈ outer.history ⟨none⟩ ∧
    ((∃ v, (MemoCell.fetch ⟨none⟩ inner).result = .ok v) → ∃ v, (outer.run ⟨none⟩).result = .ok v)

namespace Supplier

/-- All calls of a chain are answered like the innermost one. -/
theorem result_of_chain {innermost : Supplier ε α} {v : α}
    (own : (innermost.run ⟨none⟩).result = .ok v)
    (alone : (innermost.run ⟨none⟩).cell.value? = none) {outer : List (Supplier ε α)}
    (nested : (outer ++ [innermost]).IsChain Nests) {s : Supplier ε α}
    (member : s ∈ outer ++ [innermost]) : (MemoCell.fetch ⟨none⟩ s).result = .ok v := by
  induction outer generalizing s with
  | nil =>
    cases List.mem_singleton.1 member
    rw [MemoCell.fetch_none, Fetched.store_result_of_ok own, alone, Option.getD_none]
  | cons first rest ih =>
    obtain ⟨nests, tail⟩ := List.isChain_cons.1 nested
    rcases List.mem_cons.1 member with rfl | later
    · obtain ⟨second, next⟩ : ∃ b, (rest ++ [innermost]).head? = some b := by
        cases rest <;> exact ⟨_, rfl⟩
      obtain ⟨called, succeeds⟩ := nests second next
      -- The value of the call inside is in the cell when the supplier comes back with its own.
      have answered := ih tail (List.mem_of_mem_head? next)
      obtain ⟨w, ok⟩ := succeeds ⟨v, answered⟩
      rw [MemoCell.fetch_none, Fetched.store_result_of_ok ok, value?_of_call called rfl answered,
        Option.getD_some]
    · exact ih tail later

/-- All calls of a chain are made by a program that makes the first of them. -/
theorem mem_of_chain {program : Supplier ε α} {start : MemoCell α} {calls : List (Supplier ε α)}
    (first : ∀ s ∈ calls.head?, ⟨⟨none⟩, .call s⟩ ∈ program.history start)
    (nested : calls.IsChain Nests) : ∀ s ∈ calls, ⟨⟨none⟩, .call s⟩ ∈ program.history start := by
  induction calls with
  | nil => nofun
  | cons s rest ih =>
    obtain ⟨nests, tail⟩ := List.isChain_cons.1 nested
    have made := first s rfl
    refine List.forall_mem_cons.2 ⟨made, ih (fun second next => ?_) tail⟩
    exact history_subset_of_call made (nests second next).1

/-- What is true of a cell throughout a program. -/
structure Remembers (program : Supplier ε α) (start : MemoCell α) : Prop where
  recorded : program.record start = (program.run start, program.history start)
  path : Leads start (program.history start) (program.run start).cell
  /-- A value stays, and all later calls are answered with it. -/
  kept : (program.history start).Pairwise fun m later => ∀ v, m.after.value? = some v →
    later.cell.value? = some v ∧ ∀ s, later.event = .call s →
      later.cell.fetch s = { result := .ok v, cell := later.cell, runs := 0 }
  last : ∀ m ∈ program.history start, ∀ v, m.after.value? = some v →
    (program.run start).cell.value? = some v
  calls : ∀ m ∈ program.history start, ∀ s, m.event = .call s → m.cell.Answers s
  /-- A call on an unset cell runs its supplier to its end, and no other call runs one. -/
  follows : ∀ before later s, program.history start = before ++ ⟨⟨none⟩, .call s⟩ :: later →
    ∃ rest, later = s.history ⟨none⟩ ++ s.ending :: rest
  ran : ((program.history start).filterMap Moment.ran?).Perm
    ((program.history start).filterMap Moment.needed?)
  runs : ((program.history start).filterMap Moment.ran?).length = (program.run start).runs
  /-- Of calls inside each other, with an innermost one whose supplier succeeds on its own, all are
  answered with its value. -/
  nested : ∀ outer innermost v, (outer ++ [innermost]).IsChain Nests →
    (∀ s ∈ (outer ++ [innermost]).head?, ⟨⟨none⟩, .call s⟩ ∈ program.history start) →
    (innermost.run ⟨none⟩).result = .ok v → (innermost.run ⟨none⟩).cell.value? = none →
    ∀ s ∈ outer ++ [innermost], ⟨⟨none⟩, .call s⟩ ∈ program.history start ∧
      (MemoCell.fetch ⟨none⟩ s).result = .ok v

/-- However calls on a cell are nested in each other, the value that is stored first stays, and
failures store nothing. -/
theorem remembers (program : Supplier ε α) (start : MemoCell α) : program.Remembers start := by
  have path := leads_history program start
  constructor
  case recorded => exact Prod.ext (program.record_fst start) rfl
  case path => exact path
  case kept =>
    refine path.kept.1.imp fun {m later} kept v holds => ?_
    exact ⟨kept v holds, fun s _ => (later.cell.answers s).held v (kept v holds)⟩
  case last => exact path.kept.2
  case calls => exact fun m _ s _ => m.cell.answers s
  case follows => exact fun before later s => history_of_call
  case ran => exact program.ran_perm_needed start
  case runs => exact program.length_ran start
  case nested =>
    intro outer innermost v nested first own alone s member
    exact ⟨mem_of_chain first nested s member, result_of_chain own alone nested member⟩

/-- The outer suppliers come back with 2 and 3 when 1 is stored already. -/
example : (MemoCell.fetch ⟨none⟩ (nested (· + 1) (nested (· + 1)
    (done (.ok 1 : Except String Nat))))).result = .ok 1 := rfl

end Supplier

end JavaTypes
