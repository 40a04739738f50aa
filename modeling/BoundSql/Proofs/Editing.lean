import BoundSql.Compile
import BoundSql.Query.Edit
import Mathlib.Data.List.Induction
import Mathlib.Data.List.Perm.Basic

/-! # Edits in any order

An edit writes one part of a query, and neither what it writes nor whether it is accepted depends
on the query. A run of edits comes down to the last accepted edit of every part, and these can be
made in any order. -/

namespace BoundSql

/-! ## The parts of a query -/

/-- A part of a query that edits write. -/
inductive Query.Part where
  | action | table | join | filter | having | orderBy | groupBy | limit | offset | upsert
  deriving DecidableEq

/-- The ten parts. -/
def Query.Part.all : List Query.Part :=
  [action, table, join, filter, having, orderBy, groupBy, limit, offset, upsert]

/-- The part that an edit writes. -/
def Edit.part : Edit → Query.Part
  | select _ | update _ | insert _ _ | delete => .action
  | onTable _ => .table
  | join _ => .join
  | filter _ => .filter
  | having _ => .having
  | orderBy _ => .orderBy
  | groupBy _ => .groupBy
  | limit _ => .limit
  | offset _ => .offset
  | upsert | upsertWith _ => .upsert

namespace Query

/-- The query with one part of another query in the place of its own. -/
def withPart (q : Query) (p : Part) (source : Query) : Query :=
  match p with
  | .action => { q with action := source.action }
  | .table => { q with table := source.table }
  | .join => { q with join := source.join }
  | .filter => { q with filter := source.filter }
  | .having => { q with having := source.having }
  | .orderBy => { q with orderBy := source.orderBy }
  | .groupBy => { q with groupBy := source.groupBy }
  | .limit => { q with limit := source.limit }
  | .offset => { q with offset := source.offset }
  | .upsert => { q with upsert := source.upsert }

variable (q : Query) (p : Part) (source other : Query)

@[simp] theorem withPart_self : q.withPart p q = q := by
  cases q
  cases p <;> rfl

@[simp] theorem withPart_withPart :
    (q.withPart p source).withPart p source = q.withPart p source := by
  cases p <;> rfl

@[simp] theorem withPart_right :
    q.withPart p (other.withPart p source) = q.withPart p source := by
  cases p <;> rfl

variable {p} in
theorem withPart_comm {r : Part} (h : p ≠ r) :
    (q.withPart p source).withPart r other = (q.withPart r other).withPart p source := by
  cases p <;> cases r <;> first | rfl | exact absurd rfl h

/-- The query that has each of its parts from a query of its own. -/
def assembled (source : Part → Query) : Query where
  action := (source .action).action
  table := (source .table).table
  join := (source .join).join
  filter := (source .filter).filter
  having := (source .having).having
  orderBy := (source .orderBy).orderBy
  groupBy := (source .groupBy).groupBy
  limit := (source .limit).limit
  offset := (source .offset).offset
  upsert := (source .upsert).upsert

/-- The parts of a query make up all of it. -/
theorem assembled_eq {q : Query} {source : Part → Query}
    (h : ∀ p, q.withPart p (source p) = q) : assembled source = q := by
  cases q
  simp only [assembled, Query.mk.injEq]
  exact ⟨congrArg action (h .action), congrArg table (h .table), congrArg join (h .join),
    congrArg filter (h .filter), congrArg having (h .having), congrArg orderBy (h .orderBy),
    congrArg groupBy (h .groupBy), congrArg limit (h .limit), congrArg offset (h .offset),
    congrArg upsert (h .upsert)⟩

end Query

/-! ## One edit -/

namespace Edit

/-- What an edit writes it writes into any query, and no query makes a difference to whether it is
accepted. -/
theorem apply_eq (q : Query) (e : Edit) :
    apply q e = (apply .empty e).map fun written => q.withPart e.part written := by
  cases e with
  | insert rows mode =>
      simp only [apply]
      cases checkRows rows <;> rfl
  | filter conditions =>
      simp only [apply]
      cases conjunction "filter" conditions <;> rfl
  | having conditions =>
      simp only [apply]
      cases conjunction "having" conditions <;> rfl
  | limit count =>
      simp only [apply]
      cases rowCount "limit" count <;> rfl
  | offset count =>
      simp only [apply]
      cases rowCount "offset" count <;> rfl
  | _ => rfl

/-- An edit leaves all parts but one as they were. -/
theorem withPart_of_apply {q changed : Query} {e : Edit} (h : apply q e = .ok changed) :
    q.withPart e.part changed = changed := by
  rw [apply_eq] at h
  cases hempty : apply .empty e with
  | error cause => simp [hempty, Except.map] at h
  | ok made =>
      obtain rfl : q.withPart e.part made = changed := by simpa [hempty, Except.map] using h
      exact q.withPart_right e.part made q

/-- The edit is accepted. -/
def accepts (e : Edit) : Bool :=
  (apply .empty e).toBool

/-- The query that the edit makes of an empty one. -/
def written (e : Edit) : Query :=
  applyOrKeep .empty e

variable {e : Edit}

theorem apply_of_accepts (h : e.accepts = true) (q : Query) :
    apply q e = .ok (q.withPart e.part e.written) := by
  rw [apply_eq, written, applyOrKeep]
  cases hempty : apply .empty e with
  | error cause => simp [accepts, hempty, Except.toBool] at h
  | ok made => rfl

theorem apply_of_not_accepts (h : e.accepts = false) (q : Query) :
    ∃ cause, apply q e = .error cause := by
  rw [apply_eq]
  cases hempty : apply .empty e with
  | error cause => exact ⟨cause, rfl⟩
  | ok made => simp [accepts, hempty, Except.toBool] at h

theorem applyOrKeep_of_accepts (h : e.accepts = true) (q : Query) :
    applyOrKeep q e = q.withPart e.part e.written := by
  rw [applyOrKeep, apply_of_accepts h]

theorem applyOrKeep_of_not_accepts (h : e.accepts = false) (q : Query) : applyOrKeep q e = q := by
  obtain ⟨cause, hcause⟩ := apply_of_not_accepts h q
  rw [applyOrKeep, hcause]

/-- The last edit that writes a part. -/
def lastOn (p : Query.Part) (edits : List Edit) : Option Edit :=
  (edits.filter fun e => e.part = p).getLast?

theorem lastOn_append_singleton (p : Query.Part) (edits : List Edit) (e : Edit) :
    lastOn p (edits ++ [e]) = if e.part = p then some e else lastOn p edits := by
  by_cases h : e.part = p <;> simp [lastOn, List.filter_append, h]

end Edit

/-! ## Runs of edits -/

/-- The steps of a run that are accepted where they stand. A step that is refused leaves the query
as it was. -/
def acceptedSteps {α : Type} (apply : Query → α → Except QueryError Query) (q : Query) :
    List α → List α
  | [] => []
  | step :: rest =>
    match apply q step with
    | .ok changed => step :: acceptedSteps apply changed rest
    | .error _ => acceptedSteps apply q rest

namespace Query

variable (q : Query) {edits others kept : List Edit}

theorem acceptedSteps_eq_filter (edits : List Edit) :
    acceptedSteps Edit.apply q edits = edits.filter Edit.accepts := by
  induction edits generalizing q with
  | nil => rfl
  | cons e rest ih =>
      cases h : e.accepts with
      | true =>
          rw [acceptedSteps, Edit.apply_of_accepts h, List.filter_cons_of_pos h]
          exact congrArg (e :: ·) (ih _)
      | false =>
          obtain ⟨cause, hcause⟩ := Edit.apply_of_not_accepts h q
          rw [acceptedSteps, hcause, List.filter_cons_of_neg (by simp [h])]
          exact ih q

/-- The edits that are refused can be left out. -/
theorem edited_filter_accepts (edits : List Edit) :
    q.edited (edits.filter Edit.accepts) = q.edited edits := by
  induction edits generalizing q with
  | nil => rfl
  | cons e rest ih =>
      cases h : e.accepts with
      | true =>
          rw [List.filter_cons_of_pos h]
          exact ih _
      | false =>
          have hkept : q.edited (e :: rest) = q.edited rest :=
            congrArg (·.edited rest) (Edit.applyOrKeep_of_not_accepts h q)
          rw [List.filter_cons_of_neg (by simp [h]), hkept, ih]

/-- A part of an edited query is what the last edit of this part has written. -/
theorem withPart_edited (h : ∀ e ∈ edits, e.accepts = true) (p : Part) :
    (q.edited edits).withPart p (((Edit.lastOn p edits).map Edit.written).getD q) =
      q.edited edits := by
  induction edits using List.reverseRecOn with
  | nil => exact q.withPart_self p
  | append_singleton edits e ih =>
      obtain ⟨hedits, he⟩ := List.forall_mem_append.mp h
      have hlast : q.edited (edits ++ [e]) = (q.edited edits).withPart e.part e.written := by
        rw [edited, List.foldl_append]
        exact Edit.applyOrKeep_of_accepts (he e List.mem_cons_self) _
      rw [hlast, Edit.lastOn_append_singleton]
      by_cases hpart : e.part = p
      · subst hpart
        simp
      · rw [if_neg hpart, withPart_comm _ _ _ hpart, ih hedits]

/-- Accepted edits that agree on the last one of every part give the same query. -/
theorem edited_eq_of_lastOn (hedits : ∀ e ∈ edits, e.accepts = true)
    (hothers : ∀ e ∈ others, e.accepts = true)
    (h : ∀ p, Edit.lastOn p others = Edit.lastOn p edits) : q.edited others = q.edited edits := by
  have hparts := q.withPart_edited hothers
  simp only [h] at hparts
  rw [← assembled_eq hparts, ← assembled_eq (q.withPart_edited hedits)]

/-- Accepted edits can be made one after the other. -/
theorem foldlM_apply (h : ∀ e ∈ edits, e.accepts = true) :
    edits.foldlM Edit.apply q = .ok (q.edited edits) := by
  induction edits generalizing q with
  | nil => rfl
  | cons e rest ih =>
      obtain ⟨he, hrest⟩ := List.forall_mem_cons.mp h
      have hfirst : q.edited (e :: rest) = (q.withPart e.part e.written).edited rest :=
        congrArg (·.edited rest) (Edit.applyOrKeep_of_accepts he q)
      rw [List.foldlM_cons, Edit.apply_of_accepts he, hfirst]
      exact ih _ hrest

end Query

namespace Edit

variable {edits kept : List Edit}

/-- The last edit of every part that is written at all. -/
def lastOnes (edits : List Edit) : List Edit :=
  Query.Part.all.filterMap fun p => lastOn p edits

theorem part_of_lastOn {p : Query.Part} {e : Edit} (h : lastOn p edits = some e) : e.part = p := by
  have hmem := List.mem_of_getLast? h
  simpa using (List.mem_filter.mp hmem).2

theorem mem_of_mem_lastOnes {e : Edit} (h : e ∈ lastOnes edits) : e ∈ edits := by
  obtain ⟨p, -, hlast⟩ := List.mem_filterMap.mp h
  exact (List.mem_filter.mp (List.mem_of_getLast? hlast)).1

theorem filter_filterMap_lastOn (p : Query.Part) {parts : List Query.Part} (h : parts.Nodup) :
    (parts.filterMap fun r => lastOn r edits).filter (fun e => e.part = p) =
      if p ∈ parts then (lastOn p edits).toList else [] := by
  induction parts with
  | nil => rfl
  | cons r rest ih =>
      obtain ⟨hr, hrest⟩ := List.nodup_cons.mp h
      rw [List.filterMap_cons]
      cases hlast : lastOn r edits with
      | none =>
          by_cases hrp : p = r
          · subst hrp
            simp [ih hrest, hr, hlast]
          · simp [ih hrest, hrp]
      | some e =>
          have hpart := part_of_lastOn hlast
          by_cases hrp : p = r
          · subst hrp
            simp [ih hrest, hr, hlast, hpart]
          · have hne : e.part ≠ p := fun he => hrp (he.symm.trans hpart)
            simp [ih hrest, hrp, hne]

/-- Among the last edits there is one for each part at most. -/
theorem lastOn_of_perm (h : kept.Perm (lastOnes edits)) (p : Query.Part) :
    lastOn p kept = lastOn p edits := by
  have hmem : p ∈ Query.Part.all := by cases p <;> decide
  have hone := h.filter fun e => e.part = p
  rw [lastOnes, filter_filterMap_lastOn p (by decide), if_pos hmem] at hone
  cases hlast : lastOn p edits with
  | none =>
      rw [hlast] at hone
      rw [lastOn, hone.eq_nil]
      rfl
  | some e =>
      rw [hlast] at hone
      rw [lastOn, List.perm_singleton.mp hone]
      rfl

end Edit

/-- An accepted edit changes its own part only. A run of edits gives what the last accepted edits of
all parts give in any order, all of which are accepted again. Runs that agree on these give the same
statement or the same error in every dialect. -/
theorem Query.foldlM_apply_lastOnes (q : Query) (edits : List Edit) :
    (∀ e changed, Edit.apply q e = .ok changed → q.withPart e.part changed = changed) ∧
    (∀ kept : List Edit, kept.Perm (Edit.lastOnes (acceptedSteps Edit.apply q edits)) →
      kept.foldlM Edit.apply q = .ok (q.edited edits)) ∧
    ∀ others : List Edit,
      (∀ p, Edit.lastOn p (acceptedSteps Edit.apply q others) =
        Edit.lastOn p (acceptedSteps Edit.apply q edits)) →
      q.edited others = q.edited edits ∧
        ∀ d : Dialect, (q.edited others).toSql d = (q.edited edits).toSql d := by
  have haccepted (steps : List Edit) : ∀ e ∈ steps.filter Edit.accepts, e.accepts = true :=
    fun e he => (List.mem_filter.mp he).2
  simp only [acceptedSteps_eq_filter]
  refine ⟨fun e changed h => Edit.withPart_of_apply h, fun kept hkept => ?_,
    fun others hlast => ?_⟩
  · have hall : ∀ e ∈ kept, e.accepts = true := fun e he =>
      haccepted edits e (Edit.mem_of_mem_lastOnes (hkept.mem_iff.mp he))
    have hsame := q.edited_eq_of_lastOn (haccepted edits) hall (Edit.lastOn_of_perm hkept)
    rw [q.foldlM_apply hall, hsame, q.edited_filter_accepts]
  · have hsame := q.edited_eq_of_lastOn (haccepted edits) (haccepted others) hlast
    rw [q.edited_filter_accepts, q.edited_filter_accepts] at hsame
    exact ⟨hsame, fun d => by rw [hsame]⟩

end BoundSql
