import BoundSql.Proofs.Lowering.Alike

/-! # Alike queries are lowered alike

Whatever words, aliases and values go together: from positions of the supply that go together,
alike queries fail with the same error, or they are lowered to alike pieces and leave the supply at
positions that go together. -/

namespace BoundSql

variable {l : Likeness} {v w : Vocabulary} {s t : Scope}

namespace Statement

open Piece (bracketed separated)

/-! ## Values -/

theorem slots_alike {xs ys : List Value} (h : List.Forall₂ l.values xs ys) :
    List.Forall₂ (Piece.Alike l) (xs.map fun x => [.slot x]) (ys.map fun y => [.slot y]) :=
  List.rel_map (fun _ _ hvalue => .slot hvalue) h

theorem countClause_alike {word : String} {n m : Option Int64} (h : CountsAlike l.values n m) :
    Piece.Alike l (countClause word n) (countClause word m) := by
  cases h with
  | none => exact .nil
  | some h => exact .keyword word (.slot h)

/-- Assignments of alike rows to columns that go together. -/
theorem assignments_alike {row row' : Row} (h : row.Alike l.values row')
    {column column' : String → Piece}
    (hcolumn : ∀ name, Piece.Alike l [column name] [column' name]) :
    Piece.Alike l
      (separated ", " (row.entries.map fun (name, value) => assignment (column name) value))
      (separated ", " (row'.entries.map fun (name, value) => assignment (column' name) value)) := by
  refine .listed (List.rel_map ?_ h)
  rintro ⟨name, value⟩ ⟨name', value'⟩ ⟨hname, hvalue⟩
  obtain rfl : name' = name := hname
  exact .cons (hcolumn name') (.keyword "=" (.slot hvalue))

theorem cells_alike {row row' : Row} (h : row.Alike l.values row') (columns : List String) :
    Agrees (List.Forall₂ (Piece.Alike l)) (cells row columns) (cells row' columns) := by
  induction columns with
  | nil => exact .ok .nil
  | cons column rest ih =>
      have hget := h.get? column
      rw [cells, cells]
      generalize row.get? column = found at hget
      generalize row'.get? column = found' at hget
      cases hget with
      | none => exact .error _
      | some hvalue => exact ih.bind fun hparts => .ok (.cons (.slot hvalue) hparts)

theorem tuples_alike {rows rows' : List Row} (h : List.Forall₂ (Row.Alike l.values) rows rows')
    (columns : List String) :
    Agrees (List.Forall₂ (Piece.Alike l)) (tuples columns rows) (tuples columns rows') := by
  induction h with
  | nil => exact .ok .nil
  | cons hrow hrest ih =>
      refine (cells_alike hrow columns).bind fun hparts => ?_
      exact ih.bind fun hothers => .ok (.cons (Piece.Alike.listed hparts).bracketed hothers)

theorem findIdx?_differs_alike {first first' : Row} (hfirst : first.Alike l.values first')
    {rows rows' : List Row} (h : List.Forall₂ (Row.Alike l.values) rows rows') :
    (rows'.findIdx? fun row => !row.sameColumns first') =
      rows.findIdx? fun row => !row.sameColumns first := by
  induction h with
  | nil => rfl
  | cons hrow hrest ih =>
      rw [List.findIdx?_cons, List.findIdx?_cons, hrow.sameColumns_eq hfirst, ih]

/-! ## Fields -/

mutual

theorem field_alike (hv : v.Alike l w) (hs : s.Alike l t) :
    (f : Field) → Agrees (Piece.Alike l) (field v s f) (field w t f)
  | .named name => .ok (hs.resolve name)
  | .function name args => by
      rw [field, field]
      refine (hv.function name).bind fun hword => ?_
      refine (fields_alike hv hs args).bind fun hparts => .ok ?_
      exact .cons (.call hword) (Piece.Alike.listed hparts).bracketed
  | .raw text => .ok (.word (l.words_refl text))
termination_by structural f => f

theorem fields_alike (hv : v.Alike l w) (hs : s.Alike l t) :
    (fs : List Field) → Agrees (List.Forall₂ (Piece.Alike l)) (fields v s fs) (fields w t fs)
  | [] => .ok .nil
  | f :: rest => by
      rw [fields, fields]
      refine (field_alike hv hs f).bind fun hpart => ?_
      exact (fields_alike hv hs rest).bind fun hparts => .ok (.cons hpart hparts)
termination_by structural fs => fs

end

/-! ## Clauses of a statement -/

theorem source_alike (hs : s.Alike l t) :
    Piece.Alike l [.source s.table s.mainAlias] [.source t.table t.mainAlias] := by
  rw [hs.table_eq]
  exact .source s.table hs.mainAlias

section

variable (hv : v.Alike l w)
include hv

theorem upsertClause_alike {upsert upsert' : Option Upsert}
    (h : Option.Rel (Upsert.Alike l.values) upsert upsert') (columns : List String) :
    Piece.Alike l (upsertClause v upsert columns) (upsertClause w upsert' columns) := by
  cases h with
  | none => exact .nil
  | some h =>
      cases h with
      | proposed =>
          refine .cons (.word hv.upsert) (.listed ?_)
          rw [List.forall₂_map_left_iff, List.forall₂_map_right_iff, List.forall₂_same]
          exact fun column _ => .cons (.name column) (.keyword "=" (.proposed column))
      | assign hrow => exact .cons (.word hv.upsert) (assignments_alike hrow .name)

variable (hs : s.Alike l t)
include hs

theorem groupByClause_alike (groupBy : List Field) :
    Agrees (Piece.Alike l) (groupByClause v s groupBy) (groupByClause w t groupBy) := by
  cases groupBy with
  | nil => exact .ok .nil
  | cons f rest =>
      refine (fields_alike hv hs (f :: rest)).bind fun hparts => .ok ?_
      exact .keyword "GROUP BY" (.listed hparts)

theorem ordering_alike (entry : OrderBy) :
    Agrees (Piece.Alike l) (ordering v s entry) (ordering w t entry) := by
  rw [ordering, ordering]
  refine (field_alike hv hs entry.field).bind fun hpart => ?_
  cases entry.direction with
  | none => exact .ok hpart
  | some direction => exact .ok (.append hpart (.word (hv.sortOrder direction)))

theorem orderings_alike (entries : List OrderBy) :
    Agrees (List.Forall₂ (Piece.Alike l)) (orderings v s entries) (orderings w t entries) := by
  induction entries with
  | nil => exact .ok .nil
  | cons entry rest ih =>
      refine (ordering_alike hv hs entry).bind fun hpart => ?_
      exact ih.bind fun hparts => .ok (.cons hpart hparts)

theorem orderByClause_alike (orderBy : List OrderBy) :
    Agrees (Piece.Alike l) (orderByClause v s orderBy) (orderByClause w t orderBy) := by
  cases orderBy with
  | nil => exact .ok .nil
  | cons entry rest =>
      refine (orderings_alike hv hs (entry :: rest)).bind fun hparts => .ok ?_
      exact .keyword "ORDER BY" (.listed hparts)

/-! ## Verbs -/

theorem joinClause_alike : Agrees (Piece.Alike l) (joinClause v s) (joinClause w t) := by
  have hmain := hs.mainColumn
  have hjoin := hs.join
  rw [joinClause, joinClause]
  generalize s.join = joined at hjoin
  generalize t.join = joined' at hjoin
  cases hjoin with
  | none => exact .ok .nil
  | @some x y hxy =>
      obtain ⟨join, a⟩ := x
      obtain ⟨join', b⟩ := y
      obtain ⟨rfl, hab⟩ := hxy
      refine (hv.joinKind _).bind fun hword => .ok (.cons (.word hword) ?_)
      refine .cons (.source _ hab) (.keyword "ON" (.cons (hmain _) (.keyword "=" ?_)))
      exact Scope.Alike.tableColumn _ hab _

theorem selectClause_alike (selected : List Field) :
    Agrees (Piece.Alike l) (selectClause v s selected) (selectClause w t selected) := by
  cases selected with
  | nil => exact .error _
  | cons f rest =>
      refine (fields_alike hv hs (f :: rest)).bind fun hparts => ?_
      refine (joinClause_alike hv hs).bind fun hjoin => .ok ?_
      have hfrom := Piece.Alike.keyword "FROM" (.cons (source_alike hs) hjoin)
      exact .keyword "SELECT" (.append (.listed hparts) hfrom)

theorem updateClause_alike {row row' : Row} (h : row.Alike l.values row') :
    Agrees (Piece.Alike l) (updateClause v s row) (updateClause w t row') := by
  rw [updateClause, updateClause, h.isEmpty_eq]
  split
  · exact .error _
  · refine (joinClause_alike hv hs).bind fun hjoin => .ok ?_
    have hset := Piece.Alike.keyword "SET" (assignments_alike h hs.mainColumn)
    exact .keyword "UPDATE" (.cons (source_alike hs) (.append hjoin hset))

theorem deleteClause_alike : Agrees (Piece.Alike l) (deleteClause v s) (deleteClause w t) := by
  refine (joinClause_alike hv hs).bind fun hjoin => .ok ?_
  have hfrom := Piece.Alike.keyword "FROM" (.cons (source_alike hs) hjoin)
  refine .keyword "DELETE" (.append ?_ hfrom)
  have hmain := hs.mainAlias
  have hjoin := hs.join
  generalize s.join = joined at hjoin
  generalize t.join = joined' at hjoin
  cases hjoin with
  | none => exact .nil
  | some _ => exact .target hmain

theorem insertClause_alike {rows rows' : List Row}
    (h : List.Forall₂ (Row.Alike l.values) rows rows') (mode : InsertMode)
    {upsert upsert' : Option Upsert} (hupsert : Option.Rel (Upsert.Alike l.values) upsert upsert') :
    Agrees (Piece.Alike l) (insertClause v s rows mode upsert)
      (insertClause w t rows' mode upsert') := by
  cases h with
  | nil => exact .error _
  | @cons first first' rest rest' hfirst hrest =>
      have hrows := List.Forall₂.cons hfirst hrest
      rw [insertClause, insertClause, hfirst.isEmpty_eq, findIdx?_differs_alike hfirst hrows,
        hfirst.columns_eq, hs.table_eq]
      split
      · exact .error _
      · split
        · exact .error _
        · refine (hv.insertMode mode).bind fun hword => ?_
          refine (tuples_alike hrows first.columns).bind fun hparts => .ok ?_
          have hnames : List.Forall₂ (Piece.Alike l)
              (first.columns.map fun column => [.name column])
              (first.columns.map fun column => [.name column]) := by
            rw [List.forall₂_map_left_iff, List.forall₂_map_right_iff, List.forall₂_same]
            exact fun column _ => .name column
          have hvalues := Piece.Alike.keyword "VALUES"
            (.append (.listed hparts) (upsertClause_alike hv hupsert first.columns))
          exact .cons (.word hword)
            (.cons (.table s.table) (.append (Piece.Alike.listed hnames).bracketed hvalues))

/-- The clauses of alike verbs. -/
theorem verbClause_alike {action action' : Option Action} {upsert upsert' : Option Upsert}
    (haction : Option.Rel (Action.Alike l.values) action action')
    (hupsert : Option.Rel (Upsert.Alike l.values) upsert upsert') :
    Agrees (Piece.Alike l) (verbClause v s action upsert) (verbClause w t action' upsert') := by
  cases haction with
  | none => exact .error _
  | @some a a' h =>
      have hinsert : a'.isInsert = a.isInsert := by cases h <;> rfl
      have hisSome : upsert'.isSome = upsert.isSome := by cases hupsert <;> rfl
      rw [verbClause_some, verbClause_some, hinsert, hisSome]
      split
      · exact .error _
      · cases h with
        | select selected => exact selectClause_alike hv hs selected
        | update hrow => exact updateClause_alike hv hs hrow
        | insert hrows mode => exact insertClause_alike hv hs hrows mode hupsert
        | delete => exact deleteClause_alike hv hs

end

end Statement

/-! ## Conditions and queries -/

theorem Condition.Alike.isGroup_eq {value : Value → Value → Prop} {c c' : Condition}
    (h : c.Alike value c') : c'.isGroup = c.isGroup := by
  cases h <;> rfl

theorem Condition.AllAlike.isEmpty_eq {value : Value → Value → Prop}
    {conditions others : List Condition} (h : Condition.AllAlike value conditions others) :
    others.isEmpty = conditions.isEmpty := by
  cases h <;> rfl

namespace Compile

open Statement

theorem enter_alike (table : Option Table) (join : Option Join) :
    Agree l.supplies (Scope.Alike l) (enter table join) (enter table join) := by
  intro n m h
  rw [runFrom_enter, runFrom_enter]
  cases table with
  | none => exact ⟨h, .error _⟩
  | some table =>
      have hmain := l.aliases_next h
      have hentered := l.supplies_next h
      cases join with
      | none => exact ⟨hentered, .ok ⟨rfl, hmain, .none⟩⟩
      | some join =>
          have hjoin := l.aliases_next hentered
          exact ⟨l.supplies_next hentered, .ok ⟨rfl, hmain, .some ⟨rfl, hjoin⟩⟩⟩

theorem comparison_alike (hv : v.Alike l w) (hs : s.Alike l t) (f : Field) (op : Operator)
    {x y : Compile (List Piece)} (h : Agree l.supplies (Piece.Alike l) x y) :
    Agree l.supplies (Piece.Alike l) (comparison v s f op x) (comparison w t f op y) := by
  refine (Agree.lift (hv.operator op)).bind fun hword => ?_
  refine (Agree.lift (field_alike hv hs f)).bind fun hleft => ?_
  exact h.bind fun hright => .pure (.bracketed (.append hleft (.cons (.word hword) hright)))

mutual

theorem operand_alike (hv : v.Alike l w) : (x : Operand) → {y : Operand} → x.Alike l.values y →
    Agree l.supplies (Piece.Alike l) (operand v x) (operand w y)
  | .literal _, _, .literal h => .pure (.slot h)
  | .list xs, _, .list h => by
      have hempty : ∀ {ys : List Value}, List.Forall₂ l.values xs ys → ys.isEmpty = xs.isEmpty :=
        fun h => by cases h <;> rfl
      rw [operand, operand, hempty h]
      split
      · exact .throw _
      · exact .pure (.bracketed (.separated (l.words_refl ",") (slots_alike h)))
  | .null, _, .null => .pure (.word hv.null)
  | .subquery q, _, .subquery h => by
      rw [operand, operand]
      exact (query_alike hv q h).bind fun hbody => .pure (.nested hbody)
termination_by structural x => x

theorem condition_alike (hv : v.Alike l w) : (c : Condition) → {c' : Condition} → {s t : Scope} →
    c.Alike l.values c' → s.Alike l t →
    Agree l.supplies (Piece.Alike l) (condition v s c) (condition w t c')
  | .compare f op x, _, s, t, .compare _ _ h, hs => by
      rw [condition, condition]
      exact comparison_alike hv hs f op (operand_alike hv x h)
  | .spec spec x, _, s, t, .spec _ h, hs => by
      rw [condition, condition]
      refine (Agree.lift (.eq (Specifier.parse spec))).bind fun {read _} hread => ?_
      subst hread
      exact comparison_alike hv hs read.1 read.2 (operand_alike hv x h)
  | .group op conditions, _, s, t, .group _ h, hs => by
      rw [condition, condition, h.isEmpty_eq, hv.logical]
      split
      · exact .throw _
      · refine (children_alike hv conditions h hs).bind fun hparts => .pure ?_
        exact .separated (l.words_refl (v.logical op)) hparts
termination_by structural c => c

theorem children_alike (hv : v.Alike l w) : (conditions : List Condition) →
    {others : List Condition} → {s t : Scope} →
    Condition.AllAlike l.values conditions others → s.Alike l t →
    Agree l.supplies (List.Forall₂ (Piece.Alike l)) (children v s conditions) (children w t others)
  | [], _, s, t, .nil, hs => .pure .nil
  | c :: rest, _, s, t, .cons h hrest, hs => by
      rw [children, children, h.isGroup_eq]
      refine (condition_alike hv c h hs).bind fun hpart => ?_
      refine (children_alike hv rest hrest hs).bind fun hparts => .pure (.cons ?_ hparts)
      split
      · exact hpart.bracketed
      · exact hpart
termination_by structural conditions => conditions

theorem conditionClause_alike (hv : v.Alike l w) (word : String) : (c : Option Condition) →
    {c' : Option Condition} → {s t : Scope} → Condition.OptionAlike l.values c c' → s.Alike l t →
    Agree l.supplies (Piece.Alike l) (conditionClause v s word c) (conditionClause w t word c')
  | none, _, s, t, .none, hs => .pure .nil
  | some c, _, s, t, .some h, hs => by
      rw [conditionClause, conditionClause]
      exact (condition_alike hv c h hs).bind fun hpart => .pure (.keyword word hpart)
termination_by structural c => c

/-- Alike queries are lowered alike. -/
theorem query_alike (hv : v.Alike l w) : (q : Query) → {q' : Query} → q.Alike l.values q' →
    Agree l.supplies (Piece.Alike l) (query v q) (query w q')
  | ⟨action, table, join, filter, having, orderBy, groupBy, limit, offset, upsert⟩, _,
    .mk _ _ _ _ haction hfilter hhaving hlimit hoffset hupsert => by
      rw [query, query]
      refine (enter_alike table join).bind fun hs => ?_
      refine (Agree.lift (verbClause_alike hv hs haction hupsert)).bind fun hverb => ?_
      refine (conditionClause_alike hv "WHERE" filter hfilter hs).bind fun hwhere => ?_
      refine (Agree.lift (groupByClause_alike hv hs groupBy)).bind fun hgroup => ?_
      refine (conditionClause_alike hv "HAVING" having hhaving hs).bind fun hhad => ?_
      refine (Agree.lift (orderByClause_alike hv hs orderBy)).bind fun horder => .pure ?_
      have hclauses := (((hverb.append hwhere).append hgroup).append hhad).append horder
      exact (hclauses.append (countClause_alike hoffset)).append (countClause_alike hlimit)
termination_by structural q => q

end

end Compile

end BoundSql
