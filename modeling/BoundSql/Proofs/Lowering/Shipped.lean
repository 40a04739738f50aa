import BoundSql.Dialect.Shipped
import BoundSql.Proofs.Lowering.Forming

/-! # What the shipped dialects write

The shipped dialects have finitely many words of their own, and both write every name between
two quote characters. -/

namespace BoundSql

/-- The words for common functions have a property if all of them have it, and so does the word
for a function that has this property itself. -/
theorem Vocabulary.functionWord_of {p : String → Prop} (hwords : ∀ entry ∈ functionWords, p entry.2)
    {name : String} (hname : p name) : p (functionWord name) := by
  unfold functionWord
  cases hfind : functionWords.find? fun entry => entry.1 == name with
  | none => exact hname
  | some entry => exact hwords entry (List.mem_of_find?_eq_some hfind)

namespace ShippedDialect

/-- The quote character of a dialect. -/
def mark : ShippedDialect → Char
  | mysql => '\x60'
  | ansi => '"'

variable (k : ShippedDialect)

theorem quote_eq (name : String) : k.dialect.quote name = Identifier.quote k.mark name := by
  cases k <;> rfl

theorem placeholder_eq : k.dialect.placeholder = "%s" := by
  cases k <;> rfl

theorem table_eq (t : Table) :
    k.dialect.table t =
      match t.schema with
      | some schema => Identifier.quote k.mark schema ++ "." ++ Identifier.quote k.mark t.name
      | none => Identifier.quote k.mark t.name := by
  cases k <;> rfl

theorem column_eq (owner column : String) :
    k.dialect.column owner column =
      Identifier.quote k.mark owner ++ "." ++ Identifier.quote k.mark column := by
  cases k <;> rfl

theorem proposed_eq (column : String) :
    k.dialect.proposed column =
      [.function "VALUES", .text "(", .text (Identifier.quote k.mark column), .text ")"] := by
  cases k <;> rfl

theorem function_eq (name : String) :
    k.dialect.function name = .ok (Vocabulary.functionWord name) := by
  cases k <;> rfl

theorem logical_eq (op : LogicalOp) : k.dialect.logical op = Vocabulary.logicalWord op := by
  cases k <;> rfl

theorem joinKind_eq (kind : JoinKind) :
    k.dialect.joinKind kind = .ok (Vocabulary.joinWord kind) := by
  cases k <;> rfl

theorem sortOrder_eq (order : SortOrder) :
    k.dialect.sortOrder order = Vocabulary.sortWord order := by
  cases k <;> rfl

theorem null_eq : k.dialect.null = "NULL" := by
  cases k <;> rfl

theorem insertMode_eq (mode : InsertMode) :
    k.dialect.insertMode mode = .ok (Vocabulary.insertWord mode) := by
  cases k <;> rfl

theorem upsert_eq : k.dialect.upsert = "ON DUPLICATE KEY UPDATE" := by
  cases k <;> rfl

/-- The words of the shipped dialects. -/
def words : List String :=
  Statement.keywords ++
    ["<=>", "<>", ">", ">=", "<", "<=", "LIKE", "IN", "NOT IN", "IS", "IS NOT", "DIV", "/", "*",
      "+", "-", "%", "AND", "OR", "XOR", "INNER JOIN", "LEFT JOIN", "ASC", "DESC", "NULL",
      "INSERT INTO", "INSERT IGNORE INTO", "REPLACE INTO", "ON DUPLICATE KEY UPDATE"]

theorem operator_mem_words {op : Operator} {w : String} (h : k.dialect.operator op = .ok w) :
    w ∈ words := by
  cases k <;> cases op <;> cases h <;> decide

theorem spells {word function : String → Prop} (h : ∀ w ∈ words, word w)
    (hfunction : ∀ entry ∈ functionWords, function entry.2) :
    k.dialect.toVocabulary.Spells word function where
  keyword := fun w hw => h w (List.mem_append_left _ hw)
  operator := fun hw => h _ (k.operator_mem_words hw)
  logical := by
    intro op
    rw [k.logical_eq]
    exact h _ (by cases op <;> decide)
  joinKind := by
    intro kind w hw
    rw [k.joinKind_eq] at hw
    cases hw
    exact h _ (by cases kind <;> decide)
  sortOrder := by
    intro order
    rw [k.sortOrder_eq]
    exact h _ (by cases order <;> decide)
  null := by
    rw [k.null_eq]
    exact h _ (by decide)
  insertMode := by
    intro mode w hw
    rw [k.insertMode_eq] at hw
    cases hw
    exact h _ (by cases mode <;> decide)
  upsert := by
    rw [k.upsert_eq]
    exact h _ (by decide)
  function := by
    intro name w hname hw
    rw [k.function_eq] at hw
    cases hw
    exact Vocabulary.functionWord_of hfunction hname

end ShippedDialect

end BoundSql
