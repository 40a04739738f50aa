import BoundSql.Proofs.Framing

/-! # Storing data and comparing with it

Data of any type but one is bound as the same value where a row stores it and where a field is
compared with it. Bare bytes are stored as a whole, but compared with one by one. -/

namespace BoundSql

/-! ## The types of data -/

/-- The types whose data can be stored in a row and be compared with. -/
inductive DataType where
  | value
  | bool
  | int8 | int16 | int32 | int64
  | uint8 | uint16 | uint32
  | binary32 | binary64
  | string
  | timestamp
  | json
  | bytes
  | option (inner : DataType)
  deriving DecidableEq

namespace DataType

/-- The data of a type. -/
def Data : DataType → Type
  | value => Value
  | bool => Bool
  | int8 => Int8
  | int16 => Int16
  | int32 => Int32
  | int64 => Int64
  | uint8 => UInt8
  | uint16 => UInt16
  | uint32 => UInt32
  | binary32 => Binary32
  | binary64 => Binary64
  | string => String
  | timestamp => Timestamp
  | json => Json
  | bytes => List UInt8
  | option inner => Option inner.Data

instance toValueData : (t : DataType) → ToValue t.Data
  | value => inferInstanceAs (ToValue Value)
  | bool => inferInstanceAs (ToValue Bool)
  | int8 => inferInstanceAs (ToValue Int8)
  | int16 => inferInstanceAs (ToValue Int16)
  | int32 => inferInstanceAs (ToValue Int32)
  | int64 => inferInstanceAs (ToValue Int64)
  | uint8 => inferInstanceAs (ToValue UInt8)
  | uint16 => inferInstanceAs (ToValue UInt16)
  | uint32 => inferInstanceAs (ToValue UInt32)
  | binary32 => inferInstanceAs (ToValue Binary32)
  | binary64 => inferInstanceAs (ToValue Binary64)
  | string => inferInstanceAs (ToValue String)
  | timestamp => inferInstanceAs (ToValue Timestamp)
  | json => inferInstanceAs (ToValue Json)
  | bytes => inferInstanceAs (ToValue (List UInt8))
  | option inner =>
    have := toValueData inner
    inferInstanceAs (ToValue (Option inner.Data))

instance toOperandData : (t : DataType) → ToOperand t.Data
  | value => inferInstanceAs (ToOperand Value)
  | bool => inferInstanceAs (ToOperand Bool)
  | int8 => inferInstanceAs (ToOperand Int8)
  | int16 => inferInstanceAs (ToOperand Int16)
  | int32 => inferInstanceAs (ToOperand Int32)
  | int64 => inferInstanceAs (ToOperand Int64)
  | uint8 => inferInstanceAs (ToOperand UInt8)
  | uint16 => inferInstanceAs (ToOperand UInt16)
  | uint32 => inferInstanceAs (ToOperand UInt32)
  | binary32 => inferInstanceAs (ToOperand Binary32)
  | binary64 => inferInstanceAs (ToOperand Binary64)
  | string => inferInstanceAs (ToOperand String)
  | timestamp => inferInstanceAs (ToOperand Timestamp)
  | json => inferInstanceAs (ToOperand Json)
  | bytes => inferInstanceAs (ToOperand (List UInt8))
  | option inner => inferInstanceAs (ToOperand (Option inner.Data))

/-- What data is compared with is its value, unless it is bare bytes. -/
theorem toOperand_eq {t : DataType} (h : t ≠ bytes) (x : t.Data) :
    toOperand x = Operand.ofValue (toValue x) := by
  cases t with
  | bytes => exact absurd rfl h
  | _ => rfl

theorem toValue_some {t : DataType} (x : t.Data) : toValue (some x) = toValue x :=
  rfl

theorem toOperand_some {t : DataType} (x : t.Data) :
    toOperand (some x) = Operand.ofValue (toValue x) :=
  rfl

end DataType

/-! ## Comparing with a value -/

/-- What a comparison with a value writes: a marker that the value is bound to, or the word of the
dialect for null. -/
def Item.compared (d : Dialect) (value : Value) : Item :=
  if value.isNull then .token (.text d.null) else .slot value

namespace Compile

theorem operand_ofValue (v : Vocabulary) (value : Value) :
    operand v (Operand.ofValue value) =
      pure [if value.isNull then .word v.null else .slot value] := by
  cases value <;> rfl

theorem frames_ofValue {ι : Type} (d : Dialect) (value : ι → Value) :
    Frames d (fun i => [Item.compared d (value i)]) fun i =>
      operand d.toVocabulary (Operand.ofValue (value i)) := by
  simp only [operand_ofValue]
  refine .pure ⟨[], [], fun i => ?_⟩
  by_cases hnull : (value i).isNull = true <;>
    simp [Item.compared, hnull, Piece.allItems, Piece.items]

end Compile

namespace Query

theorem DifferIn.comp {ι κ : Type} {d : Dialect} {content : ι → List Item} {q : ι → Query}
    (h : DifferIn d content q) (f : κ → ι) :
    DifferIn d (fun k => content (f k)) fun k => q (f k) := by
  intro supply
  obtain ⟨after, ⟨e, he⟩ | ⟨front, back, hok⟩⟩ := h supply
  · exact ⟨after, .inl ⟨e, fun k => he (f k)⟩⟩
  · exact ⟨after, .inr ⟨front, back, fun k => hok (f k)⟩⟩

/-- The users with a digest. -/
def digestIs (x : Operand) : Query :=
  usersWhere.fill ((Comparison.compare (.named "digest") .eq).against x)

/-- Bytes are not compared with as one value: a query is refused for no bytes at all, but not for
one. -/
theorem not_differIn_bytes :
    ¬DifferIn ShippedDialect.mysql.dialect
      (fun x : DataType.bytes.Data => [Item.compared ShippedDialect.mysql.dialect (toValue x)])
      fun x => digestIs (toOperand x) := by
  intro h
  obtain ⟨after, ⟨e, he⟩ | ⟨front, back, hok⟩⟩ := h {}
  · have hone : ((digestIs (toOperand ([0] : List UInt8))).compile
        ShippedDialect.mysql.dialect {}).1.isOk = false :=
      congrArg (fun outcome => outcome.1.isOk) (he ([0] : List UInt8))
    exact absurd hone (by decide +kernel)
  · have hnone : ((digestIs (toOperand ([] : List UInt8))).compile
        ShippedDialect.mysql.dialect {}).1.isOk = true :=
      congrArg (fun outcome => outcome.1.isOk) (hok ([] : List UInt8))
    exact absurd hnone (by decide +kernel)

end Query

/-- Data of the type is compared with as the value that is stored for it. A comparison never fails
for what it compares with. In any query it binds that value as one argument in one place, or writes
the word of the dialect for null in that place and binds nothing. Data in an option is compared with
as without. -/
structure DataType.ComparedAsStored (t : DataType) : Prop where
  lowered : ∀ (v : Vocabulary) (x : t.Data), Compile.operand v (toOperand x) =
    pure [if (toValue x).isNull then .word v.null else .slot (toValue x)]
  differIn : ∀ (d : Dialect) (hole : QueryHole) (comparison : Comparison),
    Query.DifferIn d (fun x : t.Data => [Item.compared d (toValue x)])
      fun x => hole.fill (comparison.against (toOperand x))
  some_eq : ∀ x : t.Data, toOperand (some x) = toOperand x

theorem DataType.comparedAsStored {t : DataType} (h : t ≠ bytes) : t.ComparedAsStored := by
  constructor
  · intro v x
    rw [toOperand_eq h, Compile.operand_ofValue]
  · intro d hole comparison
    simp only [toOperand_eq h]
    exact (Compile.frames_compared hole comparison (Compile.frames_ofValue d _)).differIn
  · intro x
    rw [toOperand_some, toOperand_eq h]

namespace Query

/-- A cell of an UPDATE, of an inserted row or of an upsert binds the value of its data, which is
one argument in one place, and the same for data in an option. Data of every type but that of bare
bytes is compared with as the value that is stored for it. -/
theorem compile_stored_compared (t : DataType) :
    (∀ (d : Dialect) (cell : CellHole), cell.NamesOnce →
      DifferIn d (fun x : t.Data => [.slot (toValue x)]) fun x => cell.fill (toValue x)) ∧
    (∀ x : t.Data, toValue (some x) = toValue x) ∧
    (t.ComparedAsStored ↔ t ≠ .bytes) := by
  refine ⟨fun d cell hcell => ?_, DataType.toValue_some, ?_, DataType.comparedAsStored⟩
  · exact (Compile.frames_stored cell hcell).differIn.comp toValue
  · rintro h rfl
    exact not_differIn_bytes (h.differIn ShippedDialect.mysql.dialect usersWhere _)

/-- Adds two users, the name of the second left out. -/
def addUsersHole : CellHole :=
  .insert { table := some ⟨"users", none⟩ } [⟨[("id", .int 1), ("name", .string "bob")]⟩]
    ⟨[], "name", [("id", .int 2)]⟩ [] .insert

theorem compile_stored_compared_names :
    addUsersHole.NamesOnce ∧ DataType.option .string ≠ .bytes ∧
      DifferIn ShippedDialect.ansi.dialect
        (fun x : (DataType.option .string).Data => [.slot (toValue x)])
        (fun x => addUsersHole.fill (toValue x)) ∧
      (DataType.option .string).ComparedAsStored ∧
      ((addUsersHole.fill (toValue (some "ann"))).toSql
          ShippedDialect.ansi.dialect).toOption.map Prod.snd =
        some [.int 1, .string "bob", .int 2, .string "ann"] ∧
      ((digestIs (toOperand (some "ann"))).toSql
          ShippedDialect.ansi.dialect).toOption.map Prod.snd = some [.string "ann"] ∧
      ((digestIs (toOperand (none : Option String))).toSql
          ShippedDialect.ansi.dialect).toOption.map Prod.fst =
        some "SELECT \"a\".\"name\" FROM \"users\" AS \"a\" WHERE (\"a\".\"digest\" = NULL)" := by
  have hnames : addUsersHole.NamesOnce := by
    unfold addUsersHole CellHole.NamesOnce
    decide
  have htype : DataType.option .string ≠ .bytes := by decide
  obtain ⟨hstored, -, hcompared⟩ := compile_stored_compared (.option .string)
  exact ⟨hnames, htype, hstored _ addUsersHole hnames, hcompared.mpr htype, rfl, rfl,
    by decide +kernel⟩

/-- Sets the digest of all files. -/
def setDigestHole : CellHole :=
  .update { table := some ⟨"files", none⟩ } ⟨[], "digest", []⟩

/-- Three bytes are stored as one argument, and compared with as three numbers. In an option they
are compared with as one argument. -/
theorem not_compile_stored_compared_digest :
    ((setDigestHole.fill (toValue ([1, 2, 3] : List UInt8))).toSql
        ShippedDialect.mysql.dialect).toOption.map Prod.snd = some [.bytes [1, 2, 3]] ∧
      ((digestIs (toOperand ([1, 2, 3] : List UInt8))).toSql
        ShippedDialect.mysql.dialect).toOption.map Prod.snd = some [.int 1, .int 2, .int 3] ∧
      ((digestIs (toOperand ([1, 2, 3] : List UInt8))).toSql
        ShippedDialect.mysql.dialect).toOption.map Prod.fst =
          some "SELECT `a`.`name` FROM `users` AS `a` WHERE (`a`.`digest` <=> (%s,%s,%s))" ∧
      ((digestIs (toOperand (some ([1, 2, 3] : List UInt8)))).toSql
        ShippedDialect.mysql.dialect).toOption.map Prod.snd = some [.bytes [1, 2, 3]] ∧
      ((digestIs (toOperand (some ([1, 2, 3] : List UInt8)))).toSql
        ShippedDialect.mysql.dialect).toOption.map Prod.fst =
          some "SELECT `a`.`name` FROM `users` AS `a` WHERE (`a`.`digest` <=> %s)" :=
  ⟨rfl, rfl, by decide +kernel, rfl, by decide +kernel⟩

end Query

end BoundSql
