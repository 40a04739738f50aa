import BoundSql.Operator

/-! # Infix boolean expressions

Lexemes of an infix expression, the grammar they are read by, and a reader that evaluates them
from left to right. The rank of an operator says how tightly it binds; operators of one rank
associate to the left. -/

namespace BoundSql

/-- The truth of two conditions joined by an operator. -/
def LogicalOp.apply : LogicalOp → Bool → Bool → Bool
  | and, a, b => a && b
  | or, a, b => a || b
  | xor, a, b => a ^^ b

namespace Infix

/-- What an infix expression is made of. An atom is known by its index among the atoms. -/
inductive Lexeme where
  | atom (index : Nat)
  | operator (op : LogicalOp)
  | opening
  | closing
  deriving DecidableEq

variable {rank : LogicalOp → Nat} {truth : Nat → Bool}

/-! ## The grammar -/

/-- `Reads rank truth level lexemes b`: the lexemes are an expression of truth `b` whose operators
outside brackets have at least the rank `level`. The left side of an operator may hold operators
of its rank, the right side may not. -/
inductive Reads (rank : LogicalOp → Nat) (truth : Nat → Bool) :
    Nat → List Lexeme → Bool → Prop where
  | atom (level i : Nat) : Reads rank truth level [.atom i] (truth i)
  | brackets (level : Nat) {lexemes : List Lexeme} {b : Bool} (h : Reads rank truth 0 lexemes b) :
      Reads rank truth level (.opening :: (lexemes ++ [.closing])) b
  | join {level : Nat} {op : LogicalOp} {left right : List Lexeme} {a b : Bool}
      (hlevel : level ≤ rank op) (hleft : Reads rank truth (rank op) left a)
      (hright : Reads rank truth (rank op + 1) right b) :
      Reads rank truth level (left ++ .operator op :: right) (op.apply a b)

/-- What is read with operators of some rank at least is also read with lower ones allowed. -/
theorem Reads.mono {level lower : Nat} {lexemes : List Lexeme} {b : Bool}
    (h : Reads rank truth level lexemes b) (hle : lower ≤ level) :
    Reads rank truth lower lexemes b := by
  cases h with
  | atom _ i => exact .atom lower i
  | brackets _ h => exact .brackets lower h
  | join hlevel hleft hright => exact .join (Nat.le_trans hle hlevel) hleft hright

/-! ## The reader -/

/-- An operand that waits for the right side of the operator after it. -/
abbrev Pending := Bool × LogicalOp

/-- Joins an operand with those that wait for it, the last of them first, as long as their
operators have at least the rank `level`. -/
def settle (rank : LogicalOp → Nat) (level : Nat) : List Pending → Bool → List Pending × Bool
  | [], b => ([], b)
  | (a, op) :: rest, b =>
    if level ≤ rank op then settle rank level rest (op.apply a b) else ((a, op) :: rest, b)

/-- The place of a reader: the operands that wait inside the present brackets, those that wait
around them, and the operand read last if an operator may follow. -/
structure Place where
  outer : List (List Pending) := []
  pending : List Pending := []
  operand : Option Bool := none

/-- Reads one lexeme, or fails where it cannot stand. -/
def step (rank : LogicalOp → Nat) (truth : Nat → Bool) : Place → Lexeme → Option Place
  | ⟨outer, pending, none⟩, .atom i => some ⟨outer, pending, some (truth i)⟩
  | ⟨outer, pending, none⟩, .opening => some ⟨pending :: outer, [], none⟩
  | ⟨outer, pending, some b⟩, .operator op =>
    let (waiting, a) := settle rank (rank op) pending b
    some ⟨outer, (a, op) :: waiting, none⟩
  | ⟨around :: outer, pending, some b⟩, .closing =>
    some ⟨outer, around, some (settle rank 0 pending b).2⟩
  | _, _ => none

/-- The truth of an infix expression, if the lexemes are one. -/
def evaluate (rank : LogicalOp → Nat) (truth : Nat → Bool) (lexemes : List Lexeme) :
    Option Bool :=
  match lexemes.foldlM (step rank truth) {} with
  | some ⟨[], pending, some b⟩ => some (settle rank 0 pending b).2
  | _ => none

/-! ## The reader follows the grammar -/

/-- Operands that wait for operators below a rank wait on. -/
theorem settle_of_lt {level : Nat} {pending : List Pending}
    (h : ∀ p ∈ pending, rank p.2 < level) (b : Bool) :
    settle rank level pending b = (pending, b) := by
  cases pending with
  | nil => rfl
  | cons p rest =>
      have hp : ¬ level ≤ rank p.2 := Nat.not_le.mpr (h p (by simp))
      simp [settle, hp]

/-- Settling down to a level may be done in two stages. -/
theorem settle_settle {lower level : Nat} (hle : lower ≤ level) (pending : List Pending)
    (b : Bool) :
    settle rank lower (settle rank level pending b).1 (settle rank level pending b).2 =
      settle rank lower pending b := by
  induction pending generalizing b with
  | nil => rfl
  | cons p rest ih =>
      obtain ⟨a, op⟩ := p
      by_cases hop : level ≤ rank op
      · have hlower : lower ≤ rank op := Nat.le_trans hle hop
        simp only [settle, if_pos hop, if_pos hlower, ih]
      · simp only [settle, if_neg hop]

/-- Reading an expression leaves an operand that settles to its truth, and no operand waits that
has not waited before. -/
theorem foldlM_step_of_reads {level : Nat} {lexemes : List Lexeme} {b : Bool}
    (h : Reads rank truth level lexemes b) (outer : List (List Pending)) (pending : List Pending)
    (hpending : ∀ p ∈ pending, rank p.2 < level) :
    ∃ waiting a, lexemes.foldlM (step rank truth) ⟨outer, pending, none⟩ =
        some ⟨outer, waiting, some a⟩ ∧
      settle rank level waiting a = (pending, b) := by
  induction h generalizing outer pending with
  | atom level i => exact ⟨pending, truth i, rfl, settle_of_lt hpending _⟩
  | @brackets level lexemes b h ih =>
      obtain ⟨waiting, a, hrun, hsettle⟩ := ih (pending :: outer) [] (by simp)
      refine ⟨pending, b, ?_, settle_of_lt hpending b⟩
      simp only [List.foldlM_cons, List.foldlM_append, List.foldlM_nil, step, hrun, hsettle,
        Option.bind_eq_bind, Option.bind_some]
      rfl
  | @join level op left right a b hlevel hleft hright ihleft ihright =>
      have hleftBelow : ∀ p ∈ pending, rank p.2 < rank op := fun p hp =>
        Nat.lt_of_lt_of_le (hpending p hp) hlevel
      obtain ⟨waiting, a', hrun, hsettle⟩ := ihleft outer pending hleftBelow
      have hrightBelow : ∀ p ∈ (a, op) :: pending, rank p.2 < rank op + 1 := by
        intro p hp
        rcases List.mem_cons.mp hp with rfl | hp
        · exact Nat.lt_succ_self _
        · exact Nat.lt_succ_of_lt (hleftBelow p hp)
      obtain ⟨waiting', b', hrun', hsettle'⟩ := ihright outer ((a, op) :: pending) hrightBelow
      refine ⟨waiting', b', ?_, ?_⟩
      · have hop : step rank truth ⟨outer, waiting, some a'⟩ (.operator op) =
            some ⟨outer, (a, op) :: pending, none⟩ := by simp [step, hsettle]
        simp only [List.foldlM_append, List.foldlM_cons, hrun, hop, hrun', Option.bind_eq_bind,
          Option.bind_some]
      · have hle : level ≤ rank op + 1 := Nat.le_succ_of_le hlevel
        rw [← settle_settle hle, hsettle', settle, if_pos hlevel, settle_of_lt hpending]

/-- The reader finds the truth of every expression of the grammar, so that an expression has only
one. -/
theorem evaluate_of_reads {lexemes : List Lexeme} {b : Bool} (h : Reads rank truth 0 lexemes b) :
    evaluate rank truth lexemes = some b := by
  obtain ⟨waiting, a, hrun, hsettle⟩ := foldlM_step_of_reads h [] [] (by simp)
  rw [evaluate, hrun]
  simp [hsettle]

/-- Where conjunction binds tighter it goes first, and where all operators bind alike the leftmost
goes first. -/
example : evaluate (fun op => if op = .and then 1 else 0) (fun i => i == 0)
      [.atom 0, .operator .or, .atom 1, .operator .and, .atom 2] = some true ∧
    evaluate (fun _ => 0) (fun i => i == 0)
      [.atom 0, .operator .or, .atom 1, .operator .and, .atom 2] = some false := by
  decide

end Infix

end BoundSql
