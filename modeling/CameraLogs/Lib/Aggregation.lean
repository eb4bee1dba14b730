import CameraLogs.Lib.Bson

/-!
# Expressions of an aggregation

An expression computes a value of the fields of a document, or nothing. The tests compare a value
with literals in the database's order, where values of different types compare by their types, so
that a test such as `$gte` of a number holds of all values of a later type.
-/

namespace CameraLogs.Lib

inductive Expr where
  /-- `"$name"` -/
  | field (name : String)
  | literal (value : Literal)
  /-- `{"$in": [expr, literals]}` -/
  | isIn (expr : Expr) (literals : List Literal)
  /-- `{"$eq": [expr, literal]}` -/
  | eq (expr : Expr) (value : Literal)
  /-- `{"$gte": [expr, literal]}` -/
  | gte (expr : Expr) (value : Literal)
  /-- `{"$ifNull": [expr, literal]}` -/
  | ifNull (expr : Expr) (value : Literal)
  /-- `{"$cond": [test, yes, no]}` -/
  | cond (test yes no : Expr)
  /-- `{"$switch": {"branches": [{"case": test, "then": result}, ..], "default": other}}` -/
  | switch (branches : List (Expr × Expr)) (other : Expr)

/-- What counts as true in a test. -/
def isTrue : Option BsonValue → Bool
  | none | some .null => false
  | some (.bool value) => value
  | some (.int value) => value ≠ 0
  | some (.double value) | some (.decimal value) => value ≠ .finite 0
  | some _ => true

def equalsLiteral (field : Option BsonValue) (literal : Literal) : Bool :=
  compareLiteral field literal == .eq

variable (document : Document)

mutual

def Expr.eval : Expr → Option BsonValue
  | .field name => document.field name
  | .literal value => some value.value
  | .isIn expr literals => some (.bool (literals.any (equalsLiteral expr.eval)))
  | .eq expr value => some (.bool (equalsLiteral expr.eval value))
  | .gte expr value => some (.bool (compareLiteral expr.eval value != .lt))
  | .ifNull expr value =>
    match expr.eval with
    | none | some .null => some value.value
    | some found => some found
  | .cond test yes no => if isTrue test.eval then yes.eval else no.eval
  | .switch branches other => (evalBranches branches).getD other.eval

/-- The result of the first branch whose test is true. -/
def evalBranches : List (Expr × Expr) → Option (Option BsonValue)
  | [] => none
  | (test, result) :: branches =>
    if isTrue test.eval then some result.eval else evalBranches branches

end

/-- `$addFields`: the expressions of one stage all see the document before it. -/
def addFields (fields : List (String × Expr)) : Document :=
  fields.foldl (fun result (name, expr) =>
    match expr.eval document with
    | some value => result.set name value
    | none => result) document

/-! ## Rules -/

variable {document} {name : String} {test result other : Expr} {branches : List (Expr × Expr)}

attribute [local simp] Expr.eval evalBranches

@[simp] theorem isTrue_bool (value : Bool) : isTrue (some (.bool value)) = value := rfl

@[simp] theorem eval_field : (Expr.field name).eval document = document.field name := by
  simp

@[simp] theorem eval_literal (value : Literal) :
    (Expr.literal value).eval document = some value.value := by
  simp

@[simp] theorem eval_isIn (expr : Expr) (literals : List Literal) :
    (Expr.isIn expr literals).eval document =
      some (.bool (literals.any (equalsLiteral (expr.eval document)))) := by
  simp

@[simp] theorem eval_eq (expr : Expr) (value : Literal) :
    (Expr.eq expr value).eval document =
      some (.bool (equalsLiteral (expr.eval document) value)) := by
  simp

@[simp] theorem eval_gte (expr : Expr) (value : Literal) :
    (Expr.gte expr value).eval document =
      some (.bool (compareLiteral (expr.eval document) value != .lt)) := by
  simp

@[simp] theorem eval_cond (yes no : Expr) :
    (Expr.cond test yes no).eval document =
      if isTrue (test.eval document) then yes.eval document else no.eval document := by
  simp

/-- A switch without branches is what it is otherwise. -/
@[simp] theorem eval_switch_nil :
    (Expr.switch [] other).eval document = other.eval document := by
  simp

@[simp] theorem eval_switch_cons :
    (Expr.switch ((test, result) :: branches) other).eval document =
      if isTrue (test.eval document) then result.eval document
      else (Expr.switch branches other).eval document := by
  simp only [Expr.eval, evalBranches]
  split
  next => rfl
  next => rfl

theorem equalsLiteral_string (field : Option BsonValue) (text : String) :
    equalsLiteral field (.string text) = field.any (·.isText text) := by
  cases field with
  | none => rfl
  | some value =>
    cases value with
    | string text' =>
      rw [Bool.eq_iff_iff]
      simp [equalsLiteral, compareLiteral, BsonValue.isText]
    | _ => rfl

/-- Branches of a table, a test of the same form each, are a lookup in the table. -/
theorem eval_switch_table (table : Table) (expr : Expr) :
    (Expr.switch (table.map (fun entry =>
        (.eq expr (.string entry.1), .literal (.string entry.2))) ++ branches) other).eval document =
      match (expr.eval document).bind table.entry with
      | some result => some (.string result)
      | none => (Expr.switch branches other).eval document := by
  induction table with
  | nil => cases expr.eval document <;> rfl
  | cons entry table ih =>
    rw [List.map_cons, List.cons_append, eval_switch_cons, eval_eq, isTrue_bool,
      equalsLiteral_string, ih]
    cases expr.eval document with
    | none => rfl
    | some value =>
      by_cases h : value.isText entry.1
      · simp [h, Table.entry, Literal.value]
      · simp [h, Table.entry]

end CameraLogs.Lib
