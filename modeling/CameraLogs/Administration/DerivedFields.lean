import CameraLogs.Administration.EventPresenter
import CameraLogs.Lib.Aggregation

/-!
# Derived results and levels in the database

The database derives the result and the level of an event with expressions of its own, so that
events can be filtered by them. The expressions and the presenter are two lists of decisions;
`AgreesWithPresenter` is what a document must be for both to come to the same end.
-/

namespace CameraLogs.Administration

open Lib

/-- `{"case": {"$eq": [field, key]}, "then": result}` for each entry of a table. -/
def tableCases (field : String) (table : Table) : List (Expr × Expr) :=
  table.map fun entry => (.eq (.field field) (.string entry.1), .literal (.string entry.2))

/-- `{"$in": [field, texts]}` -/
def isInTexts (field : String) (table : Table) : Expr :=
  .isIn (.field field) (table.map fun entry => .string entry.1)

def text (value : String) : Expr := .literal (.string value)

/-- The expression of `_derivedOutcome`. -/
def outcomeExpr : Expr :=
  .switch ((isInTexts "outcome" terminalOutcomes, .field "outcome") ::
    (tableCases "action" ACTION_OUTCOMES ++
    [(.eq (.field "responseComplete") (.bool false), text "UNKNOWN"),
      (isInTexts "status" terminalOutcomes, .field "status"),
      (.eq (.field "httpStatus") (.int 202), text "PENDING"),
      (.gte (.field "httpStatus") (.int 400), text "FAILED"),
      (.eq (.field "type") (.string "COREDUMP_MOUNT"),
        .switch (tableCases "status" COREDUMP_MOUNT_OUTCOMES ++ []) (text "SUCCEEDED")),
      (isInTexts "type" interruptions, text "UNKNOWN"),
      (isInTexts "type" pressureEvents,
        .cond (.eq (.field "level") (.string "NORMAL")) (text "SUCCEEDED") (text "UNKNOWN")),
      (.eq (.field "type") (.string "DEBUG_MODE"),
        .switch (tableCases "phase" DEBUG_MODE_OUTCOMES ++ [])
          (.cond (.isIn (.ifNull (.field "debugError") .null)
              [.null, .bool false, .int 0, .string ""])
            (text "SUCCEEDED") (text "FAILED")))]))
    (text "SUCCEEDED")

/-- The expression of `_derivedLevel`. -/
def levelExpr : Expr :=
  .switch [(isInTexts "type" pressureEvents,
      .switch [(.eq (.field "level") (.string "CRITICAL"), text "ERROR"),
        (.eq (.field "level") (.string "NORMAL"), text "INFO")] (text "WARNING")),
    (isInTexts "level" (textSet levels), .field "level"),
    (.eq (.field "_derivedOutcome") (.string "FAILED"), text "ERROR"),
    (.isIn (.field "_derivedOutcome") [.string "UNKNOWN", .string "CANCELLED"], text "WARNING")]
    (text "INFO")

/-- `_derived_fields` -/
def derivedFields : List (String × Expr) × List (String × Expr) :=
  ([("_derivedOutcome", outcomeExpr)], [("_derivedLevel", levelExpr)])

/-- The document behind the two stages. -/
def deriveFields (item : Document) : Document :=
  addFields (addFields item derivedFields.1) derivedFields.2

/-- The database has derived what the presenter shows. -/
def DerivedAsShown (item : Document) : Prop :=
  ∃ outcome level, eventOutcome item = some outcome ∧ eventLevel item none = some level ∧
    (deriveFields item).field "_derivedOutcome" = some (.string outcome) ∧
    (deriveFields item).field "_derivedLevel" = some (.string level)

end CameraLogs.Administration
