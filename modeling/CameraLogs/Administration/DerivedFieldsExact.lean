import CameraLogs.Administration.DerivedFields

/-!
# When the database derives what is shown

Both lists of decisions are first brought to one form (`outcomeExpr_eval`, `eventOutcome`): a
table at a time, each with what is tried otherwise. What is left of a document then differs in
four places: values that cannot be looked up, the state of a mount, which the database asks for
behind the answer to a request, an answer that is no integer or is none of the database's, and
the blank errors of a debugging session.
-/

namespace CameraLogs.Administration

open Lib

variable {item : Document} {table : Table} {value : BsonValue} {texts : List String}

/-! ## Tables -/

theorem Table.entry_null : table.entry .null = none := by
  have hnone : (table.find? fun entry => BsonValue.null.isText entry.1) = none := by
    simp [BsonValue.isText]
  rw [Table.entry, hnone]
  rfl

theorem bind_entry (name : String) :
    (item.field name).bind table.entry = table.entry (item.get name) := by
  cases h : item.field name with
  | none => simp [Document.get, h, Table.entry_null]
  | some value => simp [Document.get, h]

theorem any_isText (name text : String) :
    (item.field name).any (·.isText text) = (item.get name).isText text := by
  cases h : item.field name with
  | none => simp [Document.get, h, BsonValue.isText]
  | some value => simp [Document.get, h]

theorem isText_iff {text : String} : value.isText text = true ↔ value = .string text := by
  cases value <;> simp [BsonValue.isText]

/-- A text of a set stands for itself. -/
theorem entry_textSet {text : String} (h : (textSet texts).entry value = some text) :
    value = .string text ∧ text ∈ texts := by
  obtain ⟨entry, hfind, rfl⟩ := Option.map_eq_some_iff.mp h
  have hkey : value.isText entry.1 = true := by simpa using List.find?_some hfind
  obtain ⟨own, hown, rfl⟩ := List.mem_map.mp (List.mem_of_find?_eq_some hfind)
  exact ⟨isText_iff.mp hkey, hown⟩

theorem hashable_of_entry {text : String} (h : table.entry value = some text) :
    value.hashable = true := by
  obtain ⟨entry, hfind, -⟩ := Option.map_eq_some_iff.mp h
  have hkey : value.isText entry.1 = true := by simpa using List.find?_some hfind
  rw [isText_iff.mp hkey]
  rfl

theorem eval_isInTexts (name : String) (table : Table) :
    (isInTexts name table).eval item = some (.bool (table.entry (item.get name)).isSome) := by
  have hany : (table.map fun entry => Literal.string entry.1).any
      (equalsLiteral (item.field name)) = (table.entry (item.get name)).isSome := by
    rw [List.any_map, Table.entry, Option.isSome_map, List.isSome_find?]
    refine congrArg table.any (funext fun entry => ?_)
    exact (equalsLiteral_string _ _).trans (any_isText _ _)
  rw [isInTexts, eval_isIn, eval_field, hany]

/-! ## Switches

Each switch is its first branch, and what the rest of it comes to.
-/

variable {branches : List (Expr × Expr)} {other : Expr} {rest : String}

theorem eval_text (value : String) : (text value).eval item = some (.string value) :=
  eval_literal _

theorem eval_default (hother : other.eval item = some (.string rest)) :
    (Expr.switch [] other).eval item = some (.string rest) := by
  rw [eval_switch_nil, hother]

theorem eval_branch {test result : Expr} {holds : Bool} {outcome : String}
    (htest : test.eval item = some (.bool holds)) (hresult : result.eval item = some (.string outcome))
    (hrest : (Expr.switch branches other).eval item = some (.string rest)) :
    (Expr.switch ((test, result) :: branches) other).eval item =
      some (.string (if holds then outcome else rest)) := by
  rw [eval_switch_cons, htest, isTrue_bool, hresult, hrest]
  exact (apply_ite (fun outcome => some (BsonValue.string outcome)) _ _ _).symm

theorem eval_tableCases (name : String) (table : Table)
    (hrest : (Expr.switch branches other).eval item = some (.string rest)) :
    (Expr.switch (tableCases name table ++ branches) other).eval item =
      some (.string ((table.entry (item.get name)).getD rest)) := by
  rw [tableCases, eval_switch_table, eval_field, bind_entry, hrest]
  cases table.entry (item.get name) with
  | none => rfl
  | some result => rfl

/-- `{"case": {"$in": [field, texts]}, "then": field}` -/
theorem eval_ownBranch (name : String) (texts : List String)
    (hrest : (Expr.switch branches other).eval item = some (.string rest)) :
    (Expr.switch ((isInTexts name (textSet texts), .field name) :: branches) other).eval item =
      some (.string (((textSet texts).entry (item.get name)).getD rest)) := by
  rw [eval_switch_cons, eval_isInTexts, isTrue_bool, eval_field, hrest]
  cases h : (textSet texts).entry (item.get name) with
  | none => rfl
  | some result =>
    have hget := (entry_textSet h).1
    have hfield : item.field name = some (.string result) := by
      cases hname : item.field name with
      | none => simp [Document.get, hname] at hget
      | some value => simpa [Document.get, hname] using hget
    simp [hfield]

/-! ## The database's decisions -/

/-- `value in (None, False, 0, "")`, as the database compares. -/
def isBlank (item : Document) (name : String) : Bool :=
  [Literal.null, .bool false, .int 0, .string ""].any
    (equalsLiteral ((Expr.ifNull (.field name) .null).eval item))

/-- The database takes the answer for an accepted one. -/
def isAccepted (item : Document) : Bool := equalsLiteral (item.field "httpStatus") (.int 202)

/-- The database takes the answer for an error; also of types that it has after numbers. -/
def isErrorAnswer (item : Document) : Bool :=
  compareLiteral (item.field "httpStatus") (.int 400) != .lt

def databaseTypeOutcome (item : Document) : String :=
  if (interruptions.entry (item.get "type")).isSome then "UNKNOWN"
  else if (pressureEvents.entry (item.get "type")).isSome then
    if (item.get "level").isText "NORMAL" then "SUCCEEDED" else "UNKNOWN"
  else if (item.get "type").isText "DEBUG_MODE" then
    (DEBUG_MODE_OUTCOMES.entry (item.get "phase")).getD
      (if isBlank item "debugError" then "SUCCEEDED" else "FAILED")
  else "SUCCEEDED"

/-- What the database derives behind the answer to a request. -/
def databaseRestOutcome (item : Document) : String :=
  if (item.get "type").isText "COREDUMP_MOUNT" then
    (COREDUMP_MOUNT_OUTCOMES.entry (item.get "status")).getD "SUCCEEDED"
  else databaseTypeOutcome item

def databaseOutcome (item : Document) : String :=
  (terminalOutcomes.entry (item.get "outcome")).getD <|
  (ACTION_OUTCOMES.entry (item.get "action")).getD <|
  if (item.get "responseComplete").isFalse then "UNKNOWN" else
  (terminalOutcomes.entry (item.get "status")).getD <|
  if isAccepted item then "PENDING" else if isErrorAnswer item then "FAILED"
  else databaseRestOutcome item

theorem equalsLiteral_false (name : String) :
    equalsLiteral (item.field name) (.bool false) = (item.get name).isFalse := by
  cases h : item.field name with
  | none => simp [Document.get, h, BsonValue.isFalse, equalsLiteral, compareLiteral, fieldRank,
      Literal.value, BsonValue.rank]
  | some value =>
    simp only [Document.get, h, Option.getD_some]
    cases value with
    | bool value => cases value <;> rfl
    | _ => rfl

theorem eval_isText (name key : String) :
    (Expr.eq (.field name) (.string key)).eval item =
      some (.bool ((item.get name).isText key)) := by
  rw [eval_eq, eval_field, equalsLiteral_string, any_isText]

theorem eval_isFalse (name : String) :
    (Expr.eq (.field name) (.bool false)).eval item = some (.bool (item.get name).isFalse) := by
  rw [eval_eq, eval_field, equalsLiteral_false]

theorem eval_cond_text {test : Expr} {holds : Bool} (yes no : String)
    (htest : test.eval item = some (.bool holds)) :
    (Expr.cond test (text yes) (text no)).eval item =
      some (.string (if holds then yes else no)) := by
  rw [eval_cond, htest, isTrue_bool, eval_text, eval_text]
  exact (apply_ite (fun outcome => some (BsonValue.string outcome)) _ _ _).symm

theorem eval_accepted : (Expr.eq (.field "httpStatus") (.int 202)).eval item =
    some (.bool (isAccepted item)) := by
  rw [eval_eq, eval_field, isAccepted]

theorem eval_errorAnswer : (Expr.gte (.field "httpStatus") (.int 400)).eval item =
    some (.bool (isErrorAnswer item)) := by
  rw [eval_gte, eval_field, isErrorAnswer]

theorem outcomeExpr_eval (item : Document) :
    outcomeExpr.eval item = some (.string (databaseOutcome item)) := by
  have hdebug := @eval_tableCases item _ _ _ "phase" DEBUG_MODE_OUTCOMES
    (eval_default (eval_cond_text "SUCCEEDED" "FAILED" (eval_isIn (.ifNull (.field "debugError") .null)
      [.null, .bool false, .int 0, .string ""])))
  have hmount := @eval_tableCases item _ _ _ "status" COREDUMP_MOUNT_OUTCOMES
    (eval_default (eval_text "SUCCEEDED"))
  have hpressure := eval_cond_text "SUCCEEDED" "UNKNOWN" (@eval_isText item "level" "NORMAL")
  have htype := eval_branch (eval_isInTexts "type" interruptions) (eval_text "UNKNOWN")
    (eval_branch (eval_isInTexts "type" pressureEvents) hpressure
      (eval_branch (eval_isText "type" "DEBUG_MODE") hdebug (eval_default (eval_text "SUCCEEDED"))))
  have hrest := eval_branch (eval_isText "type" "COREDUMP_MOUNT") hmount htype
  have hhttp := eval_branch eval_accepted (eval_text "PENDING")
    (eval_branch eval_errorAnswer (eval_text "FAILED") hrest)
  have hanswer := eval_branch (eval_isFalse "responseComplete") (eval_text "UNKNOWN")
    (eval_ownBranch "status" outcomes hhttp)
  exact eval_ownBranch "outcome" outcomes (eval_tableCases "action" ACTION_OUTCOMES hanswer)

/-- The level the database derives with a result. -/
def databaseLevel (item : Document) (outcome : String) : String :=
  if (pressureEvents.entry (item.get "type")).isSome then pressureLevel (item.get "level")
  else ((textSet levels).entry (item.get "level")).getD (outcomeLevel outcome)

theorem levelExpr_eval {outcome : String}
    (houtcome : item.field "_derivedOutcome" = some (.string outcome)) :
    levelExpr.eval item = some (.string (databaseLevel item outcome)) := by
  have hget : item.get "_derivedOutcome" = .string outcome := by simp [Document.get, houtcome]
  have hpressure := eval_branch (@eval_isText item "level" "CRITICAL") (eval_text "ERROR")
    (eval_branch (eval_isText "level" "NORMAL") (eval_text "INFO")
      (eval_default (eval_text "WARNING")))
  have hwarning : (Expr.isIn (.field "_derivedOutcome") [.string "UNKNOWN", .string "CANCELLED"]).eval
      item = some (.bool (outcome = "UNKNOWN" ∨ outcome = "CANCELLED" : Bool)) := by
    rw [eval_isIn, eval_field]
    simp [equalsLiteral_string, houtcome, BsonValue.isText]
  have houtcomes := eval_branch (@eval_isText item "_derivedOutcome" "FAILED")
    (eval_text "ERROR") (eval_branch hwarning (eval_text "WARNING") (eval_default (eval_text "INFO")))
  have hall := eval_branch (eval_isInTexts "type" pressureEvents) hpressure
    (eval_ownBranch "level" levels houtcomes)
  rw [levelExpr, hall, databaseLevel, pressureLevel, outcomeLevel, hget]
  simp [BsonValue.isText]

theorem deriveFields_eq (item : Document) :
    deriveFields item = (item.set "_derivedOutcome" (.string (databaseOutcome item))).set
      "_derivedLevel" (.string (databaseLevel item (databaseOutcome item))) := by
  have hfirst : addFields item derivedFields.1 =
      item.set "_derivedOutcome" (.string (databaseOutcome item)) := by
    simp [addFields, derivedFields, outcomeExpr_eval]
  have hlevel := @levelExpr_eval (item.set "_derivedOutcome" (.string (databaseOutcome item))) _
    ((field_set _ _ _ _).trans (if_pos rfl))
  -- the first stage leaves the fields the level is derived of
  have hsame : databaseLevel (item.set "_derivedOutcome" (.string (databaseOutcome item))) =
      databaseLevel item := by
    funext outcome
    simp only [databaseLevel, Document.get, field_set]
    rfl
  rw [hsame] at hlevel
  rw [deriveFields, hfirst]
  simp [addFields, derivedFields, hlevel]

/-! ## Where the two agree -/

/-- What a mount's state stands for is also what the database takes from the answer. -/
def MountUndisturbed (item : Document) (outcome : String) : Prop :=
  if (item.get "responseComplete").isFalse then outcome = "UNKNOWN"
  else (item.get "status").isText "FAILED" ∨
    if isAccepted item then outcome = "PENDING"
    else isErrorAnswer item → outcome = "FAILED"

/-- The event is one of a debugging session that goes on. -/
def PendingSession (item : Document) : Prop :=
  (item.get "type").isText "DEBUG_MODE" ∧
    DEBUG_MODE_OUTCOMES.entry (item.get "phase") = some "PENDING"

/-- The event is one of a debugging session that failed. -/
def FailedSession (item : Document) : Prop :=
  (item.get "type").isText "DEBUG_MODE" ∧ (item.get "phase").hashable ∧
    (DEBUG_MODE_OUTCOMES.entry (item.get "phase") = some "FAILED" ∨
      DEBUG_MODE_OUTCOMES.entry (item.get "phase") = none ∧ (item.get "debugError").truthy)

/-- The database finds nothing wrong with the type of the event. -/
def SoundType (item : Document) : Prop :=
  (interruptions.entry (item.get "type")).isNone ∧
    ((pressureEvents.entry (item.get "type")).isSome → (item.get "level").isText "NORMAL") ∧
    ((item.get "type").isText "DEBUG_MODE" →
      DEBUG_MODE_OUTCOMES.entry (item.get "phase") = some "SUCCEEDED" ∨
        DEBUG_MODE_OUTCOMES.entry (item.get "phase") = none ∧ isBlank item "debugError")

/-- An event of a debugging session can be looked up, and its error is blank for both or for
none. -/
def SameSession (item : Document) : Prop :=
  (item.get "type").isText "DEBUG_MODE" → (item.get "phase").hashable ∧
    (DEBUG_MODE_OUTCOMES.entry (item.get "phase") = none →
      (item.get "debugError").truthy = !isBlank item "debugError")

def AgreesOnHttp (item : Document) : Prop :=
  match item.get "httpStatus" with
  | .int status => status = 202 ∨ 400 ≤ status ∨ SoundType item
  | .bool _ => False
  | _ =>
    if isAccepted item then PendingSession item
    else if isErrorAnswer item then FailedSession item
    else SameSession item

def AgreesOnAnswer (item : Document) : Prop :=
  (item.get "responseComplete").isFalse ∨ (terminalOutcomes.entry (item.get "status")).isSome ∨
    (item.get "status").hashable ∧ AgreesOnHttp item

def AgreesOnMount (item : Document) : Prop :=
  if (item.get "type").isText "COREDUMP_MOUNT" then
    match COREDUMP_MOUNT_OUTCOMES.entry (item.get "status") with
    | some outcome => MountUndisturbed item outcome
    | none => (item.get "status").hashable ∧ AgreesOnAnswer item
  else AgreesOnAnswer item

def AgreesOnOutcome (item : Document) : Prop :=
  (terminalOutcomes.entry (item.get "outcome")).isSome ∨ (item.get "outcome").hashable ∧
    ((ACTION_OUTCOMES.entry (item.get "action")).isSome ∨
      (item.get "action").hashable ∧ AgreesOnMount item)

/-- The document is one of which the database derives what is shown. -/
def AgreesWithPresenter (item : Document) : Prop :=
  (item.get "type").hashable ∧
    ((pressureEvents.entry (item.get "type")).isSome ∨ (item.get "level").hashable) ∧
    AgreesOnOutcome item

theorem tableOr_eq_getD {otherwise : Option String} {outcome : String} :
    tableOr table value otherwise = some ((table.entry value).getD outcome) ↔
      (table.entry value).isSome ∨ value.hashable ∧ otherwise = some outcome := by
  cases h : table.entry value with
  | none => simp [tableOr, h]
  | some result => simp [tableOr, h, hashable_of_entry h]

theorem inTable_of_hashable (h : value.hashable) :
    inTable table value = some (table.entry value).isSome := if_pos h

theorem typeOutcome_eq (h : (item.get "type").hashable) :
    typeOutcome item =
      if (interruptions.entry (item.get "type")).isSome then some "UNKNOWN"
      else if (pressureEvents.entry (item.get "type")).isSome then
        some (if (item.get "level").isText "NORMAL" then "SUCCEEDED" else "UNKNOWN")
      else if (item.get "type").isText "DEBUG_MODE" then debugOutcome item
      else some "SUCCEEDED" := by
  simp [typeOutcome, inTable_of_hashable h]

/-- An event of a debugging session is of no other type. -/
theorem entry_debugMode (h : (item.get "type").isText "DEBUG_MODE") :
    interruptions.entry (item.get "type") = none ∧ pressureEvents.entry (item.get "type") = none := by
  rw [isText_iff.mp h]
  exact ⟨by decide, by decide⟩

theorem databaseRestOutcome_eq
    (h : (item.get "type").isText "COREDUMP_MOUNT" →
      COREDUMP_MOUNT_OUTCOMES.entry (item.get "status") = none) :
    databaseRestOutcome item = databaseTypeOutcome item := by
  rw [databaseRestOutcome]
  split
  next hmount =>
    rw [h hmount, databaseTypeOutcome, isText_iff.mp hmount]
    rfl
  next => rfl

/-- The texts that stand for both a result and a state of a mount. -/
theorem mount_terminal {own outcome : String}
    (hown : terminalOutcomes.entry (item.get "status") = some own)
    (houtcome : COREDUMP_MOUNT_OUTCOMES.entry (item.get "status") = some outcome) :
    (item.get "status").isText "FAILED" ∧ outcome = own := by
  obtain ⟨hstatus, hmem⟩ := entry_textSet hown
  rw [hstatus] at houtcome ⊢
  have hall : ∀ own ∈ outcomes, ∀ outcome ∈ COREDUMP_MOUNT_OUTCOMES.entry (.string own),
      (BsonValue.string own).isText "FAILED" ∧ outcome = own := by decide
  exact hall own hmem outcome houtcome

theorem mountUndisturbed_iff {outcome : String}
    (hmount : (item.get "type").isText "COREDUMP_MOUNT")
    (houtcome : COREDUMP_MOUNT_OUTCOMES.entry (item.get "status") = some outcome) :
    MountUndisturbed item outcome ↔ outcome =
      if (item.get "responseComplete").isFalse then "UNKNOWN" else
      (terminalOutcomes.entry (item.get "status")).getD <|
      if isAccepted item then "PENDING" else if isErrorAnswer item then "FAILED"
      else databaseRestOutcome item := by
  have hrest : databaseRestOutcome item = outcome := by
    rw [databaseRestOutcome, if_pos hmount, houtcome]
    rfl
  rw [MountUndisturbed, hrest]
  by_cases hincomplete : (item.get "responseComplete").isFalse
  · rw [if_pos hincomplete, if_pos hincomplete]
  · rw [if_neg hincomplete, if_neg hincomplete]
    cases hown : terminalOutcomes.entry (item.get "status") with
    | some own =>
      obtain ⟨hfailed, rfl⟩ := mount_terminal hown houtcome
      simp [hfailed]
    | none =>
      have hnot : ¬(item.get "status").isText "FAILED" := by
        intro hfailed
        rw [isText_iff.mp hfailed] at hown
        cases hown
      rw [Option.getD_none, or_iff_right hnot]
      split
      next => rfl
      next =>
        split
        next herror => simp [herror]
        next herror => simp [herror]

/-! ## What the type says -/

theorem typeOutcome_debug (h : (item.get "type").isText "DEBUG_MODE") :
    typeOutcome item = debugOutcome item ∧ databaseTypeOutcome item =
      (DEBUG_MODE_OUTCOMES.entry (item.get "phase")).getD
        (if isBlank item "debugError" then "SUCCEEDED" else "FAILED") := by
  have htype : (item.get "type").hashable := by
    rw [isText_iff.mp h]
    rfl
  have hother := entry_debugMode h
  simp [typeOutcome_eq htype, databaseTypeOutcome, hother.1, hother.2, h]

theorem typeOutcome_other (htype : (item.get "type").hashable)
    (h : ¬(item.get "type").isText "DEBUG_MODE") :
    typeOutcome item = some (databaseTypeOutcome item) ∧
      (databaseTypeOutcome item = "UNKNOWN" ∨ databaseTypeOutcome item = "SUCCEEDED") := by
  rw [typeOutcome_eq htype, databaseTypeOutcome, if_neg h, if_neg h]
  split
  next => exact ⟨rfl, .inl rfl⟩
  next =>
    split
    next =>
      split
      next => exact ⟨rfl, .inr rfl⟩
      next => exact ⟨rfl, .inl rfl⟩
    next => exact ⟨rfl, .inr rfl⟩

/-- What a debugging session comes to. -/
theorem debugOutcome_iff {outcome : String} :
    debugOutcome item = some outcome ↔ (item.get "phase").hashable ∧
      (DEBUG_MODE_OUTCOMES.entry (item.get "phase") = some outcome ∨
        DEBUG_MODE_OUTCOMES.entry (item.get "phase") = none ∧
          (if (item.get "debugError").truthy then "FAILED" else "SUCCEEDED") = outcome) := by
  rw [debugOutcome, tableOr]
  split
  next hhash =>
    cases DEBUG_MODE_OUTCOMES.entry (item.get "phase") with
    | some result => simp [hhash]
    | none => simp [hhash]
  next hhash => simp [hhash]

theorem pendingSession_iff (htype : (item.get "type").hashable) :
    typeOutcome item = some "PENDING" ↔ PendingSession item := by
  by_cases h : (item.get "type").isText "DEBUG_MODE"
  · rw [(typeOutcome_debug h).1, debugOutcome_iff, PendingSession]
    constructor
    · intro ⟨_, hpending⟩
      refine ⟨h, hpending.resolve_right fun hnone => ?_⟩
      split at hnone
      next => exact absurd hnone.2 (by decide)
      next => exact absurd hnone.2 (by decide)
    · intro ⟨_, hpending⟩
      exact ⟨hashable_of_entry hpending, .inl hpending⟩
  · obtain ⟨hsame, hend⟩ := typeOutcome_other htype h
    refine iff_of_false (fun hpending => ?_) fun hpending => h hpending.1
    rw [Option.some.inj (hsame.symm.trans hpending)] at hend
    exact absurd hend (by decide)

theorem failedSession_iff (htype : (item.get "type").hashable) :
    typeOutcome item = some "FAILED" ↔ FailedSession item := by
  by_cases h : (item.get "type").isText "DEBUG_MODE"
  · rw [(typeOutcome_debug h).1, debugOutcome_iff, FailedSession]
    have herror : (if (item.get "debugError").truthy then "FAILED" else "SUCCEEDED") = "FAILED" ↔
        (item.get "debugError").truthy := by
      split
      next herror => exact iff_of_true rfl herror
      next herror => exact iff_of_false (by decide) herror
    rw [herror, and_iff_right h]
  · obtain ⟨hsame, hend⟩ := typeOutcome_other htype h
    refine iff_of_false (fun hfailed => ?_) fun hfailed => h hfailed.1
    rw [Option.some.inj (hsame.symm.trans hfailed)] at hend
    exact absurd hend (by decide)

theorem soundType_iff : databaseTypeOutcome item = "SUCCEEDED" ↔ SoundType item := by
  by_cases h : (item.get "type").isText "DEBUG_MODE"
  · obtain ⟨hinterruption, hpressure⟩ := entry_debugMode h
    rw [(typeOutcome_debug h).2, SoundType, hinterruption, hpressure]
    cases DEBUG_MODE_OUTCOMES.entry (item.get "phase") with
    | some outcome => simp [h]
    | none =>
      by_cases hblank : isBlank item "debugError"
      · simp [h, hblank]
      · simp [h, hblank]
  · rw [databaseTypeOutcome, if_neg h, SoundType, Option.isNone_iff_eq_none]
    cases hinterruption : interruptions.entry (item.get "type") with
    | some outcome => simp
    | none =>
      cases hpressure : pressureEvents.entry (item.get "type") with
      | none => simp [h]
      | some outcome =>
        by_cases hlevel : (item.get "level").isText "NORMAL"
        · simp [h, hlevel]
        · simp [hlevel]

theorem sameSession_iff (htype : (item.get "type").hashable) :
    typeOutcome item = some (databaseTypeOutcome item) ↔ SameSession item := by
  by_cases h : (item.get "type").isText "DEBUG_MODE"
  · rw [(typeOutcome_debug h).1, (typeOutcome_debug h).2, debugOutcome_iff, SameSession,
      imp_iff_right h]
    refine and_congr_right fun _ => ?_
    cases DEBUG_MODE_OUTCOMES.entry (item.get "phase") with
    | some outcome => simp
    | none =>
      cases (item.get "debugError").truthy with
      | true => cases isBlank item "debugError" <;> simp
      | false => cases isBlank item "debugError" <;> simp
  · exact iff_of_true (typeOutcome_other htype h).1 fun hdebug => absurd hdebug h

/-! ## What the answer says -/

theorem field_of_get {name : String} (h : item.get name = value) (hnull : value ≠ .null) :
    item.field name = some value := by
  cases hfield : item.field name with
  | none => exact absurd (h.symm.trans (by simp [Document.get, hfield])) hnull
  | some found => simpa [Document.get, hfield] using h

theorem answer_int {status : Int} (h : item.get "httpStatus" = .int status) :
    isAccepted item = decide (status = 202) ∧ isErrorAnswer item = decide (400 ≤ status) := by
  have hfield := field_of_get h nofun
  rw [isAccepted, isErrorAnswer, hfield]
  refine ⟨Bool.eq_iff_iff.mpr ?_, Bool.eq_iff_iff.mpr ?_⟩
  · rw [decide_eq_true_iff]
    exact beq_iff_eq.trans compare_eq_iff_eq
  · rw [decide_eq_true_iff]
    exact bne_iff_ne.trans (compare_lt_iff_lt.not.trans not_lt)

/-- Truth values are behind the numbers. -/
theorem answer_bool {flag : Bool} (h : item.get "httpStatus" = .bool flag) :
    isAccepted item = false ∧ isErrorAnswer item = true := by
  have hfield := field_of_get h nofun
  rw [isAccepted, isErrorAnswer, hfield]
  exact ⟨rfl, rfl⟩

theorem agreesOnHttp_iff (htype : (item.get "type").hashable)
    (hrest : databaseRestOutcome item = databaseTypeOutcome item) :
    (match (item.get "httpStatus").asInt with
      | some status => some (httpOutcome status)
      | none => typeOutcome item) =
      some (if isAccepted item then "PENDING" else if isErrorAnswer item then "FAILED"
        else databaseRestOutcome item) ↔ AgreesOnHttp item := by
  have hother : typeOutcome item = some (if isAccepted item then "PENDING"
      else if isErrorAnswer item then "FAILED" else databaseTypeOutcome item) ↔
      if isAccepted item then PendingSession item
      else if isErrorAnswer item then FailedSession item else SameSession item := by
    split
    next => exact pendingSession_iff htype
    next =>
      split
      next => exact failedSession_iff htype
      next => exact sameSession_iff htype
  rw [hrest, AgreesOnHttp]
  cases hstatus : item.get "httpStatus" with
  | int status =>
    obtain ⟨haccepted, herror⟩ := answer_int hstatus
    have hasInt : (BsonValue.int status).asInt = some status := rfl
    simp only [hasInt, haccepted, herror, httpOutcome, decide_eq_true_eq, Option.some.injEq]
    by_cases h202 : status = 202
    · simp [h202]
    · by_cases h400 : 400 ≤ status
      · simp [h202, h400]
      · rw [if_neg h202, if_neg h400, if_neg h202, if_neg h400, ← soundType_iff, eq_comm]
        simp [h202, h400]
  | bool flag =>
    obtain ⟨haccepted, herror⟩ := answer_bool hstatus
    refine iff_of_false (fun heq => ?_) id
    rw [haccepted, herror] at heq
    have hend : some "SUCCEEDED" = some "FAILED" := by
      cases flag with
      | false => exact heq
      | true => exact heq
    exact absurd hend (by decide)
  | _ => exact hother

theorem agreesOnAnswer_iff (htype : (item.get "type").hashable)
    (hrest : databaseRestOutcome item = databaseTypeOutcome item) :
    (if (item.get "responseComplete").isFalse then some "UNKNOWN" else
      tableOr terminalOutcomes (item.get "status") <|
      match (item.get "httpStatus").asInt with
      | some status => some (httpOutcome status)
      | none => typeOutcome item) =
      some (if (item.get "responseComplete").isFalse then "UNKNOWN" else
        (terminalOutcomes.entry (item.get "status")).getD <|
        if isAccepted item then "PENDING" else if isErrorAnswer item then "FAILED"
        else databaseRestOutcome item) ↔ AgreesOnAnswer item := by
  rw [AgreesOnAnswer, ← agreesOnHttp_iff htype hrest]
  by_cases hincomplete : (item.get "responseComplete").isFalse
  · simp [hincomplete]
  · rw [if_neg hincomplete, if_neg hincomplete, tableOr_eq_getD, or_iff_right hincomplete]

theorem agreesOnOutcome_iff (htype : (item.get "type").hashable) :
    eventOutcome item = some (databaseOutcome item) ↔ AgreesOnOutcome item := by
  rw [eventOutcome, databaseOutcome, tableOr_eq_getD, AgreesOnOutcome, tableOr_eq_getD,
    AgreesOnMount]
  refine or_congr_right (and_congr_right fun _ => or_congr_right (and_congr_right fun _ => ?_))
  by_cases hmount : (item.get "type").isText "COREDUMP_MOUNT"
  · rw [if_pos hmount, if_pos hmount]
    cases houtcome : COREDUMP_MOUNT_OUTCOMES.entry (item.get "status") with
    | some outcome =>
      have hhash := hashable_of_entry houtcome
      show _ ↔ MountUndisturbed item outcome
      rw [mountUndisturbed_iff hmount houtcome, tableOr, if_pos hhash, houtcome, Option.some_or,
        Option.some.injEq]
    | none =>
      have hrest := databaseRestOutcome_eq fun _ => houtcome
      show _ ↔ (item.get "status").hashable ∧ AgreesOnAnswer item
      rw [← agreesOnAnswer_iff htype hrest, tableOr, houtcome, Option.none_or]
      split
      next hhash =>
        exact (and_iff_right hhash).symm
      next hhash => exact iff_of_false nofun fun h => hhash h.1
  · have hrest := databaseRestOutcome_eq fun h => absurd h hmount
    rw [if_neg hmount, if_neg hmount, ← agreesOnAnswer_iff htype hrest]
    rfl

/-! ## Levels -/

theorem eventLevel_iff {outcome level : String} (houtcome : eventOutcome item = some outcome) :
    eventLevel item none = some level ↔ (item.get "type").hashable ∧
      ((pressureEvents.entry (item.get "type")).isSome ∨ (item.get "level").hashable) ∧
      level = databaseLevel item outcome := by
  have hlevel : eventLevel item none = (inTable pressureEvents (item.get "type")).bind fun pressure =>
      if pressure then some (pressureLevel (item.get "level"))
      else tableOr (textSet levels) (item.get "level") (some (outcomeLevel outcome)) := by
    rw [eventLevel, houtcome]
    rfl
  rw [hlevel, databaseLevel, inTable]
  by_cases htype : (item.get "type").hashable
  · rw [if_pos htype, Option.bind_some, and_iff_right htype]
    by_cases hpressure : (pressureEvents.entry (item.get "type")).isSome
    · rw [if_pos hpressure, if_pos hpressure, and_iff_right (.inl hpressure), Option.some.injEq]
      exact eq_comm
    · rw [if_neg hpressure, if_neg hpressure, or_iff_right hpressure, tableOr]
      by_cases hhash : (item.get "level").hashable
      · rw [if_pos hhash, and_iff_right hhash]
        cases (textSet levels).entry (item.get "level") with
        | none => exact Option.some_inj.trans eq_comm
        | some own => exact Option.some_inj.trans eq_comm
      · simp [hhash]
  · simp [htype]

theorem derivedAsShown_iff (item : Document) : DerivedAsShown item ↔ AgreesWithPresenter item := by
  rw [DerivedAsShown, AgreesWithPresenter]
  have houtcome : (deriveFields item).field "_derivedOutcome" =
      some (.string (databaseOutcome item)) := by
    rw [deriveFields_eq, field_set, field_set]
    rfl
  have hlevel : (deriveFields item).field "_derivedLevel" =
      some (.string (databaseLevel item (databaseOutcome item))) := by
    rw [deriveFields_eq, field_set]
    rfl
  constructor
  · intro ⟨outcome, level, hshown, hshownLevel, hderived, hderivedLevel⟩
    have hsame : databaseOutcome item = outcome := by
      rw [houtcome] at hderived
      exact BsonValue.string.inj (Option.some.inj hderived)
    obtain ⟨htype, hhash, -⟩ := (eventLevel_iff hshown).mp hshownLevel
    refine ⟨htype, hhash, (agreesOnOutcome_iff htype).mp ?_⟩
    rw [hshown, hsame]
  · intro ⟨htype, hhash, hagrees⟩
    have hshown := (agreesOnOutcome_iff htype).mpr hagrees
    have hshownLevel := (eventLevel_iff hshown).mpr ⟨htype, hhash, rfl⟩
    exact ⟨_, _, hshown, hshownLevel, houtcome, hlevel⟩

/-- A mount that succeeded, and an answer that did not come to its end. -/
theorem interrupted_mount_differs :
    ¬DerivedAsShown [("type", .string "COREDUMP_MOUNT"), ("status", .string "MOUNTED"),
      ("responseComplete", .bool false)] := by
  intro ⟨outcome, level, hshown, _, hderived, _⟩
  have hpresenter : eventOutcome [("type", .string "COREDUMP_MOUNT"), ("status", .string "MOUNTED"),
      ("responseComplete", .bool false)] = some "SUCCEEDED" := by decide
  rw [hpresenter] at hshown
  rw [deriveFields_eq, field_set, field_set] at hderived
  cases hshown
  exact absurd (BsonValue.string.inj (Option.some.inj hderived)) (by decide)

end CameraLogs.Administration
