/-! # Rejections

The exceptions of `security.sql_guard`. Two axes are independent: whether a corrected re-prompt can
help (`kind`) and whether the request was refused rather than garbled (`isRefusal`). -/

namespace LocalSqlAgent

/-- `CorrectableRejection` or `PolicyRejection`. -/
inductive RejectionKind where
  | correctable
  | policy
  deriving DecidableEq, Repr

/-- `_REASONS`: the closed set of machine-readable refusal categories. -/
inductive Reason where
  | deniedColumn
  | joinOnlyColumn
  | forbiddenStatement
  | unknownTable
  | systemCatalogue
  | noTableReference
  | crossDatasource
  | ambiguousTable
  | other
  deriving DecidableEq, Repr

/-- **`SqlGuardRejection`**: every policy rejection is a refusal. -/
structure Rejection where
  /-- The class of the exception. -/
  kind : RejectionKind
  /-- The message. -/
  message : String
  /-- The machine-readable category. -/
  reason : Reason
  /-- The one column, table or keyword at fault, when there is exactly one. -/
  subject : Option String
  /-- Whether this is a refusal rather than unusable output. -/
  isRefusal : Bool
  /-- The table key of an unknown-column rejection. -/
  table : Option String
  /-- `PolicyRejection.is_refusal` is fixed. -/
  policy_refuses : kind = .policy → isRefusal = true
  deriving DecidableEq, Repr

namespace Rejection

/-- A correctable rejection that is unusable output. -/
def correctable (message : String) (reason : Reason) (subject : Option String := none)
    (table : Option String := none) : Rejection where
  kind := .correctable
  message := message
  reason := reason
  subject := subject
  isRefusal := false
  table := table
  policy_refuses := nofun

/-- A correctable rejection with `is_refusal` set on the instance. -/
def refusal (message : String) (reason : Reason) (subject : Option String := none) :
    Rejection where
  kind := .correctable
  message := message
  reason := reason
  subject := subject
  isRefusal := true
  table := none
  policy_refuses := fun _ => rfl

/-- A policy rejection. -/
def policy (message : String) (reason : Reason) (subject : Option String := none) :
    Rejection where
  kind := .policy
  message := message
  reason := reason
  subject := subject
  isRefusal := true
  table := none
  policy_refuses := fun _ => rfl

/-- A policy rejection naming a forbidden keyword. -/
def forbiddenKeyword (label : String) : Rejection :=
  policy ("Forbidden keyword detected: " ++ label) .forbiddenStatement label

end Rejection

end LocalSqlAgent
