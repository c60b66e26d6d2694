import Formulary.Formula.Error
import Formulary.Links.Basic

/-!
# Failures of the engine

Everything for which an operation of the engine may fail, with its message, and a coarse division by
what the caller can do about it.
-/

namespace Formulary

/-- Why an operation of the engine failed. -/
inductive Failure where
  /-- A formula is at fault. -/
  | formula (fault : Formula.Fault)
  /-- The links are at fault, or the store while they were followed or changed. -/
  | links (error : LinkError)
  /-- There is no calculation with this identity. -/
  | notFound (id : Int)
  /-- More than this many stale calculations hang on each other. -/
  | tooDeep (limit : Nat)
  /-- The store failed. -/
  | store (error : StoreError)
  deriving DecidableEq

/-- What a failure means to the caller. -/
inductive FailureKind where
  /-- The formula that was handed in has to be mended. -/
  | validation
  /-- The formula is sound but has no value. -/
  | evaluation
  /-- There is no such calculation. -/
  | notFound
  /-- Nothing that the caller could mend. -/
  | internal
  deriving DecidableEq

namespace Failure

/-- The message of a failure. -/
def message : Failure → String
  | .formula fault => fault.message
  | .links error => error.message
  | .notFound id => "a calculation with id " ++ toString id ++ " does not exist"
  | .tooDeep limit => "reference chain is deeper than " ++ toString limit ++ " calculations"
  | .store error => "storage failure: " ++ error.message

/-- The kind of a failure. -/
def kind : Failure → FailureKind
  | .formula fault =>
    if fault.isInputFault then .validation
    else
      match fault with
      | .divisionByZero _ | .tooDeep _ => .evaluation
      | _ => .internal
  | .links (.cycle _) => .validation
  | .links (.store _) => .internal
  | .notFound _ => .notFound
  | .tooDeep _ => .evaluation
  | .store _ => .internal

/-- Whether the caller can do something about a failure. -/
def isClientError (failure : Failure) : Bool :=
  failure.kind != .internal

end Failure

end Formulary
