import Mathlib.Logic.Basic

namespace Birdtest.Models.Job

inductive TaskState
  | available | claimed | completed
  deriving DecidableEq, Repr

inductive ClaimState
  | claimed | completed | abandoned | declined
  deriving DecidableEq, Repr

inductive JobStatus
  | inactive | active | completed
  deriving DecidableEq, Repr

end Birdtest.Models.Job
