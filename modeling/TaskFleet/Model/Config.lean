import Mathlib.Data.Rat.Defs

/-!
# `config.py`: the settings the queue and the assignment engine read

Every value comes from an environment variable; the field defaults are the
shipped ones. Whole-number settings are `Int`, because nothing in the source
stops an operator from setting a negative one.
-/

namespace TaskFleet.Model

/-- An instant or a number of seconds. -/
abbrev Seconds := ℚ

/-- The settings of one deployment that these modules read. -/
structure Config where
  taskAckTimeoutSeconds : Int := 30
  taskLeaseTtlSeconds : Int := 60
  taskLeaseRenewFraction : ℚ := 1 / 2
  taskMaxAttempts : Int := 3
  taskRetryBackoffBaseSeconds : Seconds := 5
  taskRetryBackoffFactor : ℚ := 2
  taskRetryBackoffMaxSeconds : Seconds := 60
  taskRetryExclusionSeconds : Int := 60
  taskDequeueMaxBatch : Int := 100
  taskEnqueueMaxBatch : Int := 10000
  taskResultMaxBytes : Int := 128 * 1024
  leaseReclaimBatch : Int := 100
  leaseDisconnectGraceSeconds : Int := 30
  workerDefaultMaxConcurrent : Int := 4
  workerMaxConcurrentCeiling : Int := 64

end TaskFleet.Model
