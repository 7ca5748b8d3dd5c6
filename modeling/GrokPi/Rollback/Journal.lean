import GrokPi.Shared.Text

set_option autoImplicit false

namespace GrokPi.Rollback

abbrev Buffer := List UInt8

structure Digest where
  hex : Text
  size : hex.length = 64
  deriving DecidableEq

inductive StateRef where
  | absent
  | blob (digest : Digest)
  deriving DecidableEq

def StateRef.toText : StateRef → Text
  | .absent => "absent".toList
  | .blob digest => "blob:".toList ++ digest.hex

def blobRef (digest : Digest) : StateRef := .blob digest

def parseBlobRef : StateRef → Option Digest
  | .absent => none
  | .blob digest => some digest

inductive Tool where
  | write
  | edit
  deriving DecidableEq

inductive MutationState where
  | prepared
  | committed
  | unbound
  | reconciled
  deriving DecidableEq

structure MutationRecord where
  sequence : Nat
  operationId : Text
  piSessionId : Text
  treeEntryId : Option Text
  toolCallId : Text
  tool : Tool
  canonicalPath : Text
  before : StateRef
  after : StateRef
  state : MutationState
  toolReportedError : Bool
  preparedAt : Text
  deriving DecidableEq

inductive TransactionState where
  | prepared
  | committed
  | compensating
  | failed
  deriving DecidableEq

structure RollbackTransaction where
  transactionId : Text
  targetEntryId : Text
  sourceLeafId : Text
  plannedPaths : List Text
  state : TransactionState
  createdAt : Text
  deriving DecidableEq

inductive JournalRecord where
  | mutation (record : MutationRecord)
  | transaction (record : RollbackTransaction)
  deriving DecidableEq

def getMutations (records : List JournalRecord) : List MutationRecord :=
  records.filterMap fun
    | .mutation record => some record
    | .transaction _ => none

def getTransactions (records : List JournalRecord) : List RollbackTransaction :=
  records.filterMap fun
    | .mutation _ => none
    | .transaction record => some record

end GrokPi.Rollback
