import Egressfox.Artifact.Validated
import Egressfox.Lib.Assoc
import Egressfox.Lib.Trail

/-!
# Publication to a file

`FilePublisher` of `internal/publish/file.go`: a target with its receipt, a copy of the
previous target, and a journal that names the artifact while it is being replaced.

A `Disk` is what is in these four files, and `Files` adds the temporaries.  Everything is a
regular file that only the owner can access, so `validateDirectory` succeeds and is left
out.  The methods are computations with a trail: every file operation is a step, and a
crash can come between any two of them.

Renames, directory syncs and removals may fail; `Faults` says which, by the place of the
call, as no call is made twice in one `Publish`.  A failed operation changes nothing.
Creating, writing and reading files succeeds.
-/

namespace Egressfox.Publish

open Lib Artifact

/-- The paths next to the target. -/
inductive Path where
  | target
  | receipt
  | previous
  | journal
deriving DecidableEq, Repr

/-- What is in the four files. -/
structure Disk where
  target : Option Bytes
  receipt : Option Bytes
  previous : Option Bytes
  journal : Option Bytes
deriving DecidableEq

def Disk.get (disk : Disk) : Path → Option Bytes
  | .target => disk.target
  | .receipt => disk.receipt
  | .previous => disk.previous
  | .journal => disk.journal

def Disk.set (disk : Disk) (path : Path) (content : Option Bytes) : Disk :=
  match path with
  | .target => { disk with target := content }
  | .receipt => { disk with receipt := content }
  | .previous => { disk with previous := content }
  | .journal => { disk with journal := content }

/-- The directory of the target: the four files, and the temporaries with their names. -/
structure Files where
  disk : Disk
  temps : Assoc Nat Bytes

/-- The calls that may fail, by what they are for. -/
inductive Site where
  | recoveryReceipt
  | recovery
  | backup
  | journal
  | abort
  | target
  | receipt
  | cleanup
  | rollbackTarget
  | rollbackReceipt
  | rollback
deriving DecidableEq, Repr

/-- Which calls fail. -/
structure Faults where
  rename : Site → Bool
  syncDir : Site → Bool
  remove : Site → Bool
  /-- The removal of a temporary. -/
  removeTemp : Nat → Bool

/-- A healthy file system. -/
def Faults.none : Faults := ⟨fun _ => false, fun _ => false, fun _ => false, fun _ => false⟩

/-- The sentinel error of a `Failure`. -/
inductive FailureKind where
  | target
  | ownership
  | publication
deriving DecidableEq, Repr

/-- The code of a `Failure`. -/
inductive FailureCode where
  | targetRead
  | orphanReceipt
  | unmanagedTarget
  | receiptMismatch
  | receiptDecode
  | journal
  | cancelled
  | backupCommit
  | backupSync
  | targetCommit
  | targetSync
  | readback
  | receiptCommit
  | journalCleanup
  | receiptSync
  | recoveryReceipt
  | recoveryCleanup
  | recoverySync
  | rollbackFailed
deriving DecidableEq, Repr

structure Failure where
  kind : FailureKind
  code : FailureCode
deriving DecidableEq, Repr

/-! ## File operations -/

abbrev FilesM := TrailM Files

/-- A name that no temporary has. -/
def freshName (temps : Assoc Nat Bytes) : Nat := temps.keys.foldr max 0 + 1

/-- Write a temporary, and return its name. -/
def stage (content : Bytes) : FilesM Nat := do
  let name ← TrailM.step fun files =>
    let name := freshName files.temps
    (name, { files with temps := files.temps.insert name [] })
  TrailM.step fun files => (name, { files with temps := files.temps.insert name content })

/-- Rename a temporary; the result says whether this succeeds. -/
def renameTemp (fails : Bool) (name : Nat) (path : Path) : FilesM Bool :=
  TrailM.step fun files =>
    match files.temps.lookup name with
    | none => (false, files)
    | some content =>
      if fails then (false, files)
      else (true, ⟨files.disk.set path (some content), files.temps.erase name⟩)

/-- Rename one of the four files. -/
def renameFile (fails : Bool) (source path : Path) : FilesM Bool :=
  TrailM.step fun files =>
    match files.disk.get source with
    | none => (false, files)
    | some content =>
      if fails then (false, files)
      else (true, { files with disk := (files.disk.set source none).set path (some content) })

/-- Sync the directory.  Renames and removals are persistent in program order in any case. -/
def syncDir (fails : Bool) : FilesM Bool := TrailM.step fun files => (!fails, files)

/-- What `os.Remove` says. -/
inductive Removal where
  | removed
  | notExist
  | failed
deriving DecidableEq

def remove (fails : Bool) (path : Path) : FilesM Removal :=
  TrailM.step fun files =>
    if fails then (.failed, files)
    else
      match files.disk.get path with
      | none => (.notExist, files)
      | some _ => (.removed, { files with disk := files.disk.set path none })

/-- Remove a temporary, whatever comes of it. -/
def removeTemp (faults : Faults) (name : Nat) : FilesM Unit :=
  TrailM.step fun files =>
    ((), if faults.removeTemp name then files else { files with temps := files.temps.erase name })

def removeTemps (faults : Faults) : List Nat → FilesM Unit
  | [] => pure ()
  | name :: names => do
      removeTemp faults name
      removeTemps faults names

/-- `FilePublisher.cleanupTemps`. -/
def cleanupTemps (faults : Faults) : FilesM Unit := do
  let names ← TrailM.read fun files => files.temps.keys
  removeTemps faults names

/-- `FilePublisher.writeAtomic`. -/
def writeAtomic (faults : Faults) (site : Site) (path : Path) (content : Bytes) : FilesM Bool := do
  let name ← stage content
  let renamed ← renameTemp (faults.rename site) name path
  let written ← if renamed then syncDir (faults.syncDir site) else pure false
  removeTemp faults name
  pure written

/-- What `readRegular` says. -/
inductive Reading where
  | content (bytes : Bytes)
  | notExist
  | tooLarge
deriving DecidableEq

/-- `readRegular`. -/
def readRegular (limit : Nat) : Option Bytes → Reading
  | none => .notExist
  | some bytes => if bytes.length > limit then .tooLarge else .content bytes

/-- The limit for receipts and journals. -/
def metadataLimit : Nat := 64 * 2 ^ 10

/-- The limit for targets. -/
def targetLimit : Nat := 64 * 2 ^ 20

/-! ## The publisher -/

/-- The journal names the artifact that is in the target. -/
def journalMatches (E : Encoding) (disk : Disk) (journal : Bytes) : Bool :=
  match readRegular targetLimit disk.target with
  | .content content => (E.matchesProtectedReceipt content journal).isSome
  | _ => false

/-- The end of `recover`. -/
def discardJournal (faults : Faults) : FilesM (Option Failure) := do
  let removal ← remove (faults.remove .recovery) .journal
  if removal ≠ .removed then pure (some ⟨.publication, .recoveryCleanup⟩)
  else do
    let synced ← syncDir (faults.syncDir .recovery)
    if !synced then pure (some ⟨.publication, .recoverySync⟩)
    else do
      cleanupTemps faults
      pure none

/-- `FilePublisher.recover`. -/
def recover (E : Encoding) (faults : Faults) : FilesM (Option Failure) := do
  let disk ← TrailM.read Files.disk
  match readRegular metadataLimit disk.journal with
  | .notExist => do
      cleanupTemps faults
      pure none
  | .tooLarge => pure (some ⟨.ownership, .journal⟩)
  | .content journal => do
      let restored ←
        if journalMatches E disk journal then writeAtomic faults .recoveryReceipt .receipt journal
        else pure true
      if !restored then pure (some ⟨.publication, .recoveryReceipt⟩)
      else discardJournal faults

/-- `FilePublisher.currentOwned`: the content and the receipt. -/
def currentOwned (E : Encoding) (disk : Disk) : Except Failure (Option (Bytes × Bytes)) :=
  match readRegular targetLimit disk.target with
  | .notExist => if disk.receipt.isSome then .error ⟨.ownership, .orphanReceipt⟩ else .ok none
  | .tooLarge => .error ⟨.target, .targetRead⟩
  | .content content =>
    match readRegular metadataLimit disk.receipt with
    | .content receipt =>
      if (E.matchesProtectedReceipt content receipt).isSome then .ok (some (content, receipt))
      else .error ⟨.ownership, .receiptMismatch⟩
    | _ => .error ⟨.ownership, .unmanagedTarget⟩

/-- The receipt of what is owned. -/
def ownedReceipt (E : Encoding) (disk : Disk) : Except Failure (Option Receipt) :=
  match currentOwned E disk with
  | .error failure => .error failure
  | .ok none => .ok none
  | .ok (some (_, encoded)) =>
    match E.restore encoded with
    | none => .error ⟨.ownership, .receiptDecode⟩
    | some receipt => .ok (some receipt)

/-- `FilePublisher.CurrentReceipt`. -/
def currentReceipt (E : Encoding) (faults : Faults) : FilesM (Except Failure (Option Receipt)) := do
  let failure ← recover E faults
  match failure with
  | some failure => pure (.error failure)
  | none => TrailM.read fun files => ownedReceipt E files.disk

/-- `FilePublisher.rollback`, after what was there before. -/
def rollback (faults : Faults) (current : Option (Bytes × Bytes)) (code : FailureCode) :
    FilesM (Except Failure Publication) := do
  let recovered ←
    match current with
    | some (_, previousReceipt) => do
        let renamed ← renameFile (faults.rename .rollbackTarget) .previous .target
        let restored ← writeAtomic faults .rollbackReceipt .receipt previousReceipt
        pure (renamed && restored)
    | none => do
        let target ← remove (faults.remove .rollbackTarget) .target
        let receipt ← remove (faults.remove .rollbackReceipt) .receipt
        pure (target ≠ .failed && receipt ≠ .failed)
  let _ ← remove (faults.remove .rollback) .journal
  let _ ← syncDir (faults.syncDir .rollback)
  pure (.error ⟨.publication, if recovered then code else .rollbackFailed⟩)

/-- The exits of `Publish` after the journal and before the target is replaced. -/
def abort (faults : Faults) (code : FailureCode) : FilesM (Except Failure Publication) := do
  let _ ← remove (faults.remove .abort) .journal
  let _ ← syncDir (faults.syncDir .abort)
  pure (.error ⟨.publication, code⟩)

/-- `Publish` once the new target is in place and synced. -/
def finish (E : Encoding) (faults : Faults) (v : Validated) (current : Option (Bytes × Bytes)) :
    FilesM (Except Failure Publication) := do
  let target ← TrailM.read fun files => files.disk.target
  if readRegular (v.content.length + 1) target ≠ .content v.content then
    rollback faults current .readback
  else do
    let written ← writeAtomic faults .receipt .receipt (E.protectedReceipt v)
    if !written then rollback faults current .receiptCommit
    else do
      let removal ← remove (faults.remove .cleanup) .journal
      if removal = .failed then pure (.error ⟨.publication, .journalCleanup⟩)
      else do
        let synced ← syncDir (faults.syncDir .cleanup)
        if !synced then pure (.error ⟨.publication, .receiptSync⟩)
        else pure (.ok ⟨v.profile, true⟩)

/-- `Publish` from the journal on, with the staged candidate. -/
def commit (E : Encoding) (faults : Faults) (cancelled : Bool) (v : Validated)
    (current : Option (Bytes × Bytes)) (candidate : Nat) :
    FilesM (Except Failure Publication) := do
  let journaled ← writeAtomic faults .journal .journal (E.protectedReceipt v)
  if !journaled then pure (.error ⟨.publication, .journal⟩)
  else if cancelled then abort faults .cancelled
  else do
    let renamed ← renameTemp (faults.rename .target) candidate .target
    if !renamed then abort faults .targetCommit
    else do
      let synced ← syncDir (faults.syncDir .target)
      if !synced then rollback faults current .targetSync
      else finish E faults v current

/-- `Publish` of new content: the candidate and the backup are staged, and removed at the end. -/
def replace (E : Encoding) (faults : Faults) (cancelled : Bool) (v : Validated)
    (current : Option (Bytes × Bytes)) : FilesM (Except Failure Publication) := do
  let candidate ← stage v.content
  let result ←
    match current with
    | none => commit E faults cancelled v none candidate
    | some (content, receipt) => do
        let backup ← stage content
        let renamed ← renameTemp (faults.rename .backup) backup .previous
        let result ←
          if !renamed then pure (.error ⟨.publication, .backupCommit⟩)
          else do
            let synced ← syncDir (faults.syncDir .backup)
            if !synced then pure (.error ⟨.publication, .backupSync⟩)
            else commit E faults cancelled v (some (content, receipt)) candidate
        removeTemp faults backup
        pure result
  removeTemp faults candidate
  pure result

/-- Whether the context is cancelled when `Publish` looks at it. -/
structure Cancellation where
  atStart : Bool
  beforeCommit : Bool

/-- Never. -/
def Cancellation.never : Cancellation := ⟨false, false⟩

/-- `FilePublisher.Publish`. -/
def publish (E : Encoding) (faults : Faults) (cancelled : Cancellation) (v : Validated) :
    FilesM (Except Failure Publication) := do
  let failure ← recover E faults
  match failure with
  | some failure => pure (.error failure)
  | none =>
    if cancelled.atStart then pure (.error ⟨.publication, .cancelled⟩)
    else do
      let disk ← TrailM.read Files.disk
      match currentOwned E disk with
      | .error failure => pure (.error failure)
      | .ok current =>
        if current.map Prod.fst = some v.content then
          if E.matchesProtectedReceipt v.content ((current.map Prod.snd).getD []) =
              some v.profile then
            pure (.ok ⟨v.profile, false⟩)
          else pure (.error ⟨.ownership, .receiptMismatch⟩)
        else replace E faults cancelled.beforeCommit v current

end Egressfox.Publish
