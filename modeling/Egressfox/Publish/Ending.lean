import Egressfox.Publish.File

/-!
# How a publication ends

Triples for the operations of `FilePublisher`, up to `replace`.  Temporaries matter only as
long as they are to be renamed, so an assertion `At disk kept` is about the four files and
the temporaries that are still needed.

`replace_triple` says both how a replacement ends, for every pattern of faults (`Ending`),
and which states it goes through if there are none (`Situation`).
-/

namespace Egressfox.Publish

open Lib Artifact TrailM

/-- What is in the four files, and in these temporaries. -/
def At (disk : Disk) (kept : List (Nat × Bytes)) (files : Files) : Prop :=
  files.disk = disk ∧ ∀ entry ∈ kept, files.temps.lookup entry.1 = some entry.2

/-- An invariant of the four files. -/
def OnDisk (I : Disk → Prop) (files : Files) : Prop := I files.disk

variable {faults : Faults} {site : Site} {previous : Option Bytes} {kept : List (Nat × Bytes)}

/-! ## File operations -/

section Operations

variable {I : Disk → Prop} {disk : Disk} {kept : List (Nat × Bytes)} {name : Nat}
  {path : Path} {content : Bytes} {fails : Bool}

theorem ne_freshName {temps : Assoc Nat Bytes} (h : temps.lookup name = some content) :
    name ≠ freshName temps := by
  have hmem : name ∈ temps.keys := by
    rw [← AList.mem_keys, ← AList.lookup_isSome, h]
    rfl
  have hle : name ≤ temps.keys.foldr max 0 := List.le_max_of_le hmem le_rfl
  unfold freshName
  omega

theorem stage_triple (hI : I disk) :
    Triple (At disk kept) (OnDisk I) (stage content) fun name files =>
      (∀ entry ∈ kept, entry.1 ≠ name) ∧ At disk ((name, content) :: kept) files := by
  have hcreate : Triple (At disk kept) (OnDisk I)
      (TrailM.step fun files => (freshName files.temps,
        { files with temps := files.temps.insert (freshName files.temps) [] }))
      fun name files => (∀ entry ∈ kept, entry.1 ≠ name) ∧ At disk kept files := by
    refine Triple.step ?_
    rintro files ⟨rfl, hkept⟩
    have hfresh : ∀ entry ∈ kept, entry.1 ≠ freshName files.temps :=
      fun entry hentry => ne_freshName (hkept entry hentry)
    refine ⟨hI, hfresh, rfl, fun entry hentry => ?_⟩
    rw [AList.lookup_insert_ne (hfresh entry hentry)]
    exact hkept entry hentry
  refine Triple.bind hcreate fun name => Triple.assume fun hname => Triple.step ?_
  rintro files ⟨rfl, hkept⟩
  refine ⟨hI, hname, rfl, fun entry hentry => ?_⟩
  rcases List.mem_cons.mp hentry with rfl | hentry
  · exact AList.lookup_insert _
  · rw [AList.lookup_insert_ne (hname entry hentry)]
    exact hkept entry hentry

theorem renameTemp_triple (hI : I disk)
    (hI' : fails = false → I (disk.set path (some content)))
    (hname : ∀ entry ∈ kept, entry.1 ≠ name) :
    Triple (At disk ((name, content) :: kept)) (OnDisk I) (renameTemp fails name path)
      fun renamed files => renamed = !fails ∧
        At (if fails then disk else disk.set path (some content)) kept files := by
  refine Triple.step ?_
  rintro files ⟨rfl, hkept⟩
  have hlookup : files.temps.lookup name = some content := hkept (name, content) (by simp)
  have hrest : ∀ entry ∈ kept, files.temps.lookup entry.1 = some entry.2 :=
    fun entry hentry => hkept entry (by simp [hentry])
  rw [hlookup]
  cases fails with
  | true => exact ⟨hI, rfl, rfl, hrest⟩
  | false =>
    refine ⟨hI' rfl, rfl, rfl, fun entry hentry => ?_⟩
    change (files.temps.erase name).lookup entry.1 = some entry.2
    rw [AList.lookup_erase_ne (hname entry hentry)]
    exact hrest entry hentry

theorem renameFile_triple {source : Path} (hI : I disk) (hsource : disk.get source = some content)
    (hI' : fails = false → I ((disk.set source none).set path (some content))) :
    Triple (At disk kept) (OnDisk I) (renameFile fails source path) fun renamed files =>
      renamed = !fails ∧
        At (if fails then disk else (disk.set source none).set path (some content)) kept files := by
  refine Triple.step ?_
  rintro files ⟨rfl, hkept⟩
  rw [hsource]
  cases fails with
  | true => exact ⟨hI, rfl, rfl, hkept⟩
  | false => exact ⟨hI' rfl, rfl, rfl, hkept⟩

theorem syncDir_triple (hI : I disk) :
    Triple (At disk kept) (OnDisk I) (syncDir fails) fun synced files =>
      synced = !fails ∧ At disk kept files := by
  refine Triple.step ?_
  rintro files ⟨rfl, hkept⟩
  exact ⟨hI, rfl, rfl, hkept⟩

theorem set_none_eq_self (h : disk.get path = none) : disk.set path none = disk := by
  cases disk
  cases path
  all_goals
    obtain rfl := h
    rfl

theorem remove_triple (hI : I disk) (hI' : fails = false → I (disk.set path none)) :
    Triple (At disk kept) (OnDisk I) (remove fails path) fun removal files =>
      removal = (if fails then .failed else if disk.get path = none then .notExist else .removed) ∧
        At (if fails then disk else disk.set path none) kept files := by
  refine Triple.step ?_
  rintro files ⟨rfl, hkept⟩
  cases fails with
  | true => exact ⟨hI, rfl, rfl, hkept⟩
  | false =>
    cases hget : files.disk.get path with
    | none =>
      refine ⟨hI, rfl, ?_, hkept⟩
      exact (set_none_eq_self hget).symm
    | some content => exact ⟨hI' rfl, rfl, rfl, hkept⟩

theorem removeTemp_triple (hI : I disk) (hname : ∀ entry ∈ kept, entry.1 ≠ name) :
    Triple (At disk kept) (OnDisk I) (removeTemp faults name)
      fun _ files => At disk kept files := by
  refine Triple.step ?_
  rintro files ⟨rfl, hkept⟩
  cases hfails : faults.removeTemp name with
  | true => exact ⟨hI, rfl, hkept⟩
  | false =>
    refine ⟨hI, rfl, fun entry hentry => ?_⟩
    change (files.temps.erase name).lookup entry.1 = some entry.2
    rw [AList.lookup_erase_ne (hname entry hentry)]
    exact hkept entry hentry

theorem removeTemps_triple (hI : I disk) (names : List Nat) :
    Triple (At disk []) (OnDisk I) (removeTemps faults names) fun _ files => At disk [] files := by
  induction names with
  | nil => exact Triple.pure fun files hfiles => hfiles
  | cons name names ih => exact Triple.bind (removeTemp_triple hI (by simp)) fun _ => ih

theorem cleanupTemps_triple (hI : I disk) :
    Triple (At disk []) (OnDisk I) (cleanupTemps faults) fun _ files => At disk [] files := by
  intro files hfiles
  exact removeTemps_triple hI files.temps.keys files hfiles

theorem writeAtomic_triple (hI : I disk)
    (hI' : faults.rename site = false → I (disk.set path (some content))) :
    Triple (At disk kept) (OnDisk I) (writeAtomic faults site path content) fun written files =>
      written = (!faults.rename site && !faults.syncDir site) ∧
        At (if faults.rename site then disk else disk.set path (some content)) kept files := by
  unfold writeAtomic
  refine Triple.bind (stage_triple hI) fun name => Triple.assume fun hname => ?_
  refine Triple.bind_eq (renameTemp_triple hI hI' hname) ?_
  cases hrename : faults.rename site with
  | true =>
    refine Triple.bind_eq (a := false) (Triple.pure fun files hfiles => ⟨rfl, hfiles⟩) ?_
    exact Triple.bind (removeTemp_triple hI hname) fun _ =>
      Triple.pure fun files hfiles => ⟨rfl, hfiles⟩
  | false =>
    refine Triple.bind_eq (syncDir_triple (hI' hrename)) ?_
    exact Triple.bind (removeTemp_triple (hI' hrename) hname) fun _ =>
      Triple.pure fun files hfiles => ⟨rfl, hfiles⟩

end Operations

/-! ## Faults -/

namespace Faults

variable (faults : Faults) (hadPrevious : Bool)

/-- A call before the target is replaced fails, or the context is cancelled there. -/
def early (cancelled : Bool) : Bool :=
  (hadPrevious && (faults.rename .backup || faults.syncDir .backup)) ||
    faults.rename .journal || faults.syncDir .journal || cancelled || faults.rename .target

/-- A call fails after the target is replaced and before the receipt is. -/
def late : Bool := faults.syncDir .target || faults.rename .receipt || faults.syncDir .receipt

/-- A rollback puts the target back. -/
def targetRestored : Bool :=
  if hadPrevious then !faults.rename .rollbackTarget else !faults.remove .rollbackTarget

/-- A rollback finds the old receipt, or puts it back. -/
def receiptRestored : Bool :=
  faults.syncDir .target || faults.rename .receipt ||
    if hadPrevious then !faults.rename .rollbackReceipt else !faults.remove .rollbackReceipt

end Faults

/-! ## States and endings -/

section Endings

variable (E : Encoding) (faults : Faults) (cancelled : Bool) (v : Validated)
  (old : Option (Bytes × Bytes))

/-- The states that a replacement goes through on a healthy file system. -/
inductive Situation : Disk → Prop where
  | before (previous : Option Bytes) :
      Situation ⟨old.map Prod.fst, old.map Prod.snd, previous, none⟩
  | journaled (previous : Option Bytes) (h : old.map Prod.fst ≠ some v.content) :
      Situation ⟨old.map Prod.fst, old.map Prod.snd, previous, some (E.protectedReceipt v)⟩
  | written (receipt previous : Option Bytes) :
      Situation ⟨some v.content, receipt, previous, some (E.protectedReceipt v)⟩
  | after (previous : Option Bytes) :
      Situation ⟨some v.content, some (E.protectedReceipt v), previous, none⟩

/-- What holds on the way: the state is one of these, if there are no faults. -/
def Safe (disk : Disk) : Prop := faults = .none → Situation E v old disk

/-- The journal is gone, or names the new artifact. -/
def JournalOf (journal : Option Bytes) : Prop :=
  journal = none ∨ journal = some (E.protectedReceipt v)

/-- How a replacement ends. -/
inductive Ending : Except Failure Publication → Disk → Prop where
  | kept (failure : Failure) (previous journal : Option Bytes)
      (hearly : faults.early old.isSome cancelled = true) (hjournal : JournalOf E v journal) :
      Ending (.error failure) ⟨old.map Prod.fst, old.map Prod.snd, previous, journal⟩
  | rolledBack (failure : Failure) (previous journal : Option Bytes)
      (hearly : faults.early old.isSome cancelled = false) (hlate : faults.late = true)
      (hjournal : JournalOf E v journal) :
      Ending (.error failure)
        ⟨if faults.targetRestored old.isSome then old.map Prod.fst else some v.content,
          if faults.receiptRestored old.isSome then old.map Prod.snd
            else some (E.protectedReceipt v), previous, journal⟩
  | unconfirmed (failure : Failure) (previous journal : Option Bytes)
      (hearly : faults.early old.isSome cancelled = false) (hlate : faults.late = false)
      (hfault : faults ≠ .none) (hjournal : JournalOf E v journal) :
      Ending (.error failure) ⟨some v.content, some (E.protectedReceipt v), previous, journal⟩
  | published (previous : Option Bytes) :
      Ending (.ok ⟨v.profile, true⟩) ⟨some v.content, some (E.protectedReceipt v), previous, none⟩

variable {E faults cancelled v old}

theorem Safe.of_situation {disk : Disk} (h : Situation E v old disk) : Safe E faults v old disk :=
  fun _ => h

theorem Safe.of_fault {disk : Disk} (h : faults ≠ .none) : Safe E faults v old disk :=
  fun hnone => absurd hnone h

theorem ne_none_of_syncDir (h : faults.syncDir site = true) : faults ≠ .none := by
  rintro rfl
  cases h

theorem ne_none_of_remove (h : faults.remove site = true) : faults ≠ .none := by
  rintro rfl
  cases h

/-- An ending, in a state that is safe. -/
def Ended (E : Encoding) (faults : Faults) (cancelled : Bool) (v : Validated)
    (old : Option (Bytes × Bytes)) (result : Except Failure Publication) (files : Files) : Prop :=
  Ending E faults cancelled v old result files.disk ∧ Safe E faults v old files.disk

/-- A computation ends a replacement, and goes through safe states. -/
def Ends (E : Encoding) (faults : Faults) (cancelled : Bool) (v : Validated)
    (old : Option (Bytes × Bytes)) (disk : Disk) (kept : List (Nat × Bytes))
    (x : FilesM (Except Failure Publication)) : Prop :=
  Triple (At disk kept) (OnDisk (Safe E faults v old)) x (Ended E faults cancelled v old)

theorem ends_pure {disk : Disk} {result : Except Failure Publication}
    (hending : Ending E faults cancelled v old result disk) (hsafe : Safe E faults v old disk) :
    Ends E faults cancelled v old disk kept (pure result) := by
  refine Triple.pure ?_
  rintro files ⟨rfl, -⟩
  exact ⟨hending, hsafe⟩

/-- The removal of a temporary at the end. -/
theorem Ended.removeTemp_triple (name : Nat) (result : Except Failure Publication) :
    Triple (Ended E faults cancelled v old result) (OnDisk (Safe E faults v old))
      (removeTemp faults name) fun _ => Ended E faults cancelled v old result := by
  refine Triple.step ?_
  rintro files ⟨hending, hsafe⟩
  cases hfails : faults.removeTemp name with
  | true | false => exact ⟨hsafe, hending, hsafe⟩

/-- The exits before the target is replaced. -/
theorem abort_triple {code : FailureCode} (hdiffers : old.map Prod.fst ≠ some v.content)
    (hearly : faults.early old.isSome cancelled = true) :
    Ends E faults cancelled v old
      ⟨old.map Prod.fst, old.map Prod.snd, previous, some (E.protectedReceipt v)⟩ kept
      (abort faults code) := by
  have hjournaled : Situation E v old
      ⟨old.map Prod.fst, old.map Prod.snd, previous, some (E.protectedReceipt v)⟩ :=
    .journaled previous hdiffers
  unfold abort
  refine Triple.bind_eq (remove_triple (.of_situation hjournaled)
    fun _ => .of_situation (.before previous)) ?_
  cases hremove : faults.remove .abort with
  | true =>
    refine Triple.bind_eq (syncDir_triple (.of_situation hjournaled)) ?_
    exact ends_pure (.kept _ previous _ hearly (.inr rfl)) (.of_situation hjournaled)
  | false =>
    refine Triple.bind_eq (syncDir_triple (.of_situation (.before previous))) ?_
    exact ends_pure (.kept _ previous _ hearly (.inl rfl)) (.of_situation (.before previous))

/-- **The rollback** restores the target and the receipt as far as its calls succeed. -/
theorem rollback_triple {code : FailureCode} {receipt : Option Bytes}
    (hearly : faults.early old.isSome cancelled = false) (hlate : faults.late = true)
    (hprevious : ∀ current, old = some current → previous = some current.1)
    (hreceipt : receipt = if faults.syncDir .target || faults.rename .receipt then
      old.map Prod.snd else some (E.protectedReceipt v)) :
    Ends E faults cancelled v old
      ⟨some v.content, receipt, previous, some (E.protectedReceipt v)⟩ kept
      (rollback faults old code) := by
  have hfault : faults ≠ .none := by
    rintro rfl
    cases hlate
  have hsafe : ∀ disk, Safe E faults v old disk := fun disk => .of_fault hfault
  -- the journal is removed or not, and nothing else happens
  have hlast : ∀ (recovered : Bool) (previous : Option Bytes), Ends E faults cancelled v old
      ⟨if faults.targetRestored old.isSome then old.map Prod.fst else some v.content,
        if faults.receiptRestored old.isSome then old.map Prod.snd
          else some (E.protectedReceipt v), previous, some (E.protectedReceipt v)⟩ kept
      (do
        let _ ← remove (faults.remove .rollback) .journal
        let _ ← syncDir (faults.syncDir .rollback)
        pure (.error ⟨.publication, if recovered then code else .rollbackFailed⟩)) := by
    intro recovered previous
    refine Triple.bind_eq (remove_triple (hsafe _) fun _ => hsafe _) ?_
    refine Triple.bind_eq (syncDir_triple (hsafe _)) (ends_pure ?_ (hsafe _))
    cases faults.remove .rollback with
    | true => exact .rolledBack _ previous _ hearly hlate (.inr rfl)
    | false => exact .rolledBack _ previous _ hearly hlate (.inl rfl)
  unfold rollback
  cases old with
  | none =>
    refine Triple.bind_eq (remove_triple (hsafe _) fun _ => hsafe _) ?_
    refine Triple.bind_eq (remove_triple (hsafe _) fun _ => hsafe _) ?_
    refine Triple.bind (Triple.pure ?_) fun recovered => hlast recovered previous
    rintro files ⟨hdisk, hkept⟩
    refine ⟨hdisk.trans ?_, hkept⟩
    rw [hreceipt]
    unfold Faults.targetRestored Faults.receiptRestored
    cases faults.remove .rollbackTarget <;> cases faults.remove .rollbackReceipt <;>
      cases faults.syncDir .target <;> cases faults.rename .receipt <;> rfl
  | some current =>
    obtain ⟨content, text⟩ := current
    obtain rfl := hprevious _ rfl
    refine Triple.bind_eq (renameFile_triple (hsafe _) rfl fun _ => hsafe _) ?_
    refine Triple.bind_eq (writeAtomic_triple (hsafe _) fun _ => hsafe _) ?_
    refine Triple.bind (Triple.pure ?_) fun recovered => hlast recovered
      (if faults.rename .rollbackTarget then some content else none)
    rintro files ⟨hdisk, hkept⟩
    refine ⟨hdisk.trans ?_, hkept⟩
    rw [hreceipt]
    unfold Faults.targetRestored Faults.receiptRestored
    cases faults.rename .rollbackTarget <;> cases faults.rename .rollbackReceipt <;>
      cases faults.syncDir .target <;> cases faults.rename .receipt <;> rfl

/-- `Publish` once the new target is in place and synced. -/
theorem finish_triple (hearly : faults.early old.isSome cancelled = false)
    (hsync : faults.syncDir .target = false)
    (hprevious : ∀ current, old = some current → previous = some current.1) :
    Ends E faults cancelled v old
      ⟨some v.content, old.map Prod.snd, previous, some (E.protectedReceipt v)⟩ kept
      (finish E faults v old) := by
  have hwritten : ∀ receipt, Safe E faults v old
      ⟨some v.content, receipt, previous, some (E.protectedReceipt v)⟩ :=
    fun receipt => .of_situation (.written receipt previous)
  have hafter : Safe E faults v old ⟨some v.content, some (E.protectedReceipt v), previous, none⟩ :=
    .of_situation (.after previous)
  have hread : readRegular (v.content.length + 1) (some v.content) = .content v.content :=
    if_neg (by omega)
  unfold finish
  refine Triple.bind_eq (Triple.read (a := some v.content) ?_) ?_
  · rintro files ⟨hdisk, -⟩
    rw [hdisk]
  rw [if_neg (not_not.mpr hread)]
  refine Triple.bind_eq (writeAtomic_triple (hwritten _) fun _ => hwritten _) ?_
  by_cases hfails : faults.rename .receipt || faults.syncDir .receipt
  · -- the receipt is not written for sure
    have hnot : (!faults.rename .receipt && !faults.syncDir .receipt) = false := by
      rw [← Bool.not_or, hfails]
      rfl
    rw [hnot]
    have hlate : faults.late = true := by
      rw [Faults.late, hsync, Bool.false_or, hfails]
    cases hrename : faults.rename .receipt with
    | true | false => exact rollback_triple hearly hlate hprevious (by rw [hsync, hrename]; rfl)
  · rw [Bool.or_eq_true, not_or, Bool.not_eq_true, Bool.not_eq_true] at hfails
    have hlate : faults.late = false := by
      rw [Faults.late, hsync, hfails.1, hfails.2]
      rfl
    rw [hfails.1, hfails.2]
    refine Triple.bind_eq (remove_triple (hwritten _) fun _ => hafter) ?_
    cases hremove : faults.remove .cleanup with
    | true =>
      exact ends_pure
        (.unconfirmed _ previous _ hearly hlate (ne_none_of_remove hremove) (.inr rfl))
        (hwritten _)
    | false =>
      refine Triple.bind_eq (syncDir_triple hafter) ?_
      cases hcleanup : faults.syncDir .cleanup with
      | true =>
        exact ends_pure
          (.unconfirmed _ previous _ hearly hlate (ne_none_of_syncDir hcleanup) (.inl rfl)) hafter
      | false => exact ends_pure (.published previous) hafter

/-- `Publish` from the journal on. -/
theorem commit_triple {candidate : Nat} (hdiffers : old.map Prod.fst ≠ some v.content)
    (hbackup : (old.isSome && (faults.rename .backup || faults.syncDir .backup)) = false)
    (hprevious : ∀ current, old = some current → previous = some current.1) :
    Ends E faults cancelled v old ⟨old.map Prod.fst, old.map Prod.snd, previous, none⟩
      [(candidate, v.content)] (commit E faults cancelled v old candidate) := by
  have hbefore : Safe E faults v old ⟨old.map Prod.fst, old.map Prod.snd, previous, none⟩ :=
    .of_situation (.before previous)
  have hjournaled : Safe E faults v old
      ⟨old.map Prod.fst, old.map Prod.snd, previous, some (E.protectedReceipt v)⟩ :=
    .of_situation (.journaled previous hdiffers)
  have hwritten : Safe E faults v old
      ⟨some v.content, old.map Prod.snd, previous, some (E.protectedReceipt v)⟩ :=
    .of_situation (.written _ previous)
  unfold commit
  refine Triple.bind_eq (writeAtomic_triple hbefore fun _ => hjournaled) ?_
  by_cases hfails : faults.rename .journal || faults.syncDir .journal
  · -- the journal is not written for sure
    have hnot : (!faults.rename .journal && !faults.syncDir .journal) = false := by
      rw [← Bool.not_or, hfails]
      rfl
    have hearly : faults.early old.isSome cancelled = true := by
      rw [Faults.early, hbackup, Bool.false_or, hfails]
      rfl
    rw [hnot]
    cases faults.rename .journal with
    | true => exact ends_pure (.kept _ previous _ hearly (.inl rfl)) hbefore
    | false => exact ends_pure (.kept _ previous _ hearly (.inr rfl)) hjournaled
  rw [Bool.or_eq_true, not_or, Bool.not_eq_true, Bool.not_eq_true] at hfails
  have hearly : faults.early old.isSome cancelled = (cancelled || faults.rename .target) := by
    rw [Faults.early, hbackup, hfails.1, hfails.2]
    rfl
  rw [hfails.1, hfails.2]
  cases hcancelled : cancelled with
  | true =>
    subst hcancelled
    exact abort_triple hdiffers hearly
  | false =>
    subst hcancelled
    refine Triple.bind_eq (renameTemp_triple hjournaled (fun _ => hwritten) (by simp)) ?_
    cases hrename : faults.rename .target with
    | true =>
      rw [hrename] at hearly
      exact abort_triple hdiffers hearly
    | false =>
      rw [hrename] at hearly
      refine Triple.bind_eq (syncDir_triple hwritten) ?_
      cases hsync : faults.syncDir .target with
      | true =>
        have hlate : faults.late = true := by
          rw [Faults.late, hsync]
          rfl
        exact rollback_triple hearly hlate hprevious (by rw [hsync]; rfl)
      | false => exact finish_triple hearly hsync hprevious

/-- **How a replacement ends**, and the states it goes through. -/
theorem replace_triple (hdiffers : old.map Prod.fst ≠ some v.content) :
    Ends E faults cancelled v old ⟨old.map Prod.fst, old.map Prod.snd, previous, none⟩ []
      (replace E faults cancelled v old) := by
  have hbefore : ∀ previous, Safe E faults v old
      ⟨old.map Prod.fst, old.map Prod.snd, previous, none⟩ :=
    fun previous => .of_situation (.before previous)
  unfold replace
  refine Triple.bind (stage_triple (hbefore previous)) fun candidate => Triple.assume fun _ => ?_
  have hcandidate : ∀ result, Triple (Ended E faults cancelled v old result)
      (OnDisk (Safe E faults v old)) (do removeTemp faults candidate; pure result)
      (Ended E faults cancelled v old) :=
    fun result => Triple.bind (Ended.removeTemp_triple candidate result) fun _ =>
      Triple.pure fun files hfiles => hfiles
  cases old with
  | none => exact Triple.bind (commit_triple hdiffers rfl (by simp)) hcandidate
  | some current =>
    obtain ⟨content, receipt⟩ := current
    refine Triple.bind (stage_triple (hbefore previous)) fun backup => Triple.assume fun hname => ?_
    have hbackup : ∀ result, Triple (Ended E faults cancelled v (some (content, receipt)) result)
        (OnDisk (Safe E faults v (some (content, receipt))))
        (do removeTemp faults backup; let result ← pure result; removeTemp faults candidate
            pure result)
        (Ended E faults cancelled v (some (content, receipt))) :=
      fun result => Triple.bind (Ended.removeTemp_triple backup result) fun _ =>
        Triple.bind (Triple.pure fun files hfiles => hfiles) hcandidate
    refine Triple.bind_eq (renameTemp_triple (hbefore previous) (fun _ => hbefore _) hname) ?_
    cases hrename : faults.rename .backup with
    | true =>
      have hearly : faults.early true cancelled = true := by
        rw [Faults.early, hrename]
        rfl
      exact Triple.bind (ends_pure (.kept _ previous _ hearly (.inl rfl)) (hbefore previous))
        hbackup
    | false =>
      refine Triple.bind_eq (syncDir_triple (hbefore _)) ?_
      cases hsync : faults.syncDir .backup with
      | true =>
        have hearly : faults.early true cancelled = true := by
          rw [Faults.early, hrename, hsync]
          rfl
        exact Triple.bind (ends_pure (.kept _ _ _ hearly (.inl rfl)) (hbefore _)) hbackup
      | false =>
        refine Triple.bind (commit_triple hdiffers ?_ ?_) hbackup
        · rw [hrename, hsync]
          rfl
        · intro current hcurrent
          obtain rfl := Option.some.inj hcurrent
          rfl

end Endings

end Egressfox.Publish
