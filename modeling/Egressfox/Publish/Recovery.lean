import Egressfox.Publish.Ending

/-!
# Recovery, and what a publication guarantees

On a healthy file system, recovery and `CurrentReceipt` only depend on the four files
(`settle`, `ownedReceipt`).  So the endings and the states of `Ending` say what is observed
after a crash or after a failed publication.

* `crash_atomic`: after any crashes, the old artifact or the new one is found with its receipt.
* `undone_iff`: after a failed publication the old artifact is found exactly if no call after
  the replacement of the target failed, or the rollback of it succeeded.
* `readable_back_iff`: after a successful publication its receipt is found exactly if the same
  content was not published with another receipt before.
-/

namespace Egressfox.Publish

open Lib Artifact TrailM

variable {E : Encoding}

/-! ## Recovery -/

/-- What recovery makes of the four files. -/
def settle (E : Encoding) (disk : Disk) : Disk :=
  match disk.journal with
  | none => disk
  | some journal =>
    ⟨disk.target, if journalMatches E disk journal then some journal else disk.receipt,
      disk.previous, none⟩

variable {I : Disk → Prop} {disk : Disk} {faults : Faults} {receipt previous : Option Bytes}
  {current : Option (Bytes × Receipt)}

/-- Without a journal there is nothing to recover, and no call can fail. -/
theorem recover_none_triple (hI : I disk) (hjournal : disk.journal = none) :
    Triple (At disk []) (OnDisk I) (recover E faults) fun failure files =>
      failure = none ∧ At disk [] files := by
  unfold recover
  refine Triple.bind_eq (Triple.read (a := disk) fun files hfiles => hfiles.1) ?_
  rw [hjournal]
  exact Triple.bind (cleanupTemps_triple hI) fun _ => Triple.pure fun files hfiles => ⟨rfl, hfiles⟩

theorem discardJournal_triple {target : Option Bytes} {journal : Bytes}
    (hI : I ⟨target, receipt, previous, some journal⟩) (hI' : I ⟨target, receipt, previous, none⟩) :
    Triple (At ⟨target, receipt, previous, some journal⟩ []) (OnDisk I) (discardJournal .none)
      fun failure files => failure = none ∧ At ⟨target, receipt, previous, none⟩ [] files := by
  unfold discardJournal
  refine Triple.bind_eq (remove_triple hI fun _ => hI') ?_
  refine Triple.bind_eq (syncDir_triple hI') ?_
  exact Triple.bind (cleanupTemps_triple hI') fun _ =>
    Triple.pure fun files hfiles => ⟨rfl, hfiles⟩

/-- **Recovery on a healthy file system.** -/
theorem recover_triple (hI : I disk)
    (hlength : ∀ journal, disk.journal = some journal → journal.length ≤ metadataLimit)
    (hreceipt : ∀ journal, disk.journal = some journal → journalMatches E disk journal = true →
      I (disk.set .receipt (some journal)))
    (hsettle : I (settle E disk)) :
    Triple (At disk []) (OnDisk I) (recover E .none) fun failure files =>
      failure = none ∧ At (settle E disk) [] files := by
  obtain ⟨target, receipt, previous, journal⟩ := disk
  cases journal with
  | none => exact recover_none_triple hI rfl
  | some journal =>
    have hread : readRegular metadataLimit (some journal) = .content journal :=
      if_neg (not_lt.mpr (hlength journal rfl))
    unfold recover
    refine Triple.bind_eq (Triple.read (a := ⟨target, receipt, previous, some journal⟩)
      fun files hfiles => hfiles.1) ?_
    dsimp only
    rw [hread]
    dsimp only
    unfold settle at hsettle ⊢
    dsimp only at hsettle ⊢
    by_cases hmatches :
        journalMatches E ⟨target, receipt, previous, some journal⟩ journal = true
    · rw [if_pos hmatches] at hsettle ⊢
      rw [if_pos hmatches]
      have hwritten := hreceipt journal rfl hmatches
      refine Triple.bind_eq (writeAtomic_triple hI fun _ => hwritten) ?_
      exact discardJournal_triple hwritten hsettle
    · rw [if_neg hmatches] at hsettle ⊢
      rw [if_neg hmatches]
      refine Triple.bind_eq (a := true) (Triple.pure fun files hfiles => ⟨rfl, hfiles⟩) ?_
      exact discardJournal_triple hI hsettle

/-- **`CurrentReceipt` on a healthy file system.** -/
theorem currentReceipt_eq {files : Files}
    (hlength : ∀ journal, files.disk.journal = some journal → journal.length ≤ metadataLimit) :
    (currentReceipt E .none files).value = ownedReceipt E (settle E files.disk) ∧
      (currentReceipt E .none files).final.disk = settle E files.disk := by
  have htriple : Triple (At files.disk []) (OnDisk fun _ => True) (currentReceipt E .none)
      fun result files' => result = ownedReceipt E (settle E files.disk) ∧
        At (settle E files.disk) [] files' := by
    unfold currentReceipt
    refine Triple.bind_eq (recover_triple trivial hlength (fun _ _ _ => trivial) trivial) ?_
    exact Triple.read fun files' hfiles => by rw [hfiles.1]
  obtain ⟨-, hvalue, hdisk, -⟩ := htriple files ⟨rfl, by simp⟩
  exact ⟨hvalue, hdisk⟩

/-! ## Owned states -/

/-- Nothing is to be recovered, and this content is found with this receipt, or nothing is. -/
structure Owned (E : Encoding) (disk : Disk) (current : Option (Bytes × Receipt)) : Prop where
  journal : disk.journal = none
  target : disk.target = current.map Prod.fst
  receipt : ownedReceipt E disk = .ok (current.map Prod.snd)

/-- What `currentOwned` finds is in the target and in the receipt. -/
theorem currentOwned_eq_ok {old : Option (Bytes × Bytes)} (h : currentOwned E disk = .ok old) :
    disk.target = old.map Prod.fst ∧ disk.receipt = old.map Prod.snd ∧
      ∀ current, old = some current →
        (E.matchesProtectedReceipt current.1 current.2).isSome = true := by
  obtain ⟨target, receipt, previous, journal⟩ := disk
  unfold currentOwned readRegular at h
  cases target with
  | none =>
    cases receipt with
    | none =>
      obtain rfl := Except.ok.inj h
      exact ⟨rfl, rfl, by simp⟩
    | some text => cases h
  | some content =>
    dsimp only at h
    by_cases hlarge : content.length > targetLimit
    · rw [if_pos hlarge] at h
      cases h
    rw [if_neg hlarge] at h
    cases receipt with
    | none => cases h
    | some text =>
      dsimp only at h
      by_cases hlarge' : text.length > metadataLimit
      · rw [if_pos hlarge'] at h
        cases h
      rw [if_neg hlarge'] at h
      dsimp only at h
      split_ifs at h with hmatches
      obtain rfl := Except.ok.inj h
      refine ⟨rfl, rfl, ?_⟩
      intro current hcurrent
      obtain rfl := Option.some.inj hcurrent
      exact hmatches

/-- An owned state, with the text of the receipt. -/
theorem Owned.currentOwned (h : Owned E disk current) :
    ∃ old, currentOwned E disk = .ok old ∧ disk.target = old.map Prod.fst ∧
      disk.receipt = old.map Prod.snd ∧ old.map Prod.fst = current.map Prod.fst ∧
      (old.bind fun pair => E.restore pair.2) = current.map Prod.snd ∧
      ∀ pair, old = some pair → (E.matchesProtectedReceipt pair.1 pair.2).isSome = true := by
  have hreceipt := h.receipt
  unfold ownedReceipt at hreceipt
  cases howned : Publish.currentOwned E disk with
  | error failure =>
    rw [howned] at hreceipt
    cases hreceipt
  | ok old =>
    obtain ⟨htarget, htext, hmatches⟩ := currentOwned_eq_ok howned
    refine ⟨old, rfl, htarget, htext, htarget.symm.trans h.target, ?_, hmatches⟩
    rw [howned] at hreceipt
    cases old with
    | none => exact Except.ok.inj hreceipt
    | some pair =>
      obtain ⟨content, text⟩ := pair
      dsimp only at hreceipt
      cases hrestore : E.restore text with
      | none =>
        rw [hrestore] at hreceipt
        cases hreceipt
      | some receipt =>
        rw [hrestore] at hreceipt
        rw [Option.bind_some, hrestore]
        exact Except.ok.inj hreceipt

/-- The artifact is found, whatever is in the other files. -/
theorem Owned.ownedReceipt_eq {old : Option (Bytes × Bytes)} (h : Owned E disk current)
    (hold : Publish.currentOwned E disk = .ok old) (previous journal : Option Bytes) :
    ownedReceipt E ⟨old.map Prod.fst, old.map Prod.snd, previous, journal⟩ =
      .ok (current.map Prod.snd) := by
  obtain ⟨htarget, hreceipt, -⟩ := currentOwned_eq_ok hold
  rw [← h.receipt, ← htarget, ← hreceipt]
  rfl

/-- There is nothing to recover. -/
theorem Owned.observed {files : Files} (h : Owned E disk current) (hdisk : files.disk = disk) :
    (currentReceipt E .none files).value = .ok (current.map Prod.snd) ∧
      (currentReceipt E .none files).final.disk.target = current.map Prod.fst := by
  obtain ⟨hvalue, hfinal⟩ : (currentReceipt E .none files).value = _ ∧ _ :=
    currentReceipt_eq fun journal hsome => by
      rw [hdisk, h.journal] at hsome
      cases hsome
  have hsettle : settle E disk = disk := by rw [settle, h.journal]
  rw [hvalue, hfinal, hdisk, hsettle]
  exact ⟨h.receipt, h.target⟩

/-! ## Whole publications -/

/-- **How `Publish` ends in an owned state**, and the states it goes through: it stops without
touching anything, or replaces the artifact. -/
theorem publish_triple (howned : Owned E disk current) {old : Option (Bytes × Bytes)}
    (hold : currentOwned E disk = .ok old) (faults : Faults) (cancelled : Cancellation)
    (v : Validated) :
    Triple (At disk []) (OnDisk (Safe E faults v old)) (publish E faults cancelled v)
      fun result files =>
        (cancelled.atStart = true ∧ result = .error ⟨.publication, .cancelled⟩ ∧
          files.disk = disk) ∨
        (cancelled.atStart = false ∧ old.map Prod.fst = some v.content ∧ files.disk = disk ∧
          result = if E.matchesProtectedReceipt v.content ((old.map Prod.snd).getD []) =
            some v.profile then .ok ⟨v.profile, false⟩ else .error ⟨.ownership, .receiptMismatch⟩) ∨
        (cancelled.atStart = false ∧ old.map Prod.fst ≠ some v.content ∧
          Ending E faults cancelled.beforeCommit v old result files.disk) := by
  obtain ⟨htarget, hreceipt, -⟩ := currentOwned_eq_ok hold
  have hdisk : disk = ⟨old.map Prod.fst, old.map Prod.snd, disk.previous, none⟩ := by
    rw [← htarget, ← hreceipt, ← howned.journal]
  have hsafe : Safe E faults v old disk := by
    rw [hdisk]
    exact .of_situation (.before _)
  unfold publish
  refine Triple.bind_eq (recover_none_triple hsafe howned.journal) ?_
  dsimp only
  cases hcancelled : cancelled.atStart with
  | true => exact Triple.pure fun files hfiles => .inl ⟨rfl, rfl, hfiles.1⟩
  | false =>
    refine Triple.bind_eq (Triple.read (a := disk) fun files hfiles => hfiles.1) ?_
    rw [hold]
    dsimp only
    by_cases hsame : old.map Prod.fst = some v.content
    · rw [if_pos hsame]
      split_ifs with hmatches
      · exact Triple.pure fun files hfiles => .inr (.inl ⟨rfl, hsame, hfiles.1, rfl⟩)
      · exact Triple.pure fun files hfiles => .inr (.inl ⟨rfl, hsame, hfiles.1, rfl⟩)
    · rw [if_neg hsame]
      rw [hdisk]
      exact (replace_triple hsame).weaken fun result files hended =>
        .inr (.inr ⟨rfl, hsame, hended.1⟩)

/-! ## What is observed -/

section Observed

variable {v : Validated} {old : Option (Bytes × Bytes)}

/-- The new artifact can be written and read within the limits. -/
structure Publishable (E : Encoding) (v : Validated) : Prop where
  supported : v.Supported
  content_le : v.content.length ≤ targetLimit
  reads : E.Reads v

theorem Publishable.receipt_le (h : Publishable E v) :
    (E.protectedReceipt v).length ≤ metadataLimit :=
  (E.length_protectedReceipt_le h.supported).trans (by decide)

/-- The digest tells what was there before from the new content. -/
def Distinguishes (E : Encoding) (v : Validated) (content : Option Bytes) : Prop :=
  ∀ bytes, content = some bytes →
    E.generation v.profile bytes = E.generation v.profile v.content → bytes = v.content

/-- The new artifact, with its receipt, is found. -/
theorem Publishable.ownedReceipt_eq (h : Publishable E v) (previous journal : Option Bytes) :
    ownedReceipt E ⟨some v.content, some (E.protectedReceipt v), previous, journal⟩ =
      .ok (some (E.receipt v)) := by
  have hcontent : readRegular targetLimit (some v.content) = .content v.content :=
    if_neg (not_lt.mpr h.content_le)
  have hreceipt : readRegular metadataLimit (some (E.protectedReceipt v)) =
      .content (E.protectedReceipt v) := if_neg (not_lt.mpr h.receipt_le)
  have howned : currentOwned E ⟨some v.content, some (E.protectedReceipt v), previous, journal⟩ =
      .ok (some (v.content, E.protectedReceipt v)) := by
    simp only [currentOwned, hcontent, hreceipt, h.reads.matches_self, Option.isSome_some, if_true]
  simp only [ownedReceipt, howned, h.reads.restore]

/-- The journal of the new artifact does not match what was there before. -/
theorem not_journalMatches (h : Publishable E v) {journal : Option Bytes}
    (hdiffers : old.map Prod.fst ≠ some v.content)
    (hdigest : Distinguishes E v (old.map Prod.fst)) :
    journalMatches E ⟨old.map Prod.fst, receipt, previous, journal⟩ (E.protectedReceipt v) =
      false := by
  unfold journalMatches
  dsimp only
  cases htarget : old.map Prod.fst with
  | none => rfl
  | some content =>
    unfold readRegular
    split
    · next bytes hbytes =>
        have hcontent : bytes = content := by
          dsimp only at hbytes
          split_ifs at hbytes
          exact (Reading.content.inj hbytes).symm
        subst hcontent
        by_contra hmatches
        rw [Bool.not_eq_false, Option.isSome_iff_exists] at hmatches
        obtain ⟨profile, hprofile⟩ := hmatches
        have := h.reads.content_eq (hdigest bytes htarget) hprofile
        exact hdiffers (by rw [htarget, this])
    · rfl

/-- Whatever is in the journal, the target that was there before is found as it was. -/
theorem settle_old (h : Publishable E v) (hdiffers : old.map Prod.fst ≠ some v.content)
    (hdigest : Distinguishes E v (old.map Prod.fst)) {journal : Option Bytes}
    (hjournal : JournalOf E v journal) :
    settle E ⟨old.map Prod.fst, receipt, previous, journal⟩ =
      ⟨old.map Prod.fst, receipt, previous, none⟩ := by
  rcases hjournal with rfl | rfl
  · rfl
  · unfold settle
    dsimp only
    rw [not_journalMatches h hdiffers hdigest]
    rfl

/-- Next to the new target, the journal becomes the receipt. -/
theorem settle_new (h : Publishable E v) (receipt previous : Option Bytes) :
    settle E ⟨some v.content, receipt, previous, some (E.protectedReceipt v)⟩ =
      ⟨some v.content, some (E.protectedReceipt v), previous, none⟩ := by
  have hcontent : readRegular targetLimit (some v.content) = .content v.content :=
    if_neg (not_lt.mpr h.content_le)
  simp only [settle, journalMatches, hcontent, h.reads.matches_self, Option.isSome_some, if_true]

namespace Sample

/-- An artifact with this profile, content and checker. -/
def artifact (profile : Profile) (content validatorID : String)
    (h : (profile.known && ascii content ≠ [] && safeValidatorID (ascii validatorID)) = true) :
    Validated where
  profile := profile
  content := ascii content
  validatorID := ascii validatorID
  known := by
    simp only [Bool.and_eq_true] at h
    exact h.1.1
  content_ne := by
    simp only [Bool.and_eq_true, decide_eq_true_eq] at h
    exact h.1.2
  safe := by
    simp only [Bool.and_eq_true] at h
    exact h.2

def older : Validated := artifact mihomo11931 "old" "checker/1" (by decide +kernel)

def newer : Validated := artifact mihomo11931 "new" "checker/1" (by decide +kernel)

/-- The content of `older`, accepted by another checker. -/
def rechecked : Validated := artifact mihomo11931 "old" "checker/2" (by decide +kernel)

/-- The content of `older`, for the other engine. -/
def converted : Validated := artifact singBox1141 "old" "checker/1" (by decide +kernel)

def sum256 (text : Bytes) : Digest :=
  if text = generationText newer.profile newer.content then
    ⟨List.replicate 32 1, Digest.length_ones⟩
  else .zero

def encoding : Encoding where
  sum256 := sum256
  unmarshal := fun encoded =>
    ([older, newer, rechecked, converted].map fun v =>
      (⟨v.profile, (sum256 (generationText v.profile v.content)).val, v.validatorID⟩ :
        ReceiptData)).find? fun data => data.marshal = encoded

def empty : Files := ⟨⟨none, none, none, none⟩, ∅⟩

/-- After the publication of `older`. -/
def published : Files := (publish encoding .none .never older empty).final

theorem publishable_newer : Publishable encoding newer where
  supported := .inl rfl
  content_le := by decide +kernel
  reads := by
    unfold Encoding.Reads
    decide +kernel

theorem owned_published :
    Owned encoding published.disk (some (older.content, encoding.receipt older)) where
  journal := by decide +kernel
  target := by decide +kernel
  receipt := by decide +kernel

theorem distinguishes_newer : Distinguishes encoding newer (some older.content) := by
  rintro bytes hbytes hgeneration
  obtain rfl := Option.some.inj hbytes
  exact absurd hgeneration (by decide +kernel)

end Sample

/-! ## Crashes -/

/-- The journal on the way is short enough to be read. -/
theorem Situation.journal_le (h : Publishable E v) (hdisk : Situation E v old disk)
    {journal : Bytes} (hjournal : disk.journal = some journal) :
    journal.length ≤ metadataLimit := by
  cases hdisk with
  | before previous | after previous => cases hjournal
  | journaled previous hdiffers | written receipt previous =>
    obtain rfl := Option.some.inj hjournal
    exact h.receipt_le

/-- Recovery from a state on the way ends with the old or the new artifact, and goes through
such states only. -/
theorem Situation.recover_triple (h : Publishable E v)
    (hdigest : Distinguishes E v (old.map Prod.fst)) (hdisk : Situation E v old disk) :
    Triple (At disk []) (OnDisk (Situation E v old)) (recover E .none) fun failure files =>
      failure = none ∧ At (settle E disk) [] files := by
  refine Publish.recover_triple hdisk (fun journal => hdisk.journal_le h) ?_ ?_
  · intro journal hjournal hmatches
    cases hdisk with
    | before previous | after previous => cases hjournal
    | journaled previous hdiffers =>
      obtain rfl := Option.some.inj hjournal
      rw [not_journalMatches h hdiffers hdigest] at hmatches
      cases hmatches
    | written receipt previous =>
      obtain rfl := Option.some.inj hjournal
      exact .written _ previous
  · cases hdisk with
    | before previous => exact .before previous
    | journaled previous hdiffers =>
      rw [settle_old h hdiffers hdigest (.inr rfl)]
      exact .before previous
    | written receipt previous =>
      rw [settle_new h]
      exact .after previous
    | after previous => exact .after previous

/-- What crashes leave behind: a publication is interrupted, and then recoveries are. -/
inductive Crashed (E : Encoding) (cancelled : Cancellation) (v : Validated) (start : Files) :
    Files → Prop where
  | publish {files : Files}
      (h : files ∈ start :: (publish E .none cancelled v start).visited) :
      Crashed E cancelled v start files
  | recover {files files' : Files} (h : Crashed E cancelled v start files)
      (h' : files' ∈ (recover E .none files).visited) : Crashed E cancelled v start files'

theorem Crashed.situation {start files : Files} {cancelled : Cancellation}
    (hpublishable : Publishable E v) (howned : Owned E start.disk current)
    (hold : currentOwned E start.disk = .ok old) (hdigest : Distinguishes E v (old.map Prod.fst))
    (h : Crashed E cancelled v start files) :
    Situation E v old files.disk := by
  induction h with
  | publish hmem =>
    have htriple := publish_triple howned hold .none cancelled v start ⟨rfl, by simp⟩
    rcases List.mem_cons.mp hmem with heq | hmem
    · obtain ⟨htarget, hreceipt, -⟩ := currentOwned_eq_ok hold
      have hdisk : start.disk =
          ⟨old.map Prod.fst, old.map Prod.snd, start.disk.previous, none⟩ := by
        rw [← htarget, ← hreceipt, ← howned.journal]
      rw [heq, hdisk]
      exact .before _
    · exact htriple.1 _ hmem rfl
  | recover _ hmem ih =>
    exact (ih.recover_triple hpublishable hdigest _ ⟨rfl, by simp⟩).1 _ hmem

/-- **Publication is crash atomic.**  However often a publication and the recoveries after it
are interrupted, the next `CurrentReceipt` finds the old content with its receipt, or
nothing if there was nothing, or the new content with the new receipt. -/
theorem crash_atomic (E : Encoding) (cancelled : Cancellation) (v : Validated) (start files : Files)
    (current : Option (Bytes × Receipt)) (hpublishable : Publishable E v)
    (howned : Owned E start.disk current)
    (hdigest : Distinguishes E v (current.map Prod.fst))
    (h : Crashed E cancelled v start files) :
    let observed := currentReceipt E .none files
    (observed.value = .ok (current.map Prod.snd) ∧
        observed.final.disk.target = current.map Prod.fst) ∨
      (observed.value = .ok (some (E.receipt v)) ∧
        observed.final.disk.target = some v.content) := by
  intro observed
  obtain ⟨old, hold, -, -, hfst, -, -⟩ := howned.currentOwned
  rw [← hfst] at hdigest ⊢
  have hsituation := h.situation hpublishable howned hold hdigest
  have hbefore := howned.ownedReceipt_eq hold
  obtain ⟨hvalue, hfinal⟩ : (currentReceipt E .none files).value = _ ∧ _ :=
    currentReceipt_eq fun journal => hsituation.journal_le hpublishable
  rw [show observed = currentReceipt E .none files from rfl, hvalue, hfinal]
  generalize files.disk = disk at hsituation
  cases hsituation with
  | before previous => exact .inl ⟨hbefore previous none, rfl⟩
  | journaled previous hdiffers =>
    rw [settle_old hpublishable hdiffers hdigest (.inr rfl)]
    exact .inl ⟨hbefore previous none, rfl⟩
  | written receipt previous =>
    rw [settle_new hpublishable]
    exact .inr ⟨hpublishable.ownedReceipt_eq previous none, rfl⟩
  | after previous => exact .inr ⟨hpublishable.ownedReceipt_eq previous none, rfl⟩

namespace Sample

/-- The target has been replaced, and the receipt has not. -/
def interrupted : Files :=
  ((publish encoding .none .never newer published).visited[11]?).getD published

theorem crashed_interrupted : Crashed encoding .never newer published interrupted := by
  refine .publish ?_
  unfold interrupted
  cases h : (publish encoding .none .never newer published).visited[11]? with
  | none => exact List.mem_cons_self
  | some files => exact List.mem_cons_of_mem _ (List.mem_of_getElem? h)

/-- Recovery completes an interrupted publication. -/
theorem crash_atomic_interrupted :
    (interrupted.disk.target = some newer.content ∧
      interrupted.disk.receipt = some (encoding.protectedReceipt older)) ∧
    let observed := currentReceipt encoding .none interrupted
    (observed.value = .ok (some (encoding.receipt older)) ∧
        observed.final.disk.target = some older.content) ∨
      (observed.value = .ok (some (encoding.receipt newer)) ∧
        observed.final.disk.target = some newer.content) :=
  ⟨by decide +kernel, crash_atomic encoding .never newer published interrupted _ publishable_newer
    owned_published distinguishes_newer crashed_interrupted⟩

end Sample

/-! ## Failed publications -/

/-- How `Apply` reports the result of `Publish`.  A `Failure` is no `UncertainPublication`. -/
def reported : Except Failure Publication → PublicationStatus
  | .error _ => .none
  | .ok _ => .written

/-- The target was not replaced, or the rollback put everything back. -/
def Faults.undone (faults : Faults) (hadPrevious cancelled : Bool) : Bool :=
  faults.early hadPrevious cancelled ||
    (faults.late && faults.targetRestored hadPrevious && faults.receiptRestored hadPrevious)

/-- The receipt of the new artifact next to the old content, or to none, is not accepted. -/
theorem ownedReceipt_mixed (h : Publishable E v) (hdiffers : old.map Prod.fst ≠ some v.content)
    (hdigest : Distinguishes E v (old.map Prod.fst)) (previous journal : Option Bytes)
    (receipt : Option Receipt) :
    ownedReceipt E ⟨old.map Prod.fst, some (E.protectedReceipt v), previous, journal⟩ ≠
      .ok receipt := by
  intro hok
  unfold ownedReceipt at hok
  cases howned : currentOwned E
      ⟨old.map Prod.fst, some (E.protectedReceipt v), previous, journal⟩ with
  | error failure =>
    rw [howned] at hok
    cases hok
  | ok found =>
    obtain ⟨htarget, hreceipt, hmatches⟩ := currentOwned_eq_ok howned
    cases found with
    | none => cases hreceipt
    | some pair =>
      obtain ⟨content, text⟩ := pair
      obtain rfl := Option.some.inj hreceipt
      obtain ⟨profile, hprofile⟩ := Option.isSome_iff_exists.mp (hmatches _ rfl)
      have heq := h.reads.content_eq (hdigest content htarget) hprofile
      exact hdiffers (htarget.trans (by rw [← heq]; rfl))

/-- How an ending is observed: the old artifact is found exactly if it was not replaced, or put
back. -/
theorem Ending.observed_iff (h : Publishable E v) (hdiffers : old.map Prod.fst ≠ some v.content)
    (hdigest : Distinguishes E v (old.map Prod.fst))
    (hbefore : ∀ previous journal, ownedReceipt E ⟨old.map Prod.fst, old.map Prod.snd, previous,
      journal⟩ = .ok (current.map Prod.snd))
    {cancelled : Bool} {failure : Failure}
    (hending : Ending E faults cancelled v old (.error failure) disk) :
    (ownedReceipt E (settle E disk) = .ok (current.map Prod.snd) ∧
      (settle E disk).target = old.map Prod.fst) ↔ faults.undone old.isSome cancelled = true := by
  -- recovery leaves the new target where it is
  have hnew : ∀ receipt previous {journal}, JournalOf E v journal →
      (settle E ⟨some v.content, receipt, previous, journal⟩).target ≠ old.map Prod.fst := by
    rintro receipt previous journal (rfl | rfl)
    · exact hdiffers.symm
    · rw [settle_new h]
      exact hdiffers.symm
  cases hending with
  | kept _ previous journal hearly hjournal =>
    rw [settle_old h hdiffers hdigest hjournal, Faults.undone, hearly]
    exact iff_of_true ⟨hbefore previous none, rfl⟩ rfl
  | unconfirmed _ previous journal hearly hlate _ hjournal =>
    rw [Faults.undone, hearly, hlate]
    refine iff_of_false ?_ (by simp)
    rintro ⟨-, htarget⟩
    exact hnew _ _ hjournal htarget
  | rolledBack _ previous journal hearly hlate hjournal =>
    rw [Faults.undone, hearly, hlate, Bool.false_or, Bool.true_and]
    cases htarget : faults.targetRestored old.isSome with
    | false =>
      refine iff_of_false ?_ (by simp)
      rintro ⟨-, htarget⟩
      exact hnew _ _ hjournal htarget
    | true =>
      simp only [if_true]
      rw [settle_old h hdiffers hdigest hjournal]
      cases hreceipt : faults.receiptRestored old.isSome with
      | true => exact iff_of_true ⟨hbefore previous none, rfl⟩ rfl
      | false =>
        refine iff_of_false ?_ (by simp)
        rintro ⟨hok, -⟩
        exact ownedReceipt_mixed h hdiffers hdigest previous none _ hok

theorem Ending.journalOf {cancelled : Bool} {result : Except Failure Publication}
    (hending : Ending E faults cancelled v old result disk) : JournalOf E v disk.journal := by
  cases hending with
  | kept _ _ _ _ hjournal | rolledBack _ _ _ _ _ hjournal | unconfirmed _ _ _ _ _ _ hjournal =>
    exact hjournal
  | published previous => exact .inl rfl

/-- **When a reported non-write is one.**  `Publish` failed, so `Apply` reports that nothing was
written.  Then the old content and receipt are found exactly if the target was not replaced
or the rollback succeeded. -/
theorem undone_iff (E : Encoding) (faults : Faults) (cancelled : Cancellation) (v : Validated)
    (start : Files) (current : Option (Bytes × Receipt)) (hpublishable : Publishable E v)
    (howned : Owned E start.disk current) (hdigest : Distinguishes E v (current.map Prod.fst))
    (hreported : reported (publish E faults cancelled v start).value = .none) :
    let observed := currentReceipt E .none (publish E faults cancelled v start).final
    (observed.value = .ok (current.map Prod.snd) ∧
        observed.final.disk.target = current.map Prod.fst) ↔
      (cancelled.atStart = true ∨ current.map Prod.fst = some v.content ∨
        faults.undone current.isSome cancelled.beforeCommit = true) := by
  intro observed
  obtain ⟨old, hold, -, -, hfst, -, -⟩ := howned.currentOwned
  have hsome : old.isSome = current.isSome := by
    rw [← Option.isSome_map, hfst, Option.isSome_map]
  rw [← hfst] at hdigest ⊢
  rw [← hsome]
  obtain ⟨-, hend⟩ := publish_triple howned hold faults cancelled v start ⟨rfl, by simp⟩
  have hunchanged : (publish E faults cancelled v start).final.disk = start.disk →
      observed.value = .ok (current.map Prod.snd) ∧
        observed.final.disk.target = old.map Prod.fst := by
    rw [hfst]
    exact howned.observed
  rcases hend with ⟨hcancelled, -, hdisk⟩ | ⟨-, hsame, hdisk, -⟩ | ⟨hcancelled, hdiffers, hending⟩
  · exact iff_of_true (hunchanged hdisk) (.inl hcancelled)
  · exact iff_of_true (hunchanged hdisk) (.inr (.inl hsame))
  · -- what is observed depends on the four files only
    obtain ⟨hvalue, hfinal⟩ : observed.value = _ ∧ _ := currentReceipt_eq fun journal hsome => by
      rcases hending.journalOf with hnone | hjournal
      · rw [hnone] at hsome
        cases hsome
      · rw [hjournal] at hsome
        obtain rfl := Option.some.inj hsome
        exact hpublishable.receipt_le
    rw [hvalue, hfinal]
    cases hresult : (publish E faults cancelled v start).value with
    | ok publication =>
      rw [hresult] at hreported
      cases hreported
    | error failure =>
      rw [hresult] at hending
      rw [hending.observed_iff hpublishable hdiffers hdigest (howned.ownedReceipt_eq hold),
        hcancelled]
      simp [hdiffers]

namespace Sample

/-- The last directory sync fails. -/
def lastSync : Faults := { Faults.none with syncDir := fun site => site = .cleanup }

/-- The sync of the new target fails, and so does the rename of the rollback. -/
def brokenRollback : Faults :=
  { Faults.none with
    syncDir := fun site => site = .target
    rename := fun site => site = .rollbackTarget }

/-- The sync of the new target fails, and the rollback succeeds. -/
def targetSync : Faults := { Faults.none with syncDir := fun site => site = .target }

/-- A publication that is reported as not written is found afterwards, or leaves a target that
is not accepted. -/
theorem reported_non_write_found :
    (reported (publish encoding lastSync .never newer published).value = .none ∧
      (currentReceipt encoding .none (publish encoding lastSync .never newer published).final).value
        = .ok (some (encoding.receipt newer))) ∧
    (reported (publish encoding brokenRollback .never newer published).value = .none ∧
      (currentReceipt encoding .none
        (publish encoding brokenRollback .never newer published).final).value =
          .error ⟨.ownership, .receiptMismatch⟩) := by
  decide +kernel

theorem undone_iff_targetSync :
    let observed := currentReceipt encoding .none
      (publish encoding targetSync .never newer published).final
    observed.value = .ok (some (encoding.receipt older)) ∧
      observed.final.disk.target = some older.content :=
  (undone_iff encoding targetSync .never newer published _ publishable_newer owned_published
    distinguishes_newer (by decide +kernel)).mpr (.inr (.inr (by decide +kernel)))

end Sample

/-! ## Successful publications -/

/-- A healthy replacement is published. -/
theorem Ending.healthy {result : Except Failure Publication}
    (hending : Ending E .none false v old result disk) :
    result = .ok ⟨v.profile, true⟩ ∧ ∃ previous,
      disk = ⟨some v.content, some (E.protectedReceipt v), previous, none⟩ := by
  have hnone : Faults.none.early old.isSome false = false := by
    cases old <;> rfl
  cases hending with
  | kept _ _ _ hearly _ =>
    rw [hnone] at hearly
    cases hearly
  | rolledBack _ _ _ _ hlate _ => cases hlate
  | unconfirmed _ _ _ _ _ hfault _ => exact absurd rfl hfault
  | published previous => exact ⟨rfl, previous, rfl⟩

/-- **When a publication can be read back.**  On a healthy file system `Publish` succeeds and
the next `CurrentReceipt` returns the receipt of the artifact exactly if its content is not
there already with another receipt. -/
theorem readable_back_iff (E : Encoding) (v : Validated) (start : Files)
    (current : Option (Bytes × Receipt)) (hpublishable : Publishable E v)
    (howned : Owned E start.disk current) :
    let run := publish E .none .never v start
    ((∃ publication, run.value = .ok publication) ∧
        (currentReceipt E .none run.final).value = .ok (some (E.receipt v))) ↔
      ∀ content receipt, current = some (content, receipt) → content = v.content →
        receipt = E.receipt v := by
  intro run
  obtain ⟨old, hold, htarget, hreceipt, hfst, hrestore, hmatches⟩ := howned.currentOwned
  obtain ⟨-, hend⟩ := publish_triple howned hold .none .never v start ⟨rfl, by simp⟩
  rcases hend with ⟨hcancelled, -⟩ | ⟨-, hsame, hdisk, hresult⟩ | ⟨-, hdiffers, hending⟩
  · cases hcancelled
  · -- the content is there already, with some receipt
    obtain ⟨⟨content, text⟩, rfl, hsame'⟩ := Option.map_eq_some_iff.mp hsame
    obtain ⟨⟨content', receipt⟩, rfl, hfst'⟩ := Option.map_eq_some_iff.mp hfst.symm
    obtain rfl : content' = content := hfst'
    replace hsame' : content' = v.content := hsame'
    have htext : E.restore text = some receipt := hrestore
    obtain ⟨profile, hprofile⟩ := Option.isSome_iff_exists.mp (hmatches _ rfl)
    obtain ⟨receipt', hreceipt', -, hprofile', hgeneration⟩ :=
      Encoding.matchesProtectedReceipt_eq_some_iff.mp hprofile
    obtain rfl := Option.some.inj (htext.symm.trans hreceipt')
    have hobserved : (currentReceipt E .none run.final).value = .ok (some receipt) :=
      (howned.observed hdisk).1
    have hcondition : (∀ bytes other, some (content', receipt) = some (bytes, other) →
        bytes = v.content → other = E.receipt v) ↔ receipt = E.receipt v := by
      constructor
      · intro h
        exact h content' receipt rfl hsame'
      · intro h bytes other heq _
        obtain ⟨-, rfl⟩ := Prod.mk.inj (Option.some.inj heq)
        exact h
    rw [hobserved, hcondition, Except.ok.injEq, Option.some_inj]
    constructor
    · exact And.right
    · -- then the profile is the same as well, and the publication is a success
      rintro rfl
      refine ⟨⟨⟨v.profile, false⟩, ?_⟩, rfl⟩
      rw [show run.value = _ from hresult, if_pos]
      rw [hsame', ← hprofile'] at hprofile
      exact hprofile
  · -- the content is replaced
    obtain ⟨hvalue, previous, hdisk⟩ := hending.healthy
    have hfinal : run.final.disk = ⟨some v.content, some (E.protectedReceipt v), previous, none⟩ :=
      hdisk
    have hobserved : (currentReceipt E .none run.final).value = ownedReceipt E _ :=
      (currentReceipt_eq fun journal hsome => by rw [hfinal] at hsome; cases hsome).1
    refine iff_of_true ⟨⟨_, hvalue⟩, ?_⟩ ?_
    · rw [hobserved, hfinal]
      exact hpublishable.ownedReceipt_eq previous none
    · rintro content receipt rfl rfl
      exact absurd hfst hdiffers

namespace Sample

/-- The same content with another validator ID keeps the old receipt, and for another profile it
is refused. -/
theorem unreadable_back :
    ((publish encoding .none .never rechecked published).value = .ok ⟨mihomo11931, false⟩ ∧
      (currentReceipt encoding .none
        (publish encoding .none .never rechecked published).final).value ≠
          .ok (some (encoding.receipt rechecked))) ∧
    (publish encoding .none .never converted published).value =
      .error ⟨.ownership, .receiptMismatch⟩ := by
  decide +kernel

theorem readable_back_iff_newer :
    let run := publish encoding .none .never newer published
    (∃ publication, run.value = .ok publication) ∧
      (currentReceipt encoding .none run.final).value = .ok (some (encoding.receipt newer)) := by
  refine (readable_back_iff encoding newer published _ publishable_newer owned_published).mpr ?_
  intro content receipt hcurrent hcontent
  obtain ⟨rfl, rfl⟩ := Prod.mk.inj (Option.some.inj hcurrent)
  exact absurd hcontent (by decide +kernel)

end Sample

end Observed

end Egressfox.Publish
