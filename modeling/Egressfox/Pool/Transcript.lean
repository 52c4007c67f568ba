import Egressfox.Pool.Build

/-!
# What a build has read

The revisions of all reads go into one map by the name of the Secret, and the versions of the rows
into one by key.  `Reflects` is the invariant of these maps: each entry comes from some read, and
every Secret that was found, and every row that was loaded, has an entry.

It does not say that the entry comes from every read of the name.  Where two reads of one name
differ, the map knows the later one only.
-/

namespace Egressfox.Pool

open Lib Endpoint Source
open Cache (SourceCache)

/-! ## Transcripts -/

/-- A Secret was read with this answer. -/
def Saw (log : Log) (name : Bytes) (answer : Lookup) : Prop :=
  (⟨.secret name, answer⟩ : (access : Access) × access.Answer) ∈ log

/-- A row of the cache was loaded with this answer. -/
def Loaded (log : Log) (key : Bytes) (fingerprint : Digest)
    (answer : Except Cache.Failure (Option SourceCache)) : Prop :=
  (⟨.cache key fingerprint, answer⟩ : (access : Access) × access.Answer) ∈ log

section Membership

variable {log log' : Log} {name name' key key' : Bytes} {fingerprint fingerprint' : Digest}
  {found found' : Lookup} {row row' : Except Cache.Failure (Option SourceCache)} {cancelled : Bool}

/-- A read of another kind does not matter. -/
theorem mem_cons_of_ne {access access' : Access} {answer : access.Answer}
    {answer' : access'.Answer} (h : access ≠ access') :
    (⟨access, answer⟩ : (access : Access) × access.Answer) ∈ ⟨access', answer'⟩ :: log ↔
      ⟨access, answer⟩ ∈ log := by
  rw [List.mem_cons]
  exact or_iff_right fun heq => h (Sigma.mk.inj heq).1

@[simp] theorem saw_append :
    Saw (log ++ log') name found ↔ Saw log name found ∨ Saw log' name found :=
  List.mem_append

@[simp] theorem loaded_append : Loaded (log ++ log') key fingerprint row ↔
    Loaded log key fingerprint row ∨ Loaded log' key fingerprint row :=
  List.mem_append

@[simp] theorem not_saw_nil : ¬Saw [] name found := List.not_mem_nil

@[simp] theorem not_loaded_nil : ¬Loaded [] key fingerprint row := List.not_mem_nil

@[simp] theorem saw_secret_cons :
    Saw (⟨.secret name', found'⟩ :: log) name found ↔
      name = name' ∧ found = found' ∨ Saw log name found := by
  rw [Saw, List.mem_cons]
  refine or_congr ?_ Iff.rfl
  constructor
  · intro h
    obtain ⟨hname, hanswer⟩ := Sigma.mk.inj h
    obtain rfl := Access.secret.inj hname
    exact ⟨rfl, eq_of_heq hanswer⟩
  · rintro ⟨rfl, rfl⟩
    rfl

@[simp] theorem loaded_cache_cons :
    Loaded (⟨.cache key' fingerprint', row'⟩ :: log) key fingerprint row ↔
      (key = key' ∧ fingerprint = fingerprint' ∧ row = row') ∨ Loaded log key fingerprint row := by
  rw [Loaded, List.mem_cons]
  refine or_congr ?_ Iff.rfl
  constructor
  · intro h
    obtain ⟨haccess, hanswer⟩ := Sigma.mk.inj h
    obtain ⟨rfl, rfl⟩ := Access.cache.inj haccess
    exact ⟨rfl, rfl, eq_of_heq hanswer⟩
  · rintro ⟨rfl, rfl, rfl⟩
    rfl

@[simp] theorem loaded_secret_cons :
    Loaded (⟨.secret name, found⟩ :: log) key fingerprint row ↔ Loaded log key fingerprint row :=
  mem_cons_of_ne nofun

@[simp] theorem saw_cache_cons :
    Saw (⟨.cache key fingerprint, row⟩ :: log) name found ↔ Saw log name found :=
  mem_cons_of_ne nofun

@[simp] theorem saw_cancelled_cons :
    Saw (⟨.cancelled, cancelled⟩ :: log) name found ↔ Saw log name found :=
  mem_cons_of_ne nofun

@[simp] theorem loaded_cancelled_cons :
    Loaded (⟨.cancelled, cancelled⟩ :: log) key fingerprint row ↔ Loaded log key fingerprint row :=
  mem_cons_of_ne nofun

end Membership

/-- A recorded revision is that of a read. -/
def Backed (log : Log) (entry : Bytes × ResourceRevision) : Prop :=
  (∃ secret, Saw log entry.1 (.found secret) ∧ secret.revision = entry.2) ∨
    Saw log entry.1 .notFound ∧ entry.2 = {}

/-- The Secrets an HTTP source refers to. -/
def HTTPSource.names (http : HTTPSource) : List Bytes :=
  http.references.map SecretKeyReference.name

variable {P : Platform} {log log' : Log} {names : List Bytes} {pool : ProxyPool}
  {desired : SubscriptionSource} {http : HTTPSource} {now : Time} {hasCache : Bool}

theorem Backed.mono {entry : Bytes × ResourceRevision} (h : Backed log entry)
    (hsub : log ⊆ log') : Backed log' entry := by
  rcases h with ⟨secret, hsaw, hrevision⟩ | ⟨hsaw, hrevision⟩
  · exact .inl ⟨secret, hsub hsaw, hrevision⟩
  · exact .inr ⟨hsub hsaw, hrevision⟩

/-- A recorded version is that of a loaded entry, or of a load without one. -/
def Shows (sum256 : Bytes → Digest) (version : CacheVersion) :
    Except Cache.Failure (Option SourceCache) → Prop
  | .ok (some entry) => version.present = true ∧ version.digest = sum256 entry.body ∧
      version.validatedAt = entry.validatedAt
  | _ => version.present = false

/-- The other fields of a version do not matter. -/
theorem Shows.of_eq {sum256 : Bytes → Digest} {version version' : CacheVersion}
    {answer : Except Cache.Failure (Option SourceCache)} (h : Shows sum256 version answer)
    (hpresent : version'.present = version.present) (hdigest : version'.digest = version.digest)
    (hvalidated : version'.validatedAt = version.validatedAt) : Shows sum256 version' answer := by
  match answer, h with
  | .ok (some entry), ⟨hp, hd, hv⟩ =>
    exact ⟨hpresent.trans hp, hdigest.trans hd, hvalidated.trans hv⟩
  | .ok none, h => exact hpresent.trans h
  | .error _, h => exact hpresent.trans h

/-- Only these Secrets are read, and no row of the cache. -/
structure OnlyReads (names : List Bytes) (log : Log) : Prop where
  secrets : ∀ name answer, Saw log name answer → name ∈ names
  caches : ∀ key fingerprint answer, ¬Loaded log key fingerprint answer

namespace OnlyReads

theorem nil : OnlyReads names [] :=
  ⟨fun _ _ hsaw => (not_saw_nil hsaw).elim, fun _ _ _ => not_loaded_nil⟩

theorem mono (h : OnlyReads names log) {names' : List Bytes} (hsub : names ⊆ names') :
    OnlyReads names' log :=
  ⟨fun name answer hsaw => hsub (h.secrets name answer hsaw), h.caches⟩

theorem append (h : OnlyReads names log) (h' : OnlyReads names log') :
    OnlyReads names (log ++ log') := by
  constructor
  · intro name answer hsaw
    rcases saw_append.mp hsaw with hsaw | hsaw
    · exact h.secrets name answer hsaw
    · exact h'.secrets name answer hsaw
  · intro key fingerprint answer hloaded
    rcases loaded_append.mp hloaded with hloaded | hloaded
    · exact h.caches key fingerprint answer hloaded
    · exact h'.caches key fingerprint answer hloaded

end OnlyReads

/-- Reads of the Secrets `names` that record revisions behind those already recorded. -/
structure Records {ε α : Type} (names : List Bytes) (revisions : Recorded) (recorded : α → Recorded)
    (log : Log) (result : Except ε α) : Prop where
  reads : OnlyReads names log
  backed : ∀ a, result = .ok a → ∀ entry ∈ recorded a, entry ∈ revisions ∨ Backed log entry

namespace Records

variable {ε α β : Type} {revisions : Recorded} {recorded : α → Recorded} {recorded' : β → Recorded}

/-- A program that ends without a read. -/
theorem ended {result : Except ε α}
    (h : ∀ a, result = .ok a → ∀ entry ∈ recorded a, entry ∈ revisions) :
    Asking.Ensures (pure result : Reading (Except ε α)) (Records names revisions recorded) :=
  Asking.Ensures.pure ⟨OnlyReads.nil, fun a ha entry hentry => .inl (h a ha entry hentry)⟩

theorem failed {code : ε} :
    Asking.Ensures (pure (.error code) : Reading (Except ε α)) (Records names revisions recorded) :=
  ended fun _ ha => nomatch ha

/-- One part behind the other. -/
theorem attempt {p : Reading (Except ε α)} {f : α → Reading (Except ε β)}
    (hp : p.Ensures (Records names revisions recorded))
    (hf : ∀ a, (f a).Ensures (Records names (recorded a) recorded')) :
    (p.attempt f).Ensures (Records names revisions recorded') := by
  refine Asking.Ensures.attempt hp ?_ ?_
  · intro log code h
    exact ⟨h.reads, fun _ ha => nomatch ha⟩
  · intro log a h
    refine (hf a).mono fun log' result h' => ⟨h.reads.append h'.reads, ?_⟩
    intro b hb entry hentry
    rcases h'.backed b hb entry hentry with hentry | hentry
    · rcases h.backed a rfl entry hentry with hentry | hentry
      · exact .inl hentry
      · exact .inr (hentry.mono (List.subset_append_left _ _))
    · exact .inr (hentry.mono (List.subset_append_right _ _))

end Records

/-- A read of one Secret, and what is done with the answer. -/
theorem records_getSecret {ε α : Type} {revisions : Recorded} {recorded : α → Recorded}
    {name : Bytes} {f : Lookup → Reading (Except ε α)}
    (hname : name ∈ names)
    (hfound : ∀ secret, (f (.found secret)).Ensures
      (Records names (revisions ++ [(name, secret.revision)]) recorded))
    (hnotFound : (f .notFound).Ensures
      (Records names (revisions ++ [(name, ({} : ResourceRevision))]) recorded))
    (hfailed : (f .failed).Ensures (Records names revisions recorded)) :
    (getSecret name >>= f).Ensures (Records names revisions recorded) := by
  intro answer
  -- The read itself is in front of what `f` reads.
  have hread : ∀ (extra : Recorded),
      (∀ entry ∈ extra, Backed [⟨.secret name, answer⟩] entry) →
      (f answer).Ensures (Records names (revisions ++ extra) recorded) →
      (f answer).Ensures fun log result =>
        Records names revisions recorded (⟨.secret name, answer⟩ :: log) result := by
    intro extra hextra hf
    refine hf.mono fun log result h => ⟨⟨?_, ?_⟩, ?_⟩
    · intro name' answer' hsaw
      rcases saw_secret_cons.mp hsaw with ⟨rfl, -⟩ | hsaw
      · exact hname
      · exact h.reads.secrets name' answer' hsaw
    · intro key fingerprint loaded hloaded
      exact h.reads.caches key fingerprint loaded (loaded_secret_cons.mp hloaded)
    · intro a ha entry hentry
      rcases h.backed a ha entry hentry with hentry | hentry
      · rcases List.mem_append.mp hentry with hentry | hentry
        · exact .inl hentry
        · refine .inr ((hextra entry hentry).mono ?_)
          exact List.cons_subset_cons _ (List.nil_subset _)
      · exact .inr (hentry.mono (List.subset_cons_self _ _))
  cases answer with
  | found secret =>
    refine hread [(name, secret.revision)] ?_ (hfound secret)
    intro entry hentry
    rw [List.mem_singleton.mp hentry]
    exact .inl ⟨secret, saw_secret_cons.mpr (.inl ⟨rfl, rfl⟩), rfl⟩
  | notFound =>
    refine hread [(name, {})] ?_ hnotFound
    intro entry hentry
    rw [List.mem_singleton.mp hentry]
    exact .inr ⟨saw_secret_cons.mpr (.inl ⟨rfl, rfl⟩), rfl⟩
  | failed =>
    refine hread [] (fun _ hentry => (nomatch hentry)) ?_
    rwa [List.append_nil]

theorem readReference_records {ref : SecretKeyReference} {revisions : Recorded}
    (hname : ref.name ∈ names) :
    (readReference ref revisions).Ensures (Records names revisions Prod.snd) := by
  refine records_getSecret hname ?_ Records.failed Records.failed
  intro secret
  dsimp only
  split
  · exact Records.failed
  · apply Records.ended
    intro a ha entry hentry
    rw [← Except.ok.inj ha] at hentry
    exact hentry

theorem readAuthorization_records {ref : Option SecretKeyReference} {revisions : Recorded}
    (hname : ∀ r ∈ ref, r.name ∈ names) :
    (readAuthorization ref revisions).Ensures (Records names revisions Prod.snd) := by
  cases ref with
  | none =>
    apply Records.ended
    intro a ha entry hentry
    rwa [← Except.ok.inj ha] at hentry
  | some ref => exact readReference_records (hname ref rfl)

theorem readHeaders_records {headers : List HTTPSecretHeader}
    (hnames : ∀ header ∈ headers, header.secretRef.name ∈ names) :
    ∀ (sent : Headers) (revisions : Recorded),
      (readHeaders P headers sent revisions).Ensures (Records names revisions Prod.snd) := by
  induction headers with
  | nil =>
    intro sent revisions
    apply Records.ended
    intro a ha entry hentry
    rwa [← Except.ok.inj ha] at hentry
  | cons header headers ih =>
    intro sent revisions
    unfold readHeaders
    split
    · exact Records.failed
    dsimp only
    split
    · exact Records.failed
    refine Records.attempt (readReference_records (hnames header List.mem_cons_self)) ?_
    rintro ⟨value, recorded⟩
    dsimp only
    split
    · exact Records.failed
    · exact ih (fun h hh => hnames h (List.mem_cons_of_mem _ hh)) _ recorded

/-- **`ResolveHTTP` reads what the source refers to, and records what it read.** -/
theorem resolveHTTP_records (hhttp : desired.http = some http) :
    (resolveHTTP P pool desired).Ensures (Records http.names [] HTTPConfig.revisions) := by
  unfold resolveHTTP
  rw [hhttp]
  dsimp only
  split
  · exact Records.failed
  split
  · exact Records.failed
  have hurl : http.urlSecretRef.name ∈ http.names := List.mem_map_of_mem List.mem_cons_self
  refine Records.attempt (readReference_records hurl) ?_
  rintro ⟨url, revisions⟩
  have hauthorization : ∀ r ∈ http.authorizationSecretRef, r.name ∈ http.names := by
    intro r hr
    refine List.mem_map_of_mem (List.mem_cons_of_mem _ (List.mem_append_left _ ?_))
    exact Option.mem_toList.mpr hr
  refine Records.attempt (readAuthorization_records hauthorization) ?_
  rintro ⟨authorization, revisions⟩
  dsimp only
  split
  · exact Records.failed
  have hheaders : ∀ header ∈ http.secretHeaders, header.secretRef.name ∈ http.names := by
    intro header hheader
    refine List.mem_map_of_mem (List.mem_cons_of_mem _ (List.mem_append_right _ ?_))
    exact List.mem_map_of_mem hheader
  refine Records.attempt (readHeaders_records hheaders _ _) ?_
  rintro ⟨headers, revisions⟩
  dsimp only
  split
  · exact Records.failed
  · apply Records.ended
    intro a ha entry hentry
    rwa [← Except.ok.inj ha] at hentry

theorem recordHTTPReferences_records {refs : List SecretKeyReference}
    (hnames : ∀ ref ∈ refs, ref.name ∈ names) : ∀ revisions : Recorded,
    (recordHTTPReferences refs revisions).Ensures (Records names revisions id) := by
  induction refs with
  | nil =>
    intro revisions
    apply Records.ended
    intro a ha entry hentry
    rwa [← Except.ok.inj ha] at hentry
  | cons ref refs ih =>
    intro revisions
    have ih := ih fun r hr => hnames r (List.mem_cons_of_mem _ hr)
    refine records_getSecret (hnames ref List.mem_cons_self) ?_ ?_ Records.failed
    · exact fun secret => ih _
    · exact ih _

/-- Every reference is recorded. -/
theorem recordHTTPReferences_covers {refs : List SecretKeyReference} : ∀ revisions : Recorded,
    (recordHTTPReferences refs revisions).Ensures fun _ result => ∀ recorded,
      result = .ok recorded →
        revisions.map Prod.fst ++ refs.map SecretKeyReference.name ⊆ recorded.map Prod.fst := by
  induction refs with
  | nil =>
    intro revisions
    refine Asking.Ensures.pure fun recorded h => ?_
    rw [← Except.ok.inj h, List.map_nil, List.append_nil]
    exact List.Subset.refl _
  | cons ref refs ih =>
    intro revisions answer
    have hcons : ∀ revision : ResourceRevision,
        (recordHTTPReferences refs (revisions ++ [(ref.name, revision)])).Ensures
          fun _ result => ∀ recorded, result = .ok recorded →
            revisions.map Prod.fst ++ (ref :: refs).map SecretKeyReference.name ⊆
              recorded.map Prod.fst := by
      intro revision
      refine (ih (revisions ++ [(ref.name, revision)])).mono fun log result h recorded hr => ?_
      have hsub := h recorded hr
      rw [List.map_append, List.append_assoc] at hsub
      exact hsub
    cases answer with
    | found secret => exact hcons secret.revision
    | notFound => exact hcons {}
    | failed => exact Asking.Ensures.pure fun _ h => nomatch h

/-- What one source adds is justified by what it read. -/
structure Justified (P : Platform) (log : Log) (c : Contribution) : Prop where
  backed : ∀ entry ∈ c.revisions, Backed log entry
  covered : ∀ name secret, Saw log name (.found secret) → name ∈ c.revisions.map Prod.fst
  shown : ∀ key version, c.version = some (key, version) →
    ∃ fingerprint answer, Loaded log key fingerprint answer ∧ Shows P.sum256 version answer
  loaded : ∀ key fingerprint answer, Loaded log key fingerprint answer →
    ∃ version, c.version = some (key, version)

theorem Justified.of_secrets {c : Contribution} (hreads : OnlyReads names log)
    (hbacked : ∀ entry ∈ c.revisions, Backed log entry)
    (hnames : names ⊆ c.revisions.map Prod.fst) (hversion : c.version = none) :
    Justified P log c where
  backed := hbacked
  covered name secret hsaw := hnames (hreads.secrets name _ hsaw)
  shown key version h := by
    rw [hversion] at h
    cases h
  loaded key fingerprint answer h := (hreads.caches key fingerprint answer h).elim

/-- Reads of Secrets, then of one row. -/
theorem Justified.of_load {key : Bytes} {fingerprint : Digest}
    {answer : Except Cache.Failure (Option SourceCache)}
    {version : CacheVersion} {c : Contribution} (hreads : OnlyReads names log)
    (hrest : OnlyReads names log') (hbacked : ∀ entry ∈ c.revisions, Backed log entry)
    (hnames : names ⊆ c.revisions.map Prod.fst) (hversion : c.version = some (key, version))
    (hshows : Shows P.sum256 version answer) :
    Justified P (log ++ ⟨.cache key fingerprint, answer⟩ :: log') c where
  backed entry hentry := (hbacked entry hentry).mono (List.subset_append_left _ _)
  covered name secret hsaw := by
    rcases saw_append.mp hsaw with hsaw | hsaw
    · exact hnames (hreads.secrets name _ hsaw)
    · exact hnames (hrest.secrets name _ (saw_cache_cons.mp hsaw))
  shown key' version' h := by
    rw [hversion] at h
    obtain ⟨rfl, rfl⟩ := Prod.mk.inj (Option.some.inj h)
    refine ⟨fingerprint, answer, loaded_append.mpr (.inr ?_), hshows⟩
    exact loaded_cache_cons.mpr (.inl ⟨rfl, rfl, rfl⟩)
  loaded key' fingerprint' answer' h := by
    rcases loaded_append.mp h with h | h
    · exact (hreads.caches _ _ _ h).elim
    rcases loaded_cache_cons.mp h with ⟨rfl, -, -⟩ | h
    · exact ⟨version, hversion⟩
    · exact (hrest.caches _ _ _ h).elim

/-- A loaded entry is not looked at again: its use reads no Secret and no row, and keeps the
revisions and the version. -/
theorem useEntry_ensures {config : HTTPConfig} {revisions : Recorded} {entry : SourceCache} :
    (useEntry P pool desired http now config revisions entry).Ensures fun log c =>
      OnlyReads [] log ∧ c.revisions = revisions ∧
        ∃ version, c.version = some (config.key, version) ∧
          Shows P.sum256 version (.ok (some entry)) := by
  have hversion : Shows P.sum256 (versionOf P config entry) (.ok (some entry)) := ⟨rfl, rfl, rfl⟩
  unfold useEntry
  dsimp only
  split
  · exact ⟨OnlyReads.nil, rfl, _, rfl, hversion⟩
  split
  · exact ⟨OnlyReads.nil, rfl, _, rfl, hversion⟩
  refine Asking.Ensures.question_bind fun cancelled => ?_
  have hcancelled : OnlyReads [] [⟨.cancelled, cancelled⟩] :=
    ⟨fun _ _ hsaw => (not_saw_nil (saw_cancelled_cons.mp hsaw)).elim,
      fun _ _ _ hloaded => not_loaded_nil (loaded_cancelled_cons.mp hloaded)⟩
  split
  · exact ⟨hcancelled, rfl, _, rfl, hversion⟩
  · refine ⟨hcancelled, rfl, _, rfl, ?_⟩
    split
    · exact ⟨rfl, rfl, rfl⟩
    · exact hversion

/-- Nothing is said about a program that fails. -/
theorem ensures_error {ε α : Type} {code : ε} {Q : Log → α → Prop} :
    Asking.Ensures (pure (.error code) : Reading (Except ε α)) fun log result =>
      ∀ a, result = .ok a → Q log a :=
  Asking.Ensures.pure fun _ ha => nomatch ha

/-- The reads of an HTTP source: its Secrets twice, then its row. -/
theorem readHTTPSource_justified (hhttp : desired.http = some http) :
    (readHTTPSource P pool desired http now).Ensures fun log result =>
      ∀ c, result = .ok c → Justified P log c := by
  have hnames : ∀ ref ∈ http.references, ref.name ∈ http.names :=
    fun ref href => List.mem_map_of_mem href
  refine Asking.Ensures.attempt
    ((recordHTTPReferences_records hnames []).and (recordHTTPReferences_covers [])) ?_ ?_
  · exact fun log code _ c hc => nomatch hc
  rintro log recorded ⟨hrecords, hcovers⟩
  have hcovers : http.names ⊆ recorded.map Prod.fst := hcovers recorded rfl
  have hbacked : ∀ entry ∈ recorded, Backed log entry := by
    intro entry hentry
    exact (hrecords.backed recorded rfl entry hentry).resolve_left List.not_mem_nil
  refine (resolveHTTP_records hhttp).bind fun log' result hresolve => ?_
  have hreads : OnlyReads http.names (log ++ log') := hrecords.reads.append hresolve.reads
  have hbacked : ∀ entry ∈ recorded, Backed (log ++ log') entry :=
    fun entry hentry => (hbacked entry hentry).mono (List.subset_append_left _ _)
  cases result with
  | error code =>
    refine Asking.Ensures.pure fun c hc => ?_
    obtain rfl := Except.ok.inj hc
    rw [List.append_nil]
    exact Justified.of_secrets hreads hbacked hcovers rfl
  | ok config =>
    have hbacked : ∀ entry ∈ recorded ++ config.revisions, Backed (log ++ log') entry := by
      intro entry hentry
      rcases List.mem_append.mp hentry with hentry | hentry
      · exact hbacked entry hentry
      · have hentry := hresolve.backed config rfl entry hentry
        exact (hentry.resolve_left List.not_mem_nil).mono (List.subset_append_right _ _)
    have hcovers : http.names ⊆ (recorded ++ config.revisions).map Prod.fst := by
      rw [List.map_append]
      exact List.subset_append_of_subset_left _ hcovers
    refine Asking.Ensures.question_bind fun answer => ?_
    match answer with
    | .error code =>
      refine Asking.Ensures.pure fun c hc => ?_
      obtain rfl := Except.ok.inj hc
      rw [← List.append_assoc]
      exact Justified.of_load hreads OnlyReads.nil hbacked hcovers rfl rfl
    | .ok none =>
      refine Asking.Ensures.pure fun c hc => ?_
      obtain rfl := Except.ok.inj hc
      rw [← List.append_assoc]
      exact Justified.of_load hreads OnlyReads.nil hbacked hcovers rfl rfl
    | .ok (some entry) =>
      refine useEntry_ensures.bind fun log'' c h => ?_
      obtain ⟨hrest, hrevisions, version, hversion, hshows⟩ := h
      refine Asking.Ensures.pure fun c' hc => ?_
      obtain rfl := Except.ok.inj hc
      rw [← List.append_assoc, List.append_nil]
      rw [← hrevisions] at hbacked hcovers
      exact Justified.of_load hreads (hrest.mono (List.nil_subset _)) hbacked hcovers hversion
        hshows

/-- The reads of a Secret source: its Secret. -/
theorem readSecretSource_justified {ref : SecretKeyReference} :
    (readSecretSource P pool desired ref).Ensures fun log result =>
      ∀ c, result = .ok c → Justified P log c := by
  refine Asking.Ensures.question_bind fun answer => ?_
  match answer with
  | .notFound => exact ensures_error
  | .failed => exact ensures_error
  | .found secret =>
    dsimp only
    split
    · exact ensures_error
    split
    · exact ensures_error
    split
    · exact ensures_error
    refine Asking.Ensures.question_bind fun cancelled => ?_
    split
    · exact ensures_error
    split
    · exact ensures_error
    split
    · exact ensures_error
    refine Asking.Ensures.pure fun c hc => ?_
    obtain rfl := Except.ok.inj hc
    have hreads : OnlyReads [ref.name]
        (⟨.secret ref.name, .found secret⟩ :: [⟨.cancelled, cancelled⟩]) := by
      constructor
      · intro name answer hsaw
        rcases saw_secret_cons.mp hsaw with ⟨rfl, -⟩ | hsaw
        · exact List.mem_singleton_self _
        · exact (not_saw_nil (saw_cancelled_cons.mp hsaw)).elim
      · intro key fingerprint answer hloaded
        exact not_loaded_nil (loaded_cancelled_cons.mp (loaded_secret_cons.mp hloaded))
    refine Justified.of_secrets hreads ?_ (List.Subset.refl _) rfl
    intro entry hentry
    rw [List.mem_singleton.mp hentry]
    exact .inl ⟨secret, saw_secret_cons.mpr (.inl ⟨rfl, rfl⟩), rfl⟩

theorem readSource_justified :
    (readSource P pool hasCache now desired).Ensures fun log result =>
      ∀ c, result = .ok c → Justified P log c := by
  unfold readSource
  split
  next http hhttp =>
    split
    · exact ensures_error
    · exact readHTTPSource_justified hhttp
  · split
    · exact ensures_error
    · exact readSecretSource_justified

/-- The maps of revisions and versions, and the reads they come from. -/
structure Reflects (P : Platform) (log : Log) (revisions : Assoc Bytes ResourceRevision)
    (versions : Assoc Bytes CacheVersion) : Prop where
  backed : ∀ name revision, revisions.lookup name = some revision → Backed log (name, revision)
  covered : ∀ name secret, Saw log name (.found secret) → ∃ r, revisions.lookup name = some r
  shown : ∀ key version, versions.lookup key = some version →
    ∃ fingerprint answer, Loaded log key fingerprint answer ∧ Shows P.sum256 version answer
  loaded : ∀ key fingerprint answer, Loaded log key fingerprint answer →
    ∃ version, versions.lookup key = some version

namespace Reflects

variable {revisions : Assoc Bytes ResourceRevision} {versions : Assoc Bytes CacheVersion}

theorem empty : Reflects P [] ∅ ∅ where
  backed _ _ h := nomatch h
  covered _ _ h := (not_saw_nil h).elim
  shown _ _ h := nomatch h
  loaded _ _ _ h := (not_loaded_nil h).elim

/-- A map that is written to, and the reads of the writes. -/
theorem writeRevisions (h : Reflects P log revisions versions) {writes : Recorded}
    (hbacked : ∀ entry ∈ writes, Backed log' entry)
    (hcovered : ∀ name secret, Saw log' name (.found secret) → name ∈ writes.map Prod.fst) :
    (∀ name revision, (Assoc.writeAll revisions writes).lookup name = some revision →
      Backed (log ++ log') (name, revision)) ∧
    ∀ name secret, Saw (log ++ log') name (.found secret) →
      ∃ r, (Assoc.writeAll revisions writes).lookup name = some r := by
  constructor
  · intro name revision hlookup
    rcases Assoc.lookup_writeAll hlookup with ⟨before, after, rfl, -⟩ | ⟨-, hlookup⟩
    · have hmem : (name, revision) ∈ before ++ (name, revision) :: after := by simp
      exact (hbacked _ hmem).mono (List.subset_append_right _ _)
    · exact (h.backed name revision hlookup).mono (List.subset_append_left _ _)
  · intro name secret hsaw
    by_cases hname : name ∈ writes.map Prod.fst
    · exact Assoc.lookup_writeAll_of_mem hname
    · rw [Assoc.lookup_writeAll_of_notMem hname]
      rcases saw_append.mp hsaw with hsaw | hsaw
      · exact h.covered name secret hsaw
      · exact (hname (hcovered name secret hsaw)).elim

/-- What a source adds keeps the maps and the reads together. -/
theorem add {s : PoolState} (h : Reflects P log s.sourceRevisions s.cacheVersions)
    {c : Contribution} (hc : Justified P log' c) :
    Reflects P (log ++ log') (s.add c).sourceRevisions (s.add c).cacheVersions := by
  obtain ⟨hbacked, hcovered⟩ := h.writeRevisions hc.backed hc.covered
  refine ⟨hbacked, hcovered, ?_, ?_⟩
  · intro key version hlookup
    rcases Assoc.lookup_writeAll hlookup with ⟨before, after, hwrites, -⟩ | ⟨-, hlookup⟩
    · have hmem : (key, version) ∈ c.version.toList := by simp [hwrites]
      obtain ⟨fingerprint, answer, hloaded, hshows⟩ :=
        hc.shown key version (Option.mem_toList.mp hmem)
      exact ⟨fingerprint, answer, loaded_append.mpr (.inr hloaded), hshows⟩
    · obtain ⟨fingerprint, answer, hloaded, hshows⟩ := h.shown key version hlookup
      exact ⟨fingerprint, answer, loaded_append.mpr (.inl hloaded), hshows⟩
  · intro key fingerprint answer hloaded
    by_cases hkey : key ∈ c.version.toList.map Prod.fst
    · exact Assoc.lookup_writeAll_of_mem hkey
    · have hkeep := Assoc.lookup_writeAll_of_notMem (s := s.cacheVersions) hkey
      rcases loaded_append.mp hloaded with hloaded | hloaded
      · obtain ⟨version, hversion⟩ := h.loaded key fingerprint answer hloaded
        exact ⟨version, hkeep.trans hversion⟩
      · obtain ⟨version, hversion⟩ := hc.loaded key fingerprint answer hloaded
        refine (hkey ?_).elim
        rw [hversion]
        exact List.mem_singleton_self _

end Reflects

theorem readSources_reflects {sources : List SubscriptionSource} : ∀ {before : Log} {s : PoolState},
    Reflects P before s.sourceRevisions s.cacheVersions →
    (readSources P pool hasCache now sources s).Ensures fun log result =>
      ∀ s', result = .ok s' → Reflects P (before ++ log) s'.sourceRevisions s'.cacheVersions := by
  induction sources with
  | nil =>
    intro before s hs
    refine Asking.Ensures.pure fun s' hs' => ?_
    obtain rfl := Except.ok.inj hs'
    rwa [List.append_nil]
  | cons desired sources ih =>
    intro before s hs
    refine Asking.Ensures.attempt readSource_justified (fun _ _ _ _ hs' => nomatch hs') ?_
    intro log c hc
    refine (ih (hs.add (hc c rfl))).mono fun log' result h s' hs' => ?_
    rw [← List.append_assoc]
    exact h s' hs'

/-- **A build records what it read**, and nothing else. -/
theorem buildPoolWithCache_reflects :
    (buildPoolWithCache P pool hasCache now).Ensures fun log result =>
      ∀ r, result = .ok r → Reflects P log r.sourceRevisions r.cacheVersions := by
  unfold buildPoolWithCache
  split
  · exact ensures_error
  refine Asking.Ensures.attempt (readSources_reflects Reflects.empty) ?_ ?_
  · exact fun _ _ _ _ hr => nomatch hr
  intro log s hs
  refine Asking.Ensures.pure fun r hr => ?_
  obtain rfl := Except.ok.inj hr
  rw [List.append_nil]
  exact hs s rfl

end Egressfox.Pool
