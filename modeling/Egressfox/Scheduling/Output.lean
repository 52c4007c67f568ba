import Egressfox.Operator.SecretPublisher
import Egressfox.Scheduling.Reconcile

/-!
# The published output is covered by demand

One Gateway is followed together with the Secret it publishes to.  Its own reconciliations
read and write the Secret through `SecretPublisher`, as `Apply` of
`internal/reconcile/reconcile.go` does; the reconciliations of the other Gateways of the
context come in between, with any outcome.

`output_covered` says that between reconciliations the demand of the Gateway names the
endpoints of the stored artifact: as its selection, or as an uncertain attempt that
carries the receipt of what is stored.  What connects the demand to the Secret is that an
attempt is held with the receipt of the artifact that it meant to write, and that the
receipt determines the artifact.
-/

namespace Egressfox.Scheduling

open Lib Artifact Selection Operator

variable {R T : Type}

/-! ## Publication within a reconciliation -/

/-- The part of `reconcile.Result` that concludes a reservation. -/
structure ApplyResult where
  publication : PublicationStatus
  intended : Option Receipt
  published : Bool

/-- How the steps of `Apply` go.  `prepare` gives the artifact that is rendered, validated and
staged for a decision, if all of this succeeds. -/
structure Application (R : Type) where
  prepare : Decision R → Option Validated
  requests : Requests
  /-- The output can be read back. -/
  readback : Bool
  /-- `CommitDecision` succeeds. -/
  committed : Bool

/-- `Apply`, with what is stored afterwards. -/
def apply (E : Encoding) (p : SecretPublisher) (application : Application R)
    (output : Option Secret) (decision : Decision R) : ApplyResult × Option Secret :=
  match application.prepare decision with
  | none => (⟨.none, none, false⟩, output)
  | some v =>
    match p.publish E application.requests output v with
    | (.error code, stored) =>
      if code.publicationUncertain then (⟨.uncertain, some (E.receipt v), false⟩, stored)
      else (⟨.none, none, false⟩, stored)
    | (.ok _, stored) =>
      match p.currentReceipt E application.readback stored with
      | .error _ => (⟨.written, some (E.receipt v), false⟩, stored)
      | .ok current =>
        if receiptEqual current (some (E.receipt v)) then
          (⟨.confirmed, some (E.receipt v), application.committed⟩, stored)
        else (⟨.written, some (E.receipt v), false⟩, stored)

/-- How `Pipeline.Run` concludes the reservation. -/
def ApplyResult.outcome (result : ApplyResult) : Outcome :=
  if result.published then .published
  else if result.publication ≠ .none then .unconfirmed result.intended
  else .failed

/-- `Pipeline.currentOutput`. -/
def currentOutput (E : Encoding) (p : SecretPublisher) (readable : Bool) (output : Option Secret)
    (intended : Option Receipt) : Option Bool :=
  match p.currentReceipt E readable output with
  | .error _ => none
  | .ok current => some (receiptEqual current intended)

/-- The context and the output of the Gateway that is followed. -/
structure World (R : Type) where
  probes : Option (ProbeState R)
  output : Option Secret

/-- The Gateway that is followed: its UID and its publisher. -/
structure Followed where
  gateway : Bytes
  publisher : SecretPublisher

/-- A reconciliation of the Gateway itself, or of another one.  Of the Gateway's own inputs,
`gateway`, `published` and `outcome` are not used: they come from its output. -/
inductive WorldStep (R T : Type) where
  | own (rec : Reconciliation R T) (readable : Bool) (application : Application R)
  | other (rec : Reconciliation R T)

/-- The Gateway's own reconciliation, with a given output. -/
def ownReconciliation (E : Encoding) (f : Followed) (output : Option Secret)
    (rec : Reconciliation R T) (readable : Bool) (application : Application R) :
    Reconciliation R T :=
  { rec with
    gateway := f.gateway
    published := currentOutput E f.publisher readable output
    outcome := fun decision => (apply E f.publisher application output decision).1.outcome }

/-- What is stored after the Gateway's own reconciliation. -/
def outputAfter (C : Catalog R) (name : Bytes) (E : Encoding) (f : Followed) (w : World R)
    (rec : Reconciliation R T) (application : Application R) : Option Secret :=
  match beforeConclusion C name w.probes rec with
  | (_, none) => w.output
  | (_, some (_, decision)) => (apply E f.publisher application w.output decision).2

def World.step (C : Catalog R) (name : Bytes) (E : Encoding) (f : Followed) (w : World R) :
    WorldStep R T → World R
  | .own rec readable application =>
    let own := ownReconciliation E f w.output rec readable application
    ⟨some (reconcile C name w.probes own), outputAfter C name E f w own application⟩
  | .other rec => ⟨some (reconcile C name w.probes rec), w.output⟩

/-! ## What happens to one demand

`Keeps gateway s s'` says that between `s` and `s'` nothing but losses happens to the demand
of a Gateway; so it is the same, up to the time it was last seen, if there are none. -/

/-- The loss concerns the demand of this Gateway. -/
def Loss.takes (gateway : Bytes) : Loss R → Prop
  | .vanished _ _ => False
  | .displaced _ => False
  | .forgotten other _ => other = gateway
  | .expired other => other = gateway

/-- Nothing in the demand of this Gateway has been forgotten, and it never expired. -/
def Spared (gateway : Bytes) (s : ProbeState R) : Prop :=
  ∀ loss ∈ s.losses, ¬ loss.takes gateway

/-- A demand without the time it was last seen. -/
def Demand.unseen (demand : Demand) : Demand := { demand with seen := 0 }

/-- The demand of a Gateway, without the time it was last seen. -/
def demandOf (gateway : Bytes) (s : ProbeState R) : Option Demand :=
  (s.demand.lookup gateway).map Demand.unseen

def Keeps (gateway : Bytes) (s s' : ProbeState R) : Prop :=
  Spared gateway s' → Spared gateway s ∧ demandOf gateway s' = demandOf gateway s

namespace Keeps

variable {gateway : Bytes} {s s' s'' : ProbeState R}

theorem refl : Keeps gateway s s := fun hspared => ⟨hspared, rfl⟩

theorem trans (h : Keeps gateway s s') (h' : Keeps gateway s' s'') : Keeps gateway s s'' := by
  intro hspared
  obtain ⟨hspared', heq'⟩ := h' hspared
  obtain ⟨hspared, heq⟩ := h hspared'
  exact ⟨hspared, heq'.trans heq⟩

theorem of_eq (hlosses : s'.losses = s.losses)
    (hdemand : s'.demand.lookup gateway = s.demand.lookup gateway) : Keeps gateway s s' := by
  intro hspared
  refine ⟨fun loss hloss => hspared loss (hlosses ▸ hloss), ?_⟩
  rw [demandOf, demandOf, hdemand]

theorem of_same (h : SameDemand s s') : Keeps gateway s s' :=
  of_eq h.losses (by rw [h.demand])

theorem foldl {α : Type} {f : ProbeState R → α → ProbeState R}
    (h : ∀ s a, Keeps gateway s (f s a)) (l : List α) (s : ProbeState R) :
    Keeps gateway s (l.foldl f s) := by
  induction l generalizing s with
  | nil => exact refl
  | cons a l ih => exact (h s a).trans (ih (f s a))

end Keeps

theorem without_eq_self {id : Bytes} {demand : Demand} (h : id ∉ demand.ids) :
    ProbeState.without id demand = demand := by
  have hselected : demand.selected.filter (· ≠ id) = demand.selected := by
    apply List.filter_eq_self.mpr
    intro other hother
    have hne : other ≠ id := by
      rintro rfl
      exact h (List.mem_append_left _ hother)
    simpa using hne
  have huncertain : (demand.uncertain.map fun ids => ids.filter (· ≠ id)) = demand.uncertain := by
    cases hids : demand.uncertain with
    | none => rfl
    | some ids =>
      rw [Option.map_some]
      congr 1
      apply List.filter_eq_self.mpr
      intro other hother
      have hne : other ≠ id := by
        rintro rfl
        exact h (List.mem_append_right _ (by simpa [hids] using hother))
      simpa using hne
  rw [ProbeState.without, hselected, huncertain]

section

variable (gateway : Bytes)

/-- An eviction that takes nothing from the Gateway leaves its demand alone. -/
theorem keeps_evict (s : ProbeState R) (id : Bytes) : Keeps gateway s (s.evict id) := by
  intro hspared
  unfold demandOf
  rw [evict_lookup]
  unfold ProbeState.evict at hspared
  by_cases hrejected : id ∈ s.rejected
  · simp only [if_pos hrejected] at hspared ⊢
    refine ⟨fun loss hloss => hspared loss
      (List.mem_cons_of_mem _ (List.mem_append_right _ hloss)), ?_⟩
    cases hlookup : s.demand.lookup gateway with
    | none => rfl
    | some demand =>
      have hid : id ∉ demand.ids := by
        intro hid
        refine hspared (.forgotten gateway id)
          (List.mem_cons_of_mem _ (List.mem_append_left _ ?_)) rfl
        exact List.mem_map.mpr ⟨⟨gateway, demand⟩, List.mem_filter.mpr
          ⟨AList.mem_lookup_iff.mp hlookup, by simpa using hid⟩, rfl⟩
      rw [Option.map_some, without_eq_self hid]
  · rw [if_neg hrejected] at hspared ⊢
    exact ⟨fun loss hloss => hspared loss (List.mem_cons_of_mem _ hloss), rfl⟩

theorem keeps_admitID (s : ProbeState R) (id : Bytes) (capacity : Int) (selected : Bool) :
    Keeps gateway s (s.admitID id capacity selected) := by
  rcases admit_cases s id capacity selected with
    ⟨heq, -⟩ | ⟨-, -, heq⟩ | ⟨evicted, -, -, -, heq⟩
  · rw [heq]
    exact .refl
  · rw [heq]
    exact .of_eq rfl rfl
  · rw [heq]
    exact (keeps_evict gateway s evicted).trans (.of_eq rfl rfl)

theorem keeps_admitAll (capacity : Int) (s : ProbeState R) (ids : List Bytes) :
    Keeps gateway s (admitAll capacity s ids) :=
  .foldl (fun s id => keeps_admitID gateway s id capacity true) ids s

theorem keeps_budgetedJobs (C : Catalog R) (name : Bytes) (probes : Option (ProbeState R))
    (records : List R) (target : T) (now : Time) (refresh : Duration) :
    Keeps gateway (probes.getD .zero)
      (budgetedJobs C name probes records target now refresh).1 := by
  obtain ⟨hdemand, -, -, ⟨-, hlosses⟩ | ⟨-, hlosses⟩⟩ :=
    budgetedJobs_fst C name probes records target now refresh
  · exact .of_eq hlosses (by rw [hdemand])
  · intro hspared
    refine ⟨fun loss hloss => hspared loss ?_, by rw [demandOf, demandOf, hdemand]⟩
    rw [hlosses]
    exact List.mem_append_right _ hloss

theorem keeps_abandonRound (s : ProbeState R) (round : Round R T) :
    Keeps gateway s (abandonRound s round) := by
  unfold abandonRound
  split_ifs
  · exact .of_eq rfl rfl
  · exact .refl

theorem keeps_completeRound (s : ProbeState R) (round : Round R T) (overloaded : Bool) :
    Keeps gateway s (completeRound s round overloaded) := by
  unfold completeRound
  split_ifs
  · exact .of_eq rfl rfl
  · exact .refl

theorem keeps_probeStep (C : Catalog R) (name : Bytes) (probes : Option (ProbeState R))
    (rec : Reconciliation R T) :
    Keeps gateway (probes.getD .zero) (probeStep C name probes rec).1 :=
  probeStep_induct rec (keeps_budgetedJobs gateway C name probes _ _ _ _)
    (fun _ jobs results hs => recordProbeResults_induct
      (fun t id ht => ht.trans (keeps_admitID gateway t id _ false)) hs jobs results)
    (fun s round hs => hs.trans (keeps_abandonRound gateway s round))
    fun s round overloaded hs => hs.trans (keeps_completeRound gateway s round overloaded)

end

/-- `touchDemand` notes the time, and then drops the demands that expired. -/
theorem touchDemand_eq (s : ProbeState R) (other : Bytes) (now : Time) :
    ∃ touched : Assoc Bytes Demand,
      (∀ gateway, (touched.lookup gateway).map Demand.unseen = demandOf gateway s) ∧
      ∃ expired : Demand → Bool, touchDemand s other now = { s with
        demand := Assoc.retain (fun _ demand => !expired demand) touched
        losses := (touched.entries.filter fun entry => expired entry.2).map
          (fun entry => .expired entry.1) ++ s.losses } := by
  refine ⟨_, fun gateway => ?_, _, rfl⟩
  unfold demandOf
  cases hown : s.demand.lookup other with
  | none => rfl
  | some own =>
    dsimp only
    split_ifs
    · rfl
    · by_cases heq : gateway = other
      · subst heq
        rw [AList.lookup_insert, hown]
        rfl
      · rw [AList.lookup_insert_ne heq]

theorem keeps_touchDemand (gateway : Bytes) (s : ProbeState R) (other : Bytes) (now : Time) :
    Keeps gateway s (touchDemand s other now) := by
  obtain ⟨touched, hunseen, expired, heq⟩ := touchDemand_eq s other now
  intro hspared
  rw [heq] at hspared ⊢
  refine ⟨fun loss hloss => hspared loss (List.mem_append_right _ hloss), ?_⟩
  rw [← hunseen gateway, demandOf]
  congr 1
  cases hlookup : touched.lookup gateway with
  | none =>
    rw [Option.eq_none_iff_forall_ne_some]
    intro demand hdemand
    have htouched := (Assoc.lookup_retain.mp hdemand).1
    rw [hlookup] at htouched
    cases htouched
  | some demand =>
    refine Assoc.lookup_retain.mpr ⟨hlookup, ?_⟩
    by_contra hexpired
    refine hspared (.expired gateway) (List.mem_append_left _ (List.mem_map.mpr
      ⟨⟨gateway, demand⟩, List.mem_filter.mpr ⟨AList.mem_lookup_iff.mp hlookup, ?_⟩, rfl⟩)) rfl
    simpa using hexpired

variable {gateway : Bytes} {v s : ProbeState R} {reservation : Reservation} {output : Option Secret}

theorem keeps_settles {s' : ProbeState R} {other : Bytes} (hne : gateway ≠ other)
    (h : Settles other s s') : Keeps gateway s s' := by
  rcases h with rfl | ⟨demand, ids, -, -, written, rfl⟩
  · exact .refl
  · exact .of_eq rfl (AList.lookup_insert_ne hne)

theorem losses_resolveUncertain (s : ProbeState R) (gateway : Bytes)
    (published : Option Receipt → Option Bool) :
    (resolveUncertain s gateway published).losses = s.losses := by
  rcases settles_resolveUncertain s gateway published with
    heq | ⟨demand, ids, -, -, written, heq⟩
  · rw [heq]
  · rw [heq]

/-- A demand that is spared when a reservation is concluded was spared before. -/
theorem Reserved.spared_of_conclude {name : Bytes} {selected : List Bytes}
    (h : Reserved name v s reservation selected) {now : Time} {outcome : Outcome}
    (hspared : Spared gateway (conclude name s reservation now outcome)) : Spared gateway v := by
  obtain ⟨seen', hstate⟩ := h.state
  have hreserved : Spared gateway s → Spared gateway v := by
    rw [hstate]
    exact id
  cases outcome with
  | failed =>
    obtain ⟨demand, heq, -⟩ := h.release_eq
    rw [conclude, heq] at hspared
    exact hspared
  | published =>
    obtain ⟨seen, heq⟩ := h.published_eq now
    rw [heq] at hspared
    exact hreserved (keeps_admitAll gateway _ _ selected hspared).1
  | unconfirmed intended =>
    rw [h.unconfirmed_eq now intended] at hspared
    exact hreserved (keeps_admitAll gateway _ _ selected hspared).1

/-- The conclusion of a reservation does nothing to other demands. -/
theorem Reserved.keeps_conclude {name : Bytes} {selected : List Bytes}
    (h : Reserved name v s reservation selected) (hne : gateway ≠ reservation.gateway) (now : Time)
    (outcome : Outcome) :
    Keeps gateway v (conclude name s reservation now outcome) := by
  obtain ⟨seen', hstate⟩ := h.state
  have hreserved : Keeps gateway v s := by
    rw [hstate]
    exact .of_eq rfl (AList.lookup_insert_ne hne)
  cases outcome with
  | failed =>
    obtain ⟨demand, heq, hdemand⟩ := h.release_eq
    rw [conclude, heq]
    exact .of_eq rfl (hdemand gateway)
  | published =>
    obtain ⟨seen, heq⟩ := h.published_eq now
    rw [heq]
    refine hreserved.trans (.trans ?_ (keeps_admitAll gateway _ _ selected))
    exact .of_eq rfl (AList.lookup_insert_ne hne)
  | unconfirmed intended =>
    rw [h.unconfirmed_eq now intended]
    refine hreserved.trans (.trans ?_ (keeps_admitAll gateway _ _ selected))
    exact .of_eq rfl (AList.lookup_insert_ne hne)

/-- **A reconciliation of another Gateway** does nothing to the demand but losses. -/
theorem keeps_reconcile (C : Catalog R) (name : Bytes) (probes : Option (ProbeState R))
    (rec : Reconciliation R T) (hne : gateway ≠ rec.gateway) :
    Keeps gateway (probes.getD .zero) (reconcile C name probes rec) := by
  have hresolved : Keeps gateway (probes.getD .zero)
      ((probes.map fun s => resolveUncertain s rec.gateway rec.published).getD .zero) := by
    cases probes with
    | none => exact .refl
    | some s => exact keeps_settles hne (settles_resolveUncertain s rec.gateway rec.published)
  have hprobed := hresolved.trans (keeps_probeStep gateway C name _ rec)
  have htouched := hprobed.trans (keeps_touchDemand gateway _ rec.gateway rec.touchedAt)
  unfold reconcile
  rcases beforeConclusion_cases C name probes rec rfl with
    heq | ⟨s, heq, hsame⟩ | ⟨s, reservation, decision, v, heq, hgateway, hsame, hreserved⟩
  · rw [heq]
    exact hprobed
  · rw [heq]
    exact htouched.trans (.of_same hsame)
  · rw [heq]
    exact (htouched.trans (.of_same hsame)).trans
      (hreserved.keeps_conclude (hgateway ▸ hne) rec.decidedAt _)

/-! ## The demand covers the output -/

section Cover

variable (C : Catalog R) (name : Bytes) (E : Encoding) (f : Followed)
  (endpointIDs : Bytes → List Bytes) (artifacts : Set Validated)

/-- The demand covers what is stored.  An attempt that is held carries the receipt of the
artifact it meant to write. -/
structure Covers (demand : Option Demand) (output : Option Secret) : Prop where
  settled : ∀ d, demand = some d → d.pending = false
  held : ∀ d ids, demand = some d → d.uncertain = some ids →
    ∃ v ∈ artifacts, d.intended = some (E.receipt v) ∧ ∀ id ∈ endpointIDs v.content, id ∈ ids
  stored : ∀ secret, output = some secret → ∃ v ∈ artifacts, f.publisher.Stores E secret v ∧
    ∃ d, demand = some d ∧
      ((∀ id ∈ endpointIDs v.content, id ∈ d.selected) ∨
        ∃ ids, d.uncertain = some ids ∧ d.intended = some (E.receipt v) ∧
          ∀ id ∈ endpointIDs v.content, id ∈ ids)

/-- The steps that are considered.  The Gateway renders only artifacts among `artifacts`, and
with endpoints of its decision only. -/
def WorldStep.Fits : WorldStep R T → Prop
  | .own _ _ application => ∀ decision v, application.prepare decision = some v →
      v ∈ artifacts ∧ ∀ id ∈ endpointIDs v.content, id ∈ decision.selected.map C.id
  | .other rec => rec.gateway ≠ f.gateway

variable {C name E f endpointIDs artifacts}

theorem Covers.output_stores {demand : Option Demand}
    (h : Covers E f endpointIDs artifacts demand output) :
    ∀ secret, output = some secret → ∃ v, f.publisher.Stores E secret v := by
  intro secret hsecret
  obtain ⟨v, -, hstores, -⟩ := h.stored secret hsecret
  exact ⟨v, hstores⟩

/-- A demand for a selection that covers the output. -/
theorem Covers.of_selected {d : Demand} (hpending : d.pending = false)
    (huncertain : d.uncertain = none)
    (hstored : ∀ secret, output = some secret →
      ∃ v ∈ artifacts, f.publisher.Stores E secret v ∧
        ∀ id ∈ endpointIDs v.content, id ∈ d.selected) :
    Covers E f endpointIDs artifacts (some d) output where
  settled := by
    intro d' hd'
    obtain rfl := Option.some.inj hd'
    exact hpending
  held := by
    intro d' ids hd' hids
    obtain rfl := Option.some.inj hd'
    rw [huncertain] at hids
    cases hids
  stored := by
    intro secret hsecret
    obtain ⟨v, hv, hstores, hselected⟩ := hstored secret hsecret
    exact ⟨v, hv, hstores, d, rfl, .inl hselected⟩

/-- **Settling an attempt from the output keeps the output covered.** -/
theorem Covers.resolveUncertain (hreads : ∀ v ∈ artifacts, E.Reads v)
    (hcollision : E.CollisionFree artifacts)
    (h : Covers E f endpointIDs artifacts (demandOf f.gateway s) output) (readable : Bool) :
    Covers E f endpointIDs artifacts (demandOf f.gateway (resolveUncertain s f.gateway
      (currentOutput E f.publisher readable output))) output := by
  unfold Scheduling.resolveUncertain
  cases hlookup : s.demand.lookup f.gateway with
  | none => exact h
  | some d =>
    have hdemand : demandOf f.gateway s = some d.unseen := by rw [demandOf, hlookup]; rfl
    rw [hdemand] at h
    have hpending : d.pending = false := h.settled d.unseen rfl
    dsimp only
    cases huncertain : d.uncertain with
    | none =>
      rw [if_pos (by simp), hdemand]
      exact h
    | some ids =>
      rw [if_neg (by simp [hpending])]
      -- the demand once the attempt is settled
      have hsettled : ∀ written, demandOf f.gateway
          (settleUncertain s f.gateway d.attempt written) = some { d with
            seen := 0, selected := if written then ids else d.selected, uncertain := none,
            intended := none } := by
        intro written
        simp only [settleUncertain, hlookup, huncertain, hpending, demandOf]
        rw [if_neg (by simp), AList.lookup_insert]
        rfl
      obtain ⟨held, hheld, hintended, hids⟩ := h.held _ ids rfl huncertain
      cases hcurrent : currentOutput E f.publisher readable output d.intended with
      | none =>
        dsimp only
        rw [hdemand]
        exact h
      | some written =>
        dsimp only
        rw [hsettled written]
        refine .of_selected hpending rfl ?_
        intro secret hsecret
        obtain ⟨v, hv, hstores, d', hd', hcovered⟩ := h.stored secret hsecret
        obtain rfl := Option.some.inj hd'
        refine ⟨v, hv, hstores, ?_⟩
        have hwritten : written = true ↔ d.intended = some (E.receipt v) := by
          unfold currentOutput at hcurrent
          cases readable with
          | false => cases hcurrent
          | true =>
            rw [hsecret, hstores.currentReceipt_eq (hreads v hv)] at hcurrent
            obtain rfl := Option.some.inj hcurrent
            change d.intended = _ at hintended
            rw [hintended, receiptEqual, decide_eq_true_eq, Option.some_inj, eq_comm]
        cases written with
        | true =>
          -- the receipt says that the attempt was written
          have hreceipt := hwritten.mp rfl
          change d.intended = _ at hintended
          rw [hintended] at hreceipt
          rw [← hcollision.content_eq hheld hv (Option.some.inj hreceipt)]
          exact hids
        | false =>
          rcases hcovered with hselected | ⟨_, _, hreceipt, _⟩
          · exact hselected
          · exact absurd (hwritten.mpr hreceipt) (by simp)

/-- How `Apply` can end: what becomes of the reservation and of the output. -/
inductive Applied (E : Encoding) (p : SecretPublisher) (artifact : Option Validated)
    (output : Option Secret) : Outcome → Option Secret → Prop
  | failed : Applied E p artifact output .failed output
  | unconfirmed {v : Validated} {stored : Option Secret} (hartifact : artifact = some v)
    (hstored : stored = output ∨ ∃ secret, stored = some secret ∧ p.Stores E secret v) :
    Applied E p artifact output (.unconfirmed (some (E.receipt v))) stored
  | published {v : Validated} {secret : Secret} (hartifact : artifact = some v)
    (hstores : p.Stores E secret v) : Applied E p artifact output .published (some secret)

/-- **What `Apply` can do** with the reservation and the output. -/
theorem applied_apply {application : Application R} (decision : Decision R)
    (h : ∀ secret, output = some secret → ∃ w, f.publisher.Stores E secret w) :
    Applied E f.publisher (application.prepare decision) output
      (apply E f.publisher application output decision).1.outcome
      (apply E f.publisher application output decision).2 := by
  unfold apply
  cases application.prepare decision with
  | none => exact .failed
  | some v =>
    dsimp only
    have hpublished := SecretPublisher.published_publish (v := v) application.requests h
    generalize f.publisher.publish E application.requests output v = result at hpublished ⊢
    cases hpublished with
    | refused hcode =>
      dsimp only
      rw [if_neg (by simp [hcode])]
      exact .failed
    | uncertain hcode hstored =>
      dsimp only
      rw [if_pos hcode]
      exact .unconfirmed rfl hstored
    | @stored _ secret hstores =>
      dsimp only
      cases f.publisher.currentReceipt E application.readback (some secret) with
      | error code => exact .unconfirmed rfl (.inr ⟨secret, rfl, hstores⟩)
      | ok current =>
        dsimp only
        split_ifs
        · cases application.committed with
          | true => exact .published rfl hstores
          | false => exact .unconfirmed rfl (.inr ⟨secret, rfl, hstores⟩)
        · exact .unconfirmed rfl (.inr ⟨secret, rfl, hstores⟩)

/-- **The conclusion of the Gateway's own reservation keeps the output covered.** -/
theorem Covers.conclude {decision : Decision R} {application : Application R} {outcome : Outcome}
    {stored : Option Secret}
    (hprepare : ∀ artifact, application.prepare decision = some artifact →
      artifact ∈ artifacts ∧ ∀ id ∈ endpointIDs artifact.content, id ∈ decision.selected.map C.id)
    (happlied : Applied E f.publisher (application.prepare decision) output outcome stored)
    (hreserved : Reserved name v s reservation (decision.selected.map C.id))
    (hgateway : reservation.gateway = f.gateway)
    (h : Covers E f endpointIDs artifacts (demandOf f.gateway v) output) (now : Time)
    (hspared : Spared f.gateway (conclude name s reservation now outcome)) :
    Covers E f endpointIDs artifacts
      (demandOf f.gateway (conclude name s reservation now outcome)) stored := by
  -- admissions keep the demand of the reservation, as nothing of it is forgotten
  have hadmitted : ∀ {base : ProbeState R} {demand : Demand},
      Spared f.gateway (admitAll (cohortCapacity name) base (decision.selected.map C.id)) →
      base.demand = s.demand.insert reservation.gateway demand →
      demandOf f.gateway (admitAll (cohortCapacity name) base (decision.selected.map C.id)) =
        some demand.unseen := by
    intro base demand hspared hdemand
    rw [(keeps_admitAll f.gateway _ base _ hspared).2, demandOf, hdemand, hgateway,
      AList.lookup_insert]
    rfl
  cases happlied with
  | failed =>
    -- nothing was written, and the previous demand is back
    obtain ⟨demand, heq, hdemand⟩ := hreserved.release_eq
    rw [Scheduling.conclude, heq, demandOf, hdemand f.gateway]
    exact h
  | @unconfirmed artifact _ hartifact houtput =>
    -- possibly written: both selections are demanded
    obtain ⟨hmem, hids⟩ := hprepare artifact hartifact
    rw [hreserved.unconfirmed_eq] at hspared ⊢
    rw [hadmitted hspared rfl]
    refine ⟨?_, ?_, ?_⟩
    · intro d hd
      obtain rfl := Option.some.inj hd
      rfl
    · intro d ids hd huncertain
      obtain rfl := Option.some.inj hd
      obtain rfl := Option.some.inj huncertain
      exact ⟨artifact, hmem, rfl, hids⟩
    · intro secret hsecret
      rcases houtput with rfl | ⟨secret', rfl, hstores⟩
      · obtain ⟨w, hw, hstores, d, hd, hcovered⟩ := h.stored secret hsecret
        obtain ⟨previous, hprevious, rfl⟩ := Option.map_eq_some_iff.mp hd
        have hold : reservation.previous = previous := by
          rw [hreserved.previous, hgateway, hprevious, Option.getD_some]
        refine ⟨w, hw, hstores, _, rfl, .inl ?_⟩
        rcases hcovered with hselected | ⟨ids, huncertain, -⟩
        · intro id hid
          have := hselected id hid
          rw [← hold] at this
          exact this
        · have hresolved := hreserved.resolved
          rw [hold] at hresolved
          change previous.uncertain = some ids at huncertain
          rw [hresolved] at huncertain
          cases huncertain
      · obtain rfl := Option.some.inj hsecret
        exact ⟨artifact, hmem, hstores, _, rfl, .inr ⟨_, rfl, rfl, hids⟩⟩
  | @published artifact _ hartifact hstores =>
    -- published: the selection is the demand
    obtain ⟨hmem, hids⟩ := hprepare artifact hartifact
    obtain ⟨seen, hpublished⟩ := hreserved.published_eq now
    rw [hpublished] at hspared ⊢
    rw [hadmitted hspared rfl]
    refine .of_selected rfl rfl ?_
    intro secret hsecret
    obtain rfl := Option.some.inj hsecret
    exact ⟨artifact, hmem, hstores, hids⟩

/-- What holds between reconciliations. -/
def World.Covered (E : Encoding) (f : Followed) (endpointIDs : Bytes → List Bytes)
    (artifacts : Set Validated) (w : World R) : Prop :=
  Covers E f endpointIDs artifacts (demandOf f.gateway (w.probes.getD .zero)) w.output

/-- **One reconciliation keeps the output covered**, the Gateway's own or another one. -/
theorem World.Covered.step (hreads : ∀ v ∈ artifacts, E.Reads v)
    (hcollision : E.CollisionFree artifacts) {w : World R} {step : WorldStep R T}
    (hstep : step.Fits C f endpointIDs artifacts)
    (hspared : Spared f.gateway ((w.step C name E f step).probes.getD .zero)) :
    Spared f.gateway (w.probes.getD .zero) ∧
      (w.Covered E f endpointIDs artifacts →
        (w.step C name E f step).Covered E f endpointIDs artifacts) := by
  cases step with
  | other rec =>
    obtain ⟨hold, heq⟩ := keeps_reconcile C name w.probes rec (Ne.symm hstep) hspared
    refine ⟨hold, fun h => ?_⟩
    change Covers E f endpointIDs artifacts
      (demandOf f.gateway (reconcile C name w.probes rec)) w.output
    rw [heq]
    exact h
  | own rec readable application =>
    obtain ⟨own, hown⟩ : ∃ own, own = ownReconciliation E f w.output rec readable application :=
      ⟨_, rfl⟩
    have hgateway : own.gateway = f.gateway := by rw [hown]; rfl
    have houtcome : own.outcome = fun decision =>
      (apply E f.publisher application w.output decision).1.outcome := by rw [hown]; rfl
    -- settling the attempt changes the demand, but no losses
    obtain ⟨resolved, hresolved⟩ : ∃ resolved, resolved =
        w.probes.map fun s => resolveUncertain s own.gateway own.published := ⟨_, rfl⟩
    have hsettled : (Spared f.gateway (resolved.getD .zero) →
          Spared f.gateway (w.probes.getD .zero)) ∧
        (w.Covered E f endpointIDs artifacts → Covers E f endpointIDs artifacts
          (demandOf f.gateway (resolved.getD .zero)) w.output) := by
      cases hprobes : w.probes with
      | none =>
        rw [hprobes] at hresolved
        rw [hresolved, World.Covered, hprobes]
        exact ⟨id, id⟩
      | some s =>
        rw [hprobes] at hresolved
        rw [hresolved, World.Covered, hprobes, hown]
        refine ⟨?_, fun h => h.resolveUncertain hreads hcollision readable⟩
        intro hspared loss hloss
        apply hspared
        rwa [Option.map_some, Option.getD_some, losses_resolveUncertain]
    have hprobed := keeps_probeStep f.gateway C name resolved own
    have htouched := hprobed.trans (keeps_touchDemand f.gateway _ own.gateway own.touchedAt)
    -- a state with the same demand as the settled one
    have hkept : ∀ {s : ProbeState R}, Keeps f.gateway (resolved.getD .zero) s →
        Spared f.gateway s → Spared f.gateway (w.probes.getD .zero) ∧
          (w.Covered E f endpointIDs artifacts →
            Covers E f endpointIDs artifacts (demandOf f.gateway s) w.output) := by
      intro s hkeeps hspared
      obtain ⟨hspared, heq⟩ := hkeeps hspared
      refine ⟨hsettled.1 hspared, fun h => ?_⟩
      rw [heq]
      exact hsettled.2 h
    have hworld : w.step C name E f (.own rec readable application) =
        ⟨some (reconcile C name w.probes own), outputAfter C name E f w own application⟩ := by
      rw [hown]
      rfl
    rw [hworld] at hspared ⊢
    unfold World.Covered
    change Spared f.gateway (reconcile C name w.probes own) at hspared
    change _ ∧ (_ → Covers E f endpointIDs artifacts
      (demandOf f.gateway (reconcile C name w.probes own))
      (outputAfter C name E f w own application))
    unfold reconcile outputAfter at *
    rcases beforeConclusion_cases C name w.probes own rfl with
      heq | ⟨s, heq, hsame⟩ | ⟨s, reservation, decision, v, heq, hreservation, hsame, hreserved⟩
    · rw [heq] at hspared ⊢
      rw [← hresolved] at hspared ⊢
      exact hkept hprobed hspared
    · rw [heq] at hspared ⊢
      rw [← hresolved] at hsame
      exact hkept (htouched.trans (.of_same hsame)) hspared
    · rw [heq] at hspared ⊢
      rw [← hresolved] at hsame
      dsimp only at hspared ⊢
      rw [houtcome] at hspared ⊢
      obtain ⟨hold, hcovers⟩ := hkept (htouched.trans (.of_same hsame))
        (hreserved.spared_of_conclude hspared)
      refine ⟨hold, fun h => ?_⟩
      exact (hcovers h).conclude (hstep decision) (applied_apply decision (hcovers h).output_stores)
        hreserved (hreservation.trans hgateway) _ hspared

theorem World.Covered.run (hreads : ∀ v ∈ artifacts, E.Reads v)
    (hcollision : E.CollisionFree artifacts) {steps : List (WorldStep R T)}
    (hsteps : ∀ step ∈ steps, step.Fits C f endpointIDs artifacts) {w : World R}
    (hspared : Spared f.gateway ((steps.foldl (World.step C name E f) w).probes.getD .zero)) :
    Spared f.gateway (w.probes.getD .zero) ∧
      (w.Covered E f endpointIDs artifacts →
        (steps.foldl (World.step C name E f) w).Covered E f endpointIDs artifacts) := by
  induction steps generalizing w with
  | nil => exact ⟨hspared, id⟩
  | cons step steps ih =>
    obtain ⟨hnext, hrest⟩ := ih (fun step hstep => hsteps step (by simp [hstep])) hspared
    obtain ⟨hold, hstep⟩ := World.Covered.step hreads hcollision (hsteps step (by simp)) hnext
    exact ⟨hold, fun h => hrest (hstep h)⟩

end Cover

/-- The content that an output Secret holds. -/
def storedContent (secret : Secret) : Bytes :=
  ((secret.data.lookup (ascii "config.yaml")).or (secret.data.lookup (ascii "config.json"))).getD []

theorem storedContent_eq {E : Encoding} {p : SecretPublisher} {secret : Secret} {v : Validated}
    (h : p.Stores E secret v) : storedContent secret = v.content := by
  obtain ⟨configKey, hkey, hdata⟩ := h.data
  rw [storedContent, hdata]
  rcases SecretPublisher.configDataKey_cases v with ⟨-, hv⟩ | ⟨-, hv⟩
  · obtain rfl := Option.some.inj (hv.symm.trans hkey)
    rw [SecretPublisher.lookup_config]
    rfl
  · obtain rfl := Option.some.inj (hv.symm.trans hkey)
    rw [SecretPublisher.lookup_config,
      SecretPublisher.lookup_other (by decide +kernel) (by decide +kernel)]
    rfl

/-- **The published output is covered by demand.**  A Gateway starts without output and without
demand in a context.  After any sequence of its reconciliations and of those of other
Gateways in which nothing of its demand expired or was forgotten, the endpoints of the
stored artifact are in the selection of its demand, or in its uncertain attempt, and then
the receipt of the attempt is the one of the output. -/
theorem output_covered (C : Catalog R) (name : Bytes) (E : Encoding) (f : Followed)
    (endpointIDs : Bytes → List Bytes) (artifacts : Set Validated)
    (hreads : ∀ v ∈ artifacts, E.Reads v) (hcollision : E.CollisionFree artifacts)
    (probes : Option (ProbeState R))
    (hstart : (probes.getD .zero).demand.lookup f.gateway = none) (steps : List (WorldStep R T))
    (hsteps : ∀ step ∈ steps, step.Fits C f endpointIDs artifacts) (w : World R)
    (hw : w = steps.foldl (World.step C name E f) ⟨probes, none⟩)
    (hspared : Spared f.gateway (w.probes.getD .zero)) (secret : Secret)
    (hsecret : w.output = some secret) :
    ∃ demand, (w.probes.getD .zero).demand.lookup f.gateway = some demand ∧
      ((∀ id ∈ endpointIDs (storedContent secret), id ∈ demand.selected) ∨
        ∃ ids receipt, demand.uncertain = some ids ∧
          (∀ id ∈ endpointIDs (storedContent secret), id ∈ ids) ∧
          demand.intended = some receipt ∧
          f.publisher.currentReceipt E true (some secret) = .ok (some receipt)) := by
  have hinitial : World.Covered E f endpointIDs artifacts (⟨probes, none⟩ : World R) := by
    unfold World.Covered
    rw [demandOf, hstart]
    exact ⟨by simp, by simp, by simp⟩
  subst hw
  have hcovered := (World.Covered.run hreads hcollision hsteps hspared).2 hinitial
  obtain ⟨v, hv, hstores, d, hd, hids⟩ := hcovered.stored secret hsecret
  obtain ⟨demand, hlookup, rfl⟩ := Option.map_eq_some_iff.mp hd
  refine ⟨demand, hlookup, ?_⟩
  rw [storedContent_eq hstores]
  rcases hids with hselected | ⟨ids, huncertain, hintended, hids⟩
  · exact .inl hselected
  · exact .inr ⟨ids, E.receipt v, huncertain, hids, hintended,
      hstores.currentReceipt_eq (hreads v hv)⟩

namespace Sample

def catalog : Catalog Unit := ⟨fun _ => ascii "endpoint", fun _ => true⟩

def receiptData : ReceiptData := ⟨mihomo11931, Digest.zero.val, ascii "checker"⟩

def encoding : Encoding where
  sum256 := fun _ => .zero
  unmarshal := fun encoded => if encoded = receiptData.marshal then some receiptData else none

def artifact : Validated where
  profile := mihomo11931
  content := ascii "proxies"
  validatorID := ascii "checker"
  known := by decide +kernel
  content_ne := by decide +kernel
  safe := by decide +kernel

def followed : Followed := ⟨ascii "gateway", ⟨ascii "gateway", ascii "uid", ascii "Mihomo"⟩⟩

def decision : Decision Unit :=
  { selected := [()], explanations := []
    next := ⟨[], ⟨⟨[], none⟩, [], .httpGet, mihomo11931⟩, .zero, 0, [], []⟩
    changed := true, degraded := false, transition := .initial, eligible := 1, requested := 1 }

/-- A reconciliation that writes the output without being able to confirm it. -/
def unconfirmed : WorldStep Unit Unit :=
  .own
    { gateway := [], published := fun _ => none, records := [()], target := (), roundAt := 0
      refresh := 0, round := .executed [] (some false), touchedAt := 0, decidedAt := 0
      plan := .planned decision .failed, outcome := fun _ => .failed }
    true
    { prepare := fun d => if d.selected = [()] then some artifact else none
      requests := ⟨true, true, true, .failed true⟩
      readback := true
      committed := true }

def world : World Unit := [unconfirmed].foldl (World.step catalog [] encoding followed) ⟨none, none⟩

/-- An output that was written by a failed request is covered by the uncertain attempt. -/
theorem output_covered_unconfirmed :
    world.output.isSome = true ∧ ∀ secret, world.output = some secret →
      ∃ demand, (world.probes.getD .zero).demand.lookup followed.gateway = some demand ∧
        ((∀ id ∈ [ascii "endpoint"], id ∈ demand.selected) ∨
          ∃ ids receipt, demand.uncertain = some ids ∧ (∀ id ∈ [ascii "endpoint"], id ∈ ids) ∧
            demand.intended = some receipt ∧
            followed.publisher.currentReceipt encoding true (some secret) =
              .ok (some receipt)) := by
  refine ⟨by decide +kernel, fun secret hsecret => ?_⟩
  refine output_covered catalog [] encoding followed (fun _ => [ascii "endpoint"]) {artifact} ?_ ?_
    none ?_ [unconfirmed] ?_ world rfl ?_ secret hsecret
  · rintro v rfl
    have hdata : encoding.receiptData artifact = receiptData := rfl
    rw [Encoding.Reads, Encoding.protectedReceipt, hdata]
    simp only [encoding, if_true]
  · rw [Encoding.CollisionFree, Set.image_singleton]
    exact Set.injOn_singleton _ _
  · exact AList.lookup_empty _
  · intro step hstep
    obtain rfl := List.mem_singleton.mp hstep
    intro d v hv
    dsimp only at hv
    split_ifs at hv with hselected
    obtain rfl := Option.some.inj hv
    refine ⟨rfl, ?_⟩
    rw [hselected]
    exact fun id hid => hid
  · have hlosses : (world.probes.getD .zero).losses.isEmpty = true := by decide +kernel
    intro loss hloss
    rw [List.isEmpty_iff.mp hlosses] at hloss
    cases hloss

end Sample

end Egressfox.Scheduling
