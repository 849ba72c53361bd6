import Solovey.Data.KeySort
import Solovey.Network.Render

/-!
# Acceptance in any order

What `CompileProtection` checks of its lists is checked of every member, and of the names of all
members together. So it accepts an intent whatever the order of its lists and of the lists of the
facts.
-/

namespace Solovey.Network

open Solovey.Text Solovey.Net List

/-! ## Endpoints -/

def ProtectionEndpoint.name (endpoint : ProtectionEndpoint) : Str :=
  endpoint.binding.endpointRevision.take 12

def ProtectionEndpoint.admissible (limits : ProtectionLimits) (endpoint : ProtectionEndpoint) :
    Bool :=
  !(!digest endpoint.binding.endpointRevision || !validEndpoint endpoint.key ||
      decide (limits.maxElements < endpoint.contributions.length) ||
      endpoint.udpNew.any (fun limit => limit != ⟨200, 400⟩ || endpoint.key.network != .udp)) &&
    endpoint.contributions.all (validContribution limits endpoint.key)

theorem checkEndpoints_eq_ok {ls : ProtectionLimits} {es : List ProtectionEndpoint}
    {ns : List Str} :
    checkEndpoints ls es ns = .ok () ↔ (∀ endpoint ∈ es, endpoint.admissible ls = true) ∧
        (es.map ProtectionEndpoint.name).Nodup ∧
        ∀ endpoint ∈ es, endpoint.name ∉ ns := by
  induction es generalizing ns with
  | nil => simp [checkEndpoints]
  | cons endpoint rest ih =>
    simp only [checkEndpoints, forall_mem_cons, map_cons, nodup_cons]
    split
    next hfl =>
      simp [ProtectionEndpoint.admissible, hfl]
    next hfl =>
      split
      next hnm =>
        rw [contains_iff_mem] at hnm
        simp [ProtectionEndpoint.name, hnm]
      next hnm =>
        rw [contains_iff_mem] at hnm
        split
        next hc => simp_all [ProtectionEndpoint.admissible]
        next hc =>
          have ha : endpoint.admissible ls = true := by simp_all [ProtectionEndpoint.admissible]
          rw [ih]
          simp only [mem_cons, not_or, ha, mem_map, not_exists, not_and, true_and]
          constructor
          · rintro ⟨hal, hnd, hn⟩
            exact ⟨hal, ⟨fun other ho => (hn other ho).1, hnd⟩, hnm,
              fun other ho => (hn other ho).2⟩
          · rintro ⟨hal, ⟨hf, hnd⟩, -, hn⟩
            exact ⟨hal, hnd, fun other ho => ⟨hf other ho, hn other ho⟩⟩

theorem checkEndpoints_perm {ls : ProtectionLimits} {es es' : List ProtectionEndpoint}
    (hp : es'.Perm es) (h : checkEndpoints ls es [] = .ok ()) :
    checkEndpoints ls es' [] = .ok () := by
  obtain ⟨ha, hn, _⟩ := checkEndpoints_eq_ok.mp h
  refine checkEndpoints_eq_ok.mpr ⟨fun endpoint hm => ha endpoint (hp.mem_iff.mp hm), ?_,
    fun _ _ => not_mem_nil⟩
  exact ((hp.map _).nodup_iff).mpr hn

/-! ## Bindings and facts -/

def ResourceBinding.admissible (facts : Facts) (binding : ResourceBinding) : Prop :=
  token binding.resourceRef 256 = true ∧ token binding.owner 64 = true ∧
    digest binding.desiredRevision = true ∧ digest binding.endpointRevision = true ∧
    binding ∈ facts.resources ∧
    (binding.management = true → checkManagement facts binding = .ok ())

def ResourceBinding.socket (binding : ResourceBinding) : Str × Str :=
  (binding.resourceRef, binding.endpointRevision)

theorem checkBindings_eq_ok {fs : Facts} {bs : List ResourceBinding} {s : List (Str × Str)} :
    checkBindings fs bs s = .ok () ↔ (∀ binding ∈ bs, binding.admissible fs) ∧
        (bs.map ResourceBinding.socket).Nodup ∧
        ∀ binding ∈ bs, binding.socket ∉ s := by
  induction bs generalizing s with
  | nil => simp [checkBindings]
  | cons binding rest ih =>
    simp only [checkBindings, forall_mem_cons, map_cons, nodup_cons]
    split
    next hfl =>
      refine iff_of_false (by simp) ?_
      rintro ⟨⟨⟨hrs, how, hd, hep, _⟩, _⟩, _, hs, _⟩
      simp only [hrs, how, hd, hep, Bool.not_true, Bool.false_or, decide_eq_true_eq] at hfl
      exact hs hfl
    next hfl =>
    simp only [Bool.or_eq_true, Bool.not_eq_true', decide_eq_true_eq, not_or,
      Bool.not_eq_false] at hfl
    obtain ⟨⟨⟨⟨hrs, how⟩, hd⟩, hep⟩, hs⟩ := hfl
    split
    next hg =>
      refine iff_of_false (by simp) ?_
      rintro ⟨⟨⟨_, _, _, _, he, _⟩, _⟩, _⟩
      rw [Bool.not_eq_true', any_eq_false] at hg
      exact hg binding he (by simp)
    split
    next hc =>
      refine iff_of_false (by simp) ?_
      rintro ⟨⟨⟨_, _, _, _, he, _⟩, _⟩, _⟩
      exact hc he
    next he =>
    rw [not_not] at he
    cases hmn : (if binding.management then checkManagement fs binding
        else .ok () : Except Reason Unit) with
    | error r =>
      refine iff_of_false (by simp) ?_
      rintro ⟨⟨⟨_, _, _, _, _, hcn⟩, _⟩, _⟩
      split at hmn
      next hm =>
        rw [hcn hm] at hmn
        cases hmn
      · cases hmn
    | ok _ =>
      have ha : binding.admissible fs := by
        refine ⟨hrs, how, hd, hep, he, fun hm => ?_⟩
        rwa [if_pos hm] at hmn
      simp only [ih, mem_cons, not_or, ha, mem_map, not_exists, not_and, true_and]
      constructor
      · rintro ⟨hal, hn, hr⟩
        exact ⟨hal, ⟨fun other ho => (hr other ho).1, hn⟩, hs, fun other ho => (hr other ho).2⟩
      · rintro ⟨hal, ⟨hf, hn⟩, _, hr⟩
        exact ⟨hal, hn, fun other ho => ⟨hf other ho, hr other ho⟩⟩

theorem compile_perm {i : Intent} {rs rs' : List ResourceBinding} {fs : Facts} (hp : rs'.Perm rs)
    (h : compile i rs fs = .ok ()) :
    compile i rs' fs = .ok () := by
  simp only [compile, hp.length_eq] at h ⊢
  split at h
  · cases h
  next hi =>
  rw [if_neg hi]
  split at h
  · cases h
  next ho =>
  rw [if_neg ho]
  split at h
  · cases h
  next hc =>
  rw [if_neg hc]
  cases hb : checkBindings fs rs [] with
  | error r => simp [hb] at h
  | ok _ =>
    obtain ⟨ha, hn, _⟩ := checkBindings_eq_ok.mp hb
    have hb' : checkBindings fs rs' [] = .ok () := by
      refine checkBindings_eq_ok.mpr ⟨fun binding hm => ha binding (hp.mem_iff.mp hm), ?_,
        fun _ _ => not_mem_nil⟩
      exact ((hp.map _).nodup_iff).mpr hn
    simp only [hb] at h
    rw [hb']
    exact h

/-! ## Intents -/

/-- The same intent but for the order of its endpoints and of its exemptions. -/
structure ProtectionEnforcementIntent.Reordered (intent intent' : ProtectionEnforcementIntent) :
    Prop where
  binding : intent'.binding = intent.binding
  artifactRevision : intent'.artifactRevision = intent.artifactRevision
  mode : intent'.mode = intent.mode
  limits : intent'.limits = intent.limits
  rates : intent'.rates = intent.rates
  endpoints : intent'.endpoints.Perm intent.endpoints
  exemptions : intent'.managementExemptions.Perm intent.managementExemptions

theorem compileProtection_reordered {sr : TimedSource → Str} {i i' p : ProtectionEnforcementIntent}
    {fs : Facts} (hcn : (canonicalProtection sr i).Reordered (canonicalProtection sr i'))
    (h : compileProtection sr i fs = .ok p) :
    ∃ p', compileProtection sr i' fs = .ok p' := by
  simp only [compileProtection, hcn.artifactRevision, hcn.binding, hcn.mode,
    hcn.limits, hcn.rates, hcn.endpoints.length_eq,
    hcn.exemptions.length_eq, hcn.exemptions.all_eq] at h ⊢
  split at h
  · cases h
  next hf =>
  rw [if_neg hf]
  split at h
  · cases h
  next hl =>
  rw [if_neg hl]
  split at h
  · cases h
  next hep =>
  rw [checkEndpoints_perm hcn.endpoints hep]
  dsimp only
  split at h
  · cases h
  next he =>
  rw [if_neg he]
  split at h
  · cases h
  next hc =>
  rw [compile_perm (hcn.endpoints.map _) hc]
  exact ⟨_, rfl⟩

/-- No two endpoints of an accepted intent share the name of their chain. -/
theorem compileProtection_names {sr : TimedSource → Str} {i p : ProtectionEnforcementIntent}
    {fs : Facts} (h : compileProtection sr i fs = .ok p) :
    (i.endpoints.map ProtectionEndpoint.name).Nodup := by
  simp only [compileProtection] at h
  split at h
  · cases h
  split at h
  · cases h
  split at h
  · cases h
  next he =>
    have hn := (checkEndpoints_eq_ok.mp he).2.1
    simp only [canonicalProtection, List.map_map] at hn
    exact (((perm_insertionSort _ i.endpoints).map _).nodup_iff).mp hn

end Solovey.Network
