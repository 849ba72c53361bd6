import Solovey.Network.Identity

/-!
# Drift of the managed table

`CompareResource` compares the ownership that a plan expects with the allocations found on the host.
Its scan ends at the first allocation that says something: a proven child of the table that the plan
does not know, a holder that is not proven or foreign, a holder with another revision. With two
different ones in the list the order decides which is reported, and a drift that may be repaired
hides one that may not.
-/

namespace Solovey.Network

open Solovey.Text List

structure Ownership where
  hostRef : HostRef
  owner : Str
  resourceRef : Str
  planRevision : Str
  kind : Str
  purpose : Str
  allocation : Str

inductive DriftKind
  | missing
  | mismatch
  | stale
  | unexpectedManagedResource
  | dependencyUnavailable
  | unknown
  deriving DecidableEq

structure Drift where
  kind : DriftKind
  resourceRef : Str
  repairable : Bool
  deriving DecidableEq

section

variable (expected : Ownership)

/-- A proven resource of the owner below the expected one. -/
def Ownership.child (found : ObservedAllocation) : Bool :=
  (expected.allocation ++ [':']).isPrefixOf found.allocation && found.proven &&
    found.hostRef == expected.hostRef && found.owner == expected.owner

/-- A holder of the allocation that is not proven, or is another one's. -/
def Ownership.disputed (found : ObservedAllocation) : Bool :=
  !found.proven || found.hostRef != expected.hostRef || found.owner != expected.owner ||
    found.resourceRef != expected.resourceRef

def Ownership.outdated (found : ObservedAllocation) : Bool :=
  found.planRevision != expected.planRevision || found.identityMismatch

/-- The body of the scan: what one allocation makes of the comparison. -/
def Ownership.finding (found : ObservedAllocation) : Option Drift :=
  if found.allocation ≠ expected.allocation then
    if expected.child found then some ⟨.unexpectedManagedResource, found.resourceRef, false⟩
    else none
  else if expected.disputed found then some ⟨.unknown, expected.resourceRef, false⟩
  else if expected.outdated found then some ⟨.mismatch, expected.resourceRef, true⟩
  else none

def Ownership.scan : Bool → List ObservedAllocation → List Drift
  | found, [] => if found then [] else [⟨.missing, expected.resourceRef, true⟩]
  | found, allocation :: rest =>
    match expected.finding allocation with
    | some drift => [drift]
    | none => Ownership.scan (found || allocation.allocation == expected.allocation) rest

/-- The observation can be compared with the plan: it is complete and of the plan's revision. -/
def Ownership.comparable (observationPlanRevision : Str) (available : Bool)
    (actual : List ObservedAllocation) : Bool :=
  digest expected.planRevision && available && decide (actual.length ≤ 8192) &&
    observationPlanRevision == expected.planRevision

def compareResource (observationPlanRevision : Str) (available : Bool)
    (actual : List ObservedAllocation) : List Drift :=
  if !digest expected.planRevision || !available || decide (8192 < actual.length) then
    [⟨.dependencyUnavailable, expected.resourceRef, false⟩]
  else if observationPlanRevision ≠ expected.planRevision then
    [⟨.stale, expected.resourceRef, false⟩]
  else expected.scan false actual

end

variable {expected : Ownership} {actual : List ObservedAllocation} {fn : Bool}
  {a b : ObservedAllocation}

/-! ## The scan -/

/-- The scan reports its first finding; without one, whether it met a holder decides. -/
theorem Ownership.scan_eq : expected.scan fn actual =
    match actual.findSome? expected.finding with
    | some d => [d]
    | none => if fn || actual.any (·.allocation == expected.allocation) then []
      else [⟨.missing, expected.resourceRef, true⟩] := by
  induction actual generalizing fn with
  | nil => simp [scan]
  | cons al rest ih =>
    rw [scan, findSome?_cons]
    cases expected.finding al with
    | some d => rfl
    | none =>
      simp only [ih, any_cons, Bool.or_assoc]
      rfl

/-- An allocation in front whose finding there is. -/
theorem Ownership.scan_erase (fn : Bool) (ha : a ∈ actual) {d : Drift}
    (hd : expected.finding a = some d) :
    ∃ other : List ObservedAllocation, other.Perm actual ∧ expected.scan fn other = [d] := by
  obtain ⟨f, bc, rfl⟩ := append_of_mem ha
  refine ⟨a :: (f ++ bc), perm_middle.symm, ?_⟩
  rw [scan, hd]

/-- Every allocation with a finding has the same one. -/
def Ownership.Agrees (expected : Ownership) (actual : List ObservedAllocation) : Prop :=
  ∀ a ∈ actual, ∀ b ∈ actual, ∀ d ∈ expected.finding a, ∀ d' ∈ expected.finding b, d = d'

theorem Ownership.Agrees.findSome? (h : expected.Agrees actual) (ha : a ∈ actual) {d : Drift}
    (hd : expected.finding a = some d) :
    actual.findSome? expected.finding = some d := by
  cases hf : actual.findSome? expected.finding with
  | none =>
    rw [findSome?_eq_none_iff.mp hf a ha] at hd
    cases hd
  | some first =>
    obtain ⟨b, hb, hfn⟩ := exists_of_findSome?_eq_some hf
    rw [h a ha b hb d hd first hfn]

theorem Ownership.Agrees.perm (h : expected.Agrees actual) {o : List ObservedAllocation}
    (hp : o.Perm actual) : expected.scan fn o = expected.scan fn actual := by
  have hf : o.findSome? expected.finding = actual.findSome? expected.finding := by
    cases ho : o.findSome? expected.finding with
    | none =>
      refine (findSome?_eq_none_iff.mpr fun a ha => ?_).symm
      exact findSome?_eq_none_iff.mp ho a (hp.mem_iff.mpr ha)
    | some d =>
      obtain ⟨a, ha, hd⟩ := exists_of_findSome?_eq_some ho
      exact (h.findSome? (hp.mem_iff.mp ha) hd).symm
  have han : o.any (·.allocation == expected.allocation) =
      actual.any (·.allocation == expected.allocation) := hp.any_eq
  rw [Ownership.scan_eq, Ownership.scan_eq, hf, han]

/-! ## The comparison -/

/-- The list holds one kind of finding: no unexpected child beside a disputed or an outdated holder,
no disputed holder beside an outdated one, and all unexpected children of one resource. -/
structure Ownership.Uniform (expected : Ownership) (actual : List ObservedAllocation) : Prop where
  children : ∀ a ∈ actual, ∀ b ∈ actual, expected.child a = true → expected.child b = true →
    a.resourceRef = b.resourceRef
  holders : ∀ a ∈ actual, ∀ b ∈ actual, expected.child a = true →
    b.allocation = expected.allocation → expected.disputed b = false ∧ expected.outdated b = false
  disputes : ∀ a ∈ actual, ∀ b ∈ actual, a.allocation = expected.allocation →
    b.allocation = expected.allocation → expected.disputed a = true → expected.disputed b = false →
    expected.outdated b = false

theorem Ownership.child_ne (h : expected.child a = true) : a.allocation ≠ expected.allocation := by
  intro heq
  simp only [child, Bool.and_eq_true, isPrefixOf_iff_prefix, heq] at h
  have hl := h.1.1.1.length_le
  simp at hl

/-- What a finding comes from. -/
theorem Ownership.finding_eq_some {d : Drift} : expected.finding a = some d ↔
    (expected.child a = true ∧ d = ⟨.unexpectedManagedResource, a.resourceRef, false⟩) ∨
    (a.allocation = expected.allocation ∧ expected.disputed a = true ∧
      d = ⟨.unknown, expected.resourceRef, false⟩) ∨
    (a.allocation = expected.allocation ∧ expected.disputed a = false ∧
      expected.outdated a = true ∧ d = ⟨.mismatch, expected.resourceRef, true⟩) := by
  unfold finding
  by_cases hc : expected.child a = true
  · have hne := child_ne hc
    simp [hc, hne, @eq_comm _ d]
  · by_cases ha : a.allocation = expected.allocation <;>
      cases hd : expected.disputed a <;> cases ho : expected.outdated a <;>
        simp [hc, ha, @eq_comm _ d]

theorem Ownership.agrees_iff : expected.Agrees actual ↔ expected.Uniform actual := by
  constructor
  · intro h
    refine ⟨fun a ha b hb hc hch' => ?_, fun a ha b hb hc hal => ?_,
      fun a ha b hb hal ha' hds hcl => ?_⟩
    · have heq := h a ha b hb _ (finding_eq_some.mpr (.inl ⟨hc, rfl⟩)) _
        (finding_eq_some.mpr (.inl ⟨hch', rfl⟩))
      exact congrArg Drift.resourceRef heq
    · have hn : expected.finding b = none := by
        by_contra hs
        obtain ⟨dr, hdr⟩ := Option.ne_none_iff_exists'.mp hs
        have heq := h a ha b hb _ (finding_eq_some.mpr (.inl ⟨hc, rfl⟩)) dr hdr
        rcases finding_eq_some.mp hdr with ⟨hb', -⟩ | ⟨-, -, rfl⟩ | ⟨-, -, -, rfl⟩
        · exact child_ne hb' hal
        · cases heq
        · cases heq
      unfold finding at hn
      split_ifs at hn <;> simp_all
    · rw [← Bool.not_eq_true]
      intro ho
      have heq := h a ha b hb _ (finding_eq_some.mpr (.inr (.inl ⟨hal, hds, rfl⟩))) _
        (finding_eq_some.mpr (.inr (.inr ⟨ha', hcl, ho, rfl⟩)))
      cases heq
  · intro h a ha b hb d hd d' hd'
    rcases finding_eq_some.mp hd with ⟨hc, rfl⟩ | ⟨hal, hds, rfl⟩ | ⟨hal, hcl, ho, rfl⟩ <;>
      rcases finding_eq_some.mp hd' with ⟨hch', rfl⟩ | ⟨ha', hds', rfl⟩ | ⟨ha', hc', ho', rfl⟩
    · rw [h.children a ha b hb hc hch']
    · rw [(h.holders a ha b hb hc ha').1] at hds'
      cases hds'
    · rw [(h.holders a ha b hb hc ha').2] at ho'
      cases ho'
    · rw [(h.holders b hb a ha hch' hal).1] at hds
      cases hds
    · rfl
    · rw [h.disputes a ha b hb hal ha' hds hc'] at ho'
      cases ho'
    · rw [(h.holders b hb a ha hch' hal).2] at ho
      cases ho
    · rw [h.disputes b hb a ha ha' hal hds' hcl] at ho
      cases ho
    · rfl

variable {observationPlanRevision : Str} {available : Bool}

theorem compareResource_comparable
    (h : expected.comparable observationPlanRevision available actual = true) :
    compareResource expected observationPlanRevision available actual =
      expected.scan false actual := by
  simp only [Ownership.comparable, Bool.and_eq_true, decide_eq_true_eq, beq_iff_eq] at h
  obtain ⟨⟨⟨hd, ha⟩, hl⟩, hr⟩ := h
  simp [compareResource, hd, ha, hl, hr]

/-- Without an observation that can be compared nothing is offered for repair, in any order. -/
theorem compareResource_incomparable
    (h : expected.comparable observationPlanRevision available actual = false) :
    ∃ d : Drift, d.repairable = false ∧ ∀ other : List ObservedAllocation, other.Perm actual →
        compareResource expected observationPlanRevision available other = [d] := by
  by_cases hr : (!digest expected.planRevision || !available ||
      decide (8192 < actual.length)) = true
  · exact ⟨_, rfl, fun other hp => if_pos (hp.length_eq ▸ hr)⟩
  · refine ⟨⟨.stale, expected.resourceRef, false⟩, rfl, fun other hp => ?_⟩
    rw [compareResource, hp.length_eq, if_neg hr, if_pos]
    rintro rfl
    simp only [Bool.or_eq_true, Bool.not_eq_true', decide_eq_true_eq, not_or, Bool.not_eq_false,
      not_lt] at hr
    simp [Ownership.comparable, hr.1.1, hr.1.2, hr.2] at h

/-- The drift is the same in every order, and a repair is offered only if there is neither a proven
unexpected child nor a disputed holder, exactly if a comparable list holds one kind of finding. -/
theorem drift_order_free_iff (expected : Ownership) (observationPlanRevision : Str)
    (available : Bool) (actual : List ObservedAllocation) :
    ((∀ other : List ObservedAllocation, other.Perm actual →
      compareResource expected observationPlanRevision available other =
        compareResource expected observationPlanRevision available actual) ∧
    ((∃ drift ∈ compareResource expected observationPlanRevision available actual,
        drift.repairable = true) →
      ∀ a ∈ actual, expected.child a = false ∧
        (a.allocation = expected.allocation → expected.disputed a = false))) ↔
    (expected.comparable observationPlanRevision available actual = true →
      expected.Uniform actual) := by
  cases hcm : expected.comparable observationPlanRevision available actual with
  | false =>
    obtain ⟨drift, hr, hs⟩ := compareResource_incomparable hcm
    rw [hs actual (.refl _)]
    simpa [hr] using fun other hp => hs other hp
  | true =>
    have hsc : ∀ other : List ObservedAllocation, other.Perm actual →
        compareResource expected observationPlanRevision available other =
          expected.scan false other := by
      intro other hp
      refine compareResource_comparable ?_
      rw [← hcm, Ownership.comparable, Ownership.comparable, hp.length_eq]
    rw [hsc actual (.refl _), forall_prop_of_true rfl, ← Ownership.agrees_iff]
    constructor
    · rintro ⟨hs, -⟩ a ha b hb d hd d' hd'
      -- each of the two can be put in front
      obtain ⟨first, hf, heq⟩ := Ownership.scan_erase false ha hd
      obtain ⟨second, hse, he'⟩ := Ownership.scan_erase false hb hd'
      have hdr : [d] = [d'] := by
        rw [← heq, ← he', ← hsc first hf, ← hsc second hse, hs first hf, hs second hse]
      exact head_eq_of_cons_eq hdr
    · intro hag
      refine ⟨fun other hp => ?_, ?_⟩
      · rw [hsc other hp, hag.perm hp]
      · rintro ⟨drift, hm, hr⟩ a ha
        have hno : ∀ other ∈ expected.finding a, other.repairable = true := by
          intro other ho
          rw [Ownership.scan_eq, hag.findSome? ha ho, mem_singleton] at hm
          exact hm ▸ hr
        constructor
        · rw [← Bool.not_eq_true]
          intro hc
          cases hno _ (Ownership.finding_eq_some.mpr (.inl ⟨hc, rfl⟩))
        · intro hal
          rw [← Bool.not_eq_true]
          intro hds
          cases hno _ (Ownership.finding_eq_some.mpr (.inr (.inl ⟨hal, hds, rfl⟩)))

namespace Sample

def table : Ownership where
  hostRef := .thisHost
  owner := "server-protection".toList
  resourceRef := protectionResourceRef
  planRevision := revision 'a'
  kind := "filter_table".toList
  purpose := "protection-enforcement".toList
  allocation := protectionAllocation

/-- The table as the plan expects it, but for its revision and its proof. -/
def holder (proven : Bool) : ObservedAllocation where
  hostRef := table.hostRef
  owner := table.owner
  resourceRef := table.resourceRef
  planRevision := revision 'b'
  kind := table.kind
  allocation := table.allocation
  proven := proven
  purpose := table.purpose
  identityMismatch := false

end Sample

/-- An outdated holder before one that is not proven: a repair is offered. In the other order it is
not. -/
theorem drift_repair_disputed :
    compareResource Sample.table (Sample.revision 'a') true
      [Sample.holder true, Sample.holder false] = [⟨.mismatch, protectionResourceRef, true⟩] ∧
    compareResource Sample.table (Sample.revision 'a') true
      [Sample.holder false, Sample.holder true] = [⟨.unknown, protectionResourceRef, false⟩] ∧
    (Sample.holder false).allocation = Sample.table.allocation ∧
    Sample.table.disputed (Sample.holder false) = true := by
  refine ⟨?_, ?_, rfl, rfl⟩
  · decide +kernel
  · decide +kernel

end Solovey.Network
