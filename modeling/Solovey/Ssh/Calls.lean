import Solovey.Ssh.Manager

/-!
# What a call can do

One lemma for each kind of call, read off the environment: a quiet call leaves the database as it
is, and a write that is stored changes the rows it says. Pruning only deletes rows that retention
may delete.
-/

namespace Solovey.Ssh

open Text (Str)
open Data List

variable {D : Digests} {s t u : World} {c : Candidate}

def World.log (w : World) (event : Event) : World := { w with trace := event :: w.trace }

@[simp] theorem log_rows (event : Event) : (s.log event).rows = s.rows := rfl

@[simp] theorem log_checkpoints (event : Event) : (s.log event).checkpoints = s.checkpoints := rfl

@[simp] theorem log_issued (event : Event) : (s.log event).issued = s.issued := rfl

variable {e : Effect}

theorem react_trace {r : Reply e} (h : react D s e r = some t) : t.trace = ⟨e, r⟩ :: s.trace := by
  obtain ⟨u, -, rfl⟩ := Option.map_eq_some_iff.mp h
  rfl

/-- The calls that leave the database as it is, whatever they are answered. -/
def Effect.quiet : Effect → Bool
  | .randomID => false
  | .createCandidateWithJournal _ => false
  | .updateCandidateCASWithJournal _ _ _ _ _ => false
  | .commitCandidateCASWithJournalAndEvidence _ _ _ _ _ _ => false
  | .saveCheckpoint _ => false
  | .saveChallenge _ => false
  | .pruneHistory => false
  | _ => true

theorem lookup_eq {α : Type} [DecidableEq α] {stored : Option α} {r : Lookup α}
    (h : s.lookup stored r = some t) : t = s := by
  cases r with
  | found | missing =>
    simp only [World.lookup] at h
    split at h <;> cases h
    rfl
  | failed =>
    cases h
    rfl

theorem lookupCandidate_eq {holds : Candidate → Bool} {r : Lookup Candidate}
    (h : s.lookupCandidate D holds r = some t) : t = s := by
  cases r with
  | found | missing =>
    simp only [World.lookupCandidate] at h
    split at h <;> cases h
    rfl
  | failed =>
    cases h
    rfl

theorem respond_quiet {r : Reply e} (he : e.quiet = true) (h : s.respond D e r = some t) :
    t = s := by
  cases e with
  | stageReleaseDebts =>
    cases r with
    | none =>
      cases h
      rfl
    | some ds =>
      simp only [World.respond] at h
      split at h <;> cases h
      rfl
  | candidateByIdempotency | candidate | activeCandidate => exact lookupCandidate_eq h
  | checkpoint id | challenge id => exact lookup_eq h
  | randomID | createCandidateWithJournal | updateCandidateCASWithJournal
  | commitCandidateCASWithJournalAndEvidence | saveCheckpoint | saveChallenge | pruneHistory =>
    cases he
  | _ =>
    cases h
    rfl

theorem react_quiet {r : Reply e} (he : e.quiet = true) (h : react D s e r = some t) :
    t = s.log ⟨e, r⟩ := by
  obtain ⟨u, hu, rfl⟩ := Option.map_eq_some_iff.mp h
  rw [respond_quiet he hu]
  rfl

/-! ## Replies of lookups -/

variable {id : Str}

theorem react_checkpoint_found {k : Checkpoint}
    (h : react D s (.checkpoint id) (.found k) = some t) :
    s.checkpoints.find? (fun k => k.operationID = id) = some k := by
  obtain ⟨u, hu, -⟩ := Option.map_eq_some_iff.mp h
  simp only [World.respond, World.lookup] at hu
  split at hu
  next hk => exact hk
  · cases hu

theorem react_checkpoint_missing (h : react D s (.checkpoint id) .missing = some t) :
    s.checkpoints.find? (fun k => k.operationID = id) = none := by
  obtain ⟨u, hu, -⟩ := Option.map_eq_some_iff.mp h
  simp only [World.respond, World.lookup] at hu
  split at hu
  next hk => exact Option.isNone_iff_eq_none.mp hk
  · cases hu

/-! ## Pruning -/

structure Pruned (s t : World) : Prop where
  rows : t.rows.Sublist s.rows
  deleted : ∀ c ∈ s.rows, c ∈ t.rows ∨ c.prunable = true
  checkpoints : ∀ k, k ∈ t.checkpoints ↔
    k ∈ s.checkpoints ∧ ∃ c ∈ t.rows, c.operationID = k.operationID
  challenges : ∀ challenge, challenge ∈ t.challenges ↔
    challenge ∈ s.challenges ∧ ∃ c ∈ t.rows, c.operationID = challenge.operationID
  evidence : t.evidence = s.evidence
  issued : t.issued = s.issued
  trace : t.trace = s.trace

theorem prune_spec {p : List Str} (h : s.prune p = some t) : Pruned s t := by
  unfold World.prune at h
  split at h
  next ha =>
    cases h
    refine ⟨filter_sublist, ?_, ?_, ?_, rfl, rfl, rfl⟩
    · intro c hc
      cases hd : p.contains c.operationID with
      | true =>
        have hp := all_eq_true.mp ha c hc
        rw [hd, Bool.not_true, Bool.false_or] at hp
        exact .inr hp
      | false => exact .inl (mem_deleteWhere.mpr ⟨hc, hd⟩)
    · intro k
      simp [mem_filter]
    · intro challenge
      simp [mem_filter]
  · cases h

/-! ## Writes -/

variable {w : Written}

theorem write_spec {store : List Str → Option World} (h : s.write store w = some t) :
    (w.errors ≠ [] ∧ t = s) ∨ ∃ p, w = .ok p ∧ store p = some t := by
  cases w with
  | ok p => exact .inr ⟨p, rfl, h⟩
  | conflict | failed =>
    cases h
    exact .inl ⟨by simp [Written.errors], rfl⟩

variable {revision : ℕ} {state : CandidateState}

theorem updateRow_spec (h : s.updateRow c revision state = some t) :
    (∃ o ∈ s.rows, o.matches c.operationID revision state = true) ∧
      t = { s with
        rows := updateWhere (Candidate.matches c.operationID revision state) c.updated s.rows } := by
  simp only [World.updateRow] at h
  split at h
  next hc =>
    cases h
    exact ⟨countP_pos_iff.mp (by omega), rfl⟩
  · cases h

theorem matches_iff : c.matches id revision state = true ↔
      c.operationID = id ∧ c.revision = revision ∧ c.state = state := by
  simp [Candidate.matches, and_assoc]

/-- What a stored update leaves: its rows, pruned if it made them terminal. -/
def Updated (s t : World) (c : Candidate) (revision : ℕ) (state : CandidateState) : Prop :=
  ∃ u v, s.updateRow c revision state = some u ∧
    (c.state.terminal = true → Pruned u v) ∧ (c.state.terminal = false → v = u) ∧
    t.rows = v.rows ∧ t.checkpoints = v.checkpoints ∧ t.challenges = v.challenges ∧
    t.evidence = v.evidence ∧ t.issued = v.issued

/-- A refused update is only logged. -/
theorem react_update {event : Str} {r : Option ReasonCode}
    (h : react D s (.updateCandidateCASWithJournal c revision state event r) w = some t) :
    (w.errors ≠ [] ∧ t = s.log ⟨.updateCandidateCASWithJournal c revision state event r, w⟩) ∨
      (w.errors = [] ∧ Updated s t c revision state) := by
  obtain ⟨v, hv, rfl⟩ := Option.map_eq_some_iff.mp h
  rcases write_spec hv with ⟨he, rfl⟩ | ⟨p, rfl, hs⟩
  · exact .inl ⟨he, rfl⟩
  · obtain ⟨u, hu, hp⟩ := Option.bind_eq_some_iff.mp hs
    refine .inr ⟨rfl, ⟨u, v, hu, fun ht => ?_, fun ho => ?_, rfl, rfl, rfl, rfl, rfl⟩⟩
    · rw [if_pos ht] at hp
      exact prune_spec hp
    · rw [if_neg (by simp [ho])] at hp
      exact (Option.some.inj hp).symm

/-- A candidate is added when all others are committed or rolled back. -/
theorem react_create (h : react D s (.createCandidateWithJournal c) w = some t) :
    (w.errors ≠ [] ∧ t = s.log ⟨.createCandidateWithJournal c, w⟩) ∨
      (w.errors = [] ∧ ∃ v, Pruned s v ∧ (∀ d ∈ v.rows, d.operationID ≠ c.operationID) ∧
        (∀ d ∈ v.rows, d.state = .committed ∨ d.state = .rolledBack) ∧
        t = { v with rows := v.rows ++ [c] }.log ⟨.createCandidateWithJournal c, w⟩) := by
  obtain ⟨u, hu, rfl⟩ := Option.map_eq_some_iff.mp h
  rcases write_spec hu with ⟨he, rfl⟩ | ⟨p, rfl, hs⟩
  · exact .inl ⟨he, rfl⟩
  · obtain ⟨v, hv, hc⟩ := Option.bind_eq_some_iff.mp hs
    have hp := prune_spec hv
    split at hc
    · cases hc
    next hf =>
      cases hc
      simp only [Bool.or_eq_true, not_or, Bool.not_eq_true, any_eq_false] at hf
      refine .inr ⟨rfl, v, hp, fun d hd => ?_, fun d hd => ?_, ?_⟩
      · have ho := hf.1.1 d hd
        simp at ho
        exact ho.1
      · have hst := hf.2 d hd
        simp at hst
        exact or_iff_not_imp_left.mpr hst
      · rw [World.log, ← hp.trace]

theorem react_saveCheckpoint {k : Checkpoint} (h : react D s (.saveCheckpoint k) w = some t) :
    (w.errors ≠ [] ∧ t = s.log ⟨.saveCheckpoint k, w⟩) ∨
      (w.errors = [] ∧ ∃ ks, ks.find? (fun o => o.operationID = k.operationID) = some k ∧
        (∀ o ∈ s.checkpoints, o ∈ ks) ∧
        t = { s with checkpoints := ks }.log ⟨.saveCheckpoint k, w⟩) := by
  obtain ⟨u, hu, rfl⟩ := Option.map_eq_some_iff.mp h
  rcases write_spec hu with ⟨he, rfl⟩ | ⟨p, rfl, hs⟩
  · exact .inl ⟨he, rfl⟩
  · simp only [World.saveCheckpoint] at hs
    split at hs
    next o ho =>
      split at hs <;> cases hs
      next heq =>
        subst heq
        exact .inr ⟨rfl, s.checkpoints, ho, fun o h => h, rfl⟩
    next hn =>
      cases hs
      refine .inr ⟨rfl, s.checkpoints ++ [k], ?_, fun o h => mem_append_left _ h, rfl⟩
      rw [find?_append, hn]
      simp

theorem react_saveChallenge {challenge : Challenge}
    (h : react D s (.saveChallenge challenge) w = some t) :
    (w.errors ≠ [] ∧ t = s.log ⟨.saveChallenge challenge, w⟩) ∨ (w.errors = [] ∧
        t = { s with challenges := s.challenges ++ [challenge] }.log
          ⟨.saveChallenge challenge, w⟩) := by
  obtain ⟨u, hu, rfl⟩ := Option.map_eq_some_iff.mp h
  rcases write_spec hu with ⟨he, rfl⟩ | ⟨p, rfl, hs⟩
  · exact .inl ⟨he, rfl⟩
  · simp only [World.saveChallenge] at hs
    split at hs <;> cases hs
    exact .inr ⟨rfl, rfl⟩

theorem react_randomID {id : Option Str} (h : react D s .randomID id = some t) :
    (∀ value, id = some value → value ∉ s.issued) ∧
      t = { s with issued := id.toList ++ s.issued }.log ⟨.randomID, id⟩ := by
  obtain ⟨u, hu, rfl⟩ := Option.map_eq_some_iff.mp h
  cases id with
  | none =>
    cases hu
    refine ⟨fun value hv => ?_, rfl⟩
    cases hv
  | some id =>
    simp only [World.respond] at hu
    split at hu <;> cases hu
    next hf =>
      refine ⟨fun value hv => ?_, rfl⟩
      cases hv
      exact fun hi => hf (contains_iff_mem.mpr hi)

/-! ## The row of a candidate -/

/-- Every row of the candidate's operation has its revision and state. -/
def World.Stores (w : World) (c : Candidate) : Prop :=
  ∀ d ∈ w.rows, d.operationID = c.operationID → d.revision = c.revision ∧ d.state = c.state

theorem Updated.stores {next : Candidate} (hs : s.Stores c) (hid : next.operationID = c.operationID)
    (h : Updated s t next c.revision c.state) :
    t.Stores next := by
  obtain ⟨u, v, hu, hp, ho, hr, -⟩ := h
  obtain ⟨-, rfl⟩ := updateRow_spec hu
  have hsb : ∀ d ∈ t.rows, d ∈ updateWhere
      (Candidate.matches next.operationID c.revision c.state) next.updated s.rows := by
    intro d hd
    rw [hr] at hd
    cases ht : next.state.terminal with
    | true => exact (hp ht).rows.subset hd
    | false =>
      rw [ho ht] at hd
      exact hd
  intro d hd hop
  obtain ⟨o, hol, rfl⟩ := mem_updateWhere.mp (hsb d hd)
  by_cases hh : o.matches next.operationID c.revision c.state = true
  · rw [if_pos hh]
    exact ⟨rfl, rfl⟩
  · rw [if_neg hh] at hop
    exact absurd (matches_iff.mpr ⟨hop, hs o hol (hop.trans hid)⟩) hh

/-- A stored update leaves its row, unless it can be pruned at once. -/
theorem Updated.row (h : Updated s t c revision state) (hk : c.prunable = false) :
    ∃ d ∈ t.rows, d.operationID = c.operationID ∧ d.state = c.state := by
  obtain ⟨u, v, hu, hp, ho, hr, -⟩ := h
  obtain ⟨⟨o, hol, hh⟩, rfl⟩ := updateRow_spec hu
  refine ⟨c.updated o, ?_, rfl, rfl⟩
  have hn : c.updated o ∈ updateWhere
      (Candidate.matches c.operationID revision state) c.updated s.rows :=
    mem_updateWhere.mpr ⟨o, hol, if_pos hh⟩
  rw [hr]
  cases ht : c.state.terminal with
  | true =>
    refine ((hp ht).deleted _ hn).resolve_right fun hpr => ?_
    have : c.prunable = true := hpr
    rw [hk] at this
    cases this
  | false =>
    rw [ho ht]
    exact hn

end Solovey.Ssh
