import Solovey.Ssh.Calls

/-!
# The invariant of the candidates

What the database of the SSH manager keeps over every call, and which calls the manager may make for
that: an update goes along an allowed transition or keeps the state, only the commit transaction
makes a candidate committed, one is rolled back only once its prior artifact was reported, and a new
one has a new identifier.
-/

namespace Solovey.Ssh

open Text (Str)
open Data List

/-- A candidate of the operation was stored at some time. -/
def World.Created (w : World) (op : Str) : Prop :=
  ∃ c pruned, (⟨.createCandidateWithJournal c, .ok pruned⟩ : Event) ∈ w.trace ∧ c.operationID = op

def Event.creates (event : Event) : Prop :=
  ∃ c pruned, event = ⟨.createCandidateWithJournal c, .ok pruned⟩

/-- The provider reported exactly the artifact that the checkpoint of the operation recorded. -/
def World.Reported (w : World) (op : Str) : Prop :=
  ∃ k ∈ w.checkpoints, k.operationID = op ∧
    ∃ r i, (⟨.inspectManagedPolicy r, some i⟩ : Event) ∈ w.trace ∧ r.fence.operationID = op ∧
      k.prior.reportedBy i = true

/-- Between the states an open challenge of the operation was consumed, and evidence for the
operation was stored. -/
def ConsumedWithEvidence (s t : World) (op : Str) : Prop :=
  (∃ ch ∈ s.challenges, ch.operationID = op ∧ ch.consumedAt = 0 ∧
    ∃ now revision, now < ch.expiresAt ∧
      { ch with consumedAt := now, revision := revision } ∈ t.challenges) ∧
  ∃ path, path.targetOperation = op ∧
    t.evidence = upsert (fun p => p.id = path.id) (fun _ => path) path s.evidence

structure Inv (w : World) : Prop where
  unique : (w.rows.map Candidate.operationID).Nodup
  single : ∀ c ∈ w.rows, ∀ d ∈ w.rows, c.state.terminal = false → d.state.terminal = false →
    c.operationID = d.operationID
  rolledBack : ∀ c ∈ w.rows, c.state = .rolledBack → w.Reported c.operationID
  created : ∀ c ∈ w.rows, w.Created c.operationID
  issued : ∀ op, w.Created op → ∃ id ∈ w.issued, op = "ssh-operation:".toList ++ id

/-- What one call does to the candidates. -/
structure Step (s t : World) : Prop where
  inv : Inv t
  terminal : ∀ c ∈ s.rows, c.state.terminal = true → ∀ d ∈ t.rows,
    d.operationID = c.operationID → d.state = c.state
  committed : ∀ d ∈ t.rows, d.state = .committed →
    (∃ c ∈ s.rows, c.operationID = d.operationID ∧ c.state = .committed) ∨
      ConsumedWithEvidence s t d.operationID
  again : ∀ d ∈ t.rows, s.Created d.operationID → ∃ c ∈ s.rows, c.operationID = d.operationID
  created : ∀ op, s.Created op → t.Created op

/-- No candidate is new. -/
def Keeps (s t : World) : Prop := ∀ d ∈ t.rows, ∃ c ∈ s.rows, c.operationID = d.operationID

variable {D : Digests} {s t u : World} {c : Candidate}

theorem Inv.eq_of_id (h : Inv s) {d : Candidate} (hc : c ∈ s.rows) (hd : d ∈ s.rows)
    (hid : c.operationID = d.operationID) : c = d :=
  inj_on_of_nodup_map h.unique hc hd hid

theorem Inv.stores (h : Inv s) (hc : c ∈ s.rows) : s.Stores c := by
  intro d hd hid
  rw [h.eq_of_id hd hc hid]
  exact ⟨rfl, rfl⟩

/-! ## Steps that change rows in place -/

/-- The rows after the call are rows before it, in states they may have gone to. -/
structure Rewrites (s t : World) : Prop where
  ops : (t.rows.map Candidate.operationID).Sublist (s.rows.map Candidate.operationID)
  rows : ∀ d ∈ t.rows, ∃ old ∈ s.rows, old.operationID = d.operationID ∧
    (old.state.terminal = true → d.state = old.state) ∧
    (d.state = .committed → old.state = .committed ∨ ConsumedWithEvidence s t d.operationID) ∧
    (d.state = .rolledBack → old.state = .rolledBack ∨ s.Reported d.operationID)

theorem Rewrites.keeps (h : Rewrites s t) : Keeps s t := by
  intro d hd
  obtain ⟨o, ho, hid, -⟩ := h.rows d hd
  exact ⟨o, ho, hid⟩

/-- The call kept what belongs to the rows that are left, and created none. -/
structure Carries (s t : World) : Prop where
  trace : ∀ event ∈ s.trace, event ∈ t.trace
  issued : ∀ id ∈ s.issued, id ∈ t.issued
  checkpoints : ∀ k ∈ s.checkpoints, (∃ d ∈ t.rows, d.operationID = k.operationID) →
    k ∈ t.checkpoints
  created : ∀ op, t.Created op → s.Created op

variable {op : Str}

theorem Carries.reported (h : Carries s t) (hs : s.Reported op)
    (hrw : ∃ d ∈ t.rows, d.operationID = op) : t.Reported op := by
  obtain ⟨k, hk, hid, r, i, hev, hr⟩ := hs
  exact ⟨k, h.checkpoints k hk (hid ▸ hrw), hid, r, i, h.trace _ hev, hr⟩

theorem Carries.created_of (h : Carries s t) (hs : s.Created op) : t.Created op := by
  obtain ⟨c, p, hev, hid⟩ := hs
  exact ⟨c, p, h.trace _ hev, hid⟩

/-- Rows that are only rewritten or dropped keep the invariant. -/
theorem Rewrites.step (h : Rewrites s t) (hcr : Carries s t) (hs : Inv s) : Step s t := by
  refine ⟨⟨?_, ?_, ?_, ?_, ?_⟩, ?_, ?_, ?_, fun op => hcr.created_of⟩
  · exact hs.unique.sublist h.ops
  · intro c hc d hd hon ho
    obtain ⟨c', hc', hi, ht, -⟩ := h.rows c hc
    obtain ⟨d', hd', hidd, htr, -⟩ := h.rows d hd
    have hoe : ∀ {a a' : Candidate}, a.state.terminal = false →
        (a'.state.terminal = true → a.state = a'.state) → a'.state.terminal = false := by
      intro a a' ha hsm
      cases ha' : a'.state.terminal with
      | false => rfl
      | true => rw [hsm ha', ha'] at ha; cases ha
    rw [← hi, ← hidd]
    exact hs.single c' hc' d' hd' (hoe hon ht) (hoe ho htr)
  · intro c hc hst
    obtain ⟨o, hol, hid, -, -, hrl⟩ := h.rows c hc
    have hr : s.Reported c.operationID := by
      rcases hrl hst with hsm | hr
      · exact hid ▸ hs.rolledBack o hol hsm
      · exact hr
    exact hcr.reported hr ⟨c, hc, rfl⟩
  · intro c hc
    obtain ⟨o, hol, hid, -⟩ := h.rows c hc
    exact hcr.created_of (hid ▸ hs.created o hol)
  · intro op hop
    obtain ⟨id, his, rfl⟩ := hs.issued op (hcr.created op hop)
    exact ⟨id, hcr.issued id his, rfl⟩
  · intro c hc htm d hd hid
    obtain ⟨o, hol, hidd, hsm, -⟩ := h.rows d hd
    rw [hs.eq_of_id hc hol (hid.symm.trans hidd.symm)] at htm ⊢
    exact hsm htm
  · intro d hd hst
    obtain ⟨o, hol, hid, -, hcm, -⟩ := h.rows d hd
    rcases hcm hst with hsm | hcn
    · exact .inl ⟨o, hol, hid, hsm⟩
    · exact .inr hcn
  · exact fun d hd _ => h.keeps d hd

theorem rewrites_of_sublist (h : t.rows.Sublist s.rows) : Rewrites s t :=
  ⟨h.map _, fun d hd => ⟨d, h.subset hd, rfl, fun _ => rfl, .inl, .inl⟩⟩

variable {event : Event}

theorem created_of_cons (ht : t.trace = event :: s.trace) (hev : ¬event.creates)
    (h : t.Created op) :
    s.Created op := by
  obtain ⟨c, p, hm, hid⟩ := h
  rw [ht] at hm
  rcases mem_cons.mp hm with heq | ho
  · exact absurd ⟨c, p, heq.symm⟩ hev
  · exact ⟨c, p, ho, hid⟩

theorem carries_of (ht : t.trace = event :: s.trace) (hev : ¬event.creates)
    (hi : ∀ id ∈ s.issued, id ∈ t.issued)
    (hc : ∀ k ∈ s.checkpoints, (∃ d ∈ t.rows, d.operationID = k.operationID) →
      k ∈ t.checkpoints) : Carries s t := by
  refine ⟨fun event' h => ?_, hi, hc, fun op => created_of_cons ht hev⟩
  rw [ht]
  exact mem_cons_of_mem _ h

theorem log_step (hs : Inv s) (hev : ¬event.creates) : Step s (s.log event) := by
  have hr : Rewrites s (s.log event) := rewrites_of_sublist (List.Sublist.refl _)
  exact hr.step (carries_of rfl hev (fun _ h => h) fun _ h _ => h) hs

theorem Pruned.step {v : World} (hs : Inv s) (h : Pruned s v) (hev : ¬event.creates)
    (ht : t.trace = event :: s.trace) (hr : t.rows = v.rows) (hc : t.checkpoints = v.checkpoints)
    (hi : t.issued = v.issued) : Step s t := by
  refine (rewrites_of_sublist ?_).step (carries_of ht hev ?_ ?_) hs
  · rw [hr]
    exact h.rows
  · intro id hid
    rw [hi, h.issued]
    exact hid
  · intro k hk hrw
    rw [hc, h.checkpoints]
    rw [hr] at hrw
    exact ⟨hk, hrw⟩

/-! ## Updates -/

variable {revision : ℕ} {state : CandidateState}

/-- The row after an update is one it left alone or one it updated. -/
theorem Updated.rows (h : Updated s t c revision state) : ∀ d ∈ t.rows, d ∈ s.rows ∨
      ∃ o ∈ s.rows, o.matches c.operationID revision state = true ∧ d = c.updated o := by
  obtain ⟨u, v, hu, hp, ho, hr, -⟩ := h
  obtain ⟨-, rfl⟩ := updateRow_spec hu
  intro d hd
  have hm : d ∈ updateWhere (Candidate.matches c.operationID revision state) c.updated s.rows := by
    rw [hr] at hd
    cases ht : c.state.terminal with
    | true => exact (hp ht).rows.subset hd
    | false =>
      rw [ho ht] at hd
      exact hd
  obtain ⟨o, hol, rfl⟩ := mem_updateWhere.mp hm
  by_cases hh : o.matches c.operationID revision state = true
  · exact .inr ⟨o, hol, hh, if_pos hh⟩
  · rw [if_neg hh]
    exact .inl hol

theorem map_updated (rs : List Candidate) :
    (updateWhere (Candidate.matches c.operationID revision state) c.updated rs).map
      Candidate.operationID = rs.map Candidate.operationID := by
  rw [updateWhere, List.map_map]
  refine map_congr_left fun row _ => ?_
  by_cases hh : row.matches c.operationID revision state = true
  · rw [Function.comp_apply, if_pos hh]
    exact (matches_iff.mp hh).1.symm
  · rw [Function.comp_apply, if_neg hh]

theorem Updated.ops (h : Updated s t c revision state) :
    (t.rows.map Candidate.operationID).Sublist (s.rows.map Candidate.operationID) := by
  obtain ⟨u, v, hu, hp, ho, hr, -⟩ := h
  obtain ⟨-, rfl⟩ := updateRow_spec hu
  rw [hr, ← map_updated s.rows]
  cases ht : c.state.terminal with
  | true => exact (hp ht).rows.map _
  | false => rw [ho ht]

theorem Updated.checkpoints (h : Updated s t c revision state) : ∀ k ∈ s.checkpoints,
      (∃ d ∈ t.rows, d.operationID = k.operationID) → k ∈ t.checkpoints := by
  obtain ⟨u, v, hu, hp, ho, hr, hc, -⟩ := h
  obtain ⟨-, rfl⟩ := updateRow_spec hu
  intro k hk hrw
  rw [hc]
  rw [hr] at hrw
  cases ht : c.state.terminal with
  | true => exact ((hp ht).checkpoints k).mpr ⟨hk, hrw⟩
  | false =>
    rw [ho ht]
    exact hk

theorem Updated.issued (h : Updated s t c revision state) : t.issued = s.issued := by
  obtain ⟨u, v, hu, hp, ho, -, -, -, -, hi⟩ := h
  obtain ⟨-, rfl⟩ := updateRow_spec hu
  rw [hi]
  cases ht : c.state.terminal with
  | true => exact (hp ht).issued
  | false => rw [ho ht]

/-- An update may keep the state, or go along an allowed transition other than the commit. -/
structure UpdateLegal (s : World) (c : Candidate) (state : CandidateState) : Prop where
  allowed : c.state = state ∨ transitionAllowed state c.state = true
  committed : c.state = .committed → state = .committed
  rolledBack : c.state = .rolledBack → state = .rolledBack ∨ s.Reported c.operationID

theorem eq_of_transition_terminal {next : CandidateState} (h : state.terminal = true) :
    transitionAllowed state next = false := by
  cases state <;> first | rfl | cases h

theorem Updated.step (hs : Inv s) (hl : UpdateLegal s c state) (ht : t.trace = event :: s.trace)
    (hev : ¬event.creates) (h : Updated s t c revision state) :
    Step s t := by
  refine Rewrites.step ⟨h.ops, fun d hd => ?_⟩
    (carries_of ht hev (fun id hid => by rw [h.issued]; exact hid) h.checkpoints) hs
  rcases h.rows d hd with hsm | ⟨o, ho, hh, rfl⟩
  · exact ⟨d, hsm, rfl, fun _ => rfl, .inl, .inl⟩
  · obtain ⟨hid, -, hst⟩ := matches_iff.mp hh
    refine ⟨o, ho, hid, fun htr => ?_, fun hc => ?_, fun hrl => ?_⟩
    · rw [hst] at htr ⊢
      rcases hl.allowed with hsm | ha
      · exact hsm
      · rw [eq_of_transition_terminal htr] at ha
        cases ha
    · exact .inl (hst.trans (hl.committed hc))
    · rcases hl.rolledBack hrl with hsm | hr
      · exact .inl (hst.trans hsm)
      · exact .inr hr

/-! ## The commit and the creation -/

variable {n : ℤ} {w : Written}

theorem react_commit {currentRevision : ℕ} {path : RecoveryPath}
    (h : react D s
      (.commitCandidateCASWithJournalAndEvidence c revision state currentRevision path n) w =
      some t) :
    (w.errors ≠ [] ∧ t = s.log
      ⟨.commitCandidateCASWithJournalAndEvidence c revision state currentRevision path n, w⟩) ∨
      (w.errors = [] ∧ ∃ v, s.consume c.operationID currentRevision n = some v ∧
        (v.updateRow c revision state).isSome = true ∧
        t.rows = updateWhere (Candidate.matches c.operationID revision state) c.updated s.rows ∧
        t.checkpoints = s.checkpoints ∧ t.challenges = v.challenges ∧ t.issued = s.issued ∧
        t.evidence = upsert (fun p => p.id = path.id) (fun _ => path) path s.evidence) := by
  obtain ⟨u, hu, rfl⟩ := Option.map_eq_some_iff.mp h
  rcases write_spec hu with ⟨he, rfl⟩ | ⟨pr, rfl, hs⟩
  · exact .inl ⟨he, rfl⟩
  · obtain ⟨v, hv, rfl⟩ := Option.map_eq_some_iff.mp hs
    obtain ⟨v', hc, hup⟩ := Option.bind_eq_some_iff.mp hv
    refine .inr ⟨rfl, v', hc, by rw [hup]; rfl, ?_⟩
    obtain ⟨-, rfl⟩ := updateRow_spec hup
    simp only [World.consume] at hc
    split at hc <;> cases hc
    exact ⟨rfl, rfl, rfl, rfl, rfl⟩

theorem consume_spec (h : s.consume op revision n = some t) :
    ∃ ch ∈ s.challenges, ch.operationID = op ∧ ch.consumedAt = 0 ∧ n < ch.expiresAt ∧
      { ch with consumedAt := n, revision := revision + 1 } ∈ t.challenges := by
  simp only [World.consume] at h
  split at h
  next hc =>
    cases h
    obtain ⟨ch, hch, hh⟩ := countP_pos_iff.mp
      (show 0 < s.challenges.countP (Challenge.consumable op revision n) by omega)
    have hn : { ch with consumedAt := n, revision := revision + 1 } ∈ updateWhere
        (Challenge.consumable op revision n)
        (fun ch => { ch with consumedAt := n, revision := revision + 1 }) s.challenges :=
      mem_updateWhere.mpr ⟨ch, hch, if_pos hh⟩
    simp only [Challenge.consumable, Bool.and_eq_true, decide_eq_true_eq] at hh
    obtain ⟨⟨⟨hop, -⟩, ho⟩, he⟩ := hh
    exact ⟨ch, hch, hop, ho, he, hn⟩
  · cases h

theorem commit_step {currentRevision : ℕ} {path : RecoveryPath} (hs : Inv s)
    (hcm : c.state = .committed)
    (hst : transitionAllowed state .committed = true) (hp : path.targetOperation = c.operationID)
    (h : react D s (.commitCandidateCASWithJournalAndEvidence c revision state currentRevision path
      n) w = some t) : Step s t ∧ Keeps s t := by
  have hev : ¬Event.creates
      ⟨.commitCandidateCASWithJournalAndEvidence c revision state currentRevision path n, w⟩ := by
    rintro ⟨d, p, heq⟩
    cases heq
  rcases react_commit h with ⟨-, rfl⟩ | ⟨-, v, hcn, -, hr, hcp, hc, hi, he⟩
  · exact ⟨log_step hs hev, fun d hd => ⟨d, hd, rfl⟩⟩
  · obtain ⟨ch, hch, hop, ho, hex, hn⟩ := consume_spec hcn
    have hco : ConsumedWithEvidence s t c.operationID :=
      ⟨⟨ch, hch, hop, ho, n, _, hex, hc ▸ hn⟩, path, hp, he⟩
    have hrw : Rewrites s t := by
      refine ⟨by rw [hr, map_updated], fun d hd => ?_⟩
      rw [hr] at hd
      obtain ⟨o, hol, rfl⟩ := mem_updateWhere.mp hd
      by_cases hh : o.matches c.operationID revision state = true
      · obtain ⟨hid, -, ho'⟩ := matches_iff.mp hh
        rw [if_pos hh]
        refine ⟨o, hol, hid, fun ht => ?_, fun _ => .inr hco, fun hrl => ?_⟩
        · rw [← ho', eq_of_transition_terminal ht] at hst
          cases hst
        · rw [show (c.updated o).state = c.state from rfl, hcm] at hrl
          cases hrl
      · rw [if_neg hh]
        exact ⟨o, hol, rfl, fun _ => rfl, .inl, .inl⟩
    refine ⟨hrw.step (carries_of (react_trace h) hev ?_ ?_) hs, hrw.keeps⟩
    · intro id hid
      rw [hi]
      exact hid
    · intro k hk _
      rw [hcp]
      exact hk

/-- A new operation is a draft with an id that was issued. -/
theorem create_step (hs : Inv s) (hst : c.state = .draft) (hn : ¬s.Created c.operationID)
    (hi : ∃ id ∈ s.issued, c.operationID = "ssh-operation:".toList ++ id)
    (h : react D s (.createCandidateWithJournal c) w = some t) : Step s t := by
  rcases react_create h with ⟨he, rfl⟩ | ⟨he, v, hp, ho, hse, rfl⟩
  · refine log_step hs ?_
    rintro ⟨d, p, heq⟩
    cases heq
    exact he rfl
  have hcr : ∀ op, s.Created op →
      ({ v with rows := v.rows ++ [c] }.log ⟨.createCandidateWithJournal c, w⟩).Created op := by
    rintro op ⟨d, p, hev, hid⟩
    exact ⟨d, p, mem_cons_of_mem _ (hp.trace ▸ hev), hid⟩
  refine ⟨⟨?_, ?_, ?_, ?_, ?_⟩, ?_, ?_, ?_, hcr⟩
  · rw [log_rows, map_append, nodup_append]
    refine ⟨hs.unique.sublist (hp.rows.map _), by simp, ?_⟩
    intro op hop op' hop' heq
    obtain ⟨d, hd, rfl⟩ := mem_map.mp hop
    obtain ⟨d', hd', rfl⟩ := mem_map.mp hop'
    cases mem_singleton.mp hd'
    exact ho d hd heq
  · have hl : ∀ d ∈ v.rows ++ [c], d.state.terminal = false → d = c := by
      intro d hd hon
      rcases mem_append.mp hd with hol | hl
      · rcases hse d hol with hst | hst <;>
          · rw [hst] at hon
            cases hon
      · exact mem_singleton.mp hl
    intro d hd d' hd' hon ho'
    rw [hl d hd hon, hl d' hd' ho']
  · intro d hd hrl
    rcases mem_append.mp hd with hol | hl
    · obtain ⟨k, hk, hid, r, i, hev, hr⟩ := hs.rolledBack d (hp.rows.subset hol) hrl
      exact ⟨k, (hp.checkpoints k).mpr ⟨hk, d, hol, hid.symm⟩, hid, r, i,
        mem_cons_of_mem _ (hp.trace ▸ hev), hr⟩
    · rw [mem_singleton.mp hl, hst] at hrl
      cases hrl
  · intro d hd
    rcases mem_append.mp hd with hol | hl
    · exact hcr _ (hs.created d (hp.rows.subset hol))
    · rw [mem_singleton.mp hl]
      cases w with
      | ok p => exact ⟨c, p, mem_cons_self, rfl⟩
      | conflict | failed => cases he
  · rintro op ⟨d, p, hev, rfl⟩
    rw [log_issued, hp.issued]
    rcases mem_cons.mp hev with heq | hol
    · cases heq
      exact hi
    · exact hs.issued _ ⟨d, p, hp.trace ▸ hol, rfl⟩
  · intro d hd ht d' hd' hid
    rcases mem_append.mp hd' with hol | hl
    · rw [hs.eq_of_id (hp.rows.subset hol) hd hid]
    · rw [mem_singleton.mp hl] at hid
      exact absurd (hid ▸ hs.created d hd) hn
  · intro d hd hc
    rcases mem_append.mp hd with hol | hl
    · exact .inl ⟨d, hp.rows.subset hol, rfl, hc⟩
    · rw [mem_singleton.mp hl, hst] at hc
      cases hc
  · intro d hd hb
    rcases mem_append.mp hd with hol | hl
    · exact ⟨d, hp.rows.subset hol, rfl⟩
    · rw [mem_singleton.mp hl] at hb
      exact absurd hb hn

/-! ## Legal calls -/

/-- The calls that the manager may make in a state of the invariant. -/
def Legal (s : World) : Effect → Prop
  | .createCandidateWithJournal c => c.state = .draft ∧ ¬s.Created c.operationID ∧
      ∃ id ∈ s.issued, c.operationID = "ssh-operation:".toList ++ id
  | .updateCandidateCASWithJournal c _ state _ _ => UpdateLegal s c state
  | .commitCandidateCASWithJournalAndEvidence c _ state _ path _ => c.state = .committed ∧
      transitionAllowed state .committed = true ∧ path.targetOperation = c.operationID
  | _ => True

def Effect.isCreate : Effect → Bool
  | .createCandidateWithJournal _ => true
  | _ => false

variable {e : Effect}

theorem not_creates {r : Reply e} (he : e.isCreate = false) : ¬Event.creates ⟨e, r⟩ := by
  rintro ⟨c, p, heq⟩
  cases heq
  cases he

/-- A legal call other than a creation makes no new candidate. -/
theorem step_keeps {r : Reply e} (h : react D s e r = some t) (hs : Inv s) (he : e.isCreate = false)
    (hl : Legal s e) : Step s t ∧ Keeps s t := by
  have hev := not_creates (r := r) he
  have hsm : ∀ {v : World}, v.rows = s.rows → Keeps s v := by
    intro v hr d hd
    rw [hr] at hd
    exact ⟨d, hd, rfl⟩
  by_cases hq : e.quiet = true
  · rw [react_quiet hq h]
    exact ⟨log_step hs hev, hsm rfl⟩
  cases e with
  | createCandidateWithJournal c => cases he
  | randomID =>
    obtain ⟨-, rfl⟩ := react_randomID h
    have hrw : Rewrites s ({ s with issued := r.toList ++ s.issued }.log ⟨.randomID, r⟩) :=
      rewrites_of_sublist (List.Sublist.refl _)
    refine ⟨hrw.step (carries_of rfl hev ?_ fun _ h _ => h) hs, hrw.keeps⟩
    exact fun id hid => mem_append_right _ hid
  | updateCandidateCASWithJournal c revision state en rs =>
    rcases react_update h with ⟨-, rfl⟩ | ⟨-, hu⟩
    · exact ⟨log_step hs hev, hsm rfl⟩
    · refine ⟨hu.step hs hl (react_trace h) hev, fun d hd => ?_⟩
      have hm := hu.ops.subset (mem_map_of_mem hd)
      obtain ⟨o, ho, hid⟩ := mem_map.mp hm
      exact ⟨o, ho, hid⟩
  | commitCandidateCASWithJournalAndEvidence c revision state currentRevision path n =>
    exact commit_step hs hl.1 hl.2.1 hl.2.2 h
  | saveCheckpoint k =>
    rcases react_saveCheckpoint h with ⟨-, rfl⟩ | ⟨-, ks, -, hk, rfl⟩
    · exact ⟨log_step hs hev, hsm rfl⟩
    · have hrw : Rewrites s ({ s with checkpoints := ks }.log ⟨.saveCheckpoint k, r⟩) :=
        rewrites_of_sublist (List.Sublist.refl _)
      exact ⟨hrw.step (carries_of rfl hev (fun _ h => h) fun k' hk' _ => hk k' hk') hs, hrw.keeps⟩
  | saveChallenge ch =>
    rcases react_saveChallenge h with ⟨-, rfl⟩ | ⟨-, rfl⟩
    · exact ⟨log_step hs hev, hsm rfl⟩
    · have hrw : Rewrites s
          ({ s with challenges := s.challenges ++ [ch] }.log ⟨.saveChallenge ch, r⟩) :=
        rewrites_of_sublist (List.Sublist.refl _)
      exact ⟨hrw.step (carries_of rfl hev (fun _ h => h) fun _ h _ => h) hs, hrw.keeps⟩
  | pruneHistory =>
    obtain ⟨v, hv, rfl⟩ := Option.map_eq_some_iff.mp h
    rcases write_spec hv with ⟨-, rfl⟩ | ⟨p, rfl, hst⟩
    · exact ⟨log_step hs hev, hsm rfl⟩
    · have hp := prune_spec hst
      exact ⟨hp.step hs hev rfl rfl rfl rfl, fun d hd => ⟨d, hp.rows.subset hd, rfl⟩⟩
  | _ => exact absurd rfl hq

/-- Every legal call keeps the invariant. -/
theorem step_of_legal {r : Reply e} (h : react D s e r = some t) (hs : Inv s) (hl : Legal s e) :
    Step s t := by
  cases he : e.isCreate with
  | false => exact (step_keeps h hs he hl).1
  | true =>
    cases e with
    | createCandidateWithJournal c => exact create_step hs hl.1 hl.2.1 hl.2.2 h
    | _ => cases he

end Solovey.Ssh
