import Solovey.Sessions.Store

/-!
# Revoked sessions stay out

A session ends by `Revoke`, by `RevokeOthers`, by a logout or by being replaced. Its row goes in the
same transaction, so that a later request with its cookie finds nothing. A request that loaded the
session before can bring the row back: its save inserts the row again and takes the revocation out
of the metadata. Where every such save finds the row, an ended session is never accepted again.
-/

namespace Solovey.Sessions

open Solovey.Text Solovey.Data List

/-! ## Identifiers in the tables -/

def Database.ids (db : Database) : List Str := db.sessions.map (·.id)

def Database.metadataIDs (db : Database) : List Str := db.securitySessions.map (·.sessionID)

variable {db n : Database} {id o : Str}

theorem mem_ids_deleteSession : o ∈ (db.deleteSession id).ids ↔ o ∈ db.ids ∧ o ≠ id := by
  simp only [Database.ids, Database.deleteSession, mem_map, mem_deleteWhere,
    decide_eq_false_iff_not]
  constructor
  · rintro ⟨row, ⟨hr, hne⟩, rfl⟩
    exact ⟨⟨row, hr, rfl⟩, hne⟩
  · rintro ⟨⟨row, hr, rfl⟩, hne⟩
    exact ⟨row, ⟨hr, hne⟩, rfl⟩

variable {now : ℤ}

theorem mem_ids_erase : o ∈ (db.erase id now).ids ↔ o ∈ db.ids ∧ o ≠ id := mem_ids_deleteSession

variable {ref : Str}

theorem mem_ids_replace :
    o ∈ (db.replace id ref now).ids ↔ o ∈ db.ids ∧ o ≠ id := mem_ids_deleteSession

theorem metadataIDs_erase : (db.erase id now).metadataIDs = db.metadataIDs :=
  map_updateWhere fun _ => rfl

theorem metadataIDs_replace :
    (db.replace id ref now).metadataIDs = db.metadataIDs := map_updateWhere fun _ => rfl

theorem ids_upsertSession {rw : SessionRow} (h : o ∈ (db.upsertSession rw).ids) :
    o ∈ db.ids ∨ o = rw.id := by
  obtain ⟨found, hf, rfl⟩ := mem_map.mp h
  revert hf
  refine forall_upsert (P := fun found => found.id ∈ db.ids ∨ found.id = rw.id) ?_ ?_ ?_ found
  · exact fun _ _ _ _ => .inr rfl
  · exact fun _ => .inr rfl
  · exact fun ol ho => .inl (mem_map_of_mem ho)

theorem upsertMetadata_ids {m : SecuritySession} (h : db.upsertMetadata m = some n) :
    n.ids = db.ids ∧ ∀ o ∈ n.metadataIDs, o ∈ db.metadataIDs ∨ o = m.sessionID := by
  unfold Database.upsertMetadata at h
  split at h
  · cases h
  cases h
  refine ⟨rfl, fun o ho => ?_⟩
  obtain ⟨found, hf, rfl⟩ := mem_map.mp ho
  revert hf
  refine forall_upsert (P := fun found => found.sessionID ∈ db.metadataIDs ∨
    found.sessionID = m.sessionID) ?_ ?_ ?_ found
  · exact fun _ _ _ _ => .inr rfl
  · exact fun _ => .inr rfl
  · exact fun ol hol => .inl (mem_map_of_mem hol)

theorem sessionID_of_values {vs : Values} {m : SecuritySession}
    (h : securitySessionFromValues id vs = some m) : m.sessionID = id := by
  simp only [securitySessionFromValues, Option.bind_eq_bind, Option.bind_eq_some_iff] at h
  obtain ⟨_, _, _, _, _, _, _, _, _, _, h⟩ := h
  split at h
  · cases h
  · cases h
    rfl

variable {session : Session}

/-- The tables after a save: nothing but the saved session is new in them, and the session that it
takes the place of is not there. -/
theorem save_ids {rp : Str} (h : db.save session rp now = some n) :
    (∀ o ∈ n.ids, (o ∈ db.ids ∨ o = session.id) ∧ (rp ≠ [] → o ≠ rp)) ∧
    ∀ o ∈ n.metadataIDs, o ∈ db.metadataIDs ∨ o = session.id := by
  obtain ⟨st, hst, rfl⟩ := Option.map_eq_some_iff.mp h
  have hi : (∀ o ∈ st.ids, o ∈ db.ids ∨ o = session.id) ∧
      ∀ o ∈ st.metadataIDs, o ∈ db.metadataIDs ∨ o = session.id := by
    cases hm : securitySessionFromValues session.id session.values with
    | none =>
      rw [hm] at hst
      cases hst
      exact ⟨fun _ => ids_upsertSession, fun _ => .inl⟩
    | some m =>
      rw [hm] at hst
      obtain ⟨hs, hn⟩ := upsertMetadata_ids hst
      rw [hs]
      rw [sessionID_of_values hm] at hn
      exact ⟨fun _ => ids_upsertSession, hn⟩
  by_cases hr : rp = []
  · rw [if_pos hr]
    exact ⟨fun o ho => ⟨hi.1 o ho, absurd hr⟩, hi.2⟩
  · rw [if_neg hr]
    refine ⟨fun o ho => ?_, fun o ho => ?_⟩
    · obtain ⟨hin, hne⟩ := mem_ids_replace.mp ho
      exact ⟨hi.1 o hin, fun _ => hne⟩
    · rw [metadataIDs_replace] at ho
      exact hi.2 o ho

theorem load_ids (db : Database) (id : Str) (now : ℤ) (phase : Phase) :
    (∀ o ∈ (load db id now phase).1.ids, o ∈ db.ids) ∧
      (load db id now phase).1.metadataIDs = db.metadataIDs := by
  cases phase with
  | touching vs m v => exact ⟨fun _ h => h, map_updateWhere fun _ => rfl⟩
  | erasing vs => exact ⟨fun _ h => (mem_ids_erase.mp h).1, metadataIDs_erase⟩
  | loading | decoded vs | matched vs m | ready session => exact ⟨fun _ h => h, rfl⟩

theorem revoke_ids {ui : ℕ} {rs : Str} (h : revoke db ui ref rs now = some n) :
    ∃ row ∈ db.securitySessions,
      db.securitySessions.find? (fun row => row.userID = ui && row.ref = trimSpace ref) = some row ∧
      (∀ o, o ∈ n.ids ↔ o ∈ db.ids ∧ o ≠ row.sessionID) ∧
      n.metadataIDs = db.metadataIDs := by
  unfold revoke at h
  split at h
  · cases h
  split at h
  · cases h
  next row hrw =>
    cases h
    refine ⟨row, mem_of_find?_eq_some hrw, hrw, fun _ => mem_ids_deleteSession, ?_⟩
    by_cases hr : row.revokedAt = 0
    · simp only [Database.metadataIDs, Database.deleteSession, if_pos hr]
      exact map_updateWhere fun _ => rfl
    · simp only [Database.metadataIDs, Database.deleteSession, if_neg hr]

theorem revokeOthers_ids (db : Database) (os : Others) (rs : Str) (now : ℤ) :
    (∀ o ∈ (revokeOthers db os rs now).ids, o ∈ db.ids ∧ o ∉ os.ids) ∧
      (revokeOthers db os rs now).metadataIDs = db.metadataIDs := by
  refine ⟨fun o ho => ?_, map_updateWhere fun _ => rfl⟩
  obtain ⟨row, hr, rfl⟩ := mem_map.mp ho
  obtain ⟨hin, hn⟩ := mem_deleteWhere.mp hr
  refine ⟨mem_map_of_mem hin, fun hm => ?_⟩
  rw [contains_iff_mem.mpr hm] at hn
  cases hn

theorem cleanupExpired_ids (db : Database) (l : ℕ) (now : ℤ) :
    (∀ o ∈ (cleanupExpired db l now).ids, o ∈ db.ids) ∧
      ∀ o ∈ (cleanupExpired db l now).metadataIDs, o ∈ db.metadataIDs := by
  refine ⟨fun o ho => ?_, fun o ho => ?_⟩
  · obtain ⟨row, hr, rfl⟩ := mem_map.mp ho
    exact mem_map_of_mem (mem_deleteWhere.mp hr).1
  · obtain ⟨row, hr, rfl⟩ := mem_map.mp ho
    exact mem_map_of_mem (mem_deleteWhere.mp hr).1

/-! ## What one action does -/

variable {phase : Phase}

theorem load_ready (h : (load db id now phase).2 = .ready session) :
    session.id = [] ∨ session.id = id ∨ phase = .ready session := by
  have ha : ∀ {vs}, Phase.accepted id vs = .ready session → session.id = id := by
    intro vs h
    cases h
    rfl
  cases phase with
  | loading =>
    simp only [load, readRow] at h
    split at h
    · cases h
      exact .inl rfl
    · split at h <;> cases h
  | decoded vs =>
    simp only [load, readMetadata] at h
    split at h
    · exact .inr (.inl (ha h))
    split at h
    · exact .inr (.inl (ha h))
    split at h
    · cases h
    · split at h <;> cases h
  | matched vs m =>
    simp only [load, readUser] at h
    split at h
    · cases h
      exact .inr (.inl rfl)
    split at h
    · cases h
    split at h
    · exact .inr (.inl (ha h))
    · cases h
  | touching vs m v => exact .inr (.inl (ha h))
  | erasing vs =>
    cases h
    exact .inl rfl
  | ready held => exact .inr (.inr h)

theorem failed_ready (h : phase.failed id = .ready session) :
    session.id = id ∨ phase = .ready session := by
  cases phase with
  | ready held => exact .inr h
  | loading | decoded vs | matched vs metadata | touching vs metadata now
  | erasing vs =>
    cases h
    exact .inl rfl

/-- The session that a request holds after a save has an identifier of its own or the fresh one. -/
theorem save_id (db : Database) (session : Session) (now : ℤ) (fresh : Str) :
    (save db session now fresh).2.id = session.id ∨ (save db session now fresh).2.id = fresh := by
  unfold save
  split
  · exact .inl rfl
  · simp only [Session.renamed]
    split
    · exact .inl rfl
    · exact .inr rfl

variable {fresh : Str}

/-- The tables after `Save`: a row that is new is the row of the session that the request holds
then. -/
theorem save_tables (h : (save db session now fresh).1 = some n) : (∀ o ∈ n.ids, o ∈ db.ids ∨
      0 ≤ session.maxAge ∧ o = (session.renamed fresh).id) ∧
    ∀ o ∈ n.metadataIDs, o ∈ db.metadataIDs ∨
      0 ≤ session.maxAge ∧ o = (session.renamed fresh).id := by
  unfold save at h
  split at h
  · cases h
    split
    · exact ⟨fun _ => .inl, fun _ => .inl⟩
    · exact ⟨fun _ ho => .inl (mem_ids_erase.mp ho).1, fun _ ho => .inl (metadataIDs_erase ▸ ho)⟩
  next ha =>
    obtain ⟨hi, hm⟩ := save_ids h
    have ha : 0 ≤ session.maxAge := not_lt.mp ha
    exact ⟨fun o ho => (hi o ho).1.imp_right fun heq => ⟨ha, heq⟩,
      fun o ho => (hm o ho).imp_right fun heq => ⟨ha, heq⟩⟩

variable {s t : State} {r : ℕ} {error : Bool}

/-- The fields of the state after the save of a request. -/
theorem step_save (h : step s (.save r now fresh error) = some t) :
    ∃ c session, s.requests r = some ⟨c, .ready session⟩ ∧ fresh ∉ s.issued ∧
      fresh ≠ [] ∧ t = State.setRequest { s with
        db := if error then s.db else (save s.db session now fresh).1.getD s.db
        issued := fresh :: s.issued } r ⟨c, .ready (save s.db session now fresh).2⟩ := by
  simp only [step] at h
  split at h
  next c session hr =>
    split at h
    · cases h
    next hf =>
      simp only [Bool.or_eq_true, contains_iff_mem, decide_eq_true_eq, not_or] at hf
      exact ⟨c, session, hr, hf.1, hf.2, (Option.some.inj h).symm⟩
  · cases h

/-- The database after a save is the one before it or the one of the transaction. -/
theorem saved_database : (if error then db else (save db session now fresh).1.getD db) = db ∨
      (save db session now fresh).1 =
        some (if error then db else (save db session now fresh).1.getD db) := by
  cases error with
  | true => exact .inl rfl
  | false =>
    cases hs : (save db session now fresh).1 with
    | none => exact .inl rfl
    | some n => exact .inr rfl

variable {request : Request}

theorem setRequest_requests {r' : ℕ} {request' : Request}
    (h : (s.setRequest r request).requests r' = some request') :
    r' = r ∧ request' = request ∨ r' ≠ r ∧ s.requests r' = some request' := by
  rcases update_eq_some h with ⟨hr, hn⟩ | ho
  · exact .inl ⟨hr, (Option.some.inj hn).symm⟩
  · exact .inr ho

/-! ## Every identifier in use has been handed out -/

/-- What a request holds is known to the store. -/
def Request.Issued (issued : List Str) (request : Request) : Prop :=
  request.cookie ∈ issued ∧
    ∀ session, request.phase = .ready session → session.id = [] ∨ session.id ∈ issued

structure Issued (s : State) : Prop where
  sessions : ∀ id ∈ s.db.ids, id ∈ s.issued
  metadata : ∀ id ∈ s.db.metadataIDs, id ∈ s.issued
  others : ∀ call others, s.others call = some others → ∀ id ∈ others.ids, id ∈ s.issued
  requests : ∀ r request, s.requests r = some request → request.Issued s.issued

theorem Request.Issued.mono {i : List Str} (h : request.Issued i) : request.Issued (fresh :: i) :=
  ⟨mem_cons_of_mem _ h.1, fun session hs => (h.2 session hs).imp_right (mem_cons_of_mem _)⟩

theorem issued_initial (h : store.initial s) : Issued s := by
  obtain ⟨hs, hm, hrq, ho⟩ := h
  refine ⟨fun id hid => ?_, fun id hid => ?_, fun call os hc => ?_, fun r request hr => ?_⟩
  · obtain ⟨row, hrw, rfl⟩ := mem_map.mp hid
    exact hs row hrw
  · obtain ⟨row, hrw, rfl⟩ := mem_map.mp hid
    exact hm row hrw
  · rw [ho] at hc
    cases hc
  · rw [hrq] at hr
    cases hr

theorem Issued.setRequest (h : Issued s) (hrq : request.Issued s.issued) :
    Issued (s.setRequest r request) where
  sessions := h.sessions
  metadata := h.metadata
  others := h.others
  requests r' request' hr := by
    rcases setRequest_requests hr with ⟨rfl, rfl⟩ | ⟨_, ho⟩
    · exact hrq
    · exact h.requests r' request' ho

/-- A change of the tables that brings in no identifier. -/
theorem Issued.setDatabase (h : Issued s) (hi : ∀ id ∈ n.ids, id ∈ s.db.ids)
    (hm : ∀ id ∈ n.metadataIDs, id ∈ s.db.metadataIDs) :
    Issued { s with db := n } where
  sessions id hid := h.sessions id (hi id hid)
  metadata id hid := h.metadata id (hm id hid)
  others := h.others
  requests := h.requests

theorem Issued.save {c : Str} (h : Issued s) (hrq : s.requests r = some ⟨c, .ready session⟩) :
    Issued (State.setRequest { s with
      db := if error then s.db else (Sessions.save s.db session now fresh).1.getD s.db
      issued := fresh :: s.issued } r ⟨c, .ready (Sessions.save s.db session now fresh).2⟩) := by
  obtain ⟨hck, hh⟩ := h.requests r _ hrq
  have hid := hh session rfl
  -- an identifier under which a session is stored is its own, and not empty, or the fresh one
  have hst : (session.renamed fresh).id ∈ fresh :: s.issued := by
    simp only [Session.renamed]
    split
    next hrs =>
      simp only [Session.resaves, Bool.and_eq_true, decide_eq_true_eq] at hrs
      exact mem_cons_of_mem _ (hid.resolve_left hrs.2)
    · exact mem_cons_self
  have ht : ∀ n, n = s.db ∨ (Sessions.save s.db session now fresh).1 = some n →
      (∀ id ∈ n.ids, id ∈ fresh :: s.issued) ∧ ∀ id ∈ n.metadataIDs, id ∈ fresh :: s.issued := by
    rintro n (rfl | hn)
    · exact ⟨fun id hid => mem_cons_of_mem _ (h.sessions id hid),
        fun id hid => mem_cons_of_mem _ (h.metadata id hid)⟩
    · obtain ⟨hi, hm⟩ := save_tables hn
      refine ⟨fun id hid => ?_, fun id hid => ?_⟩
      · rcases hi id hid with ho | ⟨_, rfl⟩
        · exact mem_cons_of_mem _ (h.sessions id ho)
        · exact hst
      · rcases hm id hid with ho | ⟨_, rfl⟩
        · exact mem_cons_of_mem _ (h.metadata id ho)
        · exact hst
  obtain ⟨hs, hm⟩ := ht _ saved_database
  refine Issued.setRequest ⟨hs, hm, ?_, ?_⟩ ⟨mem_cons_of_mem _ hck, ?_⟩
  · exact fun call os hc id hid => mem_cons_of_mem _ (h.others call os hc id hid)
  · exact fun r' request hr => (h.requests r' request hr).mono
  · intro held hrd
    cases hrd
    rcases save_id s.db session now fresh with heq | heq
    · rw [heq]
      exact hid.imp_right (mem_cons_of_mem _)
    · rw [heq]
      exact .inr mem_cons_self

/-- A request that is loaded holds the session of its cookie, a new one or the one it held. -/
theorem Issued.load {r : ℕ} {now : ℤ} (h : Issued s) (hst : step s (.load r now) = some t) :
    Issued t := by
  simp only [step] at hst
  split at hst
  · cases hst
  next request hrq =>
    cases hst
    obtain ⟨hc, hh⟩ := h.requests r request hrq
    obtain ⟨hi, hm⟩ := load_ids s.db request.cookie now request.phase
    have hdb := h.setDatabase hi fun id hid => hm ▸ hid
    refine hdb.setRequest ⟨hc, fun session hs => ?_⟩
    rcases load_ready hs with hnl | hid | hsm
    · exact .inl hnl
    · exact .inr (hid ▸ hc)
    · exact hh session hsm

theorem Issued.fail {r : ℕ} (h : Issued s) (hst : step s (.fail r) = some t) : Issued t := by
  simp only [step] at hst
  split at hst
  · cases hst
  next request hrq =>
    cases hst
    obtain ⟨hc, hh⟩ := h.requests r request hrq
    refine h.setRequest ⟨hc, fun session hs => ?_⟩
    rcases failed_ready hs with hid | hsm
    · exact .inr (hid ▸ hc)
    · exact hh session hsm

theorem Issued.readOthers {call userID : ℕ} {currentRef : Str} (h : Issued s)
    (hst : step s (.readOthers call userID currentRef) = some t) : Issued t := by
  cases hst
  refine ⟨h.sessions, h.metadata, fun call' others hcl id hid => ?_, h.requests⟩
  rcases update_eq_some hcl with ⟨_, hnw⟩ | ⟨_, ho⟩
  · cases hnw
    obtain ⟨row, hrw, rfl⟩ := mem_map.mp hid
    exact h.metadata _ (mem_map_of_mem (mem_of_mem_filter hrw))
  · exact h.others call' others ho id hid

theorem Issued.revokeOthers {call : ℕ} {reason : Str} {now : ℤ} (h : Issued s)
    (hst : step s (.revokeOthers call reason now) = some t) : Issued t := by
  simp only [step] at hst
  split at hst
  · cases hst
  next others hot =>
    cases hst
    obtain ⟨hi, hm⟩ := revokeOthers_ids s.db others reason now
    have hdb := h.setDatabase (fun id hid => (hi id hid).1) fun id hid => hm ▸ hid
    refine ⟨hdb.sessions, hdb.metadata, fun call' others' hcl => ?_, h.requests⟩
    rcases update_eq_some hcl with ⟨_, hnw⟩ | ⟨_, ho⟩
    · cases hnw
    · exact h.others call' others' ho

theorem issued_step {a : Action} (h : Issued s) (hst : step s a = some t) : Issued t := by
  cases a with
  | request r c =>
    obtain ⟨hok, rfl⟩ := Option.ite_some_none_eq_some.mp hst
    simp only [Bool.and_eq_true, contains_iff_mem] at hok
    refine h.setRequest ⟨hok.2, fun session hs => ?_⟩
    cases hs
  | load r now => exact h.load hst
  | fail r => exact h.fail hst
  | handle r values maxAge =>
    simp only [step] at hst
    split at hst
    next c session hrq =>
      cases hst
      obtain ⟨hc, hh⟩ := h.requests r _ hrq
      refine h.setRequest ⟨hc, fun held hr => ?_⟩
      cases hr
      exact hh session rfl
    · cases hst
  | save r now fresh error =>
    obtain ⟨c, session, hrq, _, _, rfl⟩ := step_save hst
    exact h.save hrq
  | revoke userID ref reason now =>
    obtain ⟨n, hn, rfl⟩ := Option.map_eq_some_iff.mp hst
    obtain ⟨row, _, _, hi, hm⟩ := revoke_ids hn
    exact h.setDatabase (fun id hid => ((hi id).mp hid).1) fun id hid => hm ▸ hid
  | readOthers call userID currentRef => exact h.readOthers hst
  | revokeOthers call reason now => exact h.revokeOthers hst
  | cleanupExpired limit now =>
    cases hst
    obtain ⟨hi, hm⟩ := cleanupExpired_ids s.db limit now
    exact h.setDatabase hi hm
  | setUsers users =>
    cases hst
    exact h.setDatabase (fun _ hid => hid) fun _ hid => hid

/-! ## Ended sessions -/

/-- The action ends the session `id`: it revokes it, alone or with the other sessions of its user,
logs it out, or puts a new one in its place. -/
def Ends (s : State) (id : Str) : Action → Prop
  | .revoke userID ref _ _ => ∃ row,
    s.db.securitySessions.find? (fun row => row.userID = userID && row.ref = trimSpace ref) =
      some row ∧ row.sessionID = id
  | .revokeOthers call _ _ => ∃ others, s.others call = some others ∧ id ∈ others.ids
  | .save r now fresh error => error = false ∧ id ≠ [] ∧ ∃ cookie session,
    s.requests r = some ⟨cookie, .ready session⟩ ∧ session.id = id ∧
      (session.maxAge < 0 ∨ session.regenerates = true) ∧
      (save s.db session now fresh).1.isSome
  | _ => False

/-- A save under the identifier that the session already has finds the row of that identifier. -/
def rowKept (s : State) : Action → Bool
  | .save r _ _ _ =>
    match s.requests r with
    | some { phase := .ready session, .. } =>
      !session.resaves || s.db.sessions.any (·.id = session.id)
    | _ => true
  | _ => true

theorem rowKept_save {c : Str} (h : rowKept s (.save r now fresh error) = true)
    (hr : s.requests r = some ⟨c, .ready session⟩) (hrs : session.resaves = true) :
    session.id ∈ s.db.ids := by
  simp only [rowKept, hr, hrs, Bool.not_true, Bool.false_or, any_eq_true, decide_eq_true_eq] at h
  exact mem_map.mpr h

/-- The request has got a session of the store. -/
def Request.accepted (request : Request) : Bool :=
  match request.phase with
  | .ready session => !session.isNew
  | _ => false

/-- The phases of a request whose cookie names a session that is not there. -/
def Phase.Outside : Phase → Prop
  | .loading => True
  | .ready session => session.isNew = true
  | _ => False

/-- The session `id` is gone, and the requests for it that were not under way before are outside. -/
structure Gone (id : Str) (before : ℕ → Prop) (s : State) : Prop where
  issued : id ∈ s.issued
  absent : id ∉ s.db.ids
  outside : ∀ r request, s.requests r = some request → request.cookie = id → ¬ before r →
    request.phase.Outside

theorem not_mem_ids_of_save (h : (save db session now fresh).1 = some n) (hid : session.id = id)
    (hne : id ≠ []) (he : session.maxAge < 0 ∨ session.regenerates = true) : id ∉ n.ids := by
  unfold save at h
  split at h
  · cases h
    rw [if_neg (hid ▸ hne), hid]
    exact fun hm => (mem_ids_erase.mp hm).2 rfl
  next ha =>
    have hrg := he.resolve_left ha
    have hr : session.replaced = id := by rw [Session.replaced, if_pos hrg, hid]
    obtain ⟨hi, _⟩ := save_ids h
    rw [hr] at hi
    exact fun hm => (hi id hm).2 hne rfl

/-- The action that ends a session takes its row away. -/
theorem gone_of_ends {a : Action} (hi : Issued s) (he : Ends s id a) (hs : step s a = some t) :
    Gone id (fun r => t.requests r ≠ none) t := by
  have hot : ∀ r request, t.requests r = some request → request.cookie = id →
      ¬ t.requests r ≠ none → request.phase.Outside := by
    intro r request hr _ hn
    rw [not_not.mp hn] at hr
    cases hr
  cases a with
  | revoke userID ref rs now =>
    obtain ⟨row, hrw, hid⟩ := he
    obtain ⟨n, hnx, rfl⟩ := Option.map_eq_some_iff.mp hs
    obtain ⟨row', hm, hrw', his, _⟩ := revoke_ids hnx
    rw [hrw] at hrw'
    cases hrw'
    subst hid
    exact ⟨hi.metadata _ (mem_map_of_mem hm), fun hin => ((his _).mp hin).2 rfl, hot⟩
  | revokeOthers call rs now =>
    obtain ⟨os, hc, hid⟩ := he
    simp only [step, hc] at hs
    cases hs
    exact ⟨hi.others call os hc id hid,
      fun hin => ((revokeOthers_ids s.db os rs now).1 id hin).2 hid, hot⟩
  | save r now fresh error =>
    obtain ⟨rfl, hne, c, session, hrq, hid, ho, hsm⟩ := he
    obtain ⟨c', session', hr', _, _, rfl⟩ := step_save hs
    rw [hrq] at hr'
    cases hr'
    obtain ⟨n, hnx⟩ := Option.isSome_iff_exists.mp hsm
    have hh := (hi.requests r _ hrq).2 session rfl
    rw [hid] at hh
    refine ⟨mem_cons_of_mem _ (hh.resolve_left hne), ?_, hot⟩
    simp only [State.setRequest, hnx]
    exact not_mem_ids_of_save hnx hid hne ho
  | request | load | fail | handle | readOthers | cleanupExpired | setUsers => exact he.elim

/-- A load of a session that is not there stays outside. -/
theorem outside_load (ha : id ∉ db.ids) (h : phase.Outside) : (load db id now phase).2.Outside := by
  cases phase with
  | loading =>
    have hn : db.sessions.find? (·.id = id) = none := by
      refine find?_eq_none.mpr fun row hr hid => ha ?_
      exact mem_map.mpr ⟨row, hr, of_decide_eq_true hid⟩
    simp only [load, readRow, hn]
    rfl
  | ready session => exact h
  | decoded | matched | touching | erasing => exact h.elim

theorem outside_failed (h : phase.Outside) : (phase.failed id).Outside := by
  cases phase with
  | ready session => exact h
  | loading => rfl
  | decoded | matched | touching | erasing => exact h.elim

section GoneStep

variable {b : ℕ → Prop} {s t : State} {a : Action}

theorem Gone.setRequest {r : ℕ} {request : Request} (h : Gone id b s)
    (hrq : request.cookie = id → ¬ b r → request.phase.Outside) :
    Gone id b (s.setRequest r request) where
  issued := h.issued
  absent := h.absent
  outside r' request' hr := by
    rcases setRequest_requests hr with ⟨rfl, rfl⟩ | ⟨_, ho⟩
    · exact hrq
    · exact h.outside r' request' ho

theorem Gone.setDatabase (h : Gone id b s) (hi : ∀ o ∈ n.ids, o ∈ s.db.ids) :
    Gone id b { s with db := n } where
  issued := h.issued
  absent hin := h.absent (hi id hin)
  outside := h.outside

/-- A save does not bring the session back: it stores a session whose row is there, or one under a
fresh identifier. -/
theorem Gone.save {r : ℕ} {now : ℤ} {fresh c : Str} {session : Session} (h : Gone id b s)
    (hf : fresh ∉ s.issued) (hk : session.resaves = true → session.id ∈ s.db.ids)
    (hn : n = s.db ∨ (Sessions.save s.db session now fresh).1 = some n)
    (ho : c = id → ¬ b r → (Phase.ready (Sessions.save s.db session now fresh).2).Outside) :
    Gone id b (State.setRequest { s with db := n, issued := fresh :: s.issued } r
      ⟨c, .ready (Sessions.save s.db session now fresh).2⟩) := by
  have hrn : (session.renamed fresh).id ≠ id := by
    simp only [Session.renamed]
    split
    next hr =>
      rintro rfl
      exact h.absent (hk hr)
    · rintro rfl
      exact hf h.issued
  refine Gone.setRequest ⟨mem_cons_of_mem _ h.issued, fun hin => ?_, h.outside⟩ ho
  rcases hn with rfl | hn
  · exact h.absent hin
  · rcases (save_tables hn).1 id hin with hol | ⟨_, heq⟩
    · exact h.absent hol
    · exact hrn heq.symm

theorem save_isNew {session : Session} {now : ℤ} {fresh : Str} :
    (save db session now fresh).2.isNew = session.isNew := by
  unfold save
  split <;> rfl

theorem gone_step (h : Gone id b s) (hk : rowKept s a = true) (hs : step s a = some t) :
    Gone id b t := by
  cases a with
  | request r c =>
    simp only [step] at hs
    split at hs
    · cases hs
      exact h.setRequest fun _ _ => trivial
    · cases hs
  | load r now =>
    simp only [step] at hs
    split at hs
    · cases hs
    next request hr =>
      cases hs
      have hi := (load_ids s.db request.cookie now request.phase).1
      refine (h.setDatabase hi).setRequest fun hc hl => ?_
      have hol := h.outside r request hr hc hl
      rw [hc]
      exact outside_load h.absent hol
  | fail r =>
    simp only [step] at hs
    split at hs
    · cases hs
    next request hr =>
      cases hs
      exact h.setRequest fun hc hl => outside_failed (h.outside r request hr hc hl)
  | handle r vs ma =>
    simp only [step] at hs
    split at hs
    next c session hr =>
      cases hs
      have hol := h.outside r _ hr
      exact h.setRequest hol
    · cases hs
  | save r now fresh error =>
    obtain ⟨c, session, hr, hf, _, rfl⟩ := step_save hs
    refine h.save hf (rowKept_save hk hr) saved_database fun hc hl => ?_
    have hol : session.isNew = true := h.outside r _ hr hc hl
    exact save_isNew.trans hol
  | revoke userID ref rs now =>
    obtain ⟨n, hn, rfl⟩ := Option.map_eq_some_iff.mp hs
    obtain ⟨row, _, _, hi, _⟩ := revoke_ids hn
    exact h.setDatabase fun o hin => ((hi o).mp hin).1
  | readOthers call userID cr =>
    cases hs
    exact ⟨h.issued, h.absent, h.outside⟩
  | revokeOthers call rs now =>
    simp only [step] at hs
    split at hs
    · cases hs
    next others ho =>
      cases hs
      have hi := (revokeOthers_ids s.db others rs now).1
      have hdb := h.setDatabase fun o hin => (hi o hin).1
      exact ⟨hdb.issued, hdb.absent, hdb.outside⟩
  | cleanupExpired limit now =>
    cases hs
    exact h.setDatabase (cleanupExpired_ids s.db limit now).1
  | setUsers users =>
    cases hs
    exact h.setDatabase fun _ hin => hin

end GoneStep

theorem not_accepted_of_outside (h : request.phase.Outside) : request.accepted = false := by
  unfold Request.accepted
  cases hp : request.phase with
  | ready session =>
    rw [hp] at h
    have hn : session.isNew = true := h
    simp only [hn, Bool.not_true]
  | loading | decoded | matched | touching | erasing => rfl

/-- In the runs in which no save stores a session whose row has gone, a session that has ended is
not accepted by a request that comes after its end. -/
theorem revocation_permanent {s t u : State} {a : Action}
    (hs : (store.guarded fun s a => rowKept s a).Reachable s) (hends : Ends s id a) (hstep : step s a = some t)
    (hu : (store.guarded fun s a => rowKept s a).Later t u) {r : ℕ} (hlate : t.requests r = none)
    {request : Request} (hr : u.requests r = some request) (hcookie : request.cookie = id) :
    request.accepted = false := by
  have his : Issued s := by
    refine System.Reachable.invariant (S := store.guarded fun s a => rowKept s a) issued_initial ?_ hs
    intro s a t hi h
    exact issued_step hi h.2
  have hgn := gone_of_ends his hends hstep
  have hl : Gone id (fun r => t.requests r ≠ none) u := by
    refine hu.preserves ?_ hgn
    intro s a t hg h
    exact gone_step hg h.1 h.2
  exact not_accepted_of_outside (hl.outside r request hr hcookie (not_not.mpr hlate))

section Sample

def sampleValues : Values
  | .loginUser => some (.text ['a'])
  | .ref => some (.text ['r'])
  | .userID | .credentialGeneration | .mfaGeneration => some (.uint64 1)
  | .authState => some (.text authStateAuthenticated)
  | .lastSeenAt => some (.int64 1000)
  | _ => none

/-- One administrator with one session. -/
def sample : State where
  db := {
    sessions := [{ id := ['i'], data := sampleValues, expiresAt := 0 }]
    securitySessions := (securitySessionFromValues ['i'] sampleValues).toList
    users := [{ id := 1, credentialGeneration := 1, mfaGeneration := 1 }] }
  requests _ := none
  others _ := none
  issued := [['i']]

theorem sample_initial : store.initial sample := by
  refine ⟨?_, ?_, fun _ => rfl, fun _ => rfl⟩
  · simp [sample]
  · decide

/-- A request with the cookie of the sample session, as far as the store is concerned. -/
def sampleRequest (r : ℕ) : List Action :=
  [.request r ['i'], .load r 1001, .load r 1001, .load r 1001]

def sampleSave (now : ℤ) : List Action := [.handle 0 sampleValues 0, .save 0 now ['f'] false]

def sampleRevoke : Action := .revoke 1 ['r'] [] 1002

def sampleAfter (actions : List Action) : State := (actions.foldlM step sample).getD sample

end Sample

/-- A request that saves the session it loaded, then the revocation, then another request. -/
theorem revocation_permanent_sample : ∃ s t u request,
    (store.guarded fun s a => rowKept s a).Reachable s ∧ Ends s ['i'] sampleRevoke ∧
    step s sampleRevoke = some t ∧ (store.guarded fun s a => rowKept s a).Later t u ∧
    t.requests 1 = none ∧ u.requests 1 = some request ∧ request.cookie = ['i'] ∧
    request.accepted = false := by
  let before := sampleRequest 0 ++ sampleSave 1001
  have hs : (store.guarded fun s a => rowKept s a).Reachable (sampleAfter before) :=
    ⟨sample, sample_initial, System.later_guarded_of_run (S := store) (f := step) (p := rowKept)
      (l := before) (fun h => h) rfl⟩
  have hu : (store.guarded fun s a => rowKept s a).Later (sampleAfter (before ++ [sampleRevoke]))
      (sampleAfter (before ++ [sampleRevoke] ++ sampleRequest 1)) :=
    System.later_guarded_of_run (S := store) (f := step) (p := rowKept)
      (l := sampleRequest 1) (fun h => h) rfl
  have he : Ends (sampleAfter before) ['i'] sampleRevoke := ⟨_, rfl, rfl⟩
  refine ⟨_, _, _, _, hs, he, rfl, hu, rfl, rfl, rfl, ?_⟩
  exact revocation_permanent hs he rfl hu (r := 1) rfl rfl rfl

/-- A request that loaded the session before the revocation saves it afterwards: the next request
with the cookie is accepted. -/
theorem revoked_session_returns : ∃ s t u request, store.Reachable s ∧ Ends s ['i'] sampleRevoke ∧
    step s sampleRevoke = some t ∧ store.Later t u ∧ t.requests 1 = none ∧
    u.requests 1 = some request ∧ request.cookie = ['i'] ∧ request.accepted = true := by
  let before := sampleRequest 0
  let after := sampleSave 1003 ++ sampleRequest 1
  have hs : store.Reachable (sampleAfter before) := ⟨sample, sample_initial,
    System.later_of_run (f := step) (l := before) (fun h => h) rfl⟩
  have hu : store.Later (sampleAfter (before ++ [sampleRevoke]))
      (sampleAfter (before ++ [sampleRevoke] ++ after)) :=
    System.later_of_run (f := step) (l := after) (fun h => h) rfl
  refine ⟨_, _, _, _, hs, ⟨_, rfl, rfl⟩, rfl, hu, rfl, rfl, ?_⟩
  exact ⟨rfl, rfl⟩

end Solovey.Sessions
