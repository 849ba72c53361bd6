import Solovey.Data.Rows
import Solovey.Data.System
import Solovey.Text.Strings

/-!
# The session store

The table of web sessions with its table of security metadata. A request loads the session of its
cookie in several statements, works on its own copy of the values and may save that copy; a save, an
erasure and a revocation are one transaction each. Calls interleave between statements.
-/

namespace Solovey.Sessions

open Solovey.Text Solovey.Data

/-! ## Values of a session -/

/-- A value of the map of a session, by its type. -/
inductive GoValue
  | text (s : Str)
  | uint64 (n : ℕ)
  | uint (n : ℕ)
  | int (n : ℤ)
  | int64 (n : ℤ)
  | bool (b : Bool)
  deriving DecidableEq

/-- The keys that the store reads, and any other. -/
inductive Key
  | loginUser
  | userID
  | ref
  | authState
  | credentialGeneration
  | mfaGeneration
  | lastSeenAt
  | idleExpiresAt
  | absoluteExpiresAt
  | rememberedExpiresAt
  | regenerate
  | other (name : Str)
  deriving DecidableEq

abbrev Values := Key → Option GoValue

def textValue : Option GoValue → Option Str
  | some (.text s) => some s
  | _ => none

def sessionValueUint64 : Option GoValue → Option ℕ
  | some (.uint64 n) => some n
  | some (.uint n) => some n
  | some (.int n) => if 0 ≤ n then some n.toNat else none
  | some (.int64 n) => if 0 ≤ n then some n.toNat else none
  | _ => none

def sessionValueInt64 : Option GoValue → Option ℤ
  | some (.int64 n) => some n
  | some (.int n) => some n
  | some (.uint64 n) => if n ≤ 2 ^ 63 - 1 then some n else none
  | _ => none

/-! ## Tables -/

inductive SessionState
  | active
  | preAuth
  | revoked
  deriving DecidableEq

structure SecuritySession where
  sessionID : Str
  ref : Str
  userID : ℕ
  state : SessionState
  credentialGeneration : ℕ
  mfaGeneration : ℕ
  lastSeenAt : ℤ
  idleExpiresAt : ℤ
  absoluteExpiresAt : ℤ
  rememberedExpiresAt : ℤ
  revokedAt : ℤ
  revokedReason : Str
  replacementRef : Str
  deriving DecidableEq

/-- A row of the table of sessions; the column of the encoded values holds the values. -/
structure SessionRow where
  id : Str
  data : Values
  expiresAt : ℤ

structure User where
  id : ℕ
  credentialGeneration : ℕ
  mfaGeneration : ℕ
  deriving DecidableEq

structure Database where
  sessions : List SessionRow
  securitySessions : List SecuritySession
  users : List User

/-- A session as a request holds it. -/
structure Session where
  id : Str
  values : Values
  isNew : Bool
  maxAge : ℤ

def defaultMaxAge : ℤ := 86400 * 30

def sessionLastSeenDebounce : ℤ := 60

def defaultSessionIdle : ℤ := 30 * 60

def sessionHistoryRetention : ℤ := 30 * 24 * 3600

def maxSessionCleanupBatch : ℕ := 100

def nonzeroSessionGeneration (value : ℕ) : ℕ := if value = 0 then 1 else value

def authStateAuthenticated : Str := "authenticated".toList

/-! ## Saving and ending a session -/

def securitySessionFromValues (sessionID : Str) (values : Values) : Option SecuritySession := do
  let username ← textValue (values .loginUser)
  let ref ← textValue (values .ref)
  let userID ← sessionValueUint64 (values .userID)
  let credentialGeneration ← sessionValueUint64 (values .credentialGeneration)
  let mfaGeneration ← sessionValueUint64 (values .mfaGeneration)
  if trimSpace username = [] ∨ trimSpace ref = [] ∨ userID = 0 then none
  else some {
      sessionID, ref, userID, credentialGeneration, mfaGeneration
      state := if textValue (values .authState) = some authStateAuthenticated then .active
        else .preAuth
      lastSeenAt := (sessionValueInt64 (values .lastSeenAt)).getD 0
      idleExpiresAt := (sessionValueInt64 (values .idleExpiresAt)).getD 0
      absoluteExpiresAt := (sessionValueInt64 (values .absoluteExpiresAt)).getD 0
      rememberedExpiresAt := (sessionValueInt64 (values .rememberedExpiresAt)).getD 0
      revokedAt := 0
      revokedReason := []
      replacementRef := [] }

/-- The update that ends a session. -/
def SecuritySession.revoke (row : SecuritySession) (now : ℤ) (reason : Str) : SecuritySession :=
  { row with state := .revoked, revokedAt := now, revokedReason := reason }

variable (db : Database) (id : Str)

def Database.deleteSession : Database :=
  { db with sessions := deleteWhere (·.id = id) db.sessions }

def Database.upsertSession (row : SessionRow) : Database :=
  { db with sessions := upsert (·.id = row.id) (fun _ => row) row db.sessions }

/-- The insertion of the metadata: a session that is there already is no longer revoked after it,
and a reference that another session has is an error. -/
def Database.upsertMetadata (metadata : SecuritySession) : Option Database :=
  if db.securitySessions.any fun row =>
      row.ref = metadata.ref && row.sessionID ≠ metadata.sessionID then none
  else some { db with
    securitySessions := upsert (·.sessionID = metadata.sessionID)
      (fun _ => { metadata with revokedAt := 0, revokedReason := [], replacementRef := [] })
      metadata db.securitySessions }

def Database.erase (now : ℤ) : Database :=
  Database.deleteSession { db with
    securitySessions := updateWhere (fun row => row.sessionID = id && row.revokedAt = 0)
      (fun row => row.revoke now "session_ended".toList) db.securitySessions } id

/-- The session that a new one takes the place of. -/
def Database.replace (id replacementRef : Str) (now : ℤ) : Database :=
  Database.deleteSession { db with
    securitySessions := updateWhere (fun row => row.sessionID = id && row.revokedAt = 0)
      (fun row => { row.revoke now "session_replaced".toList with replacementRef })
      db.securitySessions } id

def Database.saveMetadata : Option SecuritySession → Option Database
  | some metadata => db.upsertMetadata metadata
  | none => some db

/-- The transaction of a save. -/
def Database.save (session : Session) (replacedSessionID : Str) (now : ℤ) :
    Option Database :=
  let expiresAt := if 0 < session.maxAge then now + session.maxAge else 0
  let metadata := securitySessionFromValues session.id session.values
  ((db.upsertSession { id := session.id, data := session.values, expiresAt }).saveMetadata
    metadata).map fun db =>
      if replacedSessionID = [] then db
      else db.replace replacedSessionID ((metadata.map (·.ref)).getD []) now

def Session.regenerates (session : Session) : Bool := (session.values .regenerate).isSome

/-- A save that stores the session under the identifier it has. -/
def Session.resaves (session : Session) : Bool :=
  0 ≤ session.maxAge && !session.regenerates && session.id ≠ []

/-- The session that a save stores: it keeps its identifier unless it has none or is told to give
it up, and takes the fresh one then. -/
def Session.renamed (session : Session) (fresh : Str) : Session :=
  { session with
    id := if session.resaves then session.id else fresh
    values := Function.update session.values .regenerate none }

def Session.replaced (session : Session) : Str := if session.regenerates then session.id else []

/-- `Save` of a request: the database after it, when there was no error, and the session that the
request holds from then on. -/
def save (db : Database) (session : Session) (now : ℤ) (fresh : Str) : Option Database × Session :=
  if session.maxAge < 0 then
    (some (if session.id = [] then db else db.erase session.id now), session)
  else
    (db.save (session.renamed fresh) session.replaced now, session.renamed fresh)

/-! ## Loading a session -/

/-- How far a request has come with the session of its cookie. -/
inductive Phase
  | loading
  | decoded (values : Values)
  | matched (values : Values) (metadata : SecuritySession)
  | touching (values : Values) (metadata : SecuritySession) (now : ℤ)
  | erasing (values : Values)
  | ready (session : Session)

/-- The anonymous session that a request gets whose cookie is not accepted. -/
def Phase.rejected : Phase :=
  .ready { id := [], values := fun _ => none, isNew := true, maxAge := defaultMaxAge }

def Phase.accepted (values : Values) : Phase :=
  .ready { id, values, isNew := false, maxAge := defaultMaxAge }

/-- What the request holds when a statement of the load fails. -/
def Phase.failed : Phase → Phase
  | .loading => .ready { id, values := fun _ => none, isNew := true, maxAge := defaultMaxAge }
  | .decoded values | .matched values _ | .touching values _ _ | .erasing values =>
    .ready { id, values, isNew := true, maxAge := defaultMaxAge }
  | .ready session => .ready session

def expired (at_ now : ℤ) : Bool := 0 < at_ && at_ ≤ now

/-- What the metadata and the user have to say for a session with these values. -/
def invalidSession (values : Values) (metadata : SecuritySession) (user : User) (now : ℤ) : Bool :=
  0 < metadata.revokedAt || metadata.state = .revoked ||
  some metadata.userID ≠ sessionValueUint64 (values .userID) ||
  some metadata.credentialGeneration ≠ sessionValueUint64 (values .credentialGeneration) ||
  some metadata.mfaGeneration ≠ sessionValueUint64 (values .mfaGeneration) ||
  some (nonzeroSessionGeneration user.credentialGeneration) ≠
    sessionValueUint64 (values .credentialGeneration) ||
  some (nonzeroSessionGeneration user.mfaGeneration) ≠
    sessionValueUint64 (values .mfaGeneration) ||
  expired metadata.idleExpiresAt now || expired metadata.absoluteExpiresAt now ||
  expired metadata.rememberedExpiresAt now

def nextIdle (metadata : SecuritySession) (now : ℤ) : ℤ :=
  if 0 < metadata.idleExpiresAt then
    let window := metadata.idleExpiresAt - metadata.lastSeenAt
    let next := now + if window ≤ 0 then defaultSessionIdle else window
    if 0 < metadata.absoluteExpiresAt && metadata.absoluteExpiresAt < next then
      metadata.absoluteExpiresAt
    else next
  else 0

/-- The rows that the update of the last visit matches. -/
def untouched (metadata row : SecuritySession) : Bool :=
  row.sessionID = id && row.lastSeenAt = metadata.lastSeenAt && row.revokedAt = 0

/-- The first statement: the row of the session. -/
def readRow (now : ℤ) : Phase :=
  match db.sessions.find? (·.id = id) with
  | none => .rejected
  | some row => if expired row.expiresAt now then .erasing (fun _ => none) else .decoded row.data

/-- The second statement: the metadata of the session, when its values name any. -/
def readMetadata (values : Values) : Phase :=
  match textValue (values .ref) with
  | none => .accepted id values
  | some ref =>
    if trimSpace ref = [] then .accepted id values
    else if (sessionValueUint64 (values .userID)).getD 0 = 0 ||
        (sessionValueUint64 (values .credentialGeneration)).isNone ||
        (sessionValueUint64 (values .mfaGeneration)).isNone then .erasing values
    else match db.securitySessions.find? fun row => row.sessionID = id && row.ref = ref with
      | none => .erasing values
      | some metadata => .matched values metadata

/-- The third statement: the user, against whom the metadata are checked. -/
def readUser (values : Values) (metadata : SecuritySession) (now : ℤ) :
    Phase :=
  match db.users.find? fun user => some user.id = sessionValueUint64 (values .userID) with
  | none => .failed id (.matched values metadata)
  | some user =>
    if invalidSession values metadata user now then .erasing values
    else if now - metadata.lastSeenAt < sessionLastSeenDebounce then .accepted id values
    else .touching values metadata now

/-- The last statement of a session that is accepted. -/
def touch (values : Values) (metadata : SecuritySession) (now : ℤ) :
    Database × Phase :=
  ({ db with
      securitySessions := updateWhere (untouched id metadata)
        (fun row => { row with lastSeenAt := now, idleExpiresAt := nextIdle metadata now })
        db.securitySessions },
    .accepted id
      (if db.securitySessions.countP (untouched id metadata) = 1 then
        Function.update (Function.update values .lastSeenAt (some (.int64 now)))
          .idleExpiresAt (some (.int64 (nextIdle metadata now)))
      else values))

/-- The next statement of a load. -/
def load (now : ℤ) : Phase → Database × Phase
  | .loading => (db, readRow db id now)
  | .decoded values => (db, readMetadata db id values)
  | .matched values metadata => (db, readUser db id values metadata now)
  | .touching values metadata visited => touch db id values metadata visited
  | .erasing _ => (db.erase id now, .rejected)
  | .ready session => (db, .ready session)

/-! ## Revocation -/

/-- The revocation of one session of a user. -/
def revoke (db : Database) (userID : ℕ) (ref reason : Str) (now : ℤ) : Option Database :=
  if trimSpace ref = [] then none
  else match db.securitySessions.find? fun row => row.userID = userID && row.ref = trimSpace ref with
    | none => none
    | some row =>
      let reason := if reason = [] then "user_revoked".toList else reason
      some (Database.deleteSession { db with
        securitySessions := if row.revokedAt = 0 then
            updateWhere (·.sessionID = row.sessionID) (·.revoke now reason) db.securitySessions
          else db.securitySessions } row.sessionID)

/-- What `RevokeOthers` has read when its transaction begins. -/
structure Others where
  userID : ℕ
  currentRef : Str
  rows : List SecuritySession

def readOthers (userID : ℕ) (currentRef : Str) : Others where
  userID := userID
  currentRef := currentRef
  rows := db.securitySessions.filter fun row =>
    row.userID = userID && row.ref ≠ currentRef && row.revokedAt = 0

def Others.ids (others : Others) : List Str := others.rows.map (·.sessionID)

def revokeOthers (others : Others) (reason : Str) (now : ℤ) : Database :=
  let reason := if reason = [] then "other_sessions_revoked".toList else reason
  { db with
    securitySessions := updateWhere (fun row => row.userID = others.userID &&
        row.ref ≠ others.currentRef && others.ids.contains row.sessionID && row.revokedAt = 0)
      (·.revoke now reason) db.securitySessions
    sessions := deleteWhere (fun row => others.ids.contains row.id) db.sessions }

/-- The rows of one cleanup: the sessions that have been over for the time of their retention. -/
def staleSessions (limit : ℕ) (now : ℤ) : List SecuritySession :=
  let limit := if limit = 0 || maxSessionCleanupBatch < limit then maxSessionCleanupBatch else limit
  let cutoff := now - sessionHistoryRetention
  ((db.securitySessions.filter fun row =>
    expired row.revokedAt cutoff || expired row.absoluteExpiresAt cutoff).insertionSort
      fun a b => a.lastSeenAt ≤ b.lastSeenAt).take limit

def cleanupExpired (limit : ℕ) (now : ℤ) : Database :=
  let ids := (staleSessions db limit now).map (·.sessionID)
  { db with
    sessions := deleteWhere (fun row => ids.contains row.id) db.sessions
    securitySessions := deleteWhere (fun row => ids.contains row.sessionID) db.securitySessions }

/-! ## Requests -/

structure Request where
  /-- The identifier that the signed cookie holds. -/
  cookie : Str
  phase : Phase

structure State where
  db : Database
  requests : ℕ → Option Request
  others : ℕ → Option Others
  /-- The identifiers handed out so far. -/
  issued : List Str

inductive Action
  | request (r : ℕ) (cookie : Str)
  | load (r : ℕ) (now : ℤ)
  | fail (r : ℕ)
  | handle (r : ℕ) (values : Values) (maxAge : ℤ)
  | save (r : ℕ) (now : ℤ) (fresh : Str) (error : Bool)
  | revoke (userID : ℕ) (ref reason : Str) (now : ℤ)
  | readOthers (call userID : ℕ) (currentRef : Str)
  | revokeOthers (call : ℕ) (reason : Str) (now : ℤ)
  | cleanupExpired (limit : ℕ) (now : ℤ)
  | setUsers (users : List User)

def State.setRequest (s : State) (r : ℕ) (request : Request) : State :=
  { s with requests := Function.update s.requests r (some request) }

/-- One statement or transaction. Cookies are signed, so that a cookie holds an identifier that has
been handed out, and fresh identifiers do not repeat. What a handler does to the values of its
session is its own choice. -/
def step (s : State) : Action → Option State
  | .request r cookie =>
    if (s.requests r).isNone && s.issued.contains cookie then
      some (s.setRequest r { cookie, phase := .loading })
    else none
  | .load r now =>
    match s.requests r with
    | none => none
    | some request =>
      let next := load s.db request.cookie now request.phase
      some ({ s with db := next.1 }.setRequest r { request with phase := next.2 })
  | .fail r =>
    match s.requests r with
    | none => none
    | some request =>
      some (s.setRequest r { request with phase := request.phase.failed request.cookie })
  | .handle r values maxAge =>
    match s.requests r with
    | some { cookie, phase := .ready session } =>
      some (s.setRequest r { cookie, phase := .ready { session with values, maxAge } })
    | _ => none
  | .save r now fresh error =>
    match s.requests r with
    | some { cookie, phase := .ready session } =>
      if s.issued.contains fresh || fresh = [] then none
      else
        let saved := save s.db session now fresh
        some ({ s with
            db := if error then s.db else saved.1.getD s.db
            issued := fresh :: s.issued }.setRequest r { cookie, phase := .ready saved.2 })
    | _ => none
  | .revoke userID ref reason now =>
    (Sessions.revoke s.db userID ref reason now).map fun db => { s with db }
  | .readOthers call userID currentRef =>
    some { s with
      others := Function.update s.others call (some (Sessions.readOthers s.db userID currentRef)) }
  | .revokeOthers call reason now =>
    match s.others call with
    | none => none
    | some others => some { s with
        db := Sessions.revokeOthers s.db others reason now
        others := Function.update s.others call none }
  | .cleanupExpired limit now => some { s with db := Sessions.cleanupExpired s.db limit now }
  | .setUsers users => some { s with db := { s.db with users } }

/-- The store from any tables whose identifiers have been handed out. -/
def store : System State Action where
  initial s := (∀ row ∈ s.db.sessions, row.id ∈ s.issued) ∧
    (∀ row ∈ s.db.securitySessions, row.sessionID ∈ s.issued) ∧
    (∀ r, s.requests r = none) ∧ ∀ call, s.others call = none
  step s a t := step s a = some t

end Solovey.Sessions
