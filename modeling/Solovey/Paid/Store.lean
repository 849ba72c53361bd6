import Solovey.Paid.Grant
import Solovey.Paid.Migration

/-!
# The order store

Every operation on payment orders is one transaction: it commits, or it returns an error and leaves
the tables alone. A write of the order table is refused when it breaks one of the unique indexes.
-/

namespace Solovey.Paid

open Solovey.Data Solovey.Text Solovey.Json

/-! ## Statements -/

variable (db : Database) (order : PaymentOrder)

def PaymentOrder.hasCharge : Bool := !order.providerChargeID.isEmpty

def PaymentOrder.charge : ProviderKind × Str :=
  (order.provider, order.providerChargeID)

/-- The unique indexes of the order table. -/
structure Unique (orders : Orders) : Prop where
  keys : (orders.indexed (fun _ => true) PaymentOrder.idempotencyKey).Nodup
  charges : (orders.indexed PaymentOrder.hasCharge PaymentOrder.charge).Nodup
  identities : (orders.indexed PaymentOrder.hasRef PaymentOrder.identity).Nodup
  purchases : (orders.indexed PaymentOrder.active PaymentOrder.purchase).Nodup

instance (orders : Orders) : Decidable (Unique orders) :=
  decidable_of_iff
    ((orders.indexed (fun _ => true) PaymentOrder.idempotencyKey).Nodup ∧
      (orders.indexed PaymentOrder.hasCharge PaymentOrder.charge).Nodup ∧
      (orders.indexed PaymentOrder.hasRef PaymentOrder.identity).Nodup ∧
      (orders.indexed PaymentOrder.active PaymentOrder.purchase).Nodup)
    ⟨fun h => ⟨h.1, h.2.1, h.2.2.1, h.2.2.2⟩, fun h => ⟨h.1, h.2, h.3, h.4⟩⟩

/-- Update the orders that meet a condition, and count them. -/
def Database.updateOrders (p : PaymentOrder → Bool) (f : PaymentOrder → PaymentOrder)
    (hf : ∀ order, (f order).id = order.id) : Except Error (Database × ℕ) :=
  let orders := db.orders.update p f hf
  if Unique orders then .ok ({ db with orders }, db.orders.affected p) else .error .constraint

def require (ok : Bool) (error : Error) : Except Error Unit := if ok then .ok () else .error error

def found {α : Type} (row : Option α) : Except Error α := row.elim (.error .recordNotFound) .ok

/-- Update the one order with an id that meets a condition; no such order is an error. -/
def Database.updateOrder (id : ℕ) (p : PaymentOrder → Bool)
    (f : PaymentOrder → PaymentOrder) (hf : ∀ order, (f order).id = order.id) :
    Except Error Database := do
  let (db, affected) ← db.updateOrders (fun order => order.id == id && p order) f hf
  require (affected == 1) .alreadyFinalized
  return db

def Database.updateClient (id : ℕ) (updates : ClientUpdates) : Database :=
  { db with clients := updateWhere (·.id == id) updates.write db.clients }

/-! ## Creating orders -/

/-- What an order is made from. -/
structure Purchase where
  clientId : ℕ
  tariffId : ℕ
  tariff : Tariff
  kind : ProviderKind
  amount : ℤ
  currency : Str
  tgUserID : ℤ
  idempotencyKey : Str
  now : ℤ
  ttlMinutes : ℤ
  deriving DecidableEq, Repr

def newPendingOrder (purchase : Purchase) (id : ℕ) : PaymentOrder where
  id := id
  clientId := purchase.clientId
  tariffId := purchase.tariffId
  provider := purchase.kind
  amount := purchase.amount
  currency := purchase.currency
  status := .pending
  telegramUserId := purchase.tgUserID
  idempotencyKey := purchase.idempotencyKey
  createdAt := purchase.now
  expiresAt := purchase.now + purchase.ttlMinutes * 60
  grantAddDays := purchase.tariff.addDays
  grantTraffic := purchase.tariff.addTrafficBytes
  grantSnapshot := true

/-- Insert the order of a purchase with its first status. -/
def Database.insertOrder (status : Status) (purchase : Purchase) : Orders :=
  db.orders.insert (fun id => { newPendingOrder purchase id with status }) fun _ => rfl

def createOrder (purchase : Purchase) : Except Error Database :=
  let orders := db.insertOrder .pending purchase
  if Unique orders then .ok { db with orders } else .error .constraint

/-- The orders of one purchase in a list of states. -/
def samePurchase (purchase : Purchase) (statuses : List Status) (order : PaymentOrder) : Bool :=
  order.clientId == purchase.clientId && order.tariffId == purchase.tariffId &&
    order.telegramUserId == purchase.tgUserID && order.provider == purchase.kind &&
    statuses.contains order.status

def activeCryptoBotOrder (clientID tariffID : ℕ) (tgID : ℤ) : Option PaymentOrder :=
  db.orders.rows.find? fun order =>
    order.clientId == clientID && order.tariffId == tariffID && order.telegramUserId == tgID &&
      order.provider == .cryptoBot &&
      [Status.pending, .invoiceCreating, .recoverable, .manualReview].contains order.status

/-- Arbitrate who may create the invoice of a purchase: the insertion is refused while the purchase is
held for review or open. -/
def createInvoiceIntent (purchase : Purchase) :
    Except Error (Database × Option PaymentOrder × Bool) := do
  if 0 < db.orders.affected (samePurchase purchase [.manualReview]) then
    return (db, activeCryptoBotOrder db purchase.clientId purchase.tariffId purchase.tgUserID, false)
  let orders := db.insertOrder .invoiceCreating purchase
  if Unique orders then
    return ({ db with orders }, orders.get? orders.last, true)
  let existing ← found (db.orders.rows.find?
    (samePurchase purchase [.invoiceCreating, .recoverable, .pending]))
  return ({ db with orders := db.orders.skip }, some existing, false)

/-! ## The invoice of an order -/

structure Invoice where
  payURL : Str
  providerRef : Str
  deriving DecidableEq, Repr

/-- The stored form of an invoice's reference. -/
def refPayload (ref : Str) : Str :=
  (Value.ofEntries [("ref", some (.ofString (String.ofList ref)))]).escapeHTML.text

def markInvoiceRecoverable (id : ℕ) : Except Error Database := do
  let (db, _) ← db.updateOrders (fun order => order.id == id && order.status == .invoiceCreating)
    (.reclassify .recoverable .invoiceCreationUncertain) (PaymentOrder.reclassify_id _ _)
  return db

def PaymentOrder.invoiced (invoice : Invoice) (order : PaymentOrder) : PaymentOrder :=
  { order with
    status := .pending
    reviewReason := .none
    providerRef := if invoice.providerRef.isEmpty then order.providerRef else invoice.providerRef
    providerPayload :=
      if invoice.providerRef.isEmpty then order.providerPayload else refPayload invoice.providerRef }

def saveInvoiceResult (orderID : ℕ) (invoice : Option Invoice) :
    Except Error Database :=
  match invoice with
  | none => .error .emptyInvoice
  | some invoice => db.updateOrder orderID
      (fun order => [Status.pending, .invoiceCreating].contains order.status &&
        (order.providerRef.isEmpty || order.providerRef == invoice.providerRef))
      (.invoiced invoice) fun _ => rfl

/-! ## Closing orders -/

def PaymentOrder.toStatus (status : Status) (order : PaymentOrder) : PaymentOrder :=
  { order with status }

theorem PaymentOrder.toStatus_id (ss : Status) (order : PaymentOrder) :
    (order.toStatus ss).id = order.id := rfl

def markOrderFailed (id : ℕ) : Except Error Database :=
  db.updateOrder id (·.status == .pending) (.toStatus .failed) (PaymentOrder.toStatus_id .failed)

def reviewProviderOrders (ids : List ℕ) : Except Error Database := do
  let (db, _) ← db.updateOrders (fun order => ids.contains order.id &&
      [Status.pending, .invoiceCreating, .recoverable].contains order.status)
    (.reclassify .manualReview .providerMetadataOrIdentityConflict) (PaymentOrder.reclassify_id _ _)
  return db

def expireStaleOrders (now : ℤ) : Except Error Database := do
  let (db, _) ← db.updateOrders (fun order => order.status == .pending &&
      order.provider != .cryptoBot && decide (0 < order.expiresAt) && decide (order.expiresAt < now))
    (.toStatus .expired) (PaymentOrder.toStatus_id .expired)
  return db

def expireVerifiedProviderOrders (ids : List ℕ) (now grace : ℤ) :
    Except Error Database := do
  let (db, _) ← db.updateOrders (fun order => ids.contains order.id &&
      order.provider == .cryptoBot && order.status == .pending && decide (0 < order.createdAt) &&
      decide (order.createdAt < now - grace))
    (.reclassify .expired .providerTerminal) (PaymentOrder.reclassify_id _ _)
  return db

/-! ## Grants -/

structure AppliedOrderResult where
  applied : Bool := false
  telegramUserID : ℤ := 0
  deriving DecidableEq, Repr

def PaymentOrder.charged (chargeID : Str) (order : PaymentOrder) : PaymentOrder :=
  { order with status := .paid, providerChargeID := chargeID }

def OrderUpdates.write (updates : OrderUpdates) (order : PaymentOrder) : PaymentOrder :=
  { order with
    grantedUp := updates.grantedUp.getD order.grantedUp
    grantedDown := updates.grantedDown.getD order.grantedDown }

theorem OrderUpdates.write_id (us : OrderUpdates) (order : PaymentOrder) :
    (us.write order).id = order.id := rfl

/-- A payment lifts the stops for quota and expiry that stand when it is written. -/
def ClientUpdates.lifting (updates : ClientUpdates) (client : Client) : Client :=
  { updates.write client with
    enable := client.accessDisableReason.renewable
    accessDisableReason := client.accessDisableReason.renewed }

def applyPaidOrderGrant (orderID : ℕ) (chargeID : Str) (now : ℤ) :
    Except Error (Database × AppliedOrderResult) := do
  require (!chargeID.isEmpty) .chargeIdentityEmpty
  let db ← db.updateOrder orderID (·.status == .pending) (.charged chargeID) fun _ => rfl
  let order ← found (db.orders.get? orderID)
  let grant ← grantForOrder order
  let client ← found (db.client order.clientId)
  let (updates, orderUpdates) ← buildPaidClientUpdates client grant now
  let (db, _) ← db.updateOrders (·.id == orderID) orderUpdates.write orderUpdates.write_id
  return ({ db with clients := updateWhere (·.id == client.id) updates.lifting db.clients },
    { applied := true, telegramUserID := order.telegramUserId })

/-! ## Refunds -/

def refundClaimSeconds : ℤ := 120

def PaymentOrder.refunding : PaymentOrder :=
  { order with status := .refunded, refundClaim := [], refundClaimUntil := 0 }

/-- Orders with a grant of traffic that stand behind another one of the client in the table. -/
def newerTrafficOrder (order other : PaymentOrder) : Bool :=
  other.clientId == order.clientId && decide (order.id < other.id) &&
    [Status.paid, .refundPending].contains other.status && other.grantSnapshot &&
    decide (0 < other.grantTraffic)

/-- Whether a revocation puts the traffic of the closed window back. -/
def restoreLiveUsage (grant : Tariff) : Bool :=
  decide (grant.addTrafficBytes ≤ 0) || db.orders.affected (newerTrafficOrder order) == 0

/-- A claimed refund revokes as its first claim says. -/
def revokes (token : Str) (revoke : Bool) (order : PaymentOrder) : Bool :=
  if token.isEmpty then revoke else order.refundRevoke

def finalizeRefundGrant (orderID : ℕ) (status : Status) (token : Str) (revoke : Bool)
    (now : ℤ) : Except Error Database := do
  let db ← db.updateOrder orderID
    (fun order => order.status == status && (token.isEmpty || order.refundClaim == token))
    PaymentOrder.refunding fun _ => rfl
  let order ← found (db.orders.get? orderID)
  let grant ← grantForOrder order
  if revokes token revoke order then
    let client ← found (db.client order.clientId)
    return db.updateClient client.id
      (buildRefundClientUpdates client order grant now (restoreLiveUsage db order grant))
  else
    return db

def finalizeRefund (orderID : ℕ) (revoke : Bool) (now : ℤ) : Except Error Database :=
  finalizeRefundGrant db orderID .paid [] revoke now

def finalizeClaimedRefund (orderID : ℕ) (token : Str) (now : ℤ) :
    Except Error Database := do
  require (!token.isEmpty) .refundInProgress
  finalizeRefundGrant db orderID .refundPending token false now

def PaymentOrder.claimed (revoke : Bool) (token : Str) (until_ : ℤ) (order : PaymentOrder) :
    PaymentOrder :=
  { order with
    status := .refundPending, refundRevoke := revoke, refundClaim := token, refundClaimUntil := until_ }

def PaymentOrder.reclaimed (token : Str) (until_ : ℤ) (order : PaymentOrder) : PaymentOrder :=
  { order with refundClaim := token, refundClaimUntil := until_ }

/-- Take the refund of an order: the first claim fixes whether it revokes, a later one only takes over
a claim that has run out. -/
def takeClaim (id : ℕ) (revoke : Bool) (token : Str) (now : ℤ) :
    Except Error Database := do
  let (claimed, affected) ← db.updateOrders
    (fun order => order.id == id && (order.status == .paid && order.provider == .stars))
    (.claimed revoke token (now + refundClaimSeconds)) fun _ => rfl
  if affected ≠ 0 then
    return claimed
  let (claimed, affected) ← db.updateOrders
    (fun order => order.id == id && (order.status == .refundPending && order.provider == .stars &&
      decide (order.refundClaimUntil ≤ now)))
    (.reclaimed token (now + refundClaimSeconds)) fun _ => rfl
  require (affected != 0) .refundInProgress
  return claimed

def claimStarsRefund (id : ℕ) (revoke : Bool) (token : Str) (now : ℤ) :
    Except Error (Database × PaymentOrder) := do
  require (!token.isEmpty) .refundClaimIdentityMissing
  let db ← takeClaim db id revoke token now
  let order ← found (db.orders.get? id)
  let _ ← grantForOrder order
  let tag := "tg:".toList
  require (order.currency == "XTR".toList && decide (0 < order.telegramUserId) &&
    tag.isPrefixOf order.providerChargeID && !(trimPrefix tag order.providerChargeID).isEmpty)
    .refundChargeIdentityInvalid
  return (db, order)

def releaseRefundClaim (id : ℕ) (token : Str) : Except Error Database := do
  let (db, _) ← db.updateOrders
    (fun order => order.id == id && order.status == .refundPending && order.refundClaim == token)
    (.reclaimed [] 0) fun _ => rfl
  return db

/-! ## Recovering an order from the provider's invoices -/

inductive InvoiceState
  | active
  | paid
  | terminal
  | unknown
  deriving DecidableEq, Repr

structure RecoveredInvoice where
  ref : Str
  state : InvoiceState
  verified : Bool
  payURL : Str
  deriving DecidableEq, Repr

structure Reconciliation where
  orderID : ℕ
  candidates : List RecoveredInvoice
  reviewReason : ReviewReason := .none
  deriving DecidableEq, Repr

/-- Every candidate is verified, has a known state and an identity of its own. -/
def soundCandidates : List RecoveredInvoice → List Str → Bool
  | [], _ => true
  | candidate :: rest, seen =>
    candidate.verified && !candidate.ref.isEmpty && !seen.contains candidate.ref &&
      candidate.state != .unknown && soundCandidates rest (candidate.ref :: seen)

/-- Queue one invoice for its cancellation; the reference may be queued already, for the same order. -/
def queueCancellation (orderID : ℕ) (cancellations : Cancellations) (candidate : RecoveredInvoice) :
    Except Error Cancellations :=
  if candidate.state != .active then .ok cancellations
  else match cancellations.rows.find? (·.ref == candidate.ref) with
    | none => .ok (cancellations.insert (fun id => { id, orderID, ref := candidate.ref }) fun _ => rfl)
    | some existing =>
      if existing.orderID == orderID then .ok cancellations.skip
      else .error .cancellationIdentityTaken

def queueCancellations (orderID : ℕ) (candidates : List RecoveredInvoice) :
    Except Error Database := do
  let cancellations ← candidates.foldlM (queueCancellation orderID) db.cancellations
  return { db with cancellations }

def invoiceEvidence (originalRef canonicalRef : Str) : Str :=
  refPayload (if originalRef.isEmpty then canonicalRef else originalRef)

def chargeOf (ref : Str) : Str := "cryptobot:".toList ++ ref

/-- The evidence of an invoice, where an order has none. -/
def PaymentOrder.evidence (ref : Str) : Str :=
  if order.providerPayload.isEmpty then invoiceEvidence order.providerRef ref
  else order.providerPayload

def PaymentOrder.paidWithoutSnapshot (ref : Str) (order : PaymentOrder) : PaymentOrder :=
  { order with
    status := .manualReview, reviewReason := .legacySnapshotMissing, providerRef := ref
    providerChargeID := chargeOf ref, providerPayload := order.evidence ref }

def PaymentOrder.closedWithoutSnapshot (reason : ReviewReason) (order : PaymentOrder) : PaymentOrder :=
  { order with status := .failed, legacyResolved := true, reviewReason := reason }

def PaymentOrder.withReason (reason : ReviewReason) (order : PaymentOrder) : PaymentOrder :=
  { order with reviewReason := reason }

def PaymentOrder.recovered (ref : Str) (order : PaymentOrder) : PaymentOrder :=
  { order with
    status := .pending, providerRef := ref, reviewReason := .none
    providerPayload := order.evidence ref }

/-- Update the order that is being recovered. -/
def Database.setOrder (id : ℕ) (f : PaymentOrder → PaymentOrder)
    (hf : ∀ order, (f order).id = order.id) : Except Error Database := do
  let (db, _) ← db.updateOrders (·.id == id) f hf
  return db

def Database.review (id : ℕ) (reason : ReviewReason) : Except Error Database :=
  db.setOrder id (.reclassify .manualReview reason) (PaymentOrder.reclassify_id .manualReview reason)

/-- An order without the proof of its purchase is never granted: a paid invoice sends it to review,
and otherwise its open invoices are cancelled and it is closed. -/
def recoverLegacy (active paid : List RecoveredInvoice) :
    Except Error Database := do
  let db ← queueCancellations db order.id active
  match paid, active with
  | first :: _, _ =>
    db.setOrder order.id (.paidWithoutSnapshot first.ref) fun _ => rfl
  | [], _ :: _ =>
    db.setOrder order.id (.withReason .legacyCancelPending) fun _ => rfl
  | [], [] =>
    db.setOrder order.id (.closedWithoutSnapshot .legacyTerminal) fun _ => rfl

/-- Make an invoice the one of the order, and grant it when it is paid. -/
def recoverCanonical (canonical : RecoveredInvoice)
    (active : List RecoveredInvoice) (now : ℤ) : Except Error (Database × AppliedOrderResult) := do
  if canonical.state == .active && canonical.payURL.isEmpty then
    return (← db.review order.id .providerInvoiceURLMissing, {})
  let db ← db.setOrder order.id (.recovered canonical.ref) fun _ => rfl
  if canonical.state != .paid then
    return (db, {})
  let db ← queueCancellations db order.id active
  applyPaidOrderGrant db order.id (chargeOf canonical.ref) now

def recoverCandidates (candidates : List RecoveredInvoice)
    (now grace : ℤ) : Except Error (Database × AppliedOrderResult) := do
  let paid := candidates.filter (·.state == .paid)
  let active := candidates.filter (·.state == .active)
  if 1 < paid.length then
    return (← db.review order.id .multiplePaidInvoices, {})
  if !order.grantSnapshot then
    return (← recoverLegacy db order active paid, {})
  if (grantForOrder order).isOk = false then
    return (← db.review order.id .purchaseSnapshotInvalid, {})
  match paid, active with
  | canonical :: _, _ => recoverCanonical db order canonical active now
  | [], [canonical] => recoverCanonical db order canonical active now
  | [], _ :: _ :: _ => return (← db.review order.id .multipleActiveInvoices, {})
  | [], [] =>
    if 0 < order.createdAt ∧ order.createdAt < now - grace then
      return (← db.setOrder order.id (.reclassify .expired .providerTerminal)
        (PaymentOrder.reclassify_id _ _), {})
    else
      return (db, {})

/-- Orders whose outcome at the provider is open. -/
def unresolved : Bool :=
  order.provider == .cryptoBot && ([Status.invoiceCreating, .recoverable].contains order.status ||
    (order.status == .pending && order.providerRef.isEmpty))

def recoverOrder (recovered : Reconciliation) (now grace : ℤ) :
    Except Error (Database × AppliedOrderResult) := do
  let db ← db.updateOrder recovered.orderID unresolved (.toStatus .recoverable)
    (PaymentOrder.toStatus_id .recoverable)
  let order ← found (db.orders.get? recovered.orderID)
  if recovered.reviewReason ≠ .none then
    return (← db.review order.id recovered.reviewReason, {})
  if recovered.candidates.isEmpty then
    return (db, {})
  if !soundCandidates recovered.candidates [] then
    return (← db.review order.id .providerMetadataOrIdentityConflict, {})
  recoverCandidates db order recovered.candidates now grace

/-- An order that was finalized meanwhile is left alone, without an error. -/
def recoverProviderOrder (recovered : Reconciliation) (now grace : ℤ) :
    Except Error (Database × AppliedOrderResult) :=
  match recoverOrder db recovered now grace with
  | .error .alreadyFinalized => .ok (db, {})
  | result => result

/-- An invoice has been cancelled; the last one closes an order that waited for it. -/
def completeCancellation (id : ℕ) : Except Error Database := do
  let waiting (work : InvoiceCancellation) : Bool := work.id == id && !work.completed
  if db.cancellations.affected waiting = 0 then
    return db
  let cancellations := db.cancellations.update waiting (fun work => { work with completed := true })
    fun _ => rfl
  let db := { db with cancellations }
  let work ← found (db.cancellations.get? id)
  if db.cancellations.affected (fun other => other.orderID == work.orderID && !other.completed) = 0 then
    let (db, _) ← db.updateOrders (fun order => order.id == work.orderID && (!order.grantSnapshot &&
        order.status == .recoverable && order.reviewReason == .legacyCancelPending))
      (.closedWithoutSnapshot .legacyCancelled) fun _ => rfl
    return db
  else
    return db

end Solovey.Paid
