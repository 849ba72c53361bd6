import Solovey.Data.Keyed
import Solovey.Json.Fields

/-!
# Paid subscriptions: the tables

Payment orders, the clients they renew, invoices that wait for their cancellation at the provider,
and the cursors of the provider work. A column whose texts are a fixed list is an enumeration with
one case for any other text.
-/

namespace Solovey.Paid

open Solovey.Data Solovey.Text Solovey.Json

inductive Status
  | pending
  | paid
  | failed
  | expired
  | refunded
  | invoiceCreating
  | recoverable
  | manualReview
  | refundPending
  | other (text : Str)
  deriving DecidableEq, Repr

inductive ProviderKind
  | stars
  | yooKassa
  | stripe
  | payMaster
  | cryptoBot
  | external
  | other (text : Str)
  deriving DecidableEq, Repr

/-- Why an order waits for a decision; `none` is the empty text. -/
inductive ReviewReason
  | none
  | historicalProviderOutcomeUncertain
  | legacySnapshotMissing
  | providerIdentityConflict
  | activePurchaseConflict
  | invoiceCreationUncertain
  | providerMetadataOrIdentityConflict
  | multiplePaidInvoices
  | multipleActiveInvoices
  | purchaseSnapshotInvalid
  | providerInvoiceURLMissing
  | providerTerminal
  | legacyCancelPending
  | legacyCancelled
  | legacyTerminal
  | other (text : Str)
  deriving DecidableEq, Repr

structure PaymentOrder where
  id : ℕ
  clientId : ℕ
  tariffId : ℕ
  provider : ProviderKind
  amount : ℤ
  currency : Str
  status : Status := .pending
  telegramUserId : ℤ := 0
  idempotencyKey : Str
  providerChargeID : Str := []
  providerPayload : Str := []
  providerRef : Str := []
  reviewReason : ReviewReason := .none
  legacyResolved : Bool := false
  refundRevoke : Bool := false
  refundClaim : Str := []
  refundClaimUntil : ℤ := 0
  createdAt : ℤ := 0
  expiresAt : ℤ := 0
  grantAddDays : ℤ := 0
  grantTraffic : ℤ := 0
  grantSnapshot : Bool := false
  grantedUp : ℤ := 0
  grantedDown : ℤ := 0
  deriving DecidableEq, Repr

structure InvoiceCancellation where
  id : ℕ
  orderID : ℕ
  ref : Str
  completed : Bool := false
  deriving DecidableEq, Repr

inductive AccessDisableReason
  | none
  | quota
  | expired
  | other (text : Str)
  deriving DecidableEq, Repr

/-- The columns of a client that a purchase or a refund reads and writes. -/
structure Client where
  id : ℕ
  enable : Bool := true
  accessDisableReason : AccessDisableReason := .none
  expiry : ℤ := 0
  volume : ℤ := 0
  up : ℤ := 0
  down : ℤ := 0
  totalUp : ℤ := 0
  totalDown : ℤ := 0
  deriving DecidableEq, Repr

abbrev Orders := Keyed PaymentOrder (·.id)

abbrev Cancellations := Keyed InvoiceCancellation (·.id)

/-- The kinds of provider work that have a cursor. -/
inductive WorkKind
  | poll
  | reconcile
  | cancel
  | other (text : Str)
  deriving DecidableEq, Repr

structure ProviderCursor where
  kind : WorkKind
  afterID : ℕ
  deriving DecidableEq, Repr

structure Database where
  orders : Orders
  cancellations : Cancellations
  cursors : List ProviderCursor
  clients : List Client

def Database.client (db : Database) (id : ℕ) : Option Client := db.clients.find? (·.id == id)

end Solovey.Paid
