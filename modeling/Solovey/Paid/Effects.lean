import Solovey.Paid.Store

/-!
# What an operation does to the grants

An order is ordered, granted, refunded or handed to a person. Every operation of the store leaves
all grants as they are, grants one order, or refunds one. This is said once here, for all
operations; what holds over every history follows from it.
-/

namespace Solovey.Paid

open Solovey.Data Solovey.Text List

/-! ## The operations -/

inductive Call
  | create (purchase : Purchase)
  | intent (purchase : Purchase)
  | saveInvoice (id : ℕ) (invoice : Option Invoice)
  | markRecoverable (id : ℕ)
  | markFailed (id : ℕ)
  | review (ids : List ℕ)
  | expireStale (now : ℤ)
  | expireVerified (ids : List ℕ) (now grace : ℤ)
  | recover (recovered : Reconciliation) (now grace : ℤ)
  | completeCancellation (id : ℕ)
  | applyPaid (id : ℕ) (chargeID : Str) (now : ℤ)
  | refund (id : ℕ) (revoke : Bool) (now : ℤ)
  | claim (id : ℕ) (revoke : Bool) (token : Str) (now : ℤ)
  | release (id : ℕ) (token : Str)
  | refundClaimed (id : ℕ) (token : Str) (now : ℤ)
  deriving DecidableEq, Repr

inductive Reply
  | done
  | intent (order : Option PaymentOrder) (created : Bool)
  | applied (result : AppliedOrderResult)
  | claimed (order : PaymentOrder)
  deriving DecidableEq, Repr

def perform (db : Database) : Call → Except Error (Database × Reply)
  | .create purchase => (createOrder db purchase).map (·, .done)
  | .intent purchase =>
    (createInvoiceIntent db purchase).map fun (db, order, created) => (db, .intent order created)
  | .saveInvoice id invoice => (saveInvoiceResult db id invoice).map (·, .done)
  | .markRecoverable id => (markInvoiceRecoverable db id).map (·, .done)
  | .markFailed id => (markOrderFailed db id).map (·, .done)
  | .review ids => (reviewProviderOrders db ids).map (·, .done)
  | .expireStale now => (expireStaleOrders db now).map (·, .done)
  | .expireVerified ids now grace => (expireVerifiedProviderOrders db ids now grace).map (·, .done)
  | .recover recovered now grace =>
    (recoverProviderOrder db recovered now grace).map fun (db, result) => (db, .applied result)
  | .completeCancellation id => (completeCancellation db id).map (·, .done)
  | .applyPaid id chargeID now =>
    (applyPaidOrderGrant db id chargeID now).map fun (db, result) => (db, .applied result)
  | .refund id revoke now => (finalizeRefund db id revoke now).map (·, .done)
  | .claim id revoke token now =>
    (claimStarsRefund db id revoke token now).map fun (db, order) => (db, .claimed order)
  | .release id token => (releaseRefundClaim db id token).map (·, .done)
  | .refundClaimed id token now => (finalizeClaimedRefund db id token now).map (·, .done)

/-- The orders whose grant a call with this reply has added to their client. -/
def Call.grants : Call → Reply → List ℕ
  | .applyPaid id _ _, .applied result => if result.applied then [id] else []
  | .recover recovered _ _, .applied result => if result.applied then [recovered.orderID] else []
  | _, _ => []

/-- The order that a call refunds, and whether its grant is revoked. -/
def Call.refunds (db : Database) : Call → Option (ℕ × Bool)
  | .refund id revoke _ => some (id, revoke)
  | .refundClaimed id _ _ => (db.orders.get? id).map fun order => (id, order.refundRevoke)
  | _ => none

/-! ## Stages of an order -/

inductive Stage
  | ordered
  | granted
  | refunded
  | reviewed
  deriving DecidableEq, Repr

def Status.stage : Status → Stage
  | .paid => .granted
  | .refundPending => .granted
  | .refunded => .refunded
  | .manualReview => .reviewed
  | _ => .ordered

/-- What was bought, and the window that its grant closed. -/
structure Bought where
  id : ℕ
  clientId : ℕ
  tariffId : ℕ
  telegramUserId : ℤ
  provider : ProviderKind
  amount : ℤ
  grantAddDays : ℤ
  grantTraffic : ℤ
  grantSnapshot : Bool
  grantedUp : ℤ
  grantedDown : ℤ

def PaymentOrder.bought (order : PaymentOrder) : Bought where
  id := order.id
  clientId := order.clientId
  tariffId := order.tariffId
  telegramUserId := order.telegramUserId
  provider := order.provider
  amount := order.amount
  grantAddDays := order.grantAddDays
  grantTraffic := order.grantTraffic
  grantSnapshot := order.grantSnapshot
  grantedUp := order.grantedUp
  grantedDown := order.grantedDown

/-- A change of an order that neither grants nor refunds it. -/
structure Quiet (old new : PaymentOrder) : Prop where
  bought : new.bought = old.bought
  stage : new.status.stage = old.status.stage ∨
    old.status.stage = .ordered ∧ new.status.stage = .reviewed

theorem Quiet.refl (order : PaymentOrder) : Quiet order order := ⟨rfl, .inl rfl⟩

theorem Quiet.trans {first s t : PaymentOrder} (h : Quiet first s) (h' : Quiet s t) :
    Quiet first t := by
  refine ⟨h'.bought.trans h.bought, ?_⟩
  rcases h'.stage with hs | ⟨ho, hr⟩
  · rw [hs]
    exact h.stage
  · rcases h.stage with hf | ⟨-, hsc⟩
    · exact .inr ⟨hf ▸ ho, hr⟩
    · rw [ho] at hsc
      cases hsc

/-- The stages that an order has without having been granted. -/
def Stage.idle : Stage → Bool
  | .ordered => true
  | .reviewed => true
  | _ => false

theorem Quiet.idle {o nw : PaymentOrder} (h : Quiet o nw) (hi : o.status.stage.idle = true) :
    nw.status.stage.idle = true := by
  rcases h.stage with hs | ⟨-, hr⟩
  · rwa [hs]
  · rw [hr]
    rfl

/-- A change of the table that neither grants nor refunds an order. -/
structure Keeps (before later : Orders) : Prop where
  row : ∀ {id old}, before.get? id = some old → ∃ new, later.get? id = some new ∧ Quiet old new
  fresh : ∀ {id new}, later.get? id = some new → before.get? id = none →
    new.status.stage.idle = true

theorem Keeps.refl (orders : Orders) : Keeps orders orders where
  row := fun {_ o} h => ⟨o, h, .refl o⟩
  fresh := fun h hn => by rw [hn] at h; cases h

theorem Keeps.trans {first s t : Orders} (h : Keeps first s) (h' : Keeps s t) : Keeps first t where
  row := fun ho => by
    obtain ⟨m, hm, hq⟩ := h.row ho
    obtain ⟨new, hnw, hq'⟩ := h'.row hm
    exact ⟨new, hnw, hq.trans hq'⟩
  fresh := fun {id new} hnw hn => by
    cases hm : s.get? id with
    | none => exact h'.fresh hnw hm
    | some m =>
      obtain ⟨found, hf, hq⟩ := h'.row hm
      rw [hnw] at hf
      cases hf
      exact hq.idle (h.fresh hm hn)

variable {orders : Orders} {f : PaymentOrder → PaymentOrder}

theorem Keeps.skip (orders : Orders) : Keeps orders orders.skip where
  row := (Keeps.refl orders).row
  fresh := (Keeps.refl orders).fresh

theorem keeps_update {p : PaymentOrder → Bool} (hf : ∀ order, (f order).id = order.id)
    (h : ∀ order, p order = true → Quiet order (f order)) :
    Keeps orders (orders.update p f hf) where
  row := fun {id o} ho => by
    rw [Keyed.get?_update, ho]
    refine ⟨if p o then f o else o, rfl, ?_⟩
    split
    next hp => exact h o hp
    · exact .refl o
  fresh := fun {id new} hnw hn => by
    rw [Keyed.get?_update, hn] at hnw
    cases hnw

theorem keeps_insert {r : ℕ → PaymentOrder} (hr : ∀ id, (r id).id = id)
    (h : ∀ id, (r id).status.stage.idle = true) : Keeps orders (orders.insert r hr) where
  row := fun {id o} ho => by
    have hle := (orders.bounds o (Keyed.get?_eq_some.mp ho).1).2
    have hid : o.id = id := (Keyed.get?_eq_some.mp ho).2
    refine ⟨o, ?_, .refl o⟩
    rw [Keyed.get?_insert, if_neg (by omega), ho]
  fresh := fun {id new} hnw hn => by
    rw [Keyed.get?_insert] at hnw
    split at hnw
    · cases hnw
      exact h _
    · rw [hn] at hnw
      cases hnw

/-! ## Statements -/

variable {db db' : Database}

theorem require_ok {ok : Bool} {e : Error} {u : Unit} (h : require ok e = .ok u) : ok = true := by
  unfold require at h
  split at h
  next hok => exact hok
  · cases h

theorem found_ok {α : Type} {r : Option α} {a : α} (h : found r = .ok a) : r = some a := by
  cases r with
  | none => cases h
  | some b => cases h; rfl

/-- A step that changes the order table only, and keeps every grant. -/
structure Still (db db' : Database) : Prop where
  clients : db'.clients = db.clients
  orders : Keeps db.orders db'.orders

theorem Still.refl (db : Database) : Still db db := ⟨rfl, .refl _⟩

theorem Still.trans {db'' : Database} (h : Still db db') (h' : Still db' db'') : Still db db'' :=
  ⟨h'.clients.trans h.clients, h.orders.trans h'.orders⟩

section Updates

variable {p : PaymentOrder → Bool} {f : PaymentOrder → PaymentOrder}
  {hf : ∀ order, (f order).id = order.id} {id n : ℕ}

theorem updateOrders_ok (h : db.updateOrders p f hf = .ok (db', n)) :
    db' = { db with orders := db.orders.update p f hf } ∧ n = db.orders.affected p := by
  simp only [Database.updateOrders] at h
  split at h
  · cases h
    exact ⟨rfl, rfl⟩
  · cases h

theorem updateOrders_still (h : db.updateOrders p f hf = .ok (db', n))
    (hq : ∀ order, p order = true → Quiet order (f order)) : Still db db' := by
  obtain ⟨rfl, -⟩ := updateOrders_ok h
  exact ⟨rfl, keeps_update hf hq⟩

theorem updateOrder_eq (h : db.updateOrder id p f hf = .ok db') :
    ∃ order, db.orders.get? id = some order ∧ p order = true ∧
      db' = { db with orders := db.orders.update (fun order => order.id == id && p order) f hf } := by
  unfold Database.updateOrder at h
  obtain ⟨⟨d₁, n⟩, hu, h⟩ := bind_ok.mp h
  obtain ⟨u, hr, h⟩ := bind_ok.mp h
  cases h
  obtain ⟨rfl, rfl⟩ := updateOrders_ok hu
  have ho := beq_iff_eq.mp (require_ok hr)
  rw [Keyed.affected_key] at ho
  split at ho
  next ha =>
    cases hg : db.orders.get? id with
    | none => rw [hg] at ha; cases ha
    | some order => exact ⟨order, rfl, by rwa [hg] at ha, rfl⟩
  · cases ho

/-- The table after the update of the one order with an id. -/
theorem get?_updateOrder {order : PaymentOrder} (ho : db.orders.get? id = some order)
    (hp : p order = true) (o : ℕ) :
    (db.orders.update (fun order => order.id == id && p order) f hf).get? o =
      if o = id then some (f order) else db.orders.get? o := by
  rw [Keyed.get?_update]
  split
  next heq =>
    have hid : order.id = id := (Keyed.get?_eq_some.mp ho).2
    simp [heq, ho, hid, hp]
  next hne =>
    cases hot : db.orders.get? o with
    | none => rfl
    | some row =>
      have hid : row.id = o := (Keyed.get?_eq_some.mp hot).2
      simp [hid, hne]

theorem updateOrder_ok (h : db.updateOrder id p f hf = .ok db') :
    ∃ order orders, db.orders.get? id = some order ∧ p order = true ∧ db' = { db with orders } ∧
      ∀ other, orders.get? other = if other = id then some (f order) else db.orders.get? other := by
  obtain ⟨order, ho, hp, rfl⟩ := updateOrder_eq h
  exact ⟨order, _, ho, hp, rfl, get?_updateOrder ho hp⟩

theorem updateOrder_still (h : db.updateOrder id p f hf = .ok db')
    (hq : ∀ order, p order = true → Quiet order (f order)) : Still db db' := by
  obtain ⟨order, -, -, rfl⟩ := updateOrder_eq h
  exact ⟨rfl, keeps_update hf fun order hh => hq order (Bool.and_eq_true_iff.mp hh).2⟩

end Updates

/-! ## The operations that leave the grants alone -/

theorem quiet_of_ordered {o nw : PaymentOrder} (hb : nw.bought = o.bought)
    (ho : o.status.stage = .ordered) (hn : nw.status.stage.idle = true) : Quiet o nw := by
  refine ⟨hb, ?_⟩
  rw [ho]
  cases hs : nw.status.stage with
  | ordered => exact .inl rfl
  | reviewed => exact .inr ⟨rfl, rfl⟩
  | granted | refunded => rw [hs] at hn; cases hn

variable {ss : Status}

/-- The statuses of orders that are open at a provider. -/
theorem stage_of_open (h : [Status.pending, .invoiceCreating, .recoverable].contains ss = true) :
    ss.stage = .ordered := by
  simp only [contains_cons, contains_nil, Bool.or_false, Bool.or_eq_true, beq_iff_eq] at h
  rcases h with rfl | rfl | rfl <;> rfl

theorem insertOrder_keeps (db : Database) (pr : Purchase) (h : ss.stage.idle = true) :
    Keeps db.orders (db.insertOrder ss pr) :=
  keeps_insert (fun _ => rfl) fun _ => h

theorem createOrder_still {pr : Purchase} (h : createOrder db pr = .ok db') : Still db db' := by
  simp only [createOrder] at h
  split at h
  · cases h
    exact ⟨rfl, insertOrder_keeps db pr rfl⟩
  · cases h

theorem createInvoiceIntent_still {pr : Purchase} {order : Option PaymentOrder} {c : Bool}
    (h : createInvoiceIntent db pr = .ok (db', order, c)) :
    Still db db' := by
  simp only [createInvoiceIntent] at h
  split at h
  · cases h
    exact .refl db
  · split at h
    · cases h
      exact ⟨rfl, insertOrder_keeps db pr rfl⟩
    · obtain ⟨existing, -, h⟩ := bind_ok.mp h
      cases h
      exact ⟨rfl, .skip _⟩

/-- The statuses of orders that are open or held for review. -/
def unsettled : List Status := [.pending, .invoiceCreating, .recoverable, .manualReview]

/-- Whoever is told to create the invoice of a purchase has inserted an order for it, and no order of
the purchase was open there or held for review. -/
theorem createInvoiceIntent_created {purchase : Purchase} {order : Option PaymentOrder}
    (hk : purchase.kind = .cryptoBot)
    (h : createInvoiceIntent db purchase = .ok (db', order, true)) :
    db' = { db with orders := db.insertOrder .invoiceCreating purchase } ∧
    order = db'.orders.get? (db.orders.last + 1) ∧
    ∀ other ∈ db.orders.rows, samePurchase purchase unsettled other = false := by
  simp only [createInvoiceIntent] at h
  split at h
  · cases h
  next hheld =>
    split at h
    next hunique =>
      cases h
      refine ⟨rfl, rfl, fun other ho => Bool.eq_false_iff.mpr fun hs => ?_⟩
      by_cases hr : other.status = .manualReview
      · refine hheld (countP_pos_iff.mpr ⟨other, ho, ?_⟩)
        simp only [samePurchase, Bool.and_eq_true] at hs ⊢
        exact ⟨hs.1, by simp [hr]⟩
      · -- both orders would stand in the index of open purchases
        simp only [samePurchase, unsettled, hk, Bool.and_eq_true, beq_iff_eq] at hs
        obtain ⟨⟨⟨⟨hc, ht⟩, hg⟩, hp⟩, hs⟩ := hs
        have hn := hunique.purchases
        have hrows : (db.insertOrder .invoiceCreating purchase).rows = db.orders.rows ++ [_] := rfl
        rw [Keyed.indexed, hrows, filter_append, map_append, nodup_append] at hn
        have ha : other.active = true := by simpa [PaymentOrder.active, hp, hr] using hs
        refine hn.2.2 other.purchase (mem_map_of_mem (mem_filter.mpr ⟨ho, ha⟩))
          other.purchase (mem_map.mpr ⟨_, mem_filter.mpr ⟨mem_singleton_self _, ?_⟩, ?_⟩)
          rfl
        · simp [PaymentOrder.active, newPendingOrder, hk]
        · simp [PaymentOrder.purchase, newPendingOrder, hc, ht, hg, hp, hk]
    · obtain ⟨existing, -, h⟩ := bind_ok.mp h
      cases h

variable {id : ℕ}

theorem saveInvoiceResult_still {i : Option Invoice} (h : saveInvoiceResult db id i = .ok db') :
    Still db db' := by
  cases i with
  | none => cases h
  | some i =>
    refine updateOrder_still h fun order ho => ?_
    have hs := (Bool.and_eq_true_iff.mp ho).1
    refine quiet_of_ordered rfl (stage_of_open ?_) rfl
    simp only [contains_cons, contains_nil, Bool.or_false, Bool.or_eq_true] at hs ⊢
    exact hs.imp_right .inl

theorem markInvoiceRecoverable_still (h : markInvoiceRecoverable db id = .ok db') :
    Still db db' := by
  unfold markInvoiceRecoverable at h
  obtain ⟨⟨d₁, n⟩, hu, h⟩ := bind_ok.mp h
  cases h
  refine updateOrders_still hu fun order hh => ?_
  have hs := beq_iff_eq.mp (Bool.and_eq_true_iff.mp hh).2
  exact quiet_of_ordered rfl (by rw [hs]; rfl) rfl

theorem markOrderFailed_still (h : markOrderFailed db id = .ok db') : Still db db' :=
  updateOrder_still h fun order hh => quiet_of_ordered rfl (by rw [beq_iff_eq.mp hh]; rfl) rfl

theorem reviewProviderOrders_still {ids : List ℕ} (h : reviewProviderOrders db ids = .ok db') :
    Still db db' := by
  unfold reviewProviderOrders at h
  obtain ⟨⟨d₁, n⟩, hu, h⟩ := bind_ok.mp h
  cases h
  exact updateOrders_still hu fun order hh =>
    quiet_of_ordered rfl (stage_of_open (Bool.and_eq_true_iff.mp hh).2) rfl

variable {now : ℤ}

theorem expireStaleOrders_still (h : expireStaleOrders db now = .ok db') : Still db db' := by
  unfold expireStaleOrders at h
  obtain ⟨⟨d₁, n⟩, hu, h⟩ := bind_ok.mp h
  cases h
  refine updateOrders_still hu fun order hh => ?_
  simp only [Bool.and_eq_true, beq_iff_eq] at hh
  exact quiet_of_ordered rfl (by rw [hh.1.1.1]; rfl) rfl

variable {gr : ℤ}

theorem expireVerifiedProviderOrders_still {ids : List ℕ}
    (h : expireVerifiedProviderOrders db ids now gr = .ok db') : Still db db' := by
  unfold expireVerifiedProviderOrders at h
  obtain ⟨⟨d₁, n⟩, hu, h⟩ := bind_ok.mp h
  cases h
  refine updateOrders_still hu fun order hh => ?_
  simp only [Bool.and_eq_true, beq_iff_eq] at hh
  exact quiet_of_ordered rfl (by rw [hh.1.1.2]; rfl) rfl

theorem queueCancellations_still {cd : List RecoveredInvoice}
    (h : queueCancellations db id cd = .ok db') : Still db db' := by
  unfold queueCancellations at h
  obtain ⟨cs, -, h⟩ := bind_ok.mp h
  cases h
  exact ⟨rfl, .refl _⟩

theorem completeCancellation_still (h : completeCancellation db id = .ok db') : Still db db' := by
  simp only [completeCancellation] at h
  split at h
  · cases h
    exact .refl db
  · obtain ⟨w, -, h⟩ := bind_ok.mp h
    split at h
    · obtain ⟨⟨d₁, n⟩, hu, h⟩ := bind_ok.mp h
      cases h
      have hs := updateOrders_still hu fun order hh => by
        simp only [Bool.and_eq_true, beq_iff_eq] at hh
        exact quiet_of_ordered rfl (by rw [hh.2.1.2]; rfl) rfl
      exact ⟨hs.clients, hs.orders⟩
    · cases h
      exact ⟨rfl, .refl _⟩

variable {revoke : Bool} {t : Str}

theorem takeClaim_still (h : takeClaim db id revoke t now = .ok db') : Still db db' := by
  unfold takeClaim at h
  obtain ⟨⟨claimed, n⟩, hf, h⟩ := bind_ok.mp h
  dsimp only at h
  split at h
  · cases h
    refine updateOrders_still hf fun order hh => ?_
    simp only [Bool.and_eq_true, beq_iff_eq] at hh
    exact ⟨rfl, .inl (by rw [hh.2.1]; rfl)⟩
  · obtain ⟨⟨reclaimed, n'⟩, hs, h⟩ := bind_ok.mp h
    obtain ⟨u, -, h⟩ := bind_ok.mp h
    cases h
    exact updateOrders_still hs fun order _ => ⟨rfl, .inl rfl⟩

variable {order : PaymentOrder}

theorem claimStarsRefund_still (h : claimStarsRefund db id revoke t now = .ok (db', order)) :
    Still db db' := by
  unfold claimStarsRefund at h
  obtain ⟨u, -, h⟩ := bind_ok.mp h
  obtain ⟨d₁, hc, h⟩ := bind_ok.mp h
  obtain ⟨row, -, h⟩ := bind_ok.mp h
  obtain ⟨grant, -, h⟩ := bind_ok.mp h
  obtain ⟨u', -, h⟩ := bind_ok.mp h
  cases h
  exact takeClaim_still hc

theorem releaseRefundClaim_still (h : releaseRefundClaim db id t = .ok db') : Still db db' := by
  unfold releaseRefundClaim at h
  obtain ⟨⟨d₁, n⟩, hu, h⟩ := bind_ok.mp h
  cases h
  exact updateOrders_still hu fun order _ => ⟨rfl, .inl rfl⟩

/-! ## Granting an order -/

/-- One pending order is granted: its client gets what it bought. -/
structure Grants (db db' : Database) (id : ℕ) (order : PaymentOrder) (client : Client)
    (updates : ClientUpdates) (orderUpdates : OrderUpdates) : Prop where
  row : db.orders.get? id = some order
  pending : order.status = .pending
  payer : db.client order.clientId = some client
  built : ∃ grant now, grantForOrder order = .ok grant ∧
    buildPaidClientUpdates client grant now = .ok (updates, orderUpdates)
  orders : ∃ chargeID, ∀ other, db'.orders.get? other =
    if other = id then some (orderUpdates.write (order.charged chargeID)) else db.orders.get? other
  clients : db'.clients = updateWhere (·.id == client.id) updates.lifting db.clients

variable {result : AppliedOrderResult}

theorem applyPaidOrderGrant_ok {ci : Str}
    (h : applyPaidOrderGrant db id ci now = .ok (db', result)) :
    result.applied = true ∧ ∃ order client us os, Grants db db' id order client us os := by
  unfold applyPaidOrderGrant at h
  obtain ⟨u, -, h⟩ := bind_ok.mp h
  obtain ⟨d₁, hc, h⟩ := bind_ok.mp h
  obtain ⟨charged, hch, h⟩ := bind_ok.mp h
  obtain ⟨grant, hgr, h⟩ := bind_ok.mp h
  obtain ⟨client, hcl, h⟩ := bind_ok.mp h
  obtain ⟨⟨us, os⟩, hb, h⟩ := bind_ok.mp h
  obtain ⟨⟨d₂, n⟩, hw, h⟩ := bind_ok.mp h
  cases h
  obtain ⟨order, orders, ho, hp, rfl, hg⟩ := updateOrder_ok hc
  obtain ⟨rfl, -⟩ := updateOrders_ok hw
  have hr := found_ok hch
  rw [hg id, if_pos rfl] at hr
  cases hr
  refine ⟨rfl, order, client, us, os, ho, beq_iff_eq.mp hp,
    found_ok hcl, ⟨grant, now, hgr, hb⟩, ⟨ci, fun other => ?_⟩, rfl⟩
  rw [Keyed.get?_update, hg other]
  split
  next heq =>
    have hid : order.id = id := (Keyed.get?_eq_some.mp ho).2
    simp [PaymentOrder.charged, hid]
  next hne =>
    cases hot : db.orders.get? other with
    | none => rfl
    | some row =>
      have hid : row.id = other := (Keyed.get?_eq_some.mp hot).2
      simp [hid, hne]

/-! ## Refunding an order -/

/-- One granted order is refunded; with a revocation, what it bought is taken back. -/
structure Refunds (db db' : Database) (id : ℕ) (revoke : Bool) (order : PaymentOrder) : Prop where
  row : db.orders.get? id = some order
  granted : order.status.stage = .granted
  orders : ∀ other, db'.orders.get? other =
    if other = id then some order.refunding else db.orders.get? other
  kept : revoke = false → db'.clients = db.clients
  revoked : revoke = true → ∃ grant client now, grantForOrder order = .ok grant ∧
    db.client order.clientId = some client ∧
    db'.clients = updateWhere (·.id == client.id)
      (buildRefundClientUpdates client order grant now (restoreLiveUsage db order grant)).write
      db.clients

/-- Marking the order itself as refunded does not change which orders are newer. -/
theorem restoreLiveUsage_refunding {g : Tariff} (h : ∀ other, orders.get? other =
      if other = order.id then some order.refunding else db.orders.get? other) :
    restoreLiveUsage { db with orders } order.refunding g = restoreLiveUsage db order g := by
  unfold restoreLiveUsage
  congr 1
  rw [Bool.eq_iff_iff]
  simp only [beq_iff_eq, Keyed.affected, countP_eq_zero]
  have hn : ∀ other, newerTrafficOrder order.refunding other = newerTrafficOrder order other :=
    fun _ => rfl
  have hs : ∀ other : PaymentOrder, other.id = order.id → newerTrafficOrder order other = false :=
    fun other hid => by simp [newerTrafficOrder, hid]
  constructor
  · intro hnn other ho hh
    by_cases hid : other.id = order.id
    · rw [hs other hid] at hh
      cases hh
    · refine hnn other (Keyed.mem_rows_iff.mpr ?_) hh
      rw [h, if_neg hid]
      exact Keyed.mem_rows_iff.mp ho
  · intro hnn other ho hh
    rw [hn] at hh
    by_cases hid : other.id = order.id
    · rw [hs other hid] at hh
      cases hh
    · have hg := Keyed.mem_rows_iff.mp ho
      rw [h, if_neg hid] at hg
      exact hnn other (Keyed.mem_rows_iff.mpr hg) hh

theorem finalizeRefundGrant_ok (h : finalizeRefundGrant db id ss t revoke now = .ok db')
    (hst : ss.stage = .granted) :
    ∃ order, Refunds db db' id (revokes t revoke order) order := by
  unfold finalizeRefundGrant at h
  obtain ⟨d₁, hm, h⟩ := bind_ok.mp h
  obtain ⟨m, hmr, h⟩ := bind_ok.mp h
  obtain ⟨grant, hgr, h⟩ := bind_ok.mp h
  obtain ⟨order, orders, ho, hh, rfl, hg⟩ := updateOrder_ok hm
  have hr := found_ok hmr
  rw [hg id, if_pos rfl] at hr
  cases hr
  have hid : order.id = id := (Keyed.get?_eq_some.mp ho).2
  have hs : order.status.stage = .granted := by
    rw [beq_iff_eq.mp (Bool.and_eq_true_iff.mp hh).1]
    exact hst
  refine ⟨order, ?_⟩
  split at h
  next hrv =>
    obtain ⟨client, hcl, h⟩ := bind_ok.mp h
    cases h
    refine ⟨ho, hs, hg, fun hf => ?_, fun _ => ⟨grant, client, now, hgr, found_ok hcl, ?_⟩⟩
    · exact absurd hrv (Bool.eq_false_iff.mp hf)
    · rw [Database.updateClient, restoreLiveUsage_refunding (by rw [hid]; exact hg)]
      rfl
  next hrv =>
    cases h
    exact ⟨ho, hs, hg, fun _ => rfl, fun ht => absurd ht hrv⟩

/-! ## Recovering an order -/

/-- What a call does, with the orders it grants and the order it refunds. -/
inductive Effect (db db' : Database) : List ℕ → Option (ℕ × Bool) → Prop
  | still : Still db db' → Effect db db' [] none
  | grant {middle : Database} {id : ℕ} {order : PaymentOrder} {client : Client}
      {updates : ClientUpdates} {orderUpdates : OrderUpdates} : Still db middle →
      Grants middle db' id order client updates orderUpdates → Effect db db' [id] none
  | refund {id : ℕ} {revoke : Bool} {order : PaymentOrder} : Refunds db db' id revoke order →
      Effect db db' [] (some (id, revoke))

/-- The effect of a call that may grant one order. -/
def Recovers (db db' : Database) (id : ℕ) (result : AppliedOrderResult) : Prop :=
  Effect db db' (if result.applied then [id] else []) none

/-- The effect of a recovery, which grants the order only for a paid invoice. -/
structure Recovered (candidates : List RecoveredInvoice) (db db' : Database) (id : ℕ)
    (result : AppliedOrderResult) : Prop where
  recovers : Recovers db db' id result
  paid : result.applied = true → ∃ invoice ∈ candidates, invoice.state = .paid

variable {cn : List RecoveredInvoice}

theorem Recovered.of_still (h : Still db db') : Recovered cn db db' id {} := ⟨.still h, nofun⟩

theorem Recovered.trans {db'' : Database} (h : Still db db')
    (h' : Recovered cn db' db'' id result) : Recovered cn db db'' id result := by
  refine ⟨?_, h'.paid⟩
  have he := h'.recovers
  unfold Recovers at he ⊢
  generalize (if result.applied then [id] else []) = granted at he ⊢
  cases he with
  | still hs => exact .still (h.trans hs)
  | grant hs hgr => exact .grant (h.trans hs) hgr

theorem setOrder_still {hf : ∀ order, (f order).id = order.id} (h : db.setOrder id f hf = .ok db')
    (ho : db.orders.get? id = some order) (hq : Quiet order (f order)) : Still db db' := by
  unfold Database.setOrder at h
  obtain ⟨⟨d₁, n⟩, hu, h⟩ := bind_ok.mp h
  cases h
  obtain ⟨rfl, -⟩ := updateOrders_ok hu
  have hs : db.orders.update (·.id == id) f hf =
      db.orders.update (fun row => row.id == id && decide (row = order)) f hf :=
    Keyed.update_congr fun row hr => by
      by_cases hid : row.id = id
      · have heq : row = order := by
          rw [← hid, Keyed.mem_rows_iff.mp hr] at ho
          exact Option.some.inj ho
        simp [heq]
      · simp [hid]
  refine ⟨rfl, ?_⟩
  change Keeps db.orders (db.orders.update (·.id == id) f hf)
  rw [hs]
  refine keeps_update hf fun row hh => ?_
  simp only [Bool.and_eq_true, decide_eq_true_eq] at hh
  rwa [hh.2]

/-- An order on its way through a recovery. -/
structure Recovering (db : Database) (order : PaymentOrder) : Prop where
  row : db.orders.get? order.id = some order
  stage : order.status.stage = .ordered

theorem Recovering.set_still (hr : Recovering db order) {hf : ∀ order, (f order).id = order.id}
    (h : db.setOrder order.id f hf = .ok db') (hb : (f order).bought = order.bought)
    (hi : (f order).status.stage.idle = true) : Still db db' :=
  setOrder_still h hr.row (quiet_of_ordered hb hr.stage hi)

theorem Recovering.review (hrw : Recovering db order) {r : ReviewReason}
    (h : (do return (← db.review order.id r, {})) = Except.ok (db', result)) :
    Recovered cn db db' id result := by
  obtain ⟨d₁, hr, h⟩ := bind_ok.mp h
  cases h
  exact .of_still (hrw.set_still hr rfl rfl)

theorem recoverLegacy_still (hr : Recovering db order) {a pd : List RecoveredInvoice}
    (h : recoverLegacy db order a pd = .ok db') :
    Still db db' := by
  unfold recoverLegacy at h
  obtain ⟨d₁, hqu, h⟩ := bind_ok.mp h
  have hq := queueCancellations_still hqu
  have hr₁ : Recovering d₁ order := by
    unfold queueCancellations at hqu
    obtain ⟨cs, -, hqu⟩ := bind_ok.mp hqu
    cases hqu
    exact ⟨hr.row, hr.stage⟩
  split at h
  · exact hq.trans (hr₁.set_still h rfl rfl)
  · refine hq.trans (hr₁.set_still h rfl ?_)
    change order.status.stage.idle = true
    rw [hr.stage]
    rfl
  · exact hq.trans (hr₁.set_still h rfl rfl)

theorem recoverCanonical_ok (hr : Recovering db order) {c : RecoveredInvoice}
    {a : List RecoveredInvoice} (hm : c ∈ cn)
    (h : recoverCanonical db order c a now = .ok (db', result)) :
    Recovered cn db db' order.id result := by
  unfold recoverCanonical at h
  split at h
  · exact hr.review h
  · obtain ⟨d₁, hst, h⟩ := bind_ok.mp h
    have hs := hr.set_still hst rfl rfl
    split at h
    · cases h
      exact .of_still hs
    next hp =>
      obtain ⟨d₂, hq, h⟩ := bind_ok.mp h
      obtain ⟨ha, row, client, us, os, hg⟩ := applyPaidOrderGrant_ok h
      refine ⟨?_, fun _ => ⟨c, hm, by simpa using hp⟩⟩
      unfold Recovers
      rw [if_pos ha]
      exact .grant (hs.trans (queueCancellations_still hq)) hg

theorem recoverCandidates_ok (hr : Recovering db order)
    (h : recoverCandidates db order cn now gr = .ok (db', result)) :
    Recovered cn db db' order.id result := by
  simp only [recoverCandidates] at h
  split at h
  · exact hr.review h
  split at h
  · obtain ⟨d₁, hl, h⟩ := bind_ok.mp h
    cases h
    exact .of_still (recoverLegacy_still hr hl)
  split at h
  · exact hr.review h
  split at h
  next hp =>
    exact recoverCanonical_ok hr (mem_of_mem_filter (hp ▸ mem_cons_self)) h
  next ha =>
    exact recoverCanonical_ok hr (mem_of_mem_filter (ha ▸ mem_cons_self)) h
  · exact hr.review h
  · split at h
    · obtain ⟨d₁, hs, h⟩ := bind_ok.mp h
      cases h
      exact .of_still (hr.set_still hs rfl rfl)
    · cases h
      exact .of_still (.refl db)

theorem recoverOrder_ok {r : Reconciliation} (h : recoverOrder db r now gr = .ok (db', result)) :
    Recovered r.candidates db db' r.orderID result := by
  unfold recoverOrder at h
  obtain ⟨d₁, hm, h⟩ := bind_ok.mp h
  obtain ⟨order, hf, h⟩ := bind_ok.mp h
  have hs : Still db d₁ := updateOrder_still hm fun row hh => by
    refine quiet_of_ordered rfl ?_ rfl
    simp only [unresolved, Bool.and_eq_true, Bool.or_eq_true, contains_cons, contains_nil,
      Bool.or_false, beq_iff_eq] at hh
    rcases hh.2 with (hst | hst) | ⟨hst, -⟩ <;> rw [hst] <;> rfl
  have hg := found_ok hf
  have hid : order.id = r.orderID := (Keyed.get?_eq_some.mp hg).2
  have hrw : Recovering d₁ order := by
    refine ⟨hid ▸ hg, ?_⟩
    obtain ⟨row, orders, -, -, rfl, hr⟩ := updateOrder_ok hm
    rw [hr, if_pos rfl] at hg
    cases hg
    rfl
  refine .trans hs ?_
  rw [← hid]
  split at h
  · exact hrw.review h
  split at h
  · cases h
    exact .of_still (.refl _)
  split at h
  · exact hrw.review h
  · exact recoverCandidates_ok hrw h

theorem recoverProviderOrder_ok {r : Reconciliation}
    (h : recoverProviderOrder db r now gr = .ok (db', result)) :
    Recovered r.candidates db db' r.orderID result := by
  unfold recoverProviderOrder at h
  split at h
  · cases h
    exact .of_still (.refl db)
  · exact recoverOrder_ok h

/-! ## Every call -/

theorem Effect.of_map {x : Except Error Database} {reply r : Reply}
    (h : x.map (·, reply) = .ok (db', r)) (hx : ∀ {u}, x = .ok u → Still db u) :
    Effect db db' [] none := by
  obtain ⟨u, hu, heq⟩ := map_ok.mp h
  cases heq
  exact .still (hx hu)

theorem perform_effect {c : Call} {r : Reply} (h : perform db c = .ok (db', r)) :
    Effect db db' (c.grants r) (c.refunds db) := by
  cases c with
  | create purchase => exact .of_map h createOrder_still
  | intent purchase =>
    obtain ⟨⟨_, _, _⟩, hc, heq⟩ := map_ok.mp h
    cases heq
    exact .still (createInvoiceIntent_still hc)
  | saveInvoice id i => exact .of_map h saveInvoiceResult_still
  | markRecoverable id => exact .of_map h markInvoiceRecoverable_still
  | markFailed id => exact .of_map h markOrderFailed_still
  | review ids => exact .of_map h reviewProviderOrders_still
  | expireStale now => exact .of_map h expireStaleOrders_still
  | expireVerified ids now gr => exact .of_map h expireVerifiedProviderOrders_still
  | recover recovered now gr =>
    obtain ⟨⟨_, result⟩, hc, heq⟩ := map_ok.mp h
    cases heq
    exact (recoverProviderOrder_ok hc).recovers
  | completeCancellation id => exact .of_map h completeCancellation_still
  | applyPaid id ci now =>
    obtain ⟨⟨_, result⟩, hc, heq⟩ := map_ok.mp h
    cases heq
    obtain ⟨ha, order, client, us, os, hg⟩ := applyPaidOrderGrant_ok hc
    rw [Call.grants, if_pos ha]
    exact .grant (.refl db) hg
  | refund id revoke now =>
    obtain ⟨_, hc, heq⟩ := map_ok.mp h
    cases heq
    obtain ⟨order, hr⟩ := finalizeRefundGrant_ok hc rfl
    exact .refund hr
  | claim id revoke t now =>
    obtain ⟨⟨_, _⟩, hc, heq⟩ := map_ok.mp h
    cases heq
    exact .still (claimStarsRefund_still hc)
  | release id t => exact .of_map h releaseRefundClaim_still
  | refundClaimed id t now =>
    obtain ⟨_, hc, heq⟩ := map_ok.mp h
    cases heq
    obtain ⟨u, ht, hf⟩ := bind_ok.mp hc
    obtain ⟨order, hr⟩ := finalizeRefundGrant_ok hf rfl
    have he : t.isEmpty = false := by simpa using require_ok ht
    rw [revokes, he, if_neg Bool.false_ne_true] at hr
    rw [Call.refunds, hr.row]
    exact .refund hr

end Solovey.Paid
