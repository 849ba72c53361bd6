import Solovey.Data.System
import Solovey.Paid.Effects

/-!
# Histories of payments and refunds

Runs of the order store together with changes of the clients by others: accounted traffic, resets,
edits of an administrator. A history remembers the orders whose grant was added to their client, in
that order, and those whose grant was taken back.
-/

namespace Solovey.Paid

open Solovey.Data Solovey.Text List

structure History where
  db : Database
  granted : List ℕ := []
  revoked : List ℕ := []

inductive Action
  | call (call : Call)
  | edit (client : Client)
  deriving DecidableEq, Repr

/-- The columns hold 64-bit integers. -/
def Client.fits (client : Client) : Bool :=
  [client.expiry, client.volume, client.up, client.down, client.totalUp, client.totalDown].all
    fun n => decide (-2 ^ 63 ≤ n) && decide (n ≤ maxInt64)

def revocation : Option (ℕ × Bool) → List ℕ
  | some (id, true) => [id]
  | _ => []

/-- A call that fails changes nothing, so it is no step. -/
def History.step (h : History) : Action → Option History
  | .call call => match perform h.db call with
    | .ok (db, reply) => some
      { db, granted := h.granted ++ call.grants reply
        revoked := h.revoked ++ revocation (call.refunds h.db) }
    | .error _ => none
  | .edit client =>
    if client.fits then
      some { h with db :=
        { h.db with clients := updateWhere (·.id == client.id) (fun _ => client) h.db.clients } }
    else none

def histories (initial : History → Prop) : System History Action where
  initial := initial
  step h action h' := h.step action = some h'

/-- No order has been granted yet. -/
def History.fresh (h : History) : Prop :=
  h.granted = [] ∧ h.revoked = [] ∧ ∀ order ∈ h.db.orders.rows, order.status.stage.idle = true

/-! ## Steps -/

/-- What one step does. -/
inductive Step (h h' : History) : Action → Prop
  | edit {client : Client} : client.fits = true →
      h' = { h with db :=
        { h.db with clients := updateWhere (·.id == client.id) (fun _ => client) h.db.clients } } →
      Step h h' (.edit client)
  | call {call : Call} {reply : Reply} : perform h.db call = .ok (h'.db, reply) →
      Effect h.db h'.db (call.grants reply) (call.refunds h.db) →
      h'.granted = h.granted ++ call.grants reply →
      h'.revoked = h.revoked ++ revocation (call.refunds h.db) → Step h h' (.call call)

variable {h h' : History}

theorem step_cases {a : Action} (hs : h.step a = some h') : Step h h' a := by
  cases a with
  | edit client =>
    simp only [History.step] at hs
    split at hs
    next hf =>
      cases hs
      exact .edit hf rfl
    · cases hs
  | call call =>
    simp only [History.step] at hs
    split at hs
    next db reply hp =>
      cases hs
      exact .call hp (perform_effect hp) rfl rfl
    · cases hs

/-! ## The invoices of a purchase -/

theorem Keeps.purchase {before later : Orders} {id : ℕ} {old : PaymentOrder}
    (hk : Keeps before later) (hb : before.get? id = some old) :
    ∃ new, later.get? id = some new ∧ new.purchase = old.purchase := by
  obtain ⟨new, hn, hq⟩ := hk.row hb
  exact ⟨new, hn,
    congrArg (fun b => (b.clientId, b.tariffId, b.telegramUserId, b.provider)) hq.bought⟩

/-- An order is never deleted, and stays an order of the same purchase. -/
theorem Step.purchase {a : Action} {id : ℕ} {old : PaymentOrder} (hs : Step h h' a)
    (ho : h.db.orders.get? id = some old) :
    ∃ new, h'.db.orders.get? id = some new ∧ new.purchase = old.purchase := by
  cases hs with
  | edit hf heq =>
    subst heq
    exact ⟨old, ho, rfl⟩
  | call hp he hgr hrv =>
    generalize Call.grants _ _ = grants at he
    generalize Call.refunds _ _ = refunds at he
    cases he with
    | still hs => exact hs.orders.purchase ho
    | @grant middle other order client updates orderUpdates hs hg =>
      obtain ⟨row, hr, hrp⟩ := hs.orders.purchase ho
      obtain ⟨chargeID, hor⟩ := hg.orders
      rw [hor]
      split
      next heq =>
        rw [heq, hg.row] at hr
        cases hr
        exact ⟨_, rfl, hrp⟩
      · exact ⟨row, hr, hrp⟩
    | @refund other revoke order hr =>
      rw [hr.orders]
      split
      next heq =>
        rw [heq, hr.row] at ho
        cases ho
        exact ⟨_, rfl, rfl⟩
      · exact ⟨old, ho, rfl⟩

theorem later_purchase {initial : History → Prop} {id : ℕ} {old : PaymentOrder}
    (hl : (histories initial).Later h h') (ho : h.db.orders.get? id = some old) :
    ∃ row, h'.db.orders.get? id = some row ∧ row.purchase = old.purchase := by
  refine hl.preserves
    (I := fun t => ∃ row, t.db.orders.get? id = some row ∧ row.purchase = old.purchase) ?_
    ⟨old, ho, rfl⟩
  rintro s a t ⟨row, hr, hp⟩ hs
  obtain ⟨new, hn, hpn⟩ := (step_cases hs).purchase hr
  exact ⟨new, hn, hpn.trans hp⟩

/-- Two orders of one purchase answer alike to every purchase, up to their statuses. -/
theorem samePurchase_of_purchase {p : Purchase} {statuses : List Status} {o new : PaymentOrder}
    (hp : new.purchase = o.purchase) (hs : new.status ∈ statuses)
    (h : samePurchase p statuses o = true) : samePurchase p statuses new = true := by
  simp only [PaymentOrder.purchase, Prod.mk.injEq] at hp
  simp only [samePurchase, Bool.and_eq_true, beq_iff_eq] at h ⊢
  obtain ⟨hc, ht, hg, hk⟩ := hp
  exact ⟨⟨⟨⟨hc.trans h.1.1.1.1, ht.trans h.1.1.1.2⟩, hg.trans h.1.1.2⟩, hk.trans h.1.2⟩,
    contains_iff_mem.mpr hs⟩

/-- Whoever is told to create the invoice of a purchase at the crypto provider has stored the order
for it, the only one of the purchase that is open or held for review. The order stays, and until it
is settled nobody else is told to create an invoice of the purchase. -/
theorem intent_created_alone {purchase : Purchase} {order : Option PaymentOrder}
    (hk : purchase.kind = .cryptoBot)
    (hi : perform h.db (.intent purchase) = .ok (h'.db, .intent order true)) :
    ∃ created, order = some created ∧ h'.db.orders.get? created.id = some created ∧
      created.status = .invoiceCreating ∧
      (∀ other ∈ h'.db.orders.rows, samePurchase purchase unsettled other = true ↔ other = created) ∧
      ∀ {initial later}, (histories initial).Later h' later →
        ∃ row, later.db.orders.get? created.id = some row ∧ row.purchase = created.purchase ∧
          (row.status ∈ unsettled → ∀ {again db'' order'}, again.kind = .cryptoBot →
            samePurchase again unsettled created = true →
            perform later.db (.intent again) ≠ .ok (db'', .intent order' true)) := by
  obtain ⟨⟨db', order', created'⟩, hc, heq⟩ := map_ok.mp hi
  cases heq
  obtain ⟨hdb, horder, hothers⟩ := createInvoiceIntent_created hk hc
  let created := { newPendingOrder purchase (h.db.orders.last + 1) with status := .invoiceCreating }
  have hget : h'.db.orders.get? created.id = some created := by
    rw [hdb]
    exact (Keyed.get?_insert _).trans (if_pos rfl)
  have hsame : samePurchase purchase unsettled created = true := by
    simp [samePurchase, created, newPendingOrder, unsettled]
  refine ⟨created, horder.trans hget, hget, rfl, fun other ho => ⟨fun hs => ?_, ?_⟩, ?_⟩
  · rw [hdb] at ho
    rcases mem_append.mp ho with hold | hnew
    · rw [hothers other hold] at hs
      cases hs
    · exact mem_singleton.mp hnew
  · rintro rfl
    exact hsame
  · intro initial later hl
    obtain ⟨row, hr, hp⟩ := later_purchase hl hget
    refine ⟨row, hr, hp, fun hopen {again db'' order''} hka hsa hagain => ?_⟩
    obtain ⟨⟨db₃, order₃, created₃⟩, hc₃, heq₃⟩ := map_ok.mp hagain
    cases heq₃
    have hnone := (createInvoiceIntent_created hka hc₃).2.2 row (Keyed.get?_eq_some.mp hr).1
    rw [samePurchase_of_purchase hp hopen hsa] at hnone
    cases hnone

def samplePurchase (idempotencyKey : Str) : Purchase :=
  ⟨1, 2, ⟨30, 0⟩, .cryptoBot, 5, [], 4, idempotencyKey, 6, 7⟩

/-- A table that holds a failed order of the purchase. -/
def failedPurchase : Database :=
  ⟨Database.insertOrder ⟨.empty, .empty, [], []⟩ .failed (samplePurchase ['a']), .empty, [], []⟩

/-- A second invoice is created after the first one has failed, and no third while the second one is
uncertain. -/
theorem intent_created_again : ∃ h' later : History, ∃ created uncertain : PaymentOrder,
    perform failedPurchase (.intent (samplePurchase ['b'])) =
        .ok (h'.db, .intent (some created) true) ∧
      h'.step (.call (.markRecoverable created.id)) = some later ∧
      later.db.orders.get? created.id = some uncertain ∧ uncertain.status = .recoverable ∧
      ∀ {key db'' order'},
        perform later.db (.intent (samplePurchase key)) ≠ .ok (db'', .intent order' true) := by
  let h' : History :=
    ⟨{ failedPurchase with
      orders := failedPurchase.insertOrder .invoiceCreating (samplePurchase ['b']) }, [], []⟩
  have hi : perform failedPurchase (.intent (samplePurchase ['b'])) =
      .ok (h'.db, .intent (some _) true) := rfl
  have hm : h'.step (.call (.markRecoverable 2)) = some _ := rfl
  obtain ⟨created, hc, -, -, -, hlater⟩ :=
    intent_created_alone (h := ⟨failedPurchase, [], []⟩) rfl hi
  cases hc
  obtain ⟨row, hr, -, hnone⟩ := @hlater (fun _ => True) _ (.tail .refl hm)
  cases hr
  exact ⟨h', _, _, _, hi, hm, rfl, rfl, hnone (by decide) rfl rfl⟩

/-! ## The grants of a history -/

/-- The log and the table agree: the granted orders are those that are granted or refunded in the
table, each once and with the proof of its purchase, and a revoked order is refunded. -/
structure Logged (h : History) : Prop where
  nodup : h.granted.Nodup
  row : ∀ id ∈ h.granted, ∃ order, h.db.orders.get? id = some order ∧
    order.status.stage.idle = false ∧ order.grantSnapshot = true
  logged : ∀ {id order}, h.db.orders.get? id = some order → order.status.stage.idle = false →
    id ∈ h.granted
  revoked : ∀ id ∈ h.revoked, ∃ order, h.db.orders.get? id = some order ∧
    order.status.stage = .refunded

theorem logged_fresh (hf : h.fresh) : Logged h := by
  obtain ⟨hgr, hr, hi⟩ := hf
  refine ⟨by simp [hgr], by simp [hgr], fun {id o} ho hb => ?_, by simp [hr]⟩
  rw [hi o (Keyed.get?_eq_some.mp ho).1] at hb
  cases hb

variable {n : PaymentOrder}

theorem Quiet.stage_granted {o : PaymentOrder} (h : Quiet o n) (hi : o.status.stage.idle = false) :
    n.status.stage = o.status.stage := by
  rcases h.stage with hs | ⟨ho, -⟩
  · exact hs
  · rw [ho] at hi
    cases hi

theorem Quiet.idle_iff {o : PaymentOrder} (h : Quiet o n) :
    n.status.stage.idle = o.status.stage.idle := by
  rcases h.stage with hs | ⟨ho, hr⟩
  · rw [hs]
  · rw [ho, hr]
    rfl

variable {id : ℕ}

/-- Rows of the table before a step that keeps the grants. -/
theorem Keeps.before {b l : Orders} (h : Keeps b l) (hn : l.get? id = some n)
    (hb : n.status.stage.idle = false) :
    ∃ o, b.get? id = some o ∧ Quiet o n := by
  cases ho : b.get? id with
  | none =>
    rw [h.fresh hn ho] at hb
    cases hb
  | some o =>
    obtain ⟨found, hf, hq⟩ := h.row ho
    rw [hn] at hf
    cases hf
    exact ⟨o, rfl, hq⟩

theorem Logged.keeps (hl : Logged h) (hk : Keeps h.db.orders h'.db.orders)
    (hgr : h'.granted = h.granted) (hr : h'.revoked = h.revoked) : Logged h' where
  nodup := hgr ▸ hl.nodup
  row := fun id hid => by
    obtain ⟨o, ho, hb, hsn⟩ := hl.row id (hgr ▸ hid)
    obtain ⟨n, hn, hq⟩ := hk.row ho
    have hsm : n.grantSnapshot = o.grantSnapshot := congrArg Bought.grantSnapshot hq.bought
    exact ⟨n, hn, hq.idle_iff.trans hb, hsm.trans hsn⟩
  logged := fun {id n} hn hb => by
    obtain ⟨o, ho, hq⟩ := hk.before hn hb
    rw [hgr]
    exact hl.logged ho (hq.idle_iff ▸ hb)
  revoked := fun id hid => by
    obtain ⟨o, ho, hs⟩ := hl.revoked id (hr ▸ hid)
    obtain ⟨n, hn, hq⟩ := hk.row ho
    exact ⟨n, hn, (hq.stage_granted (by rw [hs]; rfl)).trans hs⟩

/-- The grant of one pending order is logged. -/
theorem Logged.grant (hl : Logged h) {o : PaymentOrder} {c : Client} {us : ClientUpdates}
    {os : OrderUpdates} (hgs : Grants h.db h'.db id o c us os)
    (hgr : h'.granted = h.granted ++ [id]) (hrv : h'.revoked = h.revoked) :
    Logged h' := by
  obtain ⟨ci, hor⟩ := hgs.orders
  have hi : o.status.stage.idle = true := by rw [hgs.pending]; rfl
  have hnt : id ∉ h.granted := fun hid => by
    obtain ⟨row, hr, hb, -⟩ := hl.row id hid
    rw [hgs.row] at hr
    cases hr
    rw [hi] at hb
    cases hb
  refine ⟨?_, fun other ho => ?_, fun {other n} hn hb => ?_, fun other ho => ?_⟩
  · rw [hgr]
    exact hl.nodup.append (nodup_singleton id) (disjoint_singleton.mpr hnt)
  · rw [hgr, mem_append, mem_singleton] at ho
    rw [hor]
    split
    · obtain ⟨grant, now, hg, -⟩ := hgs.built
      exact ⟨_, rfl, rfl, (grantForOrder_ok hg).1⟩
    next hne => exact hl.row other (ho.resolve_right hne)
  · rw [hgr, mem_append, mem_singleton]
    rw [hor] at hn
    split at hn
    next heq => exact .inr heq
    · exact .inl (hl.logged hn hb)
  · obtain ⟨row, hr, hs⟩ := hl.revoked other (hrv ▸ ho)
    rw [hor]
    split
    next heq =>
      rw [heq, hgs.row] at hr
      cases hr
      rw [hgs.pending] at hs
      cases hs
    · exact ⟨row, hr, hs⟩

/-- The refund of one granted order is logged. -/
theorem Logged.refund (hl : Logged h) {r : Bool} {o : PaymentOrder}
    (hrf : Refunds h.db h'.db id r o) (hgr : h'.granted = h.granted)
    (hrv : h'.revoked = h.revoked ++ revocation (some (id, r))) : Logged h' := by
  have hb : o.status.stage.idle = false := by rw [hrf.granted]; rfl
  have hin : id ∈ h.granted := hl.logged hrf.row hb
  have hsn : o.grantSnapshot = true := by
    obtain ⟨row, hr, -, hsn⟩ := hl.row id hin
    rw [hrf.row] at hr
    cases hr
    exact hsn
  refine ⟨hgr ▸ hl.nodup, fun other ho => ?_, fun {other n} hn hs => ?_, fun other ho => ?_⟩
  · rw [hrf.orders]
    split
    · exact ⟨_, rfl, rfl, hsn⟩
    · exact hl.row other (hgr ▸ ho)
  · rw [hgr]
    rw [hrf.orders] at hn
    split at hn
    next heq => exact heq ▸ hin
    · exact hl.logged hn hs
  · rw [hrf.orders]
    split
    · exact ⟨_, rfl, rfl⟩
    next hne =>
      rw [hrv, mem_append] at ho
      rcases ho with hol | hn
      · exact hl.revoked other hol
      · cases r with
        | true => exact absurd (mem_singleton.mp hn) hne
        | false => cases hn

theorem Logged.step {a : Action} (hl : Logged h) (hst : Step h h' a) : Logged h' := by
  cases hst with
  | edit hf heq =>
    subst heq
    exact hl.keeps (.refl _) rfl rfl
  | call hp he hgr hrv =>
    generalize hgs : Call.grants _ _ = grants at he hgr
    generalize hrf : Call.refunds _ _ = refunds at he hrv
    cases he with
    | still hs => exact hl.keeps hs.orders (hgr.trans (append_nil _)) (hrv.trans (append_nil _))
    | @grant m id o client us os hs hg =>
      have hm : Logged { h with db := m } := hl.keeps hs.orders rfl rfl
      exact hm.grant hg hgr (hrv.trans (append_nil _))
    | refund hr => exact hl.refund hr (hgr.trans (append_nil _)) hrv

end Solovey.Paid
