import Solovey.Data.Paging
import Solovey.Paid.Model

/-!
# Provider work is fair

The worker asks the provider about a batch of open orders at a time: the next eligible ones behind a
cursor, and from the first one again when there are none. When the eligible orders stay as they are
and the cursor is advanced behind each batch, every one of them is asked about in one batch more
than they fill. The invoices to cancel are worked through in the same way.
-/

namespace Solovey.Paid

open Solovey.Data

variable (db : Database) (kind : WorkKind)

/-- The cursor of a kind; a kind without a row starts at the beginning. -/
def Database.cursor : ℕ :=
  ((db.cursors.find? (·.kind == kind)).map (·.afterID)).getD 0

/-- Whether an order waits for this kind of work. -/
def eligible (order : PaymentOrder) : Bool :=
  order.provider == .cryptoBot &&
    if kind == .poll then order.status == .pending && !order.providerRef.isEmpty
    else [.invoiceCreating, .recoverable].contains order.status ||
      (order.status == .pending && order.providerRef.isEmpty)

def Database.workRows : List PaymentOrder :=
  db.orders.rows.filter (eligible kind)

def workOrders (limit : ℕ) : List PaymentOrder :=
  page (·.id) limit (db.cursor kind) (db.workRows kind)

def Database.cancellationRows : List InvoiceCancellation :=
  db.cancellations.rows.filter fun work => !work.completed

def cancellationWork (limit : ℕ) : List InvoiceCancellation :=
  page (·.id) limit (db.cursor .cancel) db.cancellationRows

def advanceProviderCursor (after : ℕ) : Database :=
  let created : ProviderCursor := { kind, afterID := after }
  { db with cursors :=
      upsert (·.kind == kind) (fun row => { row with afterID := after }) created db.cursors }

@[simp] theorem cursor_advanceProviderCursor (a : ℕ) :
    (advanceProviderCursor db kind a).cursor kind = a := by
  have hf : (advanceProviderCursor db kind a).cursors.find? (·.kind == kind) =
      some _ := find?_upsert (fun _ => rfl) (by simp)
  rw [Database.cursor, hf]
  cases db.cursors.find? (·.kind == kind) <;> rfl

/-- The cursor advanced to the last order of a batch, as the worker does after it. -/
def finishBatch (ids : List ℕ) : Database :=
  match ids.getLast? with
  | some last => advanceProviderCursor db kind last
  | none => db

theorem cursor_finishBatch {α : Type*} (k : α → ℕ) (db : Database) (kind : WorkKind) (b : List α) :
    (finishBatch db kind (b.map k)).cursor kind = advance k (db.cursor kind) b := by
  unfold finishBatch advance
  rw [List.getLast?_map]
  cases b.getLast? with
  | none => rfl
  | some last => exact cursor_advanceProviderCursor db kind (k last)

/-- From one call of `workOrders` to the next: the eligible orders are the same and the cursor has been
advanced behind the batch. Anything else may have changed. -/
structure PolledOnce (kind : WorkKind) (limit : ℕ) (db next : Database) : Prop where
  rows : next.workRows kind = db.workRows kind
  cursor : next.cursor kind =
    (finishBatch db kind ((workOrders db kind limit).map (·.id))).cursor kind

/-- From one call of `cancellationWork` to the next. -/
structure CancelledOnce (limit : ℕ) (db next : Database) : Prop where
  rows : next.cancellationRows = db.cancellationRows
  cursor : next.cursor .cancel =
    (finishBatch db .cancel ((cancellationWork db limit).map (·.id))).cursor .cancel

@[simp] theorem workRows_finishBatch (kind o : WorkKind) (ids : List ℕ) :
    (finishBatch db kind ids).workRows o = db.workRows o := by
  unfold finishBatch
  cases ids.getLast? <;> rfl

@[simp] theorem cancellationRows_finishBatch (ids : List ℕ) :
    (finishBatch db kind ids).cancellationRows = db.cancellationRows := by
  unfold finishBatch
  cases ids.getLast? <;> rfl

/-- The worker's next batch and the cursor behind it. -/
def poll (limit : ℕ) (db : Database) : Database :=
  finishBatch db kind ((workOrders db kind limit).map (·.id))

def cancelNext (limit : ℕ) (db : Database) : Database :=
  finishBatch db .cancel ((cancellationWork db limit).map (·.id))

theorem polledOnce_poll (limit : ℕ) (db : Database) :
    PolledOnce kind limit db (poll kind limit db) := ⟨workRows_finishBatch _ _ _ _, rfl⟩

theorem cancelledOnce_cancelNext (limit : ℕ) (db : Database) :
    CancelledOnce limit db (cancelNext limit db) := ⟨cancellationRows_finishBatch _ _ _, rfl⟩

variable {limit : ℕ}

/-- Batches over rows that stay as they are reach every row. -/
theorem exists_batch {α : Type*} {k : α → ℕ} (hl : 0 < limit) {t : Keyed α k} (p : α → Bool)
    (c : ℕ → ℕ) (hc : ∀ i, c (i + 1) =
      advance k (c i) (page k limit (c i) (t.rows.filter p))) {r : α} (hr : r ∈ t.rows.filter p) :
    ∃ i < (t.rows.filter p).length ⌈/⌉ limit + 1, r ∈ page k limit (c i) (t.rows.filter p) := by
  have hp : ∀ r ∈ t.rows.filter p, 0 < k r := fun r hm => (t.bounds r (List.mem_filter.mp hm).1).1
  exact exists_mem_page hc (mem_pages hl (t.sorted.filter p) hp (c 0) hr)

theorem workRows_eq {kind : WorkKind} {ds : ℕ → Database}
    (h : ∀ i, PolledOnce kind limit (ds i) (ds (i + 1))) (i : ℕ) :
    (ds i).workRows kind = (ds 0).workRows kind := by
  induction i with
  | zero => rfl
  | succ i ih => exact (h i).rows.trans ih

theorem cancellationRows_eq {ds : ℕ → Database} (h : ∀ i, CancelledOnce limit (ds i) (ds (i + 1)))
    (i : ℕ) :
    (ds i).cancellationRows = (ds 0).cancellationRows := by
  induction i with
  | zero => rfl
  | succ i ih => exact (h i).rows.trans ih

/-- Every eligible order is in one of the next batches, one more than the eligible orders fill, and
so is every invoice that waits for its cancellation. -/
theorem provider_work_fair {limit : ℕ} (hlimit : 0 < limit) (dbs : ℕ → Database) :
    (∀ kind, (∀ i, PolledOnce kind limit (dbs i) (dbs (i + 1))) →
      ∀ order ∈ (dbs 0).workRows kind,
        ∃ i < ((dbs 0).workRows kind).length ⌈/⌉ limit + 1, order ∈ workOrders (dbs i) kind limit) ∧
    ((∀ i, CancelledOnce limit (dbs i) (dbs (i + 1))) →
      ∀ work ∈ (dbs 0).cancellationRows,
        ∃ i < (dbs 0).cancellationRows.length ⌈/⌉ limit + 1,
          work ∈ cancellationWork (dbs i) limit) := by
  constructor
  · intro kind hr order ho
    have hc : ∀ i, (dbs (i + 1)).cursor kind = advance (·.id) ((dbs i).cursor kind)
          (page (·.id) limit ((dbs i).cursor kind) ((dbs 0).workRows kind)) := fun i => by
      rw [(hr i).cursor, cursor_finishBatch, workOrders, workRows_eq hr]
    obtain ⟨i, hi, hm⟩ := exists_batch hlimit (eligible kind) (fun i => (dbs i).cursor kind) hc ho
    refine ⟨i, hi, ?_⟩
    rw [workOrders, workRows_eq hr]
    exact hm
  · intro hr work hw
    have hc : ∀ i, (dbs (i + 1)).cursor .cancel = advance (·.id) ((dbs i).cursor .cancel)
          (page (·.id) limit ((dbs i).cursor .cancel) (dbs 0).cancellationRows) := fun i => by
      rw [(hr i).cursor, cursor_finishBatch, cancellationWork, cancellationRows_eq hr]
    obtain ⟨i, hi, hm⟩ := exists_batch hlimit (fun work : InvoiceCancellation => !work.completed)
      (fun i => (dbs i).cursor .cancel) hc hw
    refine ⟨i, hi, ?_⟩
    rw [cancellationWork, cancellationRows_eq hr]
    exact hm

/-- Three invoices to ask about, and three to cancel. -/
def invoices : Database :=
  let order (ref : Char) (id : ℕ) : PaymentOrder :=
    { id, clientId := 1, tariffId := id, provider := .cryptoBot, amount := 100, currency := [],
      idempotencyKey := [ref], providerRef := [ref] }
  let orders : Orders := .empty
  let cancellations : Cancellations := .empty
  { orders := ((orders.insert (order '4') fun _ => rfl).insert (order '5') fun _ => rfl).insert
      (order '6') fun _ => rfl
    cancellations := ((cancellations.insert (fun id => { id, orderID := 1, ref := ['7'] }) fun _ =>
      rfl).insert (fun id => { id, orderID := 1, ref := ['8'] }) fun _ => rfl).insert
      (fun id => { id, orderID := 2, ref := ['9'] }) fun _ => rfl
    cursors := [{ kind := .poll, afterID := 9 }, { kind := .cancel, afterID := 2 }]
    clients := [] }

theorem provider_work_fair_three :
    (∀ order ∈ invoices.workRows .poll,
      ∃ i < 3, order ∈ workOrders ((poll .poll 2)^[i] invoices) .poll 2) ∧
    ∀ work ∈ invoices.cancellationRows,
      ∃ i < 3, work ∈ cancellationWork ((cancelNext 2)^[i] invoices) 2 := by
  have hp : ∀ i, PolledOnce .poll 2 ((poll .poll 2)^[i] invoices)
      ((poll .poll 2)^[i + 1] invoices) := fun i => by
    rw [Function.iterate_succ_apply']
    exact polledOnce_poll .poll 2 _
  have hc : ∀ i, CancelledOnce 2 ((cancelNext 2)^[i] invoices)
      ((cancelNext 2)^[i + 1] invoices) := fun i => by
    rw [Function.iterate_succ_apply']
    exact cancelledOnce_cancelNext 2 _
  have hl : 0 < 2 := Nat.two_pos
  exact ⟨(provider_work_fair hl fun i => (poll .poll 2)^[i] invoices).1 .poll hp,
    (provider_work_fair hl fun i => (cancelNext 2)^[i] invoices).2 hc⟩

end Solovey.Paid
