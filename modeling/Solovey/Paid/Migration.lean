import Solovey.Paid.Model

/-!
# Preparing an old order table

At every start the schema step runs over the order table before it creates two unique indexes: one
on the invoice a provider knows an order by, one on the purchases open at the crypto provider.
Orders that older versions closed without asking the provider are put back or handed to a person;
the invoice an order stored is copied into its column; and orders that collide in an index are taken
out of it.
-/

namespace Solovey.Paid

open Solovey.Data Solovey.Text Solovey.Json List

/-! ## The two unique indexes -/

def PaymentOrder.hasRef (order : PaymentOrder) : Bool := !order.providerRef.isEmpty

def PaymentOrder.identity (order : PaymentOrder) : ProviderKind × Str :=
  (order.provider, order.providerRef)

/-- A purchase that is open at the crypto provider. -/
def PaymentOrder.active (order : PaymentOrder) : Bool :=
  order.provider == .cryptoBot &&
    [Status.pending, .invoiceCreating, .recoverable].contains order.status

def PaymentOrder.purchase (order : PaymentOrder) : ℕ × ℕ × ℤ × ProviderKind :=
  (order.clientId, order.tariffId, order.telegramUserId, order.provider)

/-! ## The migration -/

def PaymentOrder.reclassify (status : Status) (reason : ReviewReason) (order : PaymentOrder) :
    PaymentOrder :=
  { order with status, reviewReason := reason }

theorem PaymentOrder.reclassify_id (status : Status) (rs : ReviewReason) (o : PaymentOrder) :
    (o.reclassify status rs).id = o.id := rfl

/-- Closed locally, without a word of the provider. -/
def historical (order : PaymentOrder) : Bool :=
  order.provider == .cryptoBot && !order.legacyResolved && order.reviewReason == .none &&
    [Status.expired, .failed].contains order.status

/-- Orders without the proof of their purchase that no one has resolved, by what becomes of them. -/
def legacyPaid (order : PaymentOrder) : Bool :=
  !order.grantSnapshot && !order.legacyResolved && order.status == .paid

def legacyRemote (order : PaymentOrder) : Bool :=
  !order.grantSnapshot && !order.legacyResolved && order.provider == .cryptoBot &&
    [Status.pending, .failed, .expired, .invoiceCreating].contains order.status

def legacyLocal (order : PaymentOrder) : Bool :=
  !order.grantSnapshot && !order.legacyResolved && order.provider != .cryptoBot &&
    [Status.pending, .invoiceCreating].contains order.status

/-- Give the orders that meet a condition another status, with its reason. -/
def reclassifyWhere (p : PaymentOrder → Bool) (status : Status) (reason : ReviewReason)
    (orders : Orders) : Orders :=
  orders.update p (.reclassify status reason) (PaymentOrder.reclassify_id status reason)

def classify (orders : Orders) : Orders :=
  let orders := reclassifyWhere historical .recoverable .historicalProviderOutcomeUncertain orders
  let orders := reclassifyWhere legacyPaid .manualReview .legacySnapshotMissing orders
  let orders := reclassifyWhere legacyRemote .recoverable .legacySnapshotMissing orders
  reclassifyWhere legacyLocal .manualReview .legacySnapshotMissing orders

/-- The member `ref` of a stored object; a value that is not a text is passed over. -/
def refMember : Members → Str → Str
  | .nil, ref => ref
  | .cons key (.str s) rest, ref =>
    refMember rest (if sameField key "ref" then (StrLit.value s).toList else ref)
  | .cons _ _ rest, ref => refMember rest ref

def savedRef (payload : Str) : Str :=
  match parse payload with
  | some (.obj members) => refMember members []
  | _ => []

/-- A positive 64-bit number in plain digits. -/
def canonicalRef (ref : Str) : Option Str :=
  match readDecimal ref with
  | some n => if decide (0 < n) && decide (n < 2 ^ 63) && decimal n == ref then some ref else none
  | none => none

/-- The invoice that an order stored, in its payload or with its charge. -/
def storedRef (order : PaymentOrder) : Option Str :=
  let saved := savedRef order.providerPayload
  let tag := "cryptobot:".toList
  canonicalRef <| if saved.isEmpty && tag.isPrefixOf order.providerChargeID
    then trimPrefix tag order.providerChargeID else saved

def refBatch (orders : Orders) (cursor : ℕ) : List PaymentOrder :=
  (orders.rows.filter fun row => row.provider == .cryptoBot && decide (cursor < row.id)).take 256

def saveRef (orders : Orders) (row : PaymentOrder) : Orders :=
  if row.hasRef || row.reviewReason == .providerIdentityConflict then orders
  else match storedRef row with
    | none => orders
    | some ref => orders.update (·.id == row.id) (fun old => { old with providerRef := ref }) fun _ => rfl

theorem last_saveRef (orders : Orders) (row : PaymentOrder) :
    (saveRef orders row).last = orders.last := by
  unfold saveRef
  split
  · rfl
  · split <;> rfl

theorem last_foldl_saveRef (b : List PaymentOrder) (orders : Orders) :
    (b.foldl saveRef orders).last = orders.last := by
  induction b generalizing orders with
  | nil => rfl
  | cons row rest ih => rw [foldl_cons, ih, last_saveRef]

variable {orders : Orders} {cursor : ℕ} {row : PaymentOrder}

theorem mem_refBatch (h : row ∈ refBatch orders cursor) :
    row ∈ orders.rows ∧ row.provider = .cryptoBot ∧ cursor < row.id := by
  have hf := mem_filter.mp (mem_of_mem_take h)
  simp only [Bool.and_eq_true, beq_iff_eq, decide_eq_true_eq] at hf
  exact hf

/-- Copy the stored invoices into their column, a batch of rows behind the cursor at a time. -/
def extractRefs (orders : Orders) (cursor : ℕ) : Orders :=
  match _h : (refBatch orders cursor).getLast? with
  | none => orders
  | some last => extractRefs ((refBatch orders cursor).foldl saveRef orders) last.id
termination_by orders.last - cursor
decreasing_by
  obtain ⟨hrow, -, hlt⟩ := mem_refBatch (List.mem_of_getLast? _h)
  have hle := (orders.bounds last hrow).2
  rw [last_foldl_saveRef]
  omega

def loseRef (row : PaymentOrder) : PaymentOrder :=
  { row with
    status := .manualReview, reviewReason := .providerIdentityConflict, providerRef := [] }

/-- Take the orders out of the two indexes that share an entry. -/
def quarantineIdentities (orders : Orders) : Orders :=
  orders.update (orders.duplicated PaymentOrder.hasRef PaymentOrder.identity) loseRef fun _ => rfl

def quarantinePurchases (orders : Orders) : Orders :=
  reclassifyWhere (orders.duplicated PaymentOrder.active PaymentOrder.purchase) .manualReview
    .activePurchaseConflict orders

def migrateOrders (orders : Orders) : Orders :=
  quarantinePurchases (quarantineIdentities (extractRefs (classify orders) 0))

/-! ## The stored invoices -/

/-- Rows whose invoice is stored but not in its column. -/
def needsRef (row : PaymentOrder) : Bool :=
  !(row.hasRef || row.reviewReason == .providerIdentityConflict) && (storedRef row).isSome

def withRef (row : PaymentOrder) : PaymentOrder :=
  { row with providerRef := (storedRef row).getD [] }

theorem withRef_id (row : PaymentOrder) : (withRef row).id = row.id := rfl

theorem saveRef_eq (hr : row ∈ orders.rows) : saveRef orders row =
      orders.update (fun o => o.id == row.id && needsRef o) withRef withRef_id := by
  have hsa : ∀ o ∈ orders.rows, (o.id == row.id) = true → o = row := fun o ho hid =>
    Keyed.eq_of_key ho hr (beq_iff_eq.mp hid)
  unfold saveRef
  split
  next hs =>
    refine (Keyed.update_eq_self fun o ho => ?_).symm
    by_cases hid : (o.id == row.id) = true
    · rw [hsa o ho hid, needsRef, hs]
      simp
    · simp [hid]
  next hs =>
    split
    next hn =>
      refine (Keyed.update_eq_self fun o ho => ?_).symm
      by_cases hid : (o.id == row.id) = true
      · rw [hsa o ho hid, needsRef, hn]
        simp
      · simp [hid]
    next ref hsm =>
      refine Keyed.update_congr fun o ho => ?_
      by_cases hid : (o.id == row.id) = true
      · rw [hsa o ho hid]
        simp [needsRef, withRef, hs, hsm]
      · simp [hid]

theorem foldl_saveRef_eq {b : List PaymentOrder} (hm : ∀ row ∈ b, row ∈ orders.rows)
    (hs : b.Pairwise (·.id < ·.id)) :
    b.foldl saveRef orders =
      orders.update (fun o => b.any (·.id == o.id) && needsRef o) withRef withRef_id := by
  induction b generalizing orders with
  | nil => exact (Keyed.update_eq_self fun _ _ => rfl).symm
  | cons row rest ih =>
    obtain ⟨hh, ht⟩ := pairwise_cons.mp hs
    have hrw : row ∈ orders.rows := hm row mem_cons_self
    have hr : ∀ other ∈ rest, other ∈ (saveRef orders row).rows := fun other ho => by
      rw [saveRef_eq hrw, Keyed.mem_rows_update]
      have hne : (other.id == row.id) = false := beq_eq_false_iff_ne.mpr (hh other ho).ne'
      exact ⟨other, hm other (mem_cons_of_mem row ho), by simp [hne]⟩
    rw [foldl_cons, ih hr ht, saveRef_eq hrw]
    refine Keyed.ext ?_ rfl
    rw [Keyed.rows_update, Keyed.rows_update, Keyed.rows_update, List.map_map]
    refine map_congr_left fun o _ => ?_
    rw [Function.comp_apply, any_cons, Bool.beq_comm (a := row.id)]
    by_cases hid : o.id = row.id
    · have hnn : rest.any (·.id == row.id) = false :=
        any_eq_false.mpr fun other ho => by simp [(hh other ho).ne']
      by_cases hn : needsRef o = true
      · simp [hid, hn, withRef, hnn]
      · simp [hid, hn]
    · simp [hid]

theorem getLast?_eq_none_refBatch (h : (refBatch orders cursor).getLast? = none) :
    ∀ row ∈ orders.rows, (row.provider == .cryptoBot && decide (cursor < row.id)) = false := by
  rw [getLast?_eq_none_iff, refBatch, take_eq_nil_iff] at h
  rcases h with hz | hn
  · cases hz
  · intro row hr
    exact Bool.not_eq_true _ ▸ filter_eq_nil_iff.mp hn row hr

/-- A batch is the next rows of the provider, up to its last one. -/
theorem any_refBatch {l : PaymentOrder} (h : (refBatch orders cursor).getLast? = some l)
    (hr : row ∈ orders.rows) :
    (refBatch orders cursor).any (·.id == row.id) =
      (row.provider == .cryptoBot && decide (cursor < row.id) && decide (row.id ≤ l.id)) := by
  rw [Bool.eq_iff_iff]
  simp only [any_eq_true, beq_iff_eq, Bool.and_eq_true, decide_eq_true_eq]
  have hs : ((orders.rows.filter fun row =>
      row.provider == .cryptoBot && decide (cursor < row.id))).Pairwise (·.id < ·.id) :=
    orders.sorted.filter _
  rw [← take_append_drop 256 (orders.rows.filter _)] at hs
  obtain ⟨ht, -, hc⟩ := pairwise_append.mp hs
  obtain ⟨init, hi⟩ := getLast?_eq_some_iff.mp h
  constructor
  · rintro ⟨other, ho, hid⟩
    obtain ⟨hm, hp, hlt⟩ := mem_refBatch ho
    obtain rfl := Keyed.eq_of_key hm hr hid
    refine ⟨⟨hp, hlt⟩, ?_⟩
    rw [hi] at ho
    rw [← refBatch, hi] at ht
    rcases mem_append.mp ho with he | hls
    · exact ((pairwise_append.mp ht).2.2 other he l (mem_singleton_self l)).le
    · rw [mem_singleton.mp hls]
  · rintro ⟨⟨hp, hlt⟩, hle⟩
    have hf : row ∈ orders.rows.filter fun row =>
        row.provider == .cryptoBot && decide (cursor < row.id) :=
      mem_filter.mpr ⟨hr, by simp [hp, hlt]⟩
    rw [← take_append_drop 256 (orders.rows.filter _), mem_append] at hf
    rcases hf with hb | hl
    · exact ⟨row, hb, rfl⟩
    · have hgt := hc l (mem_of_getLast? h) row hl
      omega

/-- The batches together update every row of the provider behind the cursor. -/
theorem extractRefs_eq (orders : Orders) (cursor : ℕ) :
    extractRefs orders cursor = orders.update (fun row => row.provider == .cryptoBot &&
      decide (cursor < row.id) && needsRef row) withRef withRef_id := by
  fun_induction extractRefs orders cursor with
  | case1 orders cursor hn =>
    refine (Keyed.update_eq_self fun row hr => ?_).symm
    rw [getLast?_eq_none_refBatch hn row hr, Bool.false_and]
  | case2 orders cursor last hl ih =>
    have hs : (refBatch orders cursor).Pairwise (·.id < ·.id) :=
      (orders.sorted.filter _).sublist (take_sublist _ _)
    have hb := foldl_saveRef_eq (fun row hr => (mem_refBatch hr).1) hs
    obtain ⟨-, -, hc⟩ := mem_refBatch (mem_of_getLast? hl)
    rw [ih, hb]
    refine Keyed.ext ?_ rfl
    rw [Keyed.rows_update, Keyed.rows_update, Keyed.rows_update, List.map_map]
    refine map_congr_left fun row hr => ?_
    rw [Function.comp_apply, any_refBatch hl hr]
    by_cases hp : row.provider = .cryptoBot
    · by_cases hle : row.id ≤ last.id
      · by_cases hh : (decide (cursor < row.id) && needsRef row) = true
        · have hnt : ¬last.id < row.id := hle.not_gt
          simp only [Bool.and_eq_true, decide_eq_true_eq] at hh
          simp [hp, hle, hh.1, hh.2, withRef, hnt]
        · have hnt : ¬last.id < row.id := hle.not_gt
          simp only [Bool.not_eq_true] at hh
          simp [hp, hle, hnt, hh]
      · have hlt : last.id < row.id := not_le.mp hle
        simp [hp, hle, hlt, hc.trans hlt]
    · simp [hp]

/-! ## What the migration leaves -/

/-- Orders that none of the first statements picks. -/
structure Settled (row : PaymentOrder) : Prop where
  historical : historical row = false
  legacyPaid : legacyPaid row = false
  legacyRemote : legacyRemote row = false
  legacyLocal : legacyLocal row = false

theorem settled_recoverable (rs : ReviewReason) (row : PaymentOrder) :
    Settled (row.reclassify .recoverable rs) := by
  constructor <;> simp [historical, legacyPaid, legacyRemote, legacyLocal, PaymentOrder.reclassify]

theorem settled_manualReview (h : row.status = .manualReview) : Settled row := by
  constructor <;> simp [historical, legacyPaid, legacyRemote, legacyLocal, h]

theorem Settled.withRef (h : Settled row) : Settled (withRef row) :=
  ⟨h.historical, h.legacyPaid, h.legacyRemote, h.legacyLocal⟩

variable {p : PaymentOrder → Bool} {status : Status} {r : ReviewReason}

theorem forall_reclassifyWhere {Q : PaymentOrder → Prop}
    (hh : ∀ o ∈ orders.rows, p o = true → Q (o.reclassify status r))
    (hm : ∀ o ∈ orders.rows, p o = false → Q o) :
    ∀ row ∈ (reclassifyWhere p status r orders).rows, Q row := Keyed.forall_update hh hm

/-- A statement of the classification adds its condition to those that no row meets any more. -/
theorem settled_reclassifyWhere {P : PaymentOrder → Prop}
    (hP : ∀ row, Settled row → P row ∧ p row = false)
    (hn : ∀ row : PaymentOrder, Settled (row.reclassify status r))
    (h : ∀ row ∈ orders.rows, P row) :
    ∀ row ∈ (reclassifyWhere p status r orders).rows, P row ∧ p row = false :=
  forall_reclassifyWhere (fun o _ _ => hP _ (hn o)) fun o ho hp => ⟨h o ho, hp⟩

theorem settled_classify (orders : Orders) : ∀ row ∈ (classify orders).rows, Settled row := by
  have hrv : ∀ r, ∀ row : PaymentOrder, Settled (row.reclassify .manualReview r) :=
    fun r row => settled_manualReview rfl
  have hs : ∀ row ∈ orders.rows, True := fun _ _ => trivial
  have hf := settled_reclassifyWhere (p := historical) (fun _ h => ⟨trivial, h.historical⟩)
    (settled_recoverable .historicalProviderOutcomeUncertain) hs
  have hsc := settled_reclassifyWhere (p := legacyPaid)
    (fun _ h => ⟨⟨trivial, h.historical⟩, h.legacyPaid⟩) (hrv .legacySnapshotMissing) hf
  have ht := settled_reclassifyWhere (p := legacyRemote)
    (fun _ h => ⟨⟨⟨trivial, h.historical⟩, h.legacyPaid⟩, h.legacyRemote⟩)
    (settled_recoverable .legacySnapshotMissing) hsc
  have hls := settled_reclassifyWhere (p := legacyLocal)
    (fun _ h => ⟨⟨⟨⟨trivial, h.historical⟩, h.legacyPaid⟩, h.legacyRemote⟩, h.legacyLocal⟩)
    (hrv .legacySnapshotMissing) ht
  intro row hrw
  obtain ⟨⟨⟨⟨-, hh⟩, hp⟩, hr⟩, hl⟩ := hls row hrw
  exact ⟨hh, hp, hr, hl⟩

theorem canonicalRef_ne_nil {t rf : Str} (h : canonicalRef t = some rf) : rf ≠ [] := by
  simp only [canonicalRef] at h
  split at h
  next n hr =>
    split at h
    · cases h
      rintro rfl
      cases hr
    · cases h
  · cases h

theorem needsRef_withRef (h : needsRef row = true) : needsRef (withRef row) = false := by
  simp only [needsRef, Bool.and_eq_true] at h
  obtain ⟨ref, hr⟩ := Option.isSome_iff_exists.mp h.2
  have hne := canonicalRef_ne_nil hr
  simp [needsRef, withRef, PaymentOrder.hasRef, hr, hne]

/-- Orders that the second half of another run would not touch: their stored invoice has been copied,
and an order that lost its invoice to a conflict is closed, so its mark stays. -/
structure Copied (row : PaymentOrder) : Prop where
  ref : (row.provider == .cryptoBot && needsRef row) = false
  marked : row.reviewReason = .providerIdentityConflict → row.active = false

/-- Closed orders are marked for a conflict of their invoice. -/
def ConflictsClosed (orders : Orders) : Prop :=
  ∀ row ∈ orders.rows, row.reviewReason = .providerIdentityConflict → row.active = false

theorem conflictsClosed_reclassifyWhere (hr : r ≠ .providerIdentityConflict)
    (h : ConflictsClosed orders) : ConflictsClosed (reclassifyWhere p status r orders) :=
  forall_reclassifyWhere (fun _ _ _ hm => absurd hm hr) fun o ho _ => h o ho

theorem conflictsClosed_classify (h : ConflictsClosed orders) :
    ConflictsClosed (classify orders) := by
  have hl : ReviewReason.legacySnapshotMissing ≠ .providerIdentityConflict := nofun
  have hh : ReviewReason.historicalProviderOutcomeUncertain ≠ .providerIdentityConflict := nofun
  exact conflictsClosed_reclassifyWhere hl (conflictsClosed_reclassifyWhere hl
    (conflictsClosed_reclassifyWhere hl (conflictsClosed_reclassifyWhere hh h)))

theorem copied_extractRefs (h : ConflictsClosed orders) :
    ∀ row ∈ (extractRefs orders 0).rows, Copied row := by
  rw [extractRefs_eq]
  refine Keyed.forall_update (fun o _ hh => ?_) fun o ho hm => ?_
  · have hn : needsRef o = true := (Bool.and_eq_true_iff.mp hh).2
    refine ⟨by rw [needsRef_withRef hn, Bool.and_false], fun hmr => ?_⟩
    simp only [needsRef, Bool.and_eq_true, Bool.not_eq_true', Bool.or_eq_false_iff] at hn
    exact absurd hmr (beq_eq_false_iff_ne.mp hn.1.2)
  · have hp : 0 < o.id := (orders.bounds o ho).1
    refine ⟨?_, h o ho⟩
    simpa [hp] using hm

theorem copied_quarantineIdentities (h : ∀ row ∈ orders.rows, Copied row) :
    ∀ row ∈ (quarantineIdentities orders).rows, Copied row := by
  refine Keyed.forall_update (fun o _ _ => ⟨?_, fun _ => ?_⟩) fun o ho _ => h o ho
  · simp [needsRef, loseRef]
  · simp [PaymentOrder.active, loseRef]

theorem copied_quarantinePurchases (h : ∀ row ∈ orders.rows, Copied row) :
    ∀ row ∈ (quarantinePurchases orders).rows, Copied row := by
  refine forall_reclassifyWhere (fun o ho hh => ?_) fun o ho _ => h o ho
  have ha : o.active = true := (Bool.and_eq_true_iff.mp hh).1
  obtain ⟨hrf, hmr⟩ := h o ho
  -- an active order is not marked, so its reason did not keep the invoice from being copied
  have hr : o.reviewReason ≠ .providerIdentityConflict := fun hm => by
    rw [hmr hm] at ha
    cases ha
  refine ⟨?_, fun hm => nomatch hm⟩
  have hn : needsRef (o.reclassify .manualReview .activePurchaseConflict) = needsRef o := by
    have ho : (o.reviewReason == .providerIdentityConflict) = false := beq_eq_false_iff_ne.mpr hr
    rw [needsRef, needsRef, ho]
    rfl
  rw [hn]
  exact hrf

theorem copied_migrateOrders (h : ConflictsClosed orders) :
    ∀ row ∈ (migrateOrders orders).rows, Copied row :=
  copied_quarantinePurchases (copied_quarantineIdentities
    (copied_extractRefs (conflictsClosed_classify h)))

theorem settled_migrateOrders (orders : Orders) :
    ∀ row ∈ (migrateOrders orders).rows, Settled row := by
  have hr : ∀ row ∈ (extractRefs (classify orders) 0).rows, Settled row := by
    rw [extractRefs_eq]
    exact Keyed.forall_update (fun o ho _ => (settled_classify orders o ho).withRef)
      fun o ho _ => settled_classify orders o ho
  have hi : ∀ row ∈ (quarantineIdentities (extractRefs (classify orders) 0)).rows, Settled row :=
    Keyed.forall_update (fun _ _ _ => settled_manualReview rfl) fun o ho _ => hr o ho
  exact forall_reclassifyWhere (fun _ _ _ => settled_manualReview rfl) fun o ho _ =>
    hi o ho

theorem indexed_reclassifyWhere {β : Type*} {q : PaymentOrder → Bool} {i : PaymentOrder → β}
    (hp : ∀ row : PaymentOrder, p (row.reclassify status r) = p row)
    (hi : ∀ row : PaymentOrder, i (row.reclassify status r) = i row) :
    (reclassifyWhere q status r orders).indexed p i = orders.indexed p i :=
  Keyed.indexed_update hp hi

theorem reclassifyWhere_eq_self (h : ∀ row ∈ orders.rows, p row = false) :
    reclassifyWhere p status r orders = orders := Keyed.update_eq_self h

theorem nodup_identities (orders : Orders) :
    ((migrateOrders orders).indexed PaymentOrder.hasRef PaymentOrder.identity).Nodup := by
  have hs : (migrateOrders orders).indexed PaymentOrder.hasRef PaymentOrder.identity =
      (quarantineIdentities (extractRefs (classify orders) 0)).indexed PaymentOrder.hasRef
        PaymentOrder.identity :=
    indexed_reclassifyWhere (fun _ => rfl) fun _ => rfl
  rw [hs]
  exact Keyed.nodup_indexed_update fun _ => rfl

theorem nodup_purchases (orders : Orders) :
    ((migrateOrders orders).indexed PaymentOrder.active PaymentOrder.purchase).Nodup := by
  unfold migrateOrders quarantinePurchases reclassifyWhere
  exact Keyed.nodup_indexed_update fun row => by simp [PaymentOrder.active, PaymentOrder.reclassify]

theorem classify_eq_self (h : ∀ row ∈ orders.rows, Settled row) : classify orders = orders := by
  simp only [classify, reclassifyWhere_eq_self fun row hr => (h row hr).historical,
    reclassifyWhere_eq_self fun row hr => (h row hr).legacyPaid,
    reclassifyWhere_eq_self fun row hr => (h row hr).legacyRemote,
    reclassifyWhere_eq_self fun row hr => (h row hr).legacyLocal]

/-- A table on which no statement finds a row. -/
theorem migrateOrders_eq_self (hs : ∀ row ∈ orders.rows, Settled row)
    (hc : ∀ row ∈ orders.rows, Copied row)
    (hi : (orders.indexed PaymentOrder.hasRef PaymentOrder.identity).Nodup)
    (hp : (orders.indexed PaymentOrder.active PaymentOrder.purchase).Nodup) :
    migrateOrders orders = orders := by
  have hr : extractRefs orders 0 = orders := by
    rw [extractRefs_eq]
    refine Keyed.update_eq_self fun row hrw => ?_
    rw [Bool.and_right_comm, (hc row hrw).ref, Bool.false_and]
  have hk : quarantineIdentities orders = orders :=
    Keyed.update_eq_self fun row _ => Keyed.duplicated_eq_false hi row
  rw [migrateOrders, classify_eq_self hs, hr, hk]
  exact reclassifyWhere_eq_self fun row _ => Keyed.duplicated_eq_false hp row

/-! ## Where an order can move -/

/-- Every row of a table comes from one of another with the same id, whose status it has unless it has
become recoverable or waits for a person. -/
def Traces (orders later : Orders) : Prop :=
  ∀ new ∈ later.rows, ∃ old ∈ orders.rows, old.id = new.id ∧
    (new.status = old.status ∨ new.status = .recoverable ∨ new.status = .manualReview)

theorem Traces.trans {first s t : Orders} (h : Traces first s) (h' : Traces s t) :
    Traces first t := by
  intro new hn
  obtain ⟨m, hmd, hid, hst⟩ := h' new hn
  obtain ⟨o, ho, hid', hs'⟩ := h m hmd
  refine ⟨o, ho, hid'.trans hid, ?_⟩
  rcases hst with hs | hm
  · rwa [hs]
  · exact .inr hm

theorem traces_update {f : PaymentOrder → PaymentOrder} {hf : ∀ row, (f row).id = row.id}
    (h : ∀ row, (f row).status = row.status ∨
      (f row).status = .recoverable ∨ (f row).status = .manualReview) :
    Traces orders (orders.update p f hf) := by
  intro new hn
  obtain ⟨o, ho, rfl⟩ := Keyed.mem_rows_update.mp hn
  refine ⟨o, ho, ?_⟩
  split
  · exact ⟨(hf o).symm, h o⟩
  · exact ⟨rfl, .inl rfl⟩

theorem traces_migrateOrders (orders : Orders) : Traces orders (migrateOrders orders) := by
  have hrc : ∀ p r orders, Traces orders (reclassifyWhere p .recoverable r orders) :=
    fun _ _ _ => traces_update fun _ => .inr (.inl rfl)
  have hrv : ∀ p r orders, Traces orders (reclassifyWhere p .manualReview r orders) :=
    fun _ _ _ => traces_update fun _ => .inr (.inr rfl)
  have hc : Traces orders (classify orders) :=
    (((hrc _ _ _).trans (hrv _ _ _)).trans (hrc _ _ _)).trans (hrv _ _ _)
  have hr : ∀ orders, Traces orders (extractRefs orders 0) := fun orders => by
    rw [extractRefs_eq]
    exact traces_update fun _ => .inl rfl
  have hi : ∀ orders, Traces orders (quarantineIdentities orders) := fun _ =>
    traces_update fun _ => .inr (.inr rfl)
  exact ((hc.trans (hr _)).trans (hi _)).trans (hrv _ _ _)

/-- The migration makes both indexes unique, moves no order into a state that grants, has granted or
has revoked, and, when every order that is marked for a conflict of its invoice is closed, as the
migration leaves it, another run changes nothing. -/
theorem migrateOrders_prepares (orders : Orders) :
    ((migrateOrders orders).indexed PaymentOrder.hasRef PaymentOrder.identity).Nodup ∧
    ((migrateOrders orders).indexed PaymentOrder.active PaymentOrder.purchase).Nodup ∧
    (ConflictsClosed orders → migrateOrders (migrateOrders orders) = migrateOrders orders) ∧
    ∀ new ∈ (migrateOrders orders).rows, new.status ∈ [.pending, .paid, .refunded] →
      ∃ old ∈ orders.rows, old.id = new.id ∧ old.status = new.status := by
  refine ⟨nodup_identities orders, nodup_purchases orders, fun hcl => ?_, fun new hn hst => ?_⟩
  · exact migrateOrders_eq_self (settled_migrateOrders orders) (copied_migrateOrders hcl)
      (nodup_identities orders) (nodup_purchases orders)
  · obtain ⟨old, ho, hid, hs | hm | hm⟩ := traces_migrateOrders orders new hn
    · exact ⟨old, ho, hid, hs.symm⟩
    · simp [hm] at hst
    · simp [hm] at hst

/-- Two open orders of one purchase, the first of which is marked for a conflict of its invoice. -/
def markedPurchase (mark : ReviewReason) : Orders :=
  let order (status : Status) (mark : ReviewReason) (charge : Str) (id : ℕ) : PaymentOrder :=
    { id, clientId := 1, tariffId := 1, provider := .cryptoBot, amount := 100, currency := [],
      status, telegramUserId := 7, idempotencyKey := decimal id, providerChargeID := charge,
      reviewReason := mark, grantSnapshot := true }
  let orders : Orders := .empty
  (orders.insert (order .recoverable mark "cryptobot:41".toList) fun _ => rfl).insert
    (order .pending .none []) fun _ => rfl

theorem migrateOrders_prepares_open :
    ConflictsClosed (markedPurchase .none) ∧
    migrateOrders (migrateOrders (markedPurchase .none)) = migrateOrders (markedPurchase .none) := by
  have hcl : ConflictsClosed (markedPurchase .none) := by
    unfold ConflictsClosed
    decide +kernel
  exact ⟨hcl, (migrateOrders_prepares (markedPurchase .none)).2.2.1 hcl⟩

/-- The collision of the purchases overwrites the mark, and the next run copies the invoice. -/
theorem migrateOrders_overwrites_mark :
    ∃ orders, migrateOrders (migrateOrders orders) ≠ migrateOrders orders := by
  refine ⟨markedPurchase .providerIdentityConflict, fun h => ?_⟩
  have hf : ((migrateOrders (markedPurchase .providerIdentityConflict)).get? 1).map
      (·.providerRef) = some [] := by decide +kernel
  have hs : ((migrateOrders (migrateOrders (markedPurchase .providerIdentityConflict))).get? 1).map
      (·.providerRef) = some "41".toList := by decide +kernel
  rw [h, hf] at hs
  exact absurd hs (by decide)

end Solovey.Paid
