import Solovey.Paid.History

/-!
# Whose window a refund restores

A grant of traffic starts a new window of the client's live counters, and its revocation puts the
counters of the window before it back, unless a later grant is in force. The store looks for later
grants by the ids of their orders among the orders that are paid or being refunded. Payments may be
confirmed in another order, and a refund without revocation leaves the grant in force, so the search
can miss one. It misses none when the grants of a client are confirmed in the order of their ids and
a refund keeps no grant in force behind another one.
-/

namespace Solovey.Paid

open Solovey.Data Solovey.Text List

/-- A grant of traffic to a client that has been added and not been taken back. -/
def History.inForce (h : History) (client id : ℕ) : Prop :=
  id ∈ h.granted ∧ id ∉ h.revoked ∧
    ∃ order ∈ h.db.orders.get? id, order.clientId = client ∧ 0 < order.grantTraffic

instance (h : History) (client id : ℕ) : Decidable (h.inForce client id) :=
  inferInstanceAs (Decidable (_ ∧ _ ∧ _))

variable {h : History} {id : ℕ}

theorem inForce_iff {c : ℕ} : h.inForce c id ↔ id ∈ h.granted ∧ id ∉ h.revoked ∧ ∃ o,
      h.db.orders.get? id = some o ∧ o.clientId = c ∧ 0 < o.grantTraffic := Iff.rfl

/-- The order whose payment a call may confirm. -/
def Call.confirms : Call → Option ℕ
  | .applyPaid id _ _ => some id
  | .recover recovered _ _ =>
    if recovered.candidates.any (·.state == .paid) then some recovered.orderID else none
  | _ => none

/-- The condition on a step: a payment of traffic is confirmed when no grant of traffic to the client
with a larger id is in force, and an order of traffic is refunded without revocation when none with a
smaller id is. -/
def inSequence (h : History) : Action → Prop
  | .edit _ => True
  | .call call =>
    (∀ id ∈ call.confirms, ∀ order ∈ h.db.orders.get? id, 0 < order.grantTraffic →
      ∀ other ∈ h.granted, h.inForce order.clientId other → other ≤ id) ∧
    ∀ refund ∈ call.refunds h.db, refund.2 = false →
      ∀ order ∈ h.db.orders.get? refund.1, 0 < order.grantTraffic →
        ∀ other ∈ h.granted, h.inForce order.clientId other → refund.1 ≤ other

instance (h : History) (action : Action) : Decidable (inSequence h action) :=
  match action with
  | .edit _ => isTrue trivial
  | .call _ => inferInstanceAs (Decidable (_ ∧ _))

/-! ## A recovery grants a paid invoice -/

variable {db db' : Database}

theorem perform_confirms {c : Call} {r : Reply} (h : perform db c = .ok (db', r))
    (hid : id ∈ c.grants r) : c.confirms = some id := by
  cases c with
  | applyPaid o ci now =>
    obtain ⟨⟨_, result⟩, -, heq⟩ := map_ok.mp h
    cases heq
    rw [Call.grants] at hid
    split at hid
    · rw [mem_singleton.mp hid]
      rfl
    · cases hid
  | recover recovered now g =>
    obtain ⟨⟨_, result⟩, hc, heq⟩ := map_ok.mp h
    cases heq
    rw [Call.grants] at hid
    split at hid
    next ha =>
      obtain ⟨i, hm, hp⟩ := (recoverProviderOrder_ok hc).paid ha
      rw [mem_singleton.mp hid, Call.confirms, if_pos]
      exact any_eq_true.mpr ⟨i, hm, beq_iff_eq.mpr hp⟩
    · cases hid
  | _ => cases hid

/-- A call grants an order of the table. -/
theorem perform_grants_row {c : Call} {r : Reply} (h : perform db c = .ok (db', r))
    (hid : id ∈ c.grants r) : ∃ o, db.orders.get? id = some o := by
  cases c with
  | applyPaid o ci now =>
    obtain ⟨⟨_, result⟩, hc, heq⟩ := map_ok.mp h
    cases heq
    obtain ⟨ha, row, client, us, os, hg⟩ := applyPaidOrderGrant_ok hc
    rw [Call.grants, if_pos ha] at hid
    exact ⟨row, mem_singleton.mp hid ▸ hg.row⟩
  | recover recovered now g =>
    obtain ⟨⟨_, result⟩, hc, heq⟩ := map_ok.mp h
    cases heq
    rw [Call.grants] at hid
    split at hid
    next ha =>
      rw [mem_singleton.mp hid]
      unfold recoverProviderOrder at hc
      split at hc
      · cases hc
        cases ha
      · obtain ⟨d₁, hm, -⟩ := bind_ok.mp hc
        obtain ⟨row, -, hr, -⟩ := updateOrder_ok hm
        exact ⟨row, hr⟩
    · cases hid
  | _ => cases hid

/-! ## Grants in sequence -/

/-- Of two grants of traffic to a client that are in force, the later one has the larger id and has not
been refunded. -/
def History.Follows (h : History) (first second : ℕ) : Prop :=
  ∀ client, h.inForce client first → h.inForce client second →
    first < second ∧ ∃ order, h.db.orders.get? second = some order ∧ order.status.stage = .granted

variable {h' : History}

/-- A grant in force was in force before a step that leaves its row and only adds to the log. -/
theorem inForce_before {c : ℕ} (hin : id ∈ h.granted) (hf : h'.inForce c id)
    (hrv : h.revoked ⊆ h'.revoked) (hr : ∀ new, h'.db.orders.get? id = some new →
      ∃ o, h.db.orders.get? id = some o ∧ new.bought = o.bought) : h.inForce c id := by
  obtain ⟨-, hnt, new, hn, hcl, ht⟩ := inForce_iff.mp hf
  obtain ⟨o, ho, hb⟩ := hr new hn
  have hs : new.clientId = o.clientId := congrArg Bought.clientId hb
  have hsm : new.grantTraffic = o.grantTraffic := congrArg Bought.grantTraffic hb
  exact ⟨hin, fun hm => hnt (hrv hm), o, ho, hs ▸ hcl, hsm ▸ ht⟩

theorem Logged.bought_of_keeps {os : Orders} (hl : Logged h) (hk : Keeps h.db.orders os)
    (hin : id ∈ h.granted) {n : PaymentOrder} (hn : os.get? id = some n) :
    ∃ o, h.db.orders.get? id = some o ∧ n.bought = o.bought ∧ n.status.stage = o.status.stage := by
  obtain ⟨o, ho, hb, -⟩ := hl.row id hin
  obtain ⟨found, hf, hq⟩ := hk.row ho
  rw [hn] at hf
  cases hf
  exact ⟨o, ho, hq.bought, hq.stage_granted hb⟩

theorem follows_keeps (hl : Logged h) (hk : Keeps h.db.orders h'.db.orders)
    (hgr : h'.granted = h.granted) (hr : h'.revoked = h.revoked)
    (hsq : h.granted.Pairwise h.Follows) : h'.granted.Pairwise h'.Follows := by
  rw [hgr]
  refine hsq.imp_of_mem fun {first second} hf hsc hfl client hfr hf' => ?_
  have hbc : ∀ id ∈ h.granted, h'.inForce client id → h.inForce client id := fun id hid hfr =>
    inForce_before hid hfr (hr ▸ List.Subset.refl _) fun new hn => by
      obtain ⟨o, ho, hb, -⟩ := hl.bought_of_keeps hk hid hn
      exact ⟨o, ho, hb⟩
  obtain ⟨hlt, o, ho, hs⟩ := hfl client (hbc first hf hfr) (hbc second hsc hf')
  obtain ⟨new, hn, hq⟩ := hk.row ho
  exact ⟨hlt, new, hn, (hq.stage_granted (by rw [hs]; rfl)).trans hs⟩

theorem follows_grant (hlg : Logged h) {c : Client} {us : ClientUpdates} {os : OrderUpdates}
    (hgs : Grants h.db h'.db id order c us os) (hgr : h'.granted = h.granted ++ [id])
    (hr : h'.revoked = h.revoked)
    (hl : 0 < order.grantTraffic → ∀ other, h.inForce order.clientId other → other ≤ id)
    (hsq : h.granted.Pairwise h.Follows) : h'.granted.Pairwise h'.Follows := by
  obtain ⟨ci, hor⟩ := hgs.orders
  have hn : id ∉ h.granted := fun hid => by
    obtain ⟨row, hrw, hb, -⟩ := hlg.row id hid
    rw [hgs.row] at hrw
    cases hrw
    rw [hgs.pending] at hb
    cases hb
  have hrw : ∀ other ∈ h.granted, h'.db.orders.get? other = h.db.orders.get? other :=
    fun other ho => by
      have hne : other ≠ id := fun heq => hn (heq ▸ ho)
      rw [hor, if_neg hne]
  have hbc : ∀ c, ∀ other ∈ h.granted, h'.inForce c other → h.inForce c other :=
    fun c other ho hfr => inForce_before ho hfr (hr ▸ List.Subset.refl _)
      fun row hg => ⟨row, hrw other ho ▸ hg, rfl⟩
  rw [hgr]
  refine pairwise_append.mpr ⟨?_, pairwise_singleton _ _, fun first hf last hm => ?_⟩
  · refine hsq.imp_of_mem fun {first second} hf hsc hfl c hfr hf' => ?_
    obtain ⟨hlt, row, hg, hs⟩ := hfl c (hbc c first hf hfr) (hbc c second hsc hf')
    exact ⟨hlt, row, (hrw second hsc).trans hg, hs⟩
  · rw [mem_singleton.mp hm]
    intro c hfr hf'
    obtain ⟨-, -, row, hg, hcl, ht⟩ := inForce_iff.mp hf'
    rw [hor, if_pos rfl] at hg
    cases hg
    have hle := hl ht first (hcl ▸ hbc c first hf hfr)
    have hne : first ≠ id := fun heq => hn (heq ▸ hf)
    exact ⟨lt_of_le_of_ne hle hne, _, (hor id).trans (if_pos rfl), rfl⟩

theorem follows_refund {r : Bool} (hrf : Refunds h.db h'.db id r order)
    (hgr : h'.granted = h.granted) (hr : h'.revoked = h.revoked ++ revocation (some (id, r)))
    (hfr : r = false → 0 < order.grantTraffic →
      ∀ other, h.inForce order.clientId other → id ≤ other) (hsq : h.granted.Pairwise h.Follows) :
    h'.granted.Pairwise h'.Follows := by
  have hrw : ∀ other new, h'.db.orders.get? other = some new →
      ∃ o, h.db.orders.get? other = some o ∧ new.bought = o.bought := fun other new hn => by
    rw [hrf.orders] at hn
    split at hn
    next heq =>
      cases hn
      exact ⟨order, heq ▸ hrf.row, rfl⟩
    · exact ⟨new, hn, rfl⟩
  have hb : ∀ client, ∀ other ∈ h.granted, h'.inForce client other → h.inForce client other :=
    fun client other ho hfc => inForce_before ho hfc (hr ▸ subset_append_left _ _) (hrw other)
  rw [hgr]
  refine hsq.imp_of_mem fun {first second} hm hm' hfl client hfc hf' => ?_
  have hol := hb client first hm hfc
  have ho' := hb client second hm' hf'
  obtain ⟨hlt, row, hg, hs⟩ := hfl client hol ho'
  refine ⟨hlt, row, ?_, hs⟩
  rw [hrf.orders]
  split
  next heq =>
    -- the later of the two is refunded: its grant is taken back, or the earlier one forbids it
    exfalso
    subst heq
    cases r with
    | true => exact hf'.2.1 (hr ▸ mem_append_right _ (mem_singleton_self _))
    | false =>
      obtain ⟨-, -, found, hf, hcl, ht⟩ := inForce_iff.mp ho'
      rw [hrf.row] at hf
      cases hf
      exact absurd (hfr rfl ht first (hcl ▸ hol)) hlt.not_ge
  · exact hg

theorem follows_step {a : Action} (hl : Logged h) (hok : inSequence h a) (hst : Step h h' a)
    (hsq : h.granted.Pairwise h.Follows) :
    h'.granted.Pairwise h'.Follows := by
  cases hst with
  | edit hft heq =>
    subst heq
    exact follows_keeps hl (.refl _) rfl rfl hsq
  | @call call reply hp he hgr hrv =>
    obtain ⟨hc, hk⟩ := hok
    have hcn : ∀ id ∈ call.grants reply, call.confirms = some id := fun _ => perform_confirms hp
    have hrw : ∀ id ∈ call.grants reply, ∃ o, h.db.orders.get? id = some o := fun _ =>
      perform_grants_row hp
    generalize hgs : call.grants reply = grants at he hgr hcn hrw
    generalize hrf : call.refunds h.db = refunds at he hrv hk
    cases he with
    | still hs =>
      exact follows_keeps hl hs.orders (hgr.trans (append_nil _)) (hrv.trans (append_nil _)) hsq
    | @grant m id o client us os hs hg =>
      have hm : Logged { h with db := m } := hl.keeps hs.orders rfl rfl
      refine follows_grant hm hg hgr (hrv.trans (append_nil _)) ?_
        (follows_keeps hl hs.orders rfl rfl hsq)
      obtain ⟨ol, ho⟩ := hrw id (mem_singleton_self id)
      obtain ⟨new, hn, hq⟩ := hs.orders.row ho
      rw [hg.row] at hn
      cases hn
      have hcl : o.clientId = ol.clientId := congrArg Bought.clientId hq.bought
      have ht : o.grantTraffic = ol.grantTraffic := congrArg Bought.grantTraffic hq.bought
      rw [hcl, ht]
      intro hps other hf
      refine hc id (hcn id (mem_singleton_self id)) ol ho hps other hf.1 ?_
      refine inForce_before hf.1 hf (List.Subset.refl _) fun new hn => ?_
      obtain ⟨row, hgt, hb, -⟩ := hl.bought_of_keeps hs.orders hf.1 hn
      exact ⟨row, hgt, hb⟩
    | @refund id revoke o hr =>
      refine follows_refund hr (hgr.trans (append_nil _)) hrv ?_ hsq
      rintro rfl hps other hf
      exact hk (id, false) rfl rfl o hr.row hps other hf.1 hf

theorem reachable_inSequence (hr : ((histories History.fresh).guarded inSequence).Reachable h) :
    Logged h ∧ h.granted.Pairwise h.Follows := by
  refine hr.invariant (I := fun h => Logged h ∧ h.granted.Pairwise h.Follows)
    (fun hf => ⟨logged_fresh hf, ?_⟩) ?_
  · rw [hf.1]
    exact .nil
  · rintro h a h' ⟨hl, hsq⟩ ⟨hok, hs⟩
    exact ⟨hl.step (step_cases hs), follows_step hl hok (step_cases hs) hsq⟩

/-- The live counters are written by a revocation of traffic that finds no newer order. -/
theorem writes_usage {c : Client} {g : Tariff} {r : Bool}
    (h : (buildRefundClientUpdates c order g now r).up.isSome = true ∨
      (buildRefundClientUpdates c order g now r).down.isSome = true) :
    0 < g.addTrafficBytes ∧ r = true := by
  have hdy : ∀ us : ClientUpdates, (if 0 < g.addDays ∧ 0 < c.expiry then
      { expiry := some (max (sub64 c.expiry (g.addDays * 86400)) now) } else {}) = us →
      us.up = none ∧ us.down = none := fun us hu => by
    rw [← hu]
    split <;> exact ⟨rfl, rfl⟩
  simp only [buildRefundClientUpdates] at h
  split at h
  next ht =>
    refine ⟨ht, ?_⟩
    cases r with
    | true => rfl
    | false => simp at h
  · obtain ⟨hup, hd⟩ := hdy _ rfl
    rw [hup, hd] at h
    simp at h

/-- In every history in sequence, a refund with revocation that writes the live counters of the client
refunds the last of the grants of traffic that are in force. -/
theorem revocation_restores_last {h : History}
    (hreach : ((histories History.fresh).guarded inSequence).Reachable h) {call : Call} {db : Database}
    {reply : Reply} (hcall : perform h.db call = .ok (db, reply)) {id : ℕ}
    (hrevoke : call.refunds h.db = some (id, true)) {order : PaymentOrder}
    (horder : h.db.orders.get? id = some order) {grant : Tariff}
    (hgrant : grantForOrder order = .ok grant) {client : Client} {now : ℤ}
    (hwrites :
      (buildRefundClientUpdates client order grant now (restoreLiveUsage h.db order grant)).up.isSome ∨
      (buildRefundClientUpdates client order grant now (restoreLiveUsage h.db order grant)).down.isSome) :
    ∀ other, [id, other].Sublist h.granted → ¬h.inForce order.clientId other := by
  intro other hl hfr
  obtain ⟨hlg, hsq⟩ := reachable_inSequence hreach
  obtain ⟨ht, hrs⟩ := writes_usage hwrites
  obtain ⟨-, -, hg⟩ := grantForOrder_ok hgrant
  have he := perform_effect hcall
  rw [hrevoke] at he
  generalize call.grants reply = grants at he
  cases he with
  | @refund _ _ found hrf =>
    have hf := hrf.row
    rw [horder] at hf
    cases hf
    have hb : order.status.stage.idle = false := by rw [hrf.granted]; rfl
    have hsl : h.inForce order.clientId id := by
      refine ⟨hlg.logged horder hb, fun hr => ?_, order, horder, rfl, ?_⟩
      · obtain ⟨row, hrw, hs⟩ := hlg.revoked id hr
        rw [horder] at hrw
        cases hrw
        rw [hrf.granted] at hs
        cases hs
      · rwa [hg] at ht
    have hp : [id, other].Pairwise h.Follows := hsq.sublist hl
    obtain ⟨hlt, later, hrw, hs⟩ := (pairwise_pair.mp hp) order.clientId hsl hfr
    -- the later grant is found by the search for newer orders
    obtain ⟨hin, -, row, hr', hcl, hps⟩ := inForce_iff.mp hfr
    obtain ⟨l, hr'', -, hsn⟩ := hlg.row other hin
    rw [hrw] at hr' hr''
    cases hr'
    cases hr''
    have hid : order.id = id := (Keyed.get?_eq_some.mp horder).2
    have hid' : later.id = other := (Keyed.get?_eq_some.mp hrw).2
    have hn : newerTrafficOrder order later = true := by
      have hst : later.status = .paid ∨ later.status = .refundPending := by
        revert hs
        cases later.status <;> simp [Status.stage]
      simp [newerTrafficOrder, hcl, hid, hid', hlt, hst, hsn, hps]
    have hnn : h.db.orders.affected (newerTrafficOrder order) = 0 := by
      simpa [restoreLiveUsage, ht.not_ge] using hrs
    exact countP_eq_zero.mp hnn later (Keyed.get?_eq_some.mp hrw).1 hn

/-! ## Two orders of traffic -/

/-- An order of traffic for the first client. -/
def traffic (key : Char) (bytes : ℤ) : Call :=
  .create { clientId := 1, tariffId := 1, tariff := { addDays := 0, addTrafficBytes := bytes },
            kind := .stripe, amount := 100, currency := "RUB".toList, tgUserID := 7,
            idempotencyKey := [key], now := 0, ttlMinutes := 30 }

/-- A client with some traffic in its window, and no orders. -/
def start (client : Client) : History :=
  { db := { orders := .empty, cancellations := .empty, cursors := [], clients := [client] } }

def customer : Client := { id := 1, volume := 5000, up := 100, down := 200 }

theorem start_fresh (c : Client) : (start c).fresh := ⟨rfl, rfl, fun _ h => nomatch h⟩

/-- Both orders are granted in the order of their ids, with traffic between. -/
def sequenceRun : List Action :=
  [.call (traffic 'a' 1000), .call (traffic 'b' 1000), .call (.applyPaid 1 "ca".toList 10),
    .edit { customer with volume := 6000, up := 50, down := 60, totalUp := 100, totalDown := 200 },
    .call (.applyPaid 2 "cb".toList 20)]

theorem sequenceRun_runs : (sequenceRun.foldlM
    (fun h a => if decide (inSequence h a) then h.step a else none)
    (start customer)).isSome = true := by decide +kernel

def sequenced : History := Option.get _ sequenceRun_runs

theorem sequenced_reachable : ((histories History.fresh).guarded inSequence).Reachable sequenced := by
  have hl := System.later_guarded_of_run (S := histories History.fresh) (fun hs => hs)
    (Option.some_get sequenceRun_runs).symm
  simp only [decide_eq_true_eq] at hl
  exact ⟨start customer, start_fresh customer, hl⟩

/-- The second order, granted behind the window of the first. -/
def second : PaymentOrder :=
  { id := 2, clientId := 1, tariffId := 1, provider := .stripe, amount := 100,
    currency := "RUB".toList, status := .paid, telegramUserId := 7, idempotencyKey := ['b'],
    providerChargeID := "cb".toList, expiresAt := 1800, grantTraffic := 1000, grantSnapshot := true,
    grantedUp := 50, grantedDown := 60 }

theorem revocation_restores_last_second :
    sequenced.granted = [1, 2] ∧
      ∀ other, [2, other].Sublist sequenced.granted → ¬sequenced.inForce 1 other := by
  refine ⟨by decide +kernel, ?_⟩
  have hok : (perform sequenced.db (.refund 2 true 30)).isOk = true := by decide +kernel
  have ho : sequenced.db.orders.get? 2 = some second := by decide +kernel
  have hr : restoreLiveUsage sequenced.db second { addDays := 0, addTrafficBytes := 1000 } =
      true := by decide +kernel
  have hgr : grantForOrder second = .ok { addDays := 0, addTrafficBytes := 1000 } := by rfl
  have hw : (buildRefundClientUpdates customer second { addDays := 0, addTrafficBytes := 1000 } 30
      (restoreLiveUsage sequenced.db second { addDays := 0, addTrafficBytes := 1000 })).up.isSome =
        true := by
    rw [hr]
    rfl
  cases hc : perform sequenced.db (.refund 2 true 30) with
  | error e => rw [hc] at hok; cases hok
  | ok result => exact revocation_restores_last sequenced_reachable hc rfl ho hgr (.inl hw)

/-- The second order is granted first, and the first one behind it. -/
def crossedRun : List Action :=
  [.call (traffic 'a' 1000), .call (traffic 'b' 1000), .call (.applyPaid 2 "cb".toList 10),
    .call (.applyPaid 1 "ca".toList 20),
    .edit { customer with volume := 7000, up := 50, down := 60, totalUp := 100, totalDown := 200 }]

theorem crossedRun_runs : (crossedRun.foldlM History.step (start customer)).isSome = true := by
  decide +kernel

def crossed : History := Option.get _ crossedRun_runs

theorem crossed_refunds : (crossed.step (.call (.refund 2 true 30))).isSome = true := by
  decide +kernel

/-- The refund of the second order overwrites the window that the later grant of the first started. -/
theorem crossed_refund_overwrites : ∃ h h', (histories History.fresh).Reachable h ∧
    h.step (.call (.refund 2 true 30)) = some h' ∧ [2, 1].Sublist h.granted ∧ h.inForce 1 1 ∧
    (h.db.client 1).map (fun client => (client.up, client.down)) = some (50, 60) ∧
    (h'.db.client 1).map (fun client => (client.up, client.down)) = some (100, 200) := by
  have hr : (histories History.fresh).Reachable crossed :=
    ⟨start customer, start_fresh customer, System.later_get (fun hs => hs) crossedRun_runs⟩
  exact ⟨crossed, Option.get _ crossed_refunds, hr, (Option.some_get crossed_refunds).symm,
    by decide +kernel, by decide +kernel, by decide +kernel, by decide +kernel⟩

/-! ## Each order once -/

/-- A revoked order is refunded, and only a granted one is revoked. -/
theorem revoked_step {h h' : History} {a : Action} (hl : Logged h) (hst : Step h h' a)
    (hn : h.revoked.Nodup) : h'.revoked.Nodup := by
  cases hst with
  | edit hf heq =>
    subst heq
    exact hn
  | call hp he hgr hrv =>
    generalize Call.grants _ _ = grants at he
    generalize Call.refunds _ _ = refunds at he hrv
    rw [hrv]
    cases he with
    | still | grant => exact (append_nil h.revoked).symm ▸ hn
    | @refund id r order hr =>
      have hid : id ∉ h.revoked := by
        intro hid
        obtain ⟨o, ho, hs⟩ := hl.revoked id hid
        cases hr.row.symm.trans ho
        cases hr.granted.symm.trans hs
      cases r with
      | false => exact (append_nil h.revoked).symm ▸ hn
      | true => exact hn.append (nodup_singleton id) (disjoint_singleton.mpr hid)

/-- In every history an order is granted at most once, its grant is taken back at most once and only
after it was given, and the orders granted are those that are paid or refunded in the table. -/
theorem granted_once {h : History} (hr : (histories History.fresh).Reachable h) :
    h.granted.Nodup ∧ h.revoked.Nodup ∧ h.revoked ⊆ h.granted ∧ ∀ id, id ∈ h.granted ↔
      ∃ order, h.db.orders.get? id = some order ∧ order.status.stage.idle = false := by
  obtain ⟨hl, hn⟩ : Logged h ∧ h.revoked.Nodup := by
    refine hr.invariant (I := fun h => Logged h ∧ h.revoked.Nodup) ?_ ?_
    · exact fun hf => ⟨logged_fresh hf, hf.2.1 ▸ nodup_nil⟩
    · rintro h a h' ⟨hl, hn⟩ hs
      exact ⟨hl.step (step_cases hs), revoked_step hl (step_cases hs) hn⟩
  refine ⟨hl.nodup, hn, fun id hid => ?_, fun id => ⟨fun hid => ?_, ?_⟩⟩
  · obtain ⟨o, ho, hs⟩ := hl.revoked id hid
    exact hl.logged ho (by rw [hs]; rfl)
  · obtain ⟨o, ho, hb, -⟩ := hl.row id hid
    exact ⟨o, ho, hb⟩
  · rintro ⟨o, ho, hb⟩
    exact hl.logged ho hb

theorem granted_once_crossed : crossed.granted = [2, 1] ∧ crossed.granted.Nodup := by
  refine ⟨by decide +kernel, (granted_once ⟨start customer, start_fresh customer, ?_⟩).1⟩
  exact System.later_get (fun hs => hs) crossedRun_runs

end Solovey.Paid
