import Solovey.Paid.Refunds

/-!
# Refunds and the quota

A revocation subtracts the traffic of an order from the client's volume and stops at zero, which
means no limit. An administrator may have lowered the volume below what the orders have added, and a
refund then lifts the quota. It does not while every such change leaves the volume above the traffic
of the orders that can still be revoked: a grant and its revocation move both sides together.
-/

namespace Solovey.Paid

open Solovey.Data List

/-- The traffic that a refund of the order can take back from a client. -/
def revocable (client : ℕ) (order : PaymentOrder) : ℤ :=
  if order.status.stage = .granted ∧ order.clientId = client ∧ 0 < order.grantTraffic
  then order.grantTraffic else 0

/-- The traffic of all orders of a client that can still be revoked. -/
def Database.revocableTraffic (db : Database) (client : ℕ) : ℤ := db.orders.total (revocable client)

/-- The volume of a client is above what refunds can take back. -/
def Database.limited (db : Database) (id : ℕ) : Prop :=
  ∀ client ∈ db.client id, db.revocableTraffic id < client.volume ∧ client.volume ≤ maxInt64

/-- The condition on a step: a change of the client by others leaves its volume above. -/
def keepsLimit (id : ℕ) (h : History) : Action → Prop
  | .edit client => client.id = id → h.db.revocableTraffic id < client.volume
  | .call _ => True

instance (id : ℕ) (h : History) (action : Action) : Decidable (keepsLimit id h action) :=
  match action with
  | .edit _ => inferInstanceAs (Decidable (_ → _))
  | .call _ => isTrue trivial

/-! ## The revocable traffic -/

theorem revocable_nonneg (client : ℕ) (o : PaymentOrder) : 0 ≤ revocable client o := by
  unfold revocable
  split
  next h => exact h.2.2.le
  · exact le_rfl

variable {client : ℕ} {od : PaymentOrder}

theorem revocable_of_not_granted (h : od.status.stage ≠ .granted) : revocable client od = 0 :=
  if_neg fun hgr => h hgr.1

theorem Quiet.revocable {o n : PaymentOrder} (h : Quiet o n) (client : ℕ) :
    revocable client n = revocable client o := by
  have hcl : n.clientId = o.clientId := congrArg Bought.clientId h.bought
  have ht : n.grantTraffic = o.grantTraffic := congrArg Bought.grantTraffic h.bought
  have hgr : n.status.stage = .granted ↔ o.status.stage = .granted := by
    rcases h.stage with hs | ⟨ho, hr⟩
    · rw [hs]
    · rw [ho, hr]
      simp
  unfold Paid.revocable
  simp only [hcl, ht, hgr]

theorem Keeps.revocable {b l : Orders} (h : Keeps b l) (client id : ℕ) :
    (l.get? id).elim 0 (revocable client) = (b.get? id).elim 0 (revocable client) := by
  cases ho : b.get? id with
  | some o =>
    obtain ⟨new, hn, hq⟩ := h.row ho
    rw [hn]
    exact hq.revocable client
  | none =>
    cases hn : l.get? id with
    | none => rfl
    | some new =>
      refine revocable_of_not_granted fun hgr => ?_
      have hi := h.fresh hn ho
      rw [hgr] at hi
      cases hi

variable {db db' : Database}

theorem Still.revocableTraffic (h : Still db db') (client : ℕ) :
    db'.revocableTraffic client = db.revocableTraffic client :=
  Keyed.total_congr fun id => h.orders.revocable client id

theorem revocableTraffic_nonneg (db : Database) (client : ℕ) : 0 ≤ db.revocableTraffic client :=
  sum_nonneg (by simpa using fun od _ => revocable_nonneg client od)

variable {id : ℕ}

/-- The traffic after the change of one order. -/
theorem revocableTraffic_change {o n : PaymentOrder} (ho : db.orders.get? id = some o)
    (hor : ∀ other, db'.orders.get? other =
      if other = id then some n else db.orders.get? other) (client : ℕ) :
    db'.revocableTraffic client =
      db.revocableTraffic client - revocable client o + revocable client n := by
  have hc := Keyed.total_change (t := db.orders) (u := db'.orders) (f := revocable client) id
    fun other hne => by rw [hor, if_neg hne]
  rw [hor, if_pos rfl, ho] at hc
  exact hc

/-! ## The volume -/

theorem client_updateWhere {cs : List Client} {f : Client → Client}
    (hf : ∀ client, client.id = id → (f client).id = id) (o : ℕ) :
    (updateWhere (·.id == id) f cs).find? (·.id == o) =
      (cs.find? (·.id == o)).map fun client => if o = id then f client else client := by
  rw [find?_updateWhere fun client hid => by
    have hs := hf client (beq_iff_eq.mp hid)
    rw [hs, beq_iff_eq.mp hid]]
  cases hfn : cs.find? (·.id == o) with
  | none => rfl
  | some client =>
    have hid : client.id = o := by simpa using find?_some hfn
    simp [hid]

theorem client_id {client : Client} (h : db.client id = some client) :
    client.id = id := by simpa using find?_some h

/-- The volume that a grant leaves. -/
theorem limited_grant {p : Client} {us : ClientUpdates} {os : OrderUpdates}
    (hgs : Grants db db' id od p us os) (hl : db.limited client) :
    db'.limited client := by
  obtain ⟨ci, ho⟩ := hgs.orders
  obtain ⟨grant, now, hgr, hbl⟩ := hgs.built
  obtain ⟨-, -, rfl⟩ := grantForOrder_ok hgr
  have hpn : od.status.stage ≠ .granted := by rw [hgs.pending]; simp [Status.stage]
  have ht := revocableTraffic_change hgs.row ho client
  rw [revocable_of_not_granted hpn, sub_zero] at ht
  have hp : p.id = od.clientId := client_id hgs.payer
  intro row hr
  have hk : ∀ row : Client, row.id = p.id → (us.lifting row).id = p.id := fun _ hid => hid
  rw [Database.client, hgs.clients, client_updateWhere hk] at hr
  obtain ⟨o, hol, hnw⟩ := Option.map_eq_some_iff.mp (Option.mem_def.mp hr)
  obtain ⟨hb, hm⟩ := hl o hol
  rw [ht]
  by_cases hcl : client = p.id
  · rw [if_pos hcl] at hnw
    subst hnw
    have hs : o = p := by
      have hg := hgs.payer
      rw [← hp, ← hcl] at hg
      exact Option.some.inj (hol.symm.trans hg)
    subst hs
    rcases buildPaidClientUpdates_ok hbl with ⟨hn, hv, -⟩ | ⟨htr, -, hv, hsm, -⟩
    · have hz : revocable client (os.write (od.charged ci)) = 0 := if_neg fun h => h.2.2.not_ge hn
      simpa [hz, ClientUpdates.lifting, ClientUpdates.write, hv] using ⟨hb, hm⟩
    · have ha : revocable client (os.write (od.charged ci)) =
          od.grantTraffic := if_pos ⟨rfl, hp.symm.trans hcl.symm, htr⟩
      simp only [ha, ClientUpdates.lifting, ClientUpdates.write, hv, Option.getD_some]
      exact ⟨by linarith, hsm⟩
  · rw [if_neg hcl] at hnw
    subst hnw
    have hz : revocable client (os.write (od.charged ci)) = 0 :=
      if_neg fun h => hcl (h.2.1.symm.trans hp.symm)
    rw [hz, add_zero]
    exact ⟨hb, hm⟩

/-- A difference of volumes that is in range. -/
theorem sub64_eq {a b : ℤ} (hl : 0 ≤ a - b) (hh : a - b ≤ maxInt64) : sub64 a b = a - b := by
  unfold sub64 maxInt64 at *
  rw [Int.bmod_def]
  split <;> omega

/-- The volume column of a revocation. -/
theorem refund_volume {client : Client} {g : Tariff} {n : ℤ} {r : Bool}
    (hl : g.addTrafficBytes ≤ client.volume) (hh : client.volume ≤ maxInt64) :
    (buildRefundClientUpdates client od g n r).volume =
      if 0 < g.addTrafficBytes then some (client.volume - g.addTrafficBytes) else none := by
  simp only [buildRefundClientUpdates]
  split
  next ht =>
    have hs : sub64 client.volume g.addTrafficBytes = client.volume - g.addTrafficBytes :=
      sub64_eq (by linarith) (by linarith)
    have hp : 0 ≤ client.volume - g.addTrafficBytes := by linarith
    dsimp only
    rw [hs, max_eq_left hp]
  · split <;> rfl

/-- The volume that a revocation leaves is what is above the traffic that is left to revoke. -/
theorem limited_refund {r : Bool} (hrf : Refunds db db' id r od) (hl : db.limited client) :
    db'.limited client := by
  have ht := revocableTraffic_change hrf.row hrf.orders client
  have ha : revocable client od.refunding = 0 :=
    revocable_of_not_granted (by simp [PaymentOrder.refunding, Status.stage])
  rw [ha, add_zero] at ht
  have hle : revocable client od ≤ db.revocableTraffic client :=
    Keyed.le_total (revocable_nonneg client) (Keyed.get?_eq_some.mp hrf.row).1
  have hnn := revocable_nonneg client od
  intro row hr
  rw [ht]
  cases r with
  | false =>
    rw [Database.client, hrf.kept rfl] at hr
    obtain ⟨hb, hm⟩ := hl row hr
    exact ⟨by linarith, hm⟩
  | true =>
    obtain ⟨grant, p, now, hgr, hp, hc⟩ := hrf.revoked rfl
    obtain ⟨-, -, hg⟩ := grantForOrder_ok hgr
    have hby : grant.addTrafficBytes = od.grantTraffic := by rw [hg]
    generalize restoreLiveUsage _ _ _ = restore at hc
    have hk : ∀ us : ClientUpdates, ∀ row : Client, row.id = p.id →
        (us.write row).id = p.id := fun _ _ hid => hid
    rw [Database.client, hc, client_updateWhere (hk _)] at hr
    obtain ⟨o, ho, hn⟩ := Option.map_eq_some_iff.mp (Option.mem_def.mp hr)
    obtain ⟨hb, hm⟩ := hl o ho
    by_cases hcl : client = p.id
    · rw [if_pos hcl] at hn
      subst hn
      have hs : o = p := by
        have hgt := hp
        rw [← client_id hp, ← hcl] at hgt
        exact Option.some.inj (ho.symm.trans hgt)
      subst hs
      have hv : 0 < od.grantTraffic → revocable client od = od.grantTraffic := fun htr =>
          if_pos ⟨hrf.granted, (client_id hp).symm.trans hcl.symm, htr⟩
      have hlw : od.grantTraffic ≤ o.volume := by
        by_cases htr : 0 < od.grantTraffic
        · linarith [hv htr]
        · linarith
      simp only [ClientUpdates.write, refund_volume (hby ▸ hlw) hm, hby]
      split
      next htr =>
        rw [hv htr, Option.getD_some]
        exact ⟨by linarith, by linarith⟩
      · rw [Option.getD_none]
        exact ⟨by linarith, hm⟩
    · rw [if_neg hcl] at hn
      subst hn
      exact ⟨by linarith, hm⟩

theorem limited_step {h h' : History} {a : Action} (hok : keepsLimit id h a) (hst : Step h h' a)
    (hl : h.db.limited id) : h'.db.limited id := by
  cases hst with
  | @edit client hf heq =>
    subst heq
    intro row hrw
    rw [Database.client, client_updateWhere fun _ _ => rfl] at hrw
    obtain ⟨o, ho, hn⟩ := Option.map_eq_some_iff.mp (Option.mem_def.mp hrw)
    split at hn
    next hid =>
      subst hn
      have hm : client.volume ≤ maxInt64 := by
        simp only [Client.fits, all_cons, Bool.and_eq_true, decide_eq_true_eq] at hf
        exact hf.2.1.2
      exact ⟨hok hid.symm, hm⟩
    · subst hn
      exact hl o ho
  | call hp he hgr hr =>
    generalize Call.grants _ _ = grants at he
    generalize Call.refunds _ _ = refunds at he
    have hs : ∀ {db}, Still h.db db → db.limited id := fun {db} hs row hrw => by
      rw [hs.revocableTraffic]
      rw [Database.client, hs.clients] at hrw
      exact hl row hrw
    cases he with
    | still h => exact hs h
    | grant hb hg => exact limited_grant hg (hs hb)
    | refund hrf => exact limited_refund hrf hl

/-- In every history in which the changes of others leave the client's volume above what refunds can
take back, the volume stays positive. -/
theorem refund_keeps_quota (id : ℕ) {h : History}
    (hreach : ((histories fun h => h.db.limited id).guarded (keepsLimit id)).Reachable h) :
    ∀ client ∈ h.db.client id, 0 < client.volume := by
  have hl : h.db.limited id := by
    refine hreach.invariant (I := fun h => h.db.limited id) (fun hi => hi) ?_
    rintro h a h' hl ⟨hok, hs⟩
    exact limited_step hok (step_cases hs) hl
  intro client hcl
  exact (revocableTraffic_nonneg h.db id).trans_lt (hl client hcl).1

/-! ## An order of traffic and its refund -/

/-- One order is paid, an administrator sets the volume, and the order is refunded. -/
def refundRun (bytes volume : ℤ) : List Action :=
  [.call (traffic 'a' bytes), .call (.applyPaid 1 "ca".toList 10), .edit { customer with volume },
    .call (.refund 1 true 20)]

theorem refundRun_runs : ((refundRun 1000 1500).foldlM
    (fun h a => if decide (keepsLimit 1 h a) then h.step a else none)
    (start customer)).isSome = true := by decide +kernel

theorem refund_keeps_quota_lowered :
    ((Option.get _ refundRun_runs).db.client 1).isSome = true ∧
      ∀ client ∈ (Option.get _ refundRun_runs).db.client 1, 0 < client.volume := by
  refine ⟨by decide +kernel, ?_⟩
  have hl := System.later_guarded_of_run (S := histories fun h => h.db.limited 1)
    (fun hs => hs) (Option.some_get refundRun_runs).symm
  simp only [decide_eq_true_eq] at hl
  have hi : (start customer).db.limited 1 := by
    unfold Database.limited
    decide +kernel
  exact refund_keeps_quota 1 ⟨start customer, hi, hl⟩

/-- The volume is only changed to positive values. -/
def positiveEdits (_ : History) : Action → Prop
  | .edit client => 0 < client.volume
  | .call _ => True

instance (h : History) (action : Action) : Decidable (positiveEdits h action) :=
  match action with
  | .edit _ => inferInstanceAs (Decidable (_ < _))
  | .call _ => isTrue trivial

theorem liftingRun_runs : ((refundRun 1000 50).foldlM
    (fun h a => if decide (positiveEdits h a) then h.step a else none)
    (start customer)).isSome = true := by decide +kernel

/-- A volume that was lowered to 50 is refunded to no limit. -/
theorem refund_lifts_quota : ∃ h, ((histories fun h => h.fresh ∧
      ∀ client ∈ h.db.client 1, 0 < client.volume).guarded positiveEdits).Reachable h ∧
    ∃ client ∈ h.db.client 1, client.volume = 0 := by
  have hl := System.later_guarded_of_run (S := histories fun h => h.fresh ∧
    ∀ client ∈ h.db.client 1, 0 < client.volume) (fun hs => hs)
    (Option.some_get liftingRun_runs).symm
  simp only [decide_eq_true_eq] at hl
  have hi : ∀ client ∈ (start customer).db.client 1, 0 < client.volume := by decide +kernel
  exact ⟨Option.get _ liftingRun_runs, ⟨start customer, ⟨start_fresh customer, hi⟩, hl⟩,
    by decide +kernel⟩

end Solovey.Paid
