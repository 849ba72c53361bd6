import Solovey.Data.LastEvent
import Solovey.Paid.Model

/-!
# What a purchase gives a client, and what a refund takes back

The columns of a client that the grant of an order and its revocation write. A grant of traffic
starts a new window: the traffic of the old one goes to the totals and is kept with the order, so
that a revocation can put it back.
-/

namespace Solovey.Paid

open Solovey.Data

def maxInt64 : ℤ := 2 ^ 63 - 1

/-- Subtraction of 64-bit integers. -/
def sub64 (a b : ℤ) : ℤ := Int.bmod (a - b) (2 ^ 64)

inductive Error
  | chargeIdentityEmpty
  | alreadyFinalized
  | recordNotFound
  | constraint
  | durationOverflow
  | expiryOverflow
  | volumeOverflow
  | uploadTotalOverflow
  | downloadTotalOverflow
  | grantSnapshotInvalid
  | purchaseSnapshotMissing
  | refundInProgress
  | refundClaimIdentityMissing
  | refundChargeIdentityInvalid
  | emptyInvoice
  | cancellationIdentityTaken
  deriving DecidableEq, Repr

/-- The part of a tariff that an order keeps a copy of. -/
structure Tariff where
  addDays : ℤ
  addTrafficBytes : ℤ
  deriving DecidableEq, Repr

/-- The columns of a client that an update sets. -/
structure ClientUpdates where
  enable : Option Bool := none
  accessDisableReason : Option AccessDisableReason := none
  expiry : Option ℤ := none
  volume : Option ℤ := none
  totalUp : Option ℤ := none
  totalDown : Option ℤ := none
  up : Option ℤ := none
  down : Option ℤ := none
  deriving DecidableEq, Repr

def ClientUpdates.write (updates : ClientUpdates) (client : Client) : Client where
  id := client.id
  enable := updates.enable.getD client.enable
  accessDisableReason := updates.accessDisableReason.getD client.accessDisableReason
  expiry := updates.expiry.getD client.expiry
  volume := updates.volume.getD client.volume
  up := updates.up.getD client.up
  down := updates.down.getD client.down
  totalUp := updates.totalUp.getD client.totalUp
  totalDown := updates.totalDown.getD client.totalDown

/-- The traffic of the window that a grant closed. -/
structure OrderUpdates where
  grantedUp : Option ℤ := none
  grantedDown : Option ℤ := none
  deriving DecidableEq, Repr

def addNonNegative (left right : ℤ) (error : Error) : Except Error ℤ :=
  if left < 0 ∨ right < 0 ∨ maxInt64 - right < left then .error error else .ok (left + right)

def paidExpiry (client : Client) (tariff : Tariff) (now : ℤ) : Except Error (Option ℤ) :=
  if tariff.addDays ≤ 0 then .ok none
  else if maxInt64 / 86400 < tariff.addDays then .error .durationOverflow
  else
    let base := if client.expiry < now then now else client.expiry
    let extension := tariff.addDays * 86400
    if base < 0 ∨ maxInt64 - extension < base then .error .expiryOverflow
    else .ok (some (base + extension))

/-- A payment lifts a stop for quota or expiry, and no other. -/
def AccessDisableReason.renewable : AccessDisableReason → Bool
  | .none => true
  | .quota => true
  | .expired => true
  | .other _ => false

def AccessDisableReason.renewed (reason : AccessDisableReason) : AccessDisableReason :=
  if reason.renewable then .none else reason

def buildPaidClientUpdates (client : Client) (tariff : Tariff) (now : ℤ) :
    Except Error (ClientUpdates × OrderUpdates) := do
  let expiry ← paidExpiry client tariff now
  let updates : ClientUpdates :=
    { enable := some client.accessDisableReason.renewable
      accessDisableReason := some client.accessDisableReason.renewed
      expiry }
  if tariff.addTrafficBytes ≤ 0 then
    return (updates, {})
  let volume ← addNonNegative client.volume tariff.addTrafficBytes .volumeOverflow
  let totalUp ← addNonNegative client.totalUp client.up .uploadTotalOverflow
  let totalDown ← addNonNegative client.totalDown client.down .downloadTotalOverflow
  return ({ updates with
      volume := some volume, totalUp := some totalUp, totalDown := some totalDown,
      up := some 0, down := some 0 },
    { grantedUp := some client.up, grantedDown := some client.down })

def buildRefundClientUpdates (client : Client) (order : PaymentOrder) (tariff : Tariff) (now : ℤ)
    (restoreLiveUsage : Bool) : ClientUpdates :=
  let days : ClientUpdates :=
    if 0 < tariff.addDays ∧ 0 < client.expiry then
      { expiry := some (max (sub64 client.expiry (tariff.addDays * 86400)) now) }
    else {}
  if 0 < tariff.addTrafficBytes then
    { days with
      volume := some (max (sub64 client.volume tariff.addTrafficBytes) 0)
      totalUp := some (max (sub64 client.totalUp order.grantedUp) 0)
      totalDown := some (max (sub64 client.totalDown order.grantedDown) 0)
      up := if restoreLiveUsage then some order.grantedUp else none
      down := if restoreLiveUsage then some order.grantedDown else none }
  else days

def grantForOrder (order : PaymentOrder) : Except Error Tariff :=
  if order.grantSnapshot then
    if order.amount ≤ 0 ∨ order.grantAddDays < 0 ∨ maxInt64 / 86400 < order.grantAddDays ∨
        order.grantTraffic < 0 then
      .error .grantSnapshotInvalid
    else .ok { addDays := order.grantAddDays, addTrafficBytes := order.grantTraffic }
  else .error .purchaseSnapshotMissing

/-! ## What the functions compute -/

theorem addNonNegative_ok {left right s : ℤ} {e : Error} (h : addNonNegative left right e = .ok s) :
    0 ≤ left ∧ 0 ≤ right ∧ s = left + right ∧ s ≤ maxInt64 := by
  unfold addNonNegative at h
  split at h
  · cases h
  next hb =>
    cases h
    simp only [not_or, not_lt] at hb
    exact ⟨hb.1, hb.2.1, rfl, by linarith [hb.2.2]⟩

theorem grantForOrder_ok {o : PaymentOrder} {g : Tariff} (h : grantForOrder o = .ok g) :
    o.grantSnapshot = true ∧ 0 ≤ o.grantTraffic ∧
      g = { addDays := o.grantAddDays, addTrafficBytes := o.grantTraffic } := by
  unfold grantForOrder at h
  split at h
  next hs =>
    split at h
    · cases h
    next hv =>
      cases h
      simp only [not_or, not_lt] at hv
      exact ⟨hs, hv.2.2.2, rfl⟩
  · cases h

variable {client : Client} {tariff : Tariff} {n : ℤ} {updates : ClientUpdates}
  {orderUpdates : OrderUpdates}

/-- The traffic columns of a grant. -/
theorem buildPaidClientUpdates_ok
    (h : buildPaidClientUpdates client tariff n = .ok (updates, orderUpdates)) :
    (tariff.addTrafficBytes ≤ 0 ∧ updates.volume = none ∧ updates.up = none ∧ updates.down = none ∧
      updates.totalUp = none ∧ updates.totalDown = none ∧ orderUpdates = {}) ∨
    (0 < tariff.addTrafficBytes ∧ 0 ≤ client.volume ∧
      updates.volume = some (client.volume + tariff.addTrafficBytes) ∧
      client.volume + tariff.addTrafficBytes ≤ maxInt64 ∧
      updates.up = some 0 ∧ updates.down = some 0 ∧
      updates.totalUp = some (client.totalUp + client.up) ∧
      updates.totalDown = some (client.totalDown + client.down) ∧
      orderUpdates = { grantedUp := some client.up, grantedDown := some client.down }) := by
  unfold buildPaidClientUpdates at h
  obtain ⟨e, -, h⟩ := bind_ok.mp h
  split at h
  next hn =>
    cases h
    exact .inl ⟨hn, rfl, rfl, rfl, rfl, rfl, rfl⟩
  next ht =>
    obtain ⟨v, hv, h⟩ := bind_ok.mp h
    obtain ⟨tu, hup, h⟩ := bind_ok.mp h
    obtain ⟨td, hd, h⟩ := bind_ok.mp h
    cases h
    obtain ⟨hp, -, rfl, hm⟩ := addNonNegative_ok hv
    obtain ⟨-, -, rfl, -⟩ := addNonNegative_ok hup
    obtain ⟨-, -, rfl, -⟩ := addNonNegative_ok hd
    exact .inr ⟨not_le.mp ht, hp, rfl, hm, rfl, rfl, rfl, rfl, rfl⟩

/-! ## What a grant leaves -/

/-- The expiry allows access at a moment, as `Active` reads it. -/
def Client.unexpired (client : Client) (moment : ℤ) : Bool :=
  client.expiry ≤ 0 || moment ≤ client.expiry

/-- `clientTrafficOverLimitCondition` after further traffic. -/
def Client.overLimit (client : Client) (up down : ℤ) : Bool :=
  let up := client.up + up
  let down := client.down + down
  0 < client.volume &&
    (client.volume < up || client.volume < down || client.volume - down < up)

theorem paidExpiry_ok {e : Option ℤ} (h : paidExpiry client tariff n = .ok e) :
    tariff.addDays ≤ 0 ∧ e = none ∨
      ∃ later, e = some later ∧ 0 < tariff.addDays ∧ client.expiry ≤ later := by
  unfold paidExpiry at h
  split at h
  next hd =>
    cases h
    exact .inl ⟨hd, rfl⟩
  next hd =>
    split at h
    · cases h
    · generalize hb : (if client.expiry < n then n else client.expiry) = base at h
      have hle : client.expiry ≤ base := by
        rw [← hb]
        split <;> omega
      dsimp only at h
      split at h
      · cases h
      · cases h
        exact .inr ⟨_, rfl, by omega, by omega⟩

section

variable (h : buildPaidClientUpdates client tariff n = .ok (updates, orderUpdates))
include h

/-- The expiry of a grant, and the counters that a grant of traffic finds. -/
theorem buildPaidClientUpdates_expiry : paidExpiry client tariff n = .ok updates.expiry ∧
    (0 < tariff.addTrafficBytes → 0 ≤ client.up ∧ 0 ≤ client.down) := by
  unfold buildPaidClientUpdates at h
  obtain ⟨e, he, h⟩ := bind_ok.mp h
  rw [he]
  split at h
  next hn =>
    cases h
    exact ⟨rfl, fun ht => absurd ht (not_lt.mpr hn)⟩
  · obtain ⟨v, -, h⟩ := bind_ok.mp h
    obtain ⟨tu, hu, h⟩ := bind_ok.mp h
    obtain ⟨td, hd, h⟩ := bind_ok.mp h
    cases h
    exact ⟨rfl, fun _ => ⟨(addNonNegative_ok hu).2.1, (addNonNegative_ok hd).2.1⟩⟩

/-- A grant takes no access from a client that has the limits it adds to; a client without a limit
gets the one of the tariff. -/
theorem grant_keeps_access :
    (tariff.addDays ≤ 0 ∨ 0 < client.expiry → ∀ moment,
      client.unexpired moment = true → (updates.write client).unexpired moment = true) ∧
    (tariff.addTrafficBytes ≤ 0 ∨ 0 < client.volume → ∀ up down, 0 ≤ up → 0 ≤ down →
      client.overLimit up down = false → (updates.write client).overLimit up down = false) := by
  obtain ⟨he, hp⟩ := buildPaidClientUpdates_expiry h
  refine ⟨fun hl moment hu => ?_, fun hl up down hup hd hu => ?_⟩
  · simp only [Client.unexpired, Bool.or_eq_true, decide_eq_true_eq] at hu ⊢
    rcases paidExpiry_ok he with ⟨-, he⟩ | ⟨later, he, ht, hc⟩
    · simpa [ClientUpdates.write, he] using hu
    · simp only [ClientUpdates.write, he, Option.getD_some]
      omega
  · rcases buildPaidClientUpdates_ok h with ⟨-, hv, hu', hd', -⟩ | ⟨ht, -, hv, -, hu', hd', -⟩
    · simpa only [Client.overLimit, ClientUpdates.write, hv, hu', hd', Option.getD_none] using hu
    · have hc := hp ht
      simp only [Client.overLimit, ClientUpdates.write, hv, hu', hd', Option.getD_some,
        ← Bool.not_eq_true, Bool.and_eq_true, Bool.or_eq_true, decide_eq_true_eq] at hu ⊢
      omega

end

def unlimited : Client where
  id := 3

theorem grant_keeps_access_customer : ∃ updates orderUpdates,
    buildPaidClientUpdates { unlimited with expiry := 50 } ⟨30, 0⟩ 20 =
        .ok (updates, orderUpdates) ∧
      (updates.write { unlimited with expiry := 50 }).unexpired 50 = true := by
  have h : buildPaidClientUpdates { unlimited with expiry := 50 } ⟨30, 0⟩ 20 = .ok (_, _) := rfl
  exact ⟨_, _, h, (grant_keeps_access h).1 (by decide) 50 (by decide)⟩

/-- A client without limits buys thirty days and some traffic, and has both limits from then on. -/
theorem grant_limits_client : ∃ updates orderUpdates,
    buildPaidClientUpdates unlimited ⟨30, 1000⟩ 20 = .ok (updates, orderUpdates) ∧
      unlimited.unexpired 9000000 = true ∧ (updates.write unlimited).unexpired 9000000 = false ∧
      unlimited.overLimit 2000 0 = false ∧ (updates.write unlimited).overLimit 2000 0 = true :=
  ⟨_, _, rfl, by decide⟩

end Solovey.Paid
