import Mathlib.Data.List.Sort
import Mathlib.Data.Prod.Lex
import Solovey.Data.Keyed
import Solovey.Text.Strings

/-!
# The members of a remote group

`components/remote-outbound-subscriptions/domain/dependencies.go` and `group_actions.go`: the
connections that a group names are synced along with it. When the group is turned off, those that
nothing else needs are unsynced, in the order in which the group names them. The loop ends at the
first member that is still needed.
-/

namespace Solovey.RemoteOutbound.Members

open Solovey.Data Solovey.Text List

structure Connection where
  id : ℕ
  subscriptionId : ℕ
  sortOrder : ℤ := 0
  name : Str := []
  sourceKey : Str := []
  type : Str := []
  outboundTag : Str := []
  synced : Bool := true
  outboundId : Option ℕ := none
  /-- What `groupMemberRefs` reads in the options. -/
  memberRefs : List Str := []
  deriving DecidableEq, Repr

/-- The tables; `other` is what holds the outbounds and all that refers to them. -/
structure Tables (W : Type*) where
  connections : Keyed Connection (·.id)
  /-- The group and the connection of each row of the link table. -/
  links : List (ℕ × ℕ)
  enabledGroups : List ℕ
  other : W

def groupTypes : List Str :=
  ["bandwidth-limiter".toList, "connection-limiter".toList, "rate-limiter".toList,
    "traffic-limiter".toList, "selector".toList, "urltest".toList, "failover".toList, "bond".toList,
    "core-failover".toList]

def remoteConnectionIsGroup (c : Connection) : Bool := groupTypes.contains c.type

section

variable {W : Type*} (lower : Str → Str) (delete : Tables W → Connection → Option W)

/-- `lower` is `strings.ToLower`. -/
def normalizeLabel (value : Str) : Str := (lower (trimSpace value)).filter (!isSpace ·)

def connectionMatchesMemberRef (c : Connection) (ref : Str) : Bool :=
  let ref := trimSpace ref
  ref ≠ [] && [c.name, c.sourceKey, c.outboundTag].any fun candidate =>
    trimSpace candidate = ref || normalizeLabel lower candidate = normalizeLabel lower ref

def groupDependencyConnections (s : Tables W) (group : Connection) : List Connection :=
  if group.subscriptionId = 0 then []
  else
    let connections := (s.connections.rows.filter (·.subscriptionId = group.subscriptionId))
      |>.insertionSort fun a b => toLex (a.sortOrder, a.id) ≤ toLex (b.sortOrder, b.id)
    group.memberRefs.foldl (fun result ref => result ++ (connections.find? fun c =>
      c.id ≠ group.id && result.all (·.id ≠ c.id) && connectionMatchesMemberRef lower c ref).toList) []

def connectionUsesOutboundEnabledGroup (s : Tables W) (id : ℕ) : Bool :=
  s.links.any fun link => link.2 = id && s.enabledGroups.contains link.1

def dependencyUsedBySyncedGroup (s : Tables W) (member : Connection) : Bool :=
  member.subscriptionId ≠ 0 && (connectionUsesOutboundEnabledGroup s member.id ||
    s.connections.rows.any fun c =>
      (c.subscriptionId = member.subscriptionId && c.synced && c.id ≠ member.id) &&
        remoteConnectionIsGroup c && c.memberRefs.any (connectionMatchesMemberRef lower member))

def Connection.unsynced (c : Connection) : Connection := { c with synced := false, outboundId := none }

theorem Connection.unsynced_id (c : Connection) : c.unsynced.id = c.id := rfl

/-- `delete` is `deleteLinkedOutbound`. -/
def unsyncConnectionFromOutbound (s : Tables W) (c : Connection) : Option (Tables W) :=
  (delete s c).map fun other =>
    { s with
      connections := s.connections.update (·.id = c.id) (fun row => { c.unsynced with id := row.id })
        fun _ => rfl
      other }

def unsyncConnectionIfNoOutboundGroup (s : Tables W) (id : ℕ) : Option (Bool × Tables W) :=
  if connectionUsesOutboundEnabledGroup s id then some (false, s)
  else
    match s.connections.get? id with
    | none => none
    | some c =>
      if c.synced then (unsyncConnectionFromOutbound delete s c).map (true, ·) else some (false, s)

/-- The loop of `unsyncGroupDependenciesIfUnused`. -/
def unsyncMembers : Tables W → ℕ → List Connection → Option (ℕ × Tables W)
  | s, removed, [] => some (removed, s)
  | s, removed, member :: rest =>
    if !member.synced then unsyncMembers s removed rest
    else if dependencyUsedBySyncedGroup lower s member then some (removed, s)
    else
      match unsyncConnectionIfNoOutboundGroup delete s member.id with
      | none => none
      | some (changed, s) => unsyncMembers s (if changed then removed + 1 else removed) rest

def unsyncGroupDependenciesIfUnused (s : Tables W) (group : Connection) : Option (ℕ × Tables W) :=
  unsyncMembers lower delete s 0 (groupDependencyConnections lower s group)

end

/-! ## Members that are gone -/

variable {W : Type*} {lower : Str → Str} {delete : Tables W → Connection → Option W}
  {s t : Tables W} {group m : Connection} {members : List Connection} {r n : ℕ}

/-- The tables in which the synced ones of these members are unsynced. -/
def Tables.release (s : Tables W) (members : List Connection) : Tables W :=
  { s with
    connections := s.connections.update (fun c => members.any fun m => m.synced && m.id = c.id)
      (·.unsynced) Connection.unsynced_id }

theorem release_nil : s.release [] = s := by
  unfold Tables.release
  rw [Keyed.update_eq_self (by simp)]

theorem release_of_not_synced (h : m.synced = false) : s.release [m] = s := by
  unfold Tables.release
  rw [Keyed.update_eq_self (by simp [h])]

theorem release_cons : s.release (m :: members) = (s.release [m]).release members := by
  unfold Tables.release
  congr 1
  refine Keyed.ext ?_ rfl
  simp only [Keyed.rows_update, List.map_map]
  refine map_congr_left fun c _ => ?_
  simp only [any_cons, any_nil, Bool.or_false, Function.comp_apply]
  by_cases h : (m.synced && m.id = c.id) = true
  · simp [h, Connection.unsynced]
  · simp [h]

theorem save_eq_release (hm : m ∈ s.connections.rows) (h : m.synced = true) :
    s.connections.update (·.id = m.id) (fun row => { m.unsynced with id := row.id })
      (fun _ => rfl) = (s.release [m]).connections := by
  dsimp only [Tables.release]
  refine Keyed.update_congr fun c hc => ?_
  by_cases hid : c.id = m.id
  · have heq : c = m := Keyed.eq_of_key hc hm hid
    subst heq
    simp [h, Connection.unsynced]
  · simp [hid, Ne.symm hid]

theorem get?_release (id : ℕ) : (s.release members).connections.get? id =
    (s.connections.get? id).map fun c =>
      if (members.any fun m => m.synced && m.id = c.id) then c.unsynced else c := by
  simp only [Tables.release, Keyed.get?_update]

/-- Unsyncing members makes no other one needed. -/
theorem used_of_release (h : dependencyUsedBySyncedGroup lower (s.release members) m = true) :
    dependencyUsedBySyncedGroup lower s m = true := by
  simp only [dependencyUsedBySyncedGroup, Bool.and_eq_true, Bool.or_eq_true, any_eq_true] at h ⊢
  obtain ⟨hs, hu | ⟨c, hc, hc'⟩⟩ := h
  · exact ⟨hs, .inl hu⟩
  rw [Tables.release, Keyed.mem_rows_update] at hc
  obtain ⟨o, ho, heq⟩ := hc
  split at heq
  next =>
    subst heq
    simp [Connection.unsynced] at hc'
  next =>
    subst heq
    exact ⟨hs, .inr ⟨o, ho, hc'⟩⟩

/-! ## The loop -/

theorem unsyncConnectionIfNoOutboundGroup_eq (hm : m ∈ s.connections.rows)
    (hsb : m.subscriptionId ≠ 0) (hs : m.synced = true)
    (hu : dependencyUsedBySyncedGroup lower s m = false) :
    unsyncConnectionIfNoOutboundGroup delete s m.id =
      (delete s m).map fun other => (true, { s.release [m] with other }) := by
  have hus : connectionUsesOutboundEnabledGroup s m.id = false := by
    simp only [dependencyUsedBySyncedGroup, Bool.and_eq_false_iff, Bool.or_eq_false_iff] at hu
    rcases hu with hu | hu
    · simp [hsb] at hu
    · exact hu.1
  rw [unsyncConnectionIfNoOutboundGroup, hus, Keyed.mem_rows_iff.mp hm]
  simp only [Bool.false_eq_true, if_false, hs, if_true, unsyncConnectionFromOutbound,
    save_eq_release hm hs, Option.map_map]
  rfl

/-- What the loop leaves behind: the members of a first part are unsynced, each of them unused when
its turn came, and behind it there is nothing, or a member that is still used. -/
def Released (lower : Str → Str) (s : Tables W) (members : List Connection) (t : Tables W) : Prop :=
  ∃ gone rest, members = gone ++ rest ∧ t = { s.release gone with other := t.other } ∧
    (∀ before x after, gone = before ++ x :: after → x.synced = true →
      dependencyUsedBySyncedGroup lower (s.release before) x = false) ∧
    ∀ x after, rest = x :: after →
      x.synced = true ∧ dependencyUsedBySyncedGroup lower (s.release gone) x = true

theorem Released.cons {other : W} (h : Released lower { s.release [m] with other } members t)
    (hu : m.synced = true → dependencyUsedBySyncedGroup lower s m = false) :
    Released lower s (m :: members) t := by
  obtain ⟨g, rest, rfl, ht, hb, hr⟩ := h
  refine ⟨m :: g, rest, rfl, ?_, fun before x after heq hs => ?_, ?_⟩
  · rw [release_cons]
    exact ht
  · cases before with
    | nil =>
      cases heq
      rw [release_nil]
      exact hu hs
    | cons y before =>
      cases heq
      rw [release_cons]
      exact hb before x after rfl hs
  · rw [release_cons]
    exact hr

/-- Different rows of subscriptions. -/
structure Listed (s : Tables W) (members : List Connection) : Prop where
  row : ∀ m ∈ members, m ∈ s.connections.rows ∧ m.subscriptionId ≠ 0
  nodup : (members.map (·.id)).Nodup

theorem unsyncMembers_spec (hm : Listed s members)
    (h : unsyncMembers lower delete s r members = some (n, t)) :
    Released lower s members t := by
  induction members generalizing s r with
  | nil =>
    cases h
    exact ⟨[], [], rfl, by rw [release_nil], by simp, by simp⟩
  | cons m members ih =>
    obtain ⟨hne, hn⟩ := nodup_cons.mp hm.nodup
    -- the rows of the members behind this one are still what they were
    have hrs : Listed (s.release [m]) members := by
      refine ⟨fun x hx => ?_, hn⟩
      obtain ⟨hrw, hsb⟩ := hm.row x (mem_cons_of_mem _ hx)
      have hid : m.id ≠ x.id := fun heq => hne (mem_map.mpr ⟨x, hx, heq.symm⟩)
      rw [Tables.release, Keyed.mem_rows_update]
      exact ⟨⟨x, hrw, if_neg (by simp [hid])⟩, hsb⟩
    obtain ⟨hrw, hsb⟩ := hm.row m mem_cons_self
    rw [unsyncMembers] at h
    split_ifs at h with hs hu
    · have ho : m.synced = false := by simpa using hs
      rw [release_of_not_synced ho] at hrs
      have hr : Released lower { s.release [m] with other := s.other } members t := by
        rw [release_of_not_synced ho]
        exact ih hrs h
      exact hr.cons (by simp [ho])
    · cases h
      refine ⟨[], m :: members, rfl, by rw [release_nil], by simp, fun x after heq => ?_⟩
      cases heq
      rw [release_nil]
      exact ⟨by simpa using hs, hu⟩
    · have hon : m.synced = true := by simpa using hs
      have hf : dependencyUsedBySyncedGroup lower s m = false := by simpa using hu
      rw [unsyncConnectionIfNoOutboundGroup_eq hrw hsb hon hf] at h
      cases hd : delete s m with
      | none => simp [hd] at h
      | some other =>
        rw [hd] at h
        exact Released.cons (ih (s := { s.release [m] with other }) ⟨hrs.row, hn⟩ h) fun _ => hf

theorem groupDependencyConnections_spec (lower : Str → Str) (s : Tables W) (group : Connection) :
    Listed s (groupDependencyConnections lower s group) := by
  unfold groupDependencyConnections
  split_ifs with hs
  · exact ⟨by simp, by simp⟩
  refine List.foldlRecOn (motive := Listed s) _ _ ⟨by simp, by simp⟩ ?_
  intro result ⟨hr, hn⟩ ref _
  cases hf : List.find? _ _ with
  | none => simpa using ⟨hr, hn⟩
  | some c =>
    have hc := mem_of_find?_eq_some hf
    have hp := find?_some hf
    simp only [mem_insertionSort, mem_filter, decide_eq_true_eq] at hc
    simp only [Bool.and_eq_true, all_eq_true, decide_eq_true_eq] at hp
    refine ⟨fun m hm => ?_, ?_⟩
    · rcases mem_append.mp hm with ho | hnw
      · exact hr m ho
      · obtain rfl : m = c := by simpa using hnw
        exact ⟨hc.1, hc.2 ▸ hs⟩
    · rw [map_append, Option.toList_some, map_singleton, nodup_append]
      refine ⟨hn, nodup_singleton _, fun id hid => ?_⟩
      obtain ⟨x, hx, rfl⟩ := mem_map.mp hid
      simpa using hp.1.2 x hx

/-! ## Which members go -/

/-- An outbound-enabled group holds the connection, or another synced group refers to it. -/
def Needed (lower : Str → Str) (s : Tables W) (m : Connection) : Prop :=
  connectionUsesOutboundEnabledGroup s m.id = true ∨
    ∃ c ∈ s.connections.rows, c.subscriptionId = m.subscriptionId ∧ c.synced = true ∧ c.id ≠ m.id ∧
      remoteConnectionIsGroup c = true ∧
      ∃ ref ∈ c.memberRefs, connectionMatchesMemberRef lower m ref = true

theorem used_iff (h : m.subscriptionId ≠ 0) :
    dependencyUsedBySyncedGroup lower s m = true ↔ Needed lower s m := by
  simp [dependencyUsedBySyncedGroup, Needed, h, and_assoc]

/-- The members that were not needed are unsynced, and the rows of the others are what they were. -/
def MembersReleased (lower : Str → Str) (s : Tables W) (members : List Connection) (t : Tables W) :
    Prop :=
  ∀ m ∈ members, (¬ Needed lower s m → (t.connections.get? m.id).map (·.synced) = some false) ∧
    (Needed lower s m → t.connections.get? m.id = some m)

/-- The first synced member that is needed is still needed when those before it are unsynced, and the
synced members behind it are all needed. -/
def NeededLast (lower : Str → Str) (s : Tables W) (members : List Connection) : Prop :=
  ∀ before m after, members = before ++ m :: after → m.synced = true → Needed lower s m →
    (∀ x ∈ before, x.synced = true → ¬ Needed lower s x) →
    Needed lower (s.release before) m ∧ ∀ x ∈ after, x.synced = true → Needed lower s x

section

variable (hm : Listed s members)
include hm

theorem get?_release_of_mem {g rs : List Connection} (hsp : members = g ++ rs) (hmm : m ∈ members)
    (hr : m.synced = true → m ∈ rs) :
    (s.release g).connections.get? m.id = some m := by
  rw [get?_release, Keyed.mem_rows_iff.mp (hm.row m hmm).1, Option.map_some, if_neg]
  simp only [any_eq_true, Bool.and_eq_true, decide_eq_true_eq, not_exists, not_and]
  intro x hx hs heq
  subst hsp
  have hxm : x = m := inj_on_of_nodup_map hm.nodup (mem_append_left _ hx) hmm heq
  subst hxm
  exact disjoint_of_nodup_append (List.Nodup.of_map _ hm.nodup) hx (hr hs)

theorem get?_release_of_gone {g : List Connection} (hg : m ∈ g) (hmm : m ∈ members)
    (hs : m.synced = true) : (s.release g).connections.get? m.id = some m.unsynced := by
  rw [get?_release, Keyed.mem_rows_iff.mp (hm.row m hmm).1, Option.map_some, if_pos]
  exact any_eq_true.mpr ⟨m, hg, by simp [hs]⟩

theorem Released.neededLast (h : Released lower s members t)
    (ha : MembersReleased lower s members t) : NeededLast lower s members := by
  intro before m after heq hs hnd hb
  obtain ⟨g, rest, hsp, ht, -, hr⟩ := h
  have hmm : m ∈ members := by simp [heq]
  rw [ht] at ha
  have hk : m ∉ g := fun hg => by
    have hgt := (ha m hmm).2 hnd
    have ho := get?_release_of_gone hm hg hmm hs
    have hsm : m.unsynced = m := Option.some_inj.mp (ho.symm.trans hgt)
    have hfl : m.unsynced.synced = m.synced := congrArg _ hsm
    rw [hs] at hfl
    cases hfl
  cases rest with
  | nil => simp [hsp, hk] at hmm
  | cons x tail =>
    obtain ⟨hxs, hxu⟩ := hr x tail rfl
    have hxm : x ∈ members := by simp [hsp]
    have hx : Needed lower s x := (used_iff (hm.row x hxm).2).mp (used_of_release hxu)
    -- the loop ended at this member
    have hst : g = before ∧ x = m ∧ tail = after := by
      rcases append_eq_append_iff.mp (hsp.symm.trans heq) with
        ⟨md, rfl, hmd⟩ | ⟨md, rfl, hmd⟩
      · cases md with
        | nil => simpa using hmd
        | cons y md =>
          cases hmd
          exact absurd hx (hb x (by simp) hxs)
      · cases md with
        | nil => simpa [eq_comm] using hmd
        | cons y md =>
          cases hmd
          simp at hk
    obtain ⟨rfl, rfl, rfl⟩ := hst
    refine ⟨(used_iff (hm.row x hmm).2).mp hxu, fun y hy hys => by_contra fun hf => ?_⟩
    have hym : y ∈ members := by simp [heq, hy]
    have hgt := (ha y hym).1 hf
    rw [get?_release_of_mem hm hsp hym fun _ => mem_cons_of_mem _ hy] at hgt
    simp [hys] at hgt

theorem Released.membersReleased (h : Released lower s members t)
    (hl : NeededLast lower s members) : MembersReleased lower s members t := by
  obtain ⟨g, rest, hsp, ht, hb, hr⟩ := h
  have hu : ∀ x ∈ members, (dependencyUsedBySyncedGroup lower s x = true ↔ Needed lower s x) :=
    fun x hx => used_iff (hm.row x hx).2
  have hgn : ∀ x ∈ g, x.synced = true → ¬ Needed lower s x := by
    intro y hy hys hnd
    cases hf : g.find? fun x => x.synced && dependencyUsedBySyncedGroup lower s x with
    | none =>
      have hnt := find?_eq_none.mp hf y hy
      simp [hys, (hu y (by simp [hsp, hy])).mpr hnd] at hnt
    | some x =>
      -- the first needed member was still needed when its turn came
      obtain ⟨hp, before, after, rfl, hbf⟩ := find?_eq_some_iff_append.mp hf
      obtain ⟨hxs, hxu⟩ := Bool.and_eq_true_iff.mp hp
      have hxm : x ∈ members := by simp [hsp]
      have hst := (hl before x (after ++ rest) (by simp [hsp]) hxs ((hu x hxm).mp hxu)
        fun z hz hzs hzn => by
          have hzm : z ∈ members := by simp [hsp, hz]
          simpa [hzs, (hu z hzm).mpr hzn] using hbf z hz).1
      have hfr := hb before x after rfl hxs
      rw [(used_iff (hm.row x hxm).2).mpr hst] at hfr
      cases hfr
  have hrs : ∀ x ∈ rest, x.synced = true → Needed lower s x := by
    cases rest with
    | nil => simp
    | cons x tail =>
      obtain ⟨hxs, hxu⟩ := hr x tail rfl
      have hx : Needed lower s x := (hu x (by simp [hsp])).mp (used_of_release hxu)
      have htl := (hl g x tail hsp hxs hx hgn).2
      intro y hy hys
      rcases mem_cons.mp hy with rfl | hy
      · exact hx
      · exact htl y hy hys
  intro m hmm
  rw [ht]
  by_cases hg : m ∈ g ∧ m.synced = true
  · refine ⟨fun _ => ?_, fun hnd => absurd hnd (hgn m hg.1 hg.2)⟩
    rw [get?_release_of_gone hm hg.1 hmm hg.2]
    rfl
  · have hin : m.synced = true → m ∈ rest := fun hs => by
      rw [hsp] at hmm
      exact (mem_append.mp hmm).resolve_left fun hg' => hg ⟨hg', hs⟩
    rw [get?_release_of_mem hm hsp hmm hin]
    refine ⟨fun hfr => ?_, fun _ => rfl⟩
    have ho : m.synced = false := Bool.eq_false_iff.mpr fun hs => hfr (hrs m (hin hs) hs)
    simp [ho]

end

/-- When the members of a group are unsynced without an error, those that nothing needs are unsynced
and all others kept exactly if no needed member comes before one that is not. -/
theorem members_released_iff (s : Tables W) (group : Connection)
    (h : unsyncGroupDependenciesIfUnused lower delete s group = some (n, t)) :
    MembersReleased lower s (groupDependencyConnections lower s group) t ↔
      NeededLast lower s (groupDependencyConnections lower s group) := by
  have hs := groupDependencyConnections_spec lower s group
  have hr := unsyncMembers_spec hs h
  exact ⟨hr.neededLast hs, hr.membersReleased hs⟩

/-- The group names two connections; the first is also a member of a group that is synced. -/
def sharedMember : Tables Unit where
  connections :=
    { rows := [{ id := 1, subscriptionId := 7, name := ['x'] },
        { id := 2, subscriptionId := 7, name := ['y'] },
        { id := 3, subscriptionId := 7, type := "bond".toList, memberRefs := [['x']] }]
      last := 3
      sorted := by decide
      bounds := by decide }
  links := []
  enabledGroups := []
  other := ()

def turnedOff (memberRefs : List Str) : Connection where
  id := 4
  subscriptionId := 7
  memberRefs

/-- The shared member comes last: the other one is unsynced, and it is kept. -/
theorem members_released_unshared : ∃ t,
    unsyncGroupDependenciesIfUnused id (fun _ _ => some ()) sharedMember
        (turnedOff [['y'], ['x']]) = some (1, t) ∧
      MembersReleased id sharedMember
        (groupDependencyConnections id sharedMember (turnedOff [['y'], ['x']])) t := by
  have h : unsyncGroupDependenciesIfUnused id (fun _ _ => some ()) sharedMember
    (turnedOff [['y'], ['x']]) = some (1, _) := rfl
  refine ⟨_, h, (members_released_iff _ _ h).mpr ?_⟩
  have hmembers : groupDependencyConnections id sharedMember (turnedOff [['y'], ['x']]) =
      [{ id := 2, subscriptionId := 7, name := ['y'] },
        { id := 1, subscriptionId := 7, name := ['x'] }] := rfl
  rw [hmembers]
  rintro (_ | ⟨first, _ | ⟨second, rest⟩⟩) m after heq - hneeded -
  · obtain ⟨rfl, rfl⟩ := List.cons.inj heq
    exact absurd ((used_iff (by decide)).mpr hneeded) (by decide)
  · obtain ⟨rfl, hrest⟩ := List.cons.inj heq
    obtain ⟨rfl, rfl⟩ := List.cons.inj hrest
    exact ⟨(used_iff (by decide)).mp (by decide), by simp⟩
  · simp at heq

/-- The loop ends at the shared member, and the one behind it stays synced although nothing needs
it. -/
theorem member_behind_shared_kept : ∃ t,
    unsyncGroupDependenciesIfUnused id (fun _ _ => some ()) sharedMember
        (turnedOff [['x'], ['y']]) = some (0, t) ∧
      ¬ MembersReleased id sharedMember
        (groupDependencyConnections id sharedMember (turnedOff [['x'], ['y']])) t := by
  refine ⟨sharedMember, rfl, fun h => ?_⟩
  have hy := (h { id := 2, subscriptionId := 7, name := ['y'] } (by decide)).1
  have hf : ¬ Needed id sharedMember { id := 2, subscriptionId := 7, name := ['y'] } := by
    rw [← used_iff (by decide)]
    decide
  exact absurd (hy hf) (by decide)

end Solovey.RemoteOutbound.Members
