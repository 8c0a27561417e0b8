import Iceslab.PeerAllocation
import Mathlib.Data.List.Pairwise

/-!
# What an insert of peers chooses

* `UniqueKeys.eq_of_user` — one address a user, one user an address.
* `chosen_lowest`, `chosen_findsFree` — what a statement chooses from its snapshot.
* `exhausted_iff` — when the count of rows says that a subnet is full.
-/

set_option autoImplicit false

namespace Iceslab

/-- The free addresses of a subnet, lowest first. -/
def SubnetRange.free (r : SubnetRange) (rows : List AmneziawgPeer) (profileId : String) :
    List String :=
  FreeSlots.free r.hostAt (takenIps rows profileId) r.capacity

/-- The row's address lies strictly between the server and the broadcast address of the call's
subnet, and is the lowest one free in the snapshot, but for those the same statement chose for other
users. -/
def LowestFree (c : AllocCall) (st : InsertStatement) (row : AmneziawgPeer) : Prop :=
  ∃ n, row.ip = intToIp n ∧ c.range.serverIp < n ∧ n < c.range.broadcast ∧
    row.ip ∉ takenIps st.seen c.profileId ∧
    ∀ m, c.range.serverIp < m → m < n → intToIp m ∈ takenIps st.seen c.profileId ∨
      ∃ other ∈ st.chosen, other ≠ row ∧ other.ip = intToIp m

/-- Every user of the call without a row is given an address, or no address of the subnet is left
free. -/
def FindsFree (c : AllocCall) (rows : List AmneziawgPeer) : Prop :=
  ∀ u ∈ c.userIds, existing rows c.profileId u = none →
    (∃ row ∈ c.chosen rows, row.userId = u) ∨
      ∀ ip ∈ c.range.free rows c.profileId, ∃ row ∈ c.chosen rows, row.ip = ip

/-- The addresses of the profile that no peer of the subnet could have. -/
def SubnetRange.outside (r : SubnetRange) (rows : List AmneziawgPeer) (profileId : String) :
    List String :=
  FreeSlots.outside r.hostAt (takenIps rows profileId) r.capacity

/-! ## Keys -/

section Keys

variable {r r' : AmneziawgPeer} {rows rows' : List AmneziawgPeer} {p u : String}

theorem conflicts_eq_false : r.conflicts r' = false ↔
    (r.profileId = r'.profileId → r.ip ≠ r'.ip ∧ r.userId ≠ r'.userId) := by
  simp [AmneziawgPeer.conflicts, AmneziawgPeer.sameIp, AmneziawgPeer.sameUser]
  grind

theorem conflicts_comm (h : r.conflicts r' = false) : r'.conflicts r = false := by
  rw [conflicts_eq_false] at h ⊢
  intro hp
  exact ⟨fun hi => (h hp.symm).1 hi.symm, fun hu => (h hp.symm).2 hu.symm⟩

theorem UniqueKeys.perm (h : UniqueKeys rows) (hp : rows.Perm rows') : UniqueKeys rows' :=
  (hp.pairwise_iff conflicts_comm).mp h

theorem UniqueKeys.sublist (h : UniqueKeys rows) (hs : rows'.Sublist rows) : UniqueKeys rows' :=
  List.Pairwise.sublist hs h

/-- **One address a user, one user an address.** -/
theorem UniqueKeys.eq_of_user (h : UniqueKeys rows) (hr : r ∈ rows) (hr' : r' ∈ rows)
    (hp : r.profileId = r'.profileId) (hu : r.userId = r'.userId) : r = r' := by
  by_contra hne
  have : Std.Symm fun r r' : AmneziawgPeer => r.conflicts r' = false := ⟨fun _ _ => conflicts_comm⟩
  have hc := List.Pairwise.forall h hr hr' hne
  exact (conflicts_eq_false.mp hc hp).2 hu

theorem nodup_takenIps (h : UniqueKeys rows) : (takenIps rows p).Nodup := by
  refine List.pairwise_map.mpr (List.pairwise_filter.mpr (h.imp fun {r r'} hc hr hr' => ?_))
  simp only [decide_eq_true_eq] at hr hr'
  exact (conflicts_eq_false.mp hc (hr.trans hr'.symm)).1

theorem existing_eq_some (h : existing rows p u = some r) :
    r ∈ rows ∧ r.profileId = p ∧ r.userId = u := by
  have hp := List.find?_some h
  exact ⟨List.mem_of_find?_eq_some h, by simpa using hp⟩

end Keys

/-! ## What a statement chooses -/

section Choice

variable {r : SubnetRange} {rows : List AmneziawgPeer} {p u : String} {userIds : List String}
  {c : AllocCall} {row : AmneziawgPeer}

theorem SubnetRange.Laid.apart (hr : r.Laid) : FreeSlots.Apart r.hostAt r.capacity := by
  intro i j hi hj h
  have hlast := hr.last
  have hbelow := hr.below
  have hsome := hr.some
  simp only [SubnetRange.capacity] at hi hj
  have := intToIp_inj (by omega) (by omega) h
  omega

/-- The scan stops early and misses nothing. -/
theorem take_scan (hr : r.Laid) {n extra : Nat} (hn : n ≤ extra + 1) :
    (r.scan rows p extra).take n = (r.free rows p).take n := by
  unfold SubnetRange.scan SubnetRange.free
  by_cases hle : r.lastUsable - r.firstUsable ≤ (takenIps rows p).length + extra
  · rw [Nat.min_eq_left hle]
    rfl
  · rw [Nat.min_eq_right (by omega)]
    refine FreeSlots.take_free_of_le hr.apart (by omega) ?_
    simp only [SubnetRange.capacity]
    omega

theorem chosenAllocate_ips (hr : r.Laid) (h : existing rows p u = none) :
    (chosenAllocate r p u rows).map (·.ip) = (r.free rows p).take 1 := by
  simp [chosenAllocate, h, take_scan hr, Function.comp_def]

theorem chosenPreallocate_ips (hr : r.Laid) :
    (chosenPreallocate r p userIds rows).map (·.ip) =
      (r.free rows p).take (neededUsers rows p userIds).length := by
  simp only [chosenPreallocate, take_scan hr (Nat.le_succ _), List.map_map, Function.comp_def]
  exact List.map_snd_zip (by simp)

theorem chosenPreallocate_users (hr : r.Laid)
    (h : (neededUsers rows p userIds).length ≤ (r.free rows p).length) :
    (chosenPreallocate r p userIds rows).map (·.userId) = neededUsers rows p userIds := by
  simp only [chosenPreallocate, take_scan hr (Nat.le_succ _), List.map_map, Function.comp_def]
  exact List.map_fst_zip (by simp [h])

/-- The addresses a statement chooses are the lowest free ones of its snapshot. -/
theorem chosen_ips (c : AllocCall) (rows : List AmneziawgPeer) :
    ∃ n, (c.chosen rows).map (·.ip) = (c.range.free rows c.profileId).take n := by
  have hr := parseSubnet_spec c.parsed
  unfold AllocCall.chosen
  split
  · rename_i u _
    cases h : existing rows c.profileId u with
    | none => exact ⟨1, chosenAllocate_ips hr h⟩
    | some row => exact ⟨0, by simp [chosenAllocate, h]⟩
  · exact ⟨_, chosenPreallocate_ips hr⟩

theorem chosen_profile (h : row ∈ c.chosen rows) : row.profileId = c.profileId := by
  unfold AllocCall.chosen at h
  split at h
  · unfold chosenAllocate at h
    split at h
    · cases h
    · obtain ⟨ip, -, rfl⟩ := List.mem_map.mp h
      rfl
  · obtain ⟨x, -, rfl⟩ := List.mem_map.mp h
    rfl

theorem chosen_user {u : String} (hj : c.job = .allocatePeer u) (h : row ∈ c.chosen rows) :
    row.userId = u := by
  simp only [AllocCall.chosen, hj, chosenAllocate] at h
  split at h
  · cases h
  · obtain ⟨ip, -, rfl⟩ := List.mem_map.mp h
    rfl

/-- **A chosen address is the lowest free one of the snapshot.** -/
theorem chosen_lowest {st : InsertStatement} (hst : st.chosen = c.chosen st.seen)
    (h : row ∈ st.chosen) : LowestFree c st row := by
  have hr := parseSubnet_spec c.parsed
  have hapart := hr.apart
  obtain ⟨hserver, hfirst, hlast, hsome, -⟩ := hr
  obtain ⟨k, hk⟩ := chosen_ips c st.seen
  rw [← hst] at hk
  have hip : row.ip ∈ (c.range.free st.seen c.profileId).take k :=
    hk ▸ List.mem_map_of_mem h
  obtain ⟨⟨gs, hgs, heq⟩, hfree⟩ := FreeSlots.mem_free.mp (List.mem_of_mem_take hip)
  have hcap : gs < c.range.lastUsable - c.range.firstUsable + 1 := hgs
  refine ⟨c.range.firstUsable + gs, heq.symm, by omega, by omega, hfree, ?_⟩
  intro m hm hlt
  obtain ⟨j, rfl⟩ := Nat.exists_eq_add_of_le (show c.range.firstUsable ≤ m by omega)
  by_cases htaken : c.range.hostAt j ∈ takenIps st.seen c.profileId
  · exact .inl htaken
  right
  have hbelow := FreeSlots.free_below hapart (heq ▸ hip) hgs (show j < gs by omega) htaken
  obtain ⟨other, hother, hoip⟩ := List.mem_map.mp (hk ▸ hbelow)
  refine ⟨other, hother, ?_, hoip⟩
  rintro rfl
  have := hapart j gs (by omega) hgs (hoip.symm.trans heq.symm)
  omega

/-- **The bounded scan finds the free addresses there are.** -/
theorem chosen_findsFree (c : AllocCall) (rows : List AmneziawgPeer) : FindsFree c rows := by
  have hr := parseSubnet_spec c.parsed
  intro u hu hnone
  unfold AllocCall.userIds at hu
  unfold AllocCall.chosen
  split at hu
  · rename_i v _
    obtain rfl := List.mem_singleton.mp hu
    have hips := chosenAllocate_ips hr hnone
    cases hchosen : chosenAllocate c.range c.profileId u rows with
    | nil =>
      right
      intro ip hip
      rw [hchosen] at hips
      simp only [List.map_nil] at hips
      have := List.take_eq_nil_iff.mp hips.symm
      simp at this
      simp [this] at hip
    | cons row rest =>
      left
      have hrow : row ∈ c.chosen rows := by
        simp only [AllocCall.chosen, *]
        exact List.mem_cons_self
      exact ⟨row, List.mem_cons_self, chosen_user ‹_› hrow⟩
  · rename_i us _
    by_cases hle : (neededUsers rows c.profileId us).length ≤
        (c.range.free rows c.profileId).length
    · left
      have hneeded : u ∈ neededUsers rows c.profileId us := by
        simp [neededUsers, hu, hnone]
      rw [← chosenPreallocate_users hr hle] at hneeded
      exact List.mem_map.mp hneeded
    · right
      intro ip hip
      have hips := @chosenPreallocate_ips c.range rows c.profileId us hr
      rw [List.take_of_length_le (by omega)] at hips
      rw [← hips] at hip
      exact List.mem_map.mp hip

end Choice

/-! ## The capacity -/

/-- **The count of rows says the subnet is full exactly when the peers outside of it are no fewer
than its free addresses.** -/
theorem exhausted_iff {r : SubnetRange} (hr : r.Laid) {rows : List AmneziawgPeer} (p : String)
    (h : UniqueKeys rows) : r.capacity ≤ (takenIps rows p).length ↔
      (r.free rows p).length ≤ (r.outside rows p).length := by
  have hlen := FreeSlots.length_free_add hr.apart (nodup_takenIps (p := p) h)
  unfold SubnetRange.free SubnetRange.outside
  omega

end Iceslab
