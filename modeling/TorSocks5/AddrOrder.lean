/-
**The addresses worth trying.**

A name may have many addresses, and a probe has time for a few.  The repeated ones are dropped, IPv4
comes before IPv6, and of the few that are tried one is of the other family if there is one.
-/

import Mathlib

set_option autoImplicit false

namespace Dns

open List

variable {Addr : Type} [DecidableEq Addr]

/-- `MAX_PROBE_ADDRS`. -/
def maxProbeAddrs : ℕ := 3

/-- The addresses without repetitions, IPv4 first. -/
def sortedCandidates (isIpv6 : Addr → Bool) (ips : List Addr) : List Addr :=
  ips.eraseDups.insertionSort fun a b => (isIpv6 a).toNat ≤ (isIpv6 b).toNat

/-- `order_candidates_with_limit`. -/
def orderCandidatesWithLimit (isIpv6 : Addr → Bool) (ips : List Addr) (port limit : ℕ) :
    List (Addr × ℕ) :=
  let sorted := sortedCandidates isIpv6 ips
  let v4Count := (sorted.filter fun ip => !isIpv6 ip).length
  let v6Count := sorted.length - v4Count
  if limit < 2 ∨ v4Count = 0 ∨ v6Count = 0 then (sorted.take limit).map fun ip => (ip, port)
  else
    -- one slot is kept for IPv6, and what IPv4 does not use is given back
    let v4Take := min (limit - 1) v4Count
    let v6Take := min (limit - v4Take) v6Count
    (sorted.take v4Take ++ (sorted.drop v4Count).take v6Take).map fun ip => (ip, port)

/-- `order_candidates`. -/
def orderCandidates (isIpv6 : Addr → Bool) (ips : List Addr) (port : ℕ) : List (Addr × ℕ) :=
  orderCandidatesWithLimit isIpv6 ips port maxProbeAddrs

/-! ### The shares of the families -/

/-- The addresses of one family, in the order of their first occurrence. -/
def family (isIpv6 : Addr → Bool) (ips : List Addr) (v6 : Bool) : List Addr :=
  ips.eraseDups.filter (isIpv6 · = v6)

theorem nodup_eraseDups (ips : List Addr) : ips.eraseDups.Nodup := by
  induction hn : ips.length using Nat.strong_induction_on generalizing ips with
  | _ n ih =>
    cases ips with
    | nil => exact nodup_nil
    | cons a ips =>
      rw [eraseDups_cons, nodup_cons, mem_eraseDups]
      have hle := length_filter_le (fun b => !b == a) ips
      rw [length_cons] at hn
      exact ⟨by simp, ih _ (by omega) _ rfl⟩

section Shares

variable {isIpv6 : Addr → Bool} {ips : List Addr}

omit [DecidableEq Addr] in
/-- An IPv6 address goes behind all IPv4 ones and in front of the IPv6 ones. -/
theorem orderedInsert_families (a : Addr) {v4 v6 : List Addr} (h4 : ∀ b ∈ v4, isIpv6 b = false)
    (h6 : ∀ b ∈ v6, isIpv6 b = true) :
    (v4 ++ v6).orderedInsert (fun a b => (isIpv6 a).toNat ≤ (isIpv6 b).toNat) a =
      if isIpv6 a = false then a :: (v4 ++ v6) else v4 ++ a :: v6 := by
  induction v4 with
  | nil => cases v6 <;> cases ha : isIpv6 a <;> simp_all
  | cons b v4 ih => cases ha : isIpv6 a <;> simp_all

variable (isIpv6 ips)

/-- The sort is stable: it puts one family behind the other. -/
theorem sortedCandidates_eq :
    sortedCandidates isIpv6 ips = family isIpv6 ips false ++ family isIpv6 ips true := by
  unfold sortedCandidates family
  induction ips.eraseDups with
  | nil => rfl
  | cons a l ih =>
    rw [insertionSort_cons, ih, orderedInsert_families a (by simp) (by simp)]
    cases ha : isIpv6 a <;> simp [ha]

theorem nodup_family (v6 : Bool) : (family isIpv6 ips v6).Nodup := (nodup_eraseDups ips).filter _

variable {isIpv6 ips}

theorem mem_family {v6 : Bool} {ip : Addr} :
    ip ∈ family isIpv6 ips v6 ↔ ip ∈ ips ∧ isIpv6 ip = v6 := by simp [family]

theorem filter_of_family {l : List Addr} {v6 : Bool} (h : l ⊆ family isIpv6 ips v6) (v6' : Bool) :
    l.filter (isIpv6 · = v6') = if v6 = v6' then l else [] := by
  split_ifs with hv
  · exact filter_eq_self.mpr fun ip hip => by simpa [hv] using (mem_family.mp (h hip)).2
  · exact filter_eq_nil_iff.mpr fun ip hip => by simpa [(mem_family.mp (h hip)).2] using hv

variable (isIpv6 ips)

theorem length_families :
    (family isIpv6 ips false).length + (family isIpv6 ips true).length = ips.toFinset.card := by
  rw [← length_append, ← sortedCandidates_eq, sortedCandidates,
    (perm_insertionSort _ _).length_eq, ← toFinset_card_of_nodup (nodup_eraseDups ips)]
  congr 1
  ext
  simp

/-- The first `v4` IPv4 addresses and the first `v6` IPv6 ones. -/
def shares (v4 v6 : ℕ) : List Addr :=
  (family isIpv6 ips false).take v4 ++ (family isIpv6 ips true).take v6

/-- The result is a part of each family, and the parts fill the limit. -/
theorem exists_shares (port limit : ℕ) : ∃ v4 v6,
    orderCandidatesWithLimit isIpv6 ips port limit = (shares isIpv6 ips v4 v6).map (·, port) ∧
    v4 ≤ (family isIpv6 ips false).length ∧ v6 ≤ (family isIpv6 ips true).length ∧
    v4 + v6 = min limit ips.toFinset.card ∧
    (2 ≤ limit → family isIpv6 ips false ≠ [] → family isIpv6 ips true ≠ [] →
      v4 = min (limit - 1) (family isIpv6 ips false).length ∧ 0 < v6) := by
  have hcount : ((family isIpv6 ips false ++ family isIpv6 ips true).filter
      fun ip => !isIpv6 ip).length = (family isIpv6 ips false).length := by
    have h4 := filter_of_family (List.Subset.refl (family isIpv6 ips false)) false
    have h6 := filter_of_family (List.Subset.refl (family isIpv6 ips true)) false
    simp only [Bool.decide_eq_false] at h4 h6
    simp [h4, h6]
  rw [← length_families isIpv6 ips]
  simp only [orderCandidatesWithLimit, shares, sortedCandidates_eq, hcount, length_append,
    Nat.add_sub_cancel_left, ne_eq, ← length_eq_zero_iff]
  generalize family isIpv6 ips false = v4s
  generalize family isIpv6 ips true = v6s
  split_ifs with hfew
  · refine ⟨min limit v4s.length, min (limit - v4s.length) v6s.length, ?_, ?_⟩
    · have hmin : ∀ (n : ℕ) (l : List Addr), l.take (min n l.length) = l.take n :=
        fun n l => take_eq_take_iff.mpr (by omega)
      rw [take_append, hmin, hmin]
    · omega
  · refine ⟨min (limit - 1) v4s.length,
      min (limit - min (limit - 1) v4s.length) v6s.length, ?_, ?_⟩
    · rw [take_append_of_le_length (min_le_right _ _), drop_left]
    · omega

variable {isIpv6 ips} {v4 v6 : ℕ}

theorem of_mem_take {ip : Addr} {v : Bool} {n : ℕ} (h : ip ∈ (family isIpv6 ips v).take n) :
    isIpv6 ip = v := (mem_family.mp (mem_of_mem_take h)).2

/-- An address that is tried is one of those given. -/
theorem mem_of_mem_orderCandidates {port : ℕ} {target : Addr × ℕ}
    (h : target ∈ orderCandidates isIpv6 ips port) : target.1 ∈ ips ∧ target.2 = port := by
  obtain ⟨v4, v6, heq, -⟩ := exists_shares isIpv6 ips port maxProbeAddrs
  rw [orderCandidates, heq] at h
  obtain ⟨ip, hip, rfl⟩ := mem_map.mp h
  rcases mem_append.mp hip with hip | hip <;>
    exact ⟨(mem_family.mp (mem_of_mem_take hip)).1, rfl⟩

theorem filter_shares (v : Bool) :
    (shares isIpv6 ips v4 v6).filter (isIpv6 · = v) =
      (family isIpv6 ips v).take (if v then v6 else v4) := by
  rw [shares, filter_append, filter_of_family (take_subset _ _),
    filter_of_family (take_subset _ _)]
  cases v <;> simp

theorem nodup_shares : (shares isIpv6 ips v4 v6).Nodup := by
  refine ((nodup_family _ _ _).sublist (take_sublist _ _)).append
    ((nodup_family _ _ _).sublist (take_sublist _ _)) fun ip hip hip' => ?_
  cases (of_mem_take hip).symm.trans (of_mem_take hip')

theorem pairwise_shares :
    (shares isIpv6 ips v4 v6).Pairwise fun a b => isIpv6 a = true → isIpv6 b = true := by
  refine pairwise_append.mpr ⟨?_, ?_, fun a _ b hb _ => of_mem_take hb⟩
  · exact pairwise_of_forall_mem_list fun a ha b _ ha6 => by cases (of_mem_take ha).symm.trans ha6
  · exact pairwise_of_forall_mem_list fun a _ b hb _ => of_mem_take hb

theorem exists_mem_take {v : Bool} {n : ℕ} (hn : 0 < n) (hne : family isIpv6 ips v ≠ []) :
    ∃ a ∈ (family isIpv6 ips v).take n, isIpv6 a = v := by
  obtain ⟨a, ha⟩ := exists_mem_of_ne_nil ((family isIpv6 ips v).take n) (by simp [hn.ne', hne])
  exact ⟨a, ha, of_mem_take ha⟩

/-- A choice with an IPv6 address leaves room for one IPv4 address less. -/
theorem countP_chosen_le {limit : ℕ} {chosen : List Addr} (hnodup : chosen.Nodup)
    (hsub : chosen ⊆ ips) (hlen : chosen.length ≤ limit) (hb : ∃ b ∈ chosen, isIpv6 b = true) :
    chosen.countP (isIpv6 · = false) ≤ min (limit - 1) (family isIpv6 ips false).length := by
  obtain ⟨b, hb, hb6⟩ := hb
  rw [countP_eq_length_filter]
  have hfew : (chosen.filter (isIpv6 · = false)).length ≤ (family isIpv6 ips false).length := by
    refine ((hnodup.filter _).subperm fun ip hip => ?_).length_le
    obtain ⟨hip, hv⟩ := mem_filter.mp hip
    exact mem_family.mpr ⟨hsub hip, by simpa using hv⟩
  have hone : (chosen.filter (isIpv6 · = false)).length < chosen.length :=
    length_filter_lt_length_iff_exists.mpr ⟨b, hb, by simp [hb6]⟩
  omega

/-- **The budget is shared fairly.**  The result has as many addresses as the limit allows, none
twice, IPv4 before IPv6, and of each family the first ones that occur.  If both families occur and
the limit is two or more, both are in the result, and no choice of addresses with an IPv6 one among
them has more IPv4 ones. -/
theorem budget_shared_fairly (isIpv6 : Addr → Bool) (ips : List Addr) (port limit : ℕ) :
    (let result := (orderCandidatesWithLimit isIpv6 ips port limit).map Prod.fst
    orderCandidatesWithLimit isIpv6 ips port limit = result.map (·, port) ∧
    result.length = min limit ips.toFinset.card ∧ result.Nodup ∧
    (result.Pairwise fun a b => isIpv6 a = true → isIpv6 b = true) ∧
    (∀ v6, result.filter (isIpv6 · = v6) <+: family isIpv6 ips v6) ∧
    (2 ≤ limit → (∃ a ∈ ips, isIpv6 a = false) → (∃ b ∈ ips, isIpv6 b = true) →
      (∃ a ∈ result, isIpv6 a = false) ∧ (∃ b ∈ result, isIpv6 b = true) ∧
      ∀ chosen : List Addr, chosen.Nodup → chosen ⊆ ips → chosen.length ≤ limit →
        (∃ b ∈ chosen, isIpv6 b = true) →
        chosen.countP (isIpv6 · = false) ≤ result.countP (isIpv6 · = false))) := by
  obtain ⟨v4, v6, heq, h4, h6, hsum, hboth⟩ := exists_shares isIpv6 ips port limit
  have hresult : (orderCandidatesWithLimit isIpv6 ips port limit).map Prod.fst =
      shares isIpv6 ips v4 v6 := by
    rw [heq, List.map_map]
    exact List.map_id _
  simp only [hresult]
  refine ⟨heq, ?_, nodup_shares, pairwise_shares, fun v => ?_, fun hlimit ha hb => ?_⟩
  · rw [shares, List.length_append, List.length_take_of_le h4, List.length_take_of_le h6, hsum]
  · rw [filter_shares]
    exact List.take_prefix _ _
  · have hne : ∀ v, (∃ a ∈ ips, isIpv6 a = v) → family isIpv6 ips v ≠ [] := by
      rintro v ⟨a, ha, hv⟩ hnil
      simpa [hnil] using mem_family.mpr ⟨ha, hv⟩
    obtain ⟨hv4, hv6⟩ := hboth hlimit (hne _ ha) (hne _ hb)
    have hpos := List.length_pos_of_ne_nil (hne _ ha)
    obtain ⟨a, ha', ha4⟩ := exists_mem_take (n := v4) (by omega) (hne _ ha)
    obtain ⟨b, hb', hb6⟩ := exists_mem_take hv6 (hne _ hb)
    refine ⟨⟨a, List.mem_append_left _ ha', ha4⟩, ⟨b, List.mem_append_right _ hb', hb6⟩, ?_⟩
    intro chosen hnodup hsub hlen hchosen
    refine (countP_chosen_le hnodup hsub hlen hchosen).trans_eq ?_
    rw [List.countP_eq_length_filter, filter_shares, if_neg Bool.false_ne_true,
      List.length_take_of_le h4, hv4]

end Shares

end Dns
