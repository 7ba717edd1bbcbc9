/-
**Serving the least recently served first.**

In each round some clients are eligible and a few of them are served, no more than a limit; those
that were served longest ago come first, and those that were never served before all others.  A
round has a time, and a client that is served in it bears that time as its stamp from then on.
-/

import Mathlib

set_option autoImplicit false

namespace LeastRecent

/-- The rounds of a schedule; the stamp of a client that was never served is `⊥`. -/
structure Schedule (C T : Type*) [LinearOrder T] where
  rounds : ℕ
  limit : ℕ
  now : ℕ → T
  stamp : ℕ → C → WithBot T
  eligible : ℕ → C → Prop
  served : ℕ → Finset C
  /-- Each round is later than the one before it. -/
  increasing : ∀ i, i + 1 < rounds → now i < now (i + 1)
  /-- The first stamps are of the time before the first round. -/
  early : ∀ c, stamp 0 c < now 0
  /-- No eligible client that is not served was served longer ago than one that is. -/
  oldest : ∀ i < rounds, ∀ c ∈ served i, ∀ d, eligible i d → d ∉ served i → stamp i c ≤ stamp i d
  /-- Clients are left out only if the limit is reached. -/
  full : ∀ i < rounds, ∀ c, eligible i c → c ∉ served i → (served i).card = limit
  served_eligible : ∀ i < rounds, ∀ c ∈ served i, eligible i c
  stamped : ∀ i, i + 1 < rounds → ∀ c ∈ served i, stamp (i + 1) c = now i
  kept : ∀ i, i + 1 < rounds → ∀ c, c ∉ served i → stamp (i + 1) c = stamp i c

namespace Schedule

variable {C T : Type*} [LinearOrder T] (S : Schedule C T) {i j : ℕ} {c d : C}

theorem stamp_lt (hi : i < S.rounds) (c : C) : S.stamp i c < S.now i := by
  induction i with
  | zero => exact S.early c
  | succ i ih =>
    have hlater : (S.now i : WithBot T) < S.now (i + 1) :=
        WithBot.coe_lt_coe.2 (S.increasing i hi)
    by_cases hc : c ∈ S.served i
    · rwa [S.stamped i hi c hc]
    · rw [S.kept i hi c hc]
      exact (ih (Nat.lt_of_succ_lt hi)).trans hlater

theorem stamp_eq_of_waiting (hij : i ≤ j) (hj : j < S.rounds)
    (hwaiting : ∀ m, i ≤ m → m < j → c ∉ S.served m) : S.stamp j c = S.stamp i c := by
  induction j, hij using Nat.le_induction with
  | base => rfl
  | succ j hij ih =>
    rw [S.kept j hj c (hwaiting j hij (Nat.lt_succ_self j))]
    exact ih (Nat.lt_of_succ_lt hj) fun m hm hmj => hwaiting m hm (Nat.lt_succ_of_lt hmj)

theorem now_le_stamp (hij : i < j) (hj : j < S.rounds) (hc : c ∈ S.served i) :
    (S.now i : WithBot T) ≤ S.stamp j c := by
  induction j, hij using Nat.le_induction with
  | base => rw [S.stamped i hj c hc]
  | succ j hij ih =>
    have hstamp := ih (Nat.lt_of_succ_lt hj)
    by_cases hagain : c ∈ S.served j
    · rw [S.stamped j hj c hagain]
      exact hstamp.trans (S.stamp_lt (Nat.lt_of_succ_lt hj) c).le
    · rwa [S.kept j hj c hagain]

/-- **Between two services of a client every waiting client is served.** -/
theorem served_between (hij : i < j) (hj : j < S.rounds) (hi : c ∈ S.served i)
    (hcj : c ∈ S.served j) (hd : ∀ m, i ≤ m → m ≤ j → S.eligible m d) :
    ∃ m, i ≤ m ∧ m ≤ j ∧ d ∈ S.served m := by
  by_contra! hwaiting
  have hbefore : S.stamp j d < S.now i := by
    rw [S.stamp_eq_of_waiting hij.le hj fun m him hmj => hwaiting m him hmj.le]
    exact S.stamp_lt (hij.trans hj) d
  have horder : S.stamp j c ≤ S.stamp j d :=
    S.oldest j hj c hcj d (hd j hij.le le_rfl) (hwaiting j hij.le le_rfl)
  exact absurd ((S.now_le_stamp hij hj hi).trans horder) (not_le.2 hbefore)

/-- **Each is served within the rounds that it takes to serve all.**  Otherwise each of these rounds
serves as many as the limit allows, never one of them again, and these are all the clients there
are. -/
theorem served_within [DecidableEq C] {n : ℕ} {clients : Finset C}
    (hcard : clients.card ≤ n) (hclients : ∀ i < S.rounds, ∀ c, S.eligible i c → c ∈ clients)
    {window : ℕ} (hwindow : n ≤ window * S.limit) {a : ℕ} (ha : a + window ≤ S.rounds)
    (hstart : a < S.rounds) (hfirst : S.eligible a d)
    (hd : ∀ m < window, S.eligible (a + m) d) : ∃ m < window, d ∈ S.served (a + m) := by
  by_contra hnone
  have hwaiting : ∀ m < window, d ∉ S.served (a + m) := fun m hm hserved =>
    hnone ⟨m, hm, hserved⟩
  -- no client is served twice while another one waits
  have hdisjoint : ((Finset.range window : Finset ℕ) : Set ℕ).PairwiseDisjoint
      fun m => S.served (a + m) := by
    have hordered : ∀ l m, l < m → m < window → Disjoint (S.served (a + l)) (S.served (a + m)) := by
      intro l m hlm hm
      refine Finset.disjoint_left.2 fun c hl hcm => ?_
      obtain ⟨k, hlk, hkm, hk⟩ := S.served_between (Nat.add_lt_add_left hlm a) (by omega) hl hcm
        (d := d) fun k hlk hkm => by
          obtain ⟨k, rfl⟩ := Nat.exists_eq_add_of_le (show a ≤ k by omega)
          exact hd k (by omega)
      obtain ⟨k, rfl⟩ := Nat.exists_eq_add_of_le (show a ≤ k by omega)
      exact hwaiting k (by omega) hk
    intro l hl m hm hne
    rcases lt_or_gt_of_ne hne with hlm | hml
    · exact hordered l m hlm (Finset.mem_range.1 hm)
    · exact (hordered m l hml (Finset.mem_range.1 hl)).symm
  have hall : (Finset.range window).biUnion (fun m => S.served (a + m)) ⊆ clients.erase d := by
    intro c hc
    obtain ⟨m, hm, hcm⟩ := Finset.mem_biUnion.1 hc
    have hm := Finset.mem_range.1 hm
    have hcd : c ≠ d := by
      rintro rfl
      exact hwaiting m hm hcm
    exact Finset.mem_erase.2
      ⟨hcd, hclients (a + m) (by omega) c (S.served_eligible (a + m) (by omega) c hcm)⟩
  have hcount : ((Finset.range window).biUnion fun m => S.served (a + m)).card =
      window * S.limit := by
    rw [Finset.card_biUnion hdisjoint, Finset.sum_const_nat (m := S.limit), Finset.card_range]
    intro m hm
    have hm := Finset.mem_range.1 hm
    exact S.full (a + m) (by omega) d (hd m hm) (hwaiting m hm)
  have hmem : d ∈ clients := hclients a hstart d hfirst
  have hle := Finset.card_le_card hall
  rw [hcount, Finset.card_erase_of_mem hmem] at hle
  have hpos := Finset.card_pos.2 ⟨d, hmem⟩
  omega

end Schedule

end LeastRecent
